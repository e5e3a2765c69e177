import WasmAgent.Core.Lines
import WasmAgent.Sink.Record

/-!
# A record as a line

The text of a record for a reader: one object, its keys in a fixed order, and never a
line break in it.
-/

namespace WasmAgent.Sink

open List WasmAgent.Core

section Numbers

def decimal (value : ℕ) : String := String.ofList (Nat.toDigits 10 value)

/-- At least `width` digits, zeros in front. -/
def padded (base width value : ℕ) : String :=
  String.ofList (List.replicate (width - (Nat.toDigits base value).length) '0' ++
    Nat.toDigits base value)

/-- Days since the epoch as year, month and day. -/
def civilFromDays (days : ℕ) : ℕ × ℕ × ℕ :=
  let z := days + 719468
  let era := z / 146097
  let doe := z % 146097
  let yoe := (doe - doe / 1460 + doe / 36524 - doe / 146096) / 365
  let y := yoe + era * 400
  let doy := doe - (365 * yoe + yoe / 4 - yoe / 100)
  let mp := (5 * doy + 2) / 153
  let d := doy - (153 * mp + 2) / 5 + 1
  let m := if mp < 10 then mp + 3 else mp - 9
  (if m ≤ 2 then y + 1 else y, m, d)

/-- Milliseconds since the epoch as a UTC stamp. -/
def iso8601 (ms : ℕ) : String :=
  let seconds := ms / 1000
  let ofDay := seconds % 86400
  let (year, month, day) := civilFromDays (seconds / 86400)
  padded 10 4 year ++ "-" ++ padded 10 2 month ++ "-" ++ padded 10 2 day ++ "T" ++
    padded 10 2 (ofDay / 3600) ++ ":" ++ padded 10 2 (ofDay % 3600 / 60) ++ ":" ++
    padded 10 2 (ofDay % 60) ++ "." ++ padded 10 3 (ms % 1000) ++ "Z"

theorem digitChar_ne_newline (digit : ℕ) : digit.digitChar ≠ '\n' := by
  match digit with
  | 0 | 1 | 2 | 3 | 4 | 5 | 6 | 7 | 8 | 9 | 10 | 11 | 12 | 13 | 14 | 15 => decide
  | _ + 16 => simp [Nat.digitChar]

theorem newline_not_mem_digitsCore {base fuel value : ℕ} {digits : List Char}
    (hdig : '\n' ∉ digits) : '\n' ∉ Nat.toDigitsCore base fuel value digits := by
  induction fuel generalizing value digits with
  | zero => exact hdig
  | succ fuel ih =>
    have hmore : '\n' ∉ (value % base).digitChar :: digits := by
      rw [mem_cons, not_or]
      exact ⟨(digitChar_ne_newline _).symm, hdig⟩
    rw [Nat.toDigitsCore]
    split
    · exact hmore
    · exact ih hmore

theorem newline_not_mem_digits (base value : ℕ) : '\n' ∉ Nat.toDigits base value :=
  newline_not_mem_digitsCore (not_mem_nil)

@[simp]
theorem unbroken_decimal (value : ℕ) : Unbroken (decimal value) :=
  unbroken_ofList (newline_not_mem_digits 10 value)

@[simp]
theorem unbroken_padded (base width value : ℕ) : Unbroken (padded base width value) := by
  apply unbroken_ofList
  rw [mem_append, not_or]
  refine ⟨?_, newline_not_mem_digits base value⟩
  intro hmem
  exact absurd (eq_of_mem_replicate hmem) (by decide)

@[simp]
theorem unbroken_iso8601 (ms : ℕ) : Unbroken (iso8601 ms) := by
  rw [iso8601]
  simp only [unbroken_append, unbroken_padded, true_and, and_true]
  decide

end Numbers

section Texts

/-- What stands for a character between quotes. -/
def escapeChar (ch : Char) : List Char :=
  if ch = '"' then ['\\', '"']
  else if ch = '\\' then ['\\', '\\']
  else if ch = '\n' then ['\\', 'n']
  else if ch = '\r' then ['\\', 'r']
  else if ch = '\t' then ['\\', 't']
  else if ch.toNat < 0x20 then '\\' :: 'u' :: (padded 16 4 ch.toNat).toList
  else [ch]

def escape (text : String) : String := String.ofList (text.toList.flatMap escapeChar)

theorem unbroken_escape (text : String) : Unbroken (escape text) := by
  apply unbroken_ofList
  rw [mem_flatMap]
  rintro ⟨ch, -, hmem⟩
  simp only [escapeChar] at hmem
  split at hmem
  · exact absurd hmem (by decide)
  split at hmem
  · exact absurd hmem (by decide)
  split at hmem
  · exact absurd hmem (by decide)
  rename_i hnew
  split at hmem
  · exact absurd hmem (by decide)
  split at hmem
  · exact absurd hmem (by decide)
  split at hmem
  · rw [mem_cons, mem_cons] at hmem
    rcases hmem with h | h | h
    · exact absurd h (by decide)
    · exact absurd h (by decide)
    · exact unbroken_padded 16 4 ch.toNat h
  · exact hnew (mem_singleton.mp hmem).symm

def toHex (trace : TraceId) : String :=
  String.ofList (trace.val.flatMap fun byte => (padded 16 2 byte.toNat).toList)

def quoted (text : String) : String := "\"" ++ escape text ++ "\""

def valueJson : AttrValue → String
  | .id id => quoted id.text
  | .count value => decimal value.toNat
  | .digest len hash =>
      "\x7b\"len\":" ++ decimal len.toNat ++ ",\"digest\":\"" ++ padded 16 16 hash.toNat ++ "\"\x7d"
  | .redacted => "\"<redacted>\""

def traceText : Option TraceId → String
  | some trace => ",\"trace\":\"" ++ toHex trace ++ "\""
  | none => ",\"trace\":null"

def attrText (attr : Attr) : String := quoted attr.key.text ++ ":" ++ valueJson attr.value

/-- The attributes between commas. -/
def joined : List Attr → String
  | [] => ""
  | [attr] => attrText attr
  | attr :: attrs => attrText attr ++ "," ++ joined attrs

def attrsText (name : String) (attrs : Attrs) : String :=
  ",\"" ++ name ++ "\":\x7b" ++ joined attrs.entries ++ "\x7d"

def spanText (span : SpanRecord) : String :=
  ",\"component\":" ++ quoted span.component.text ++ ",\"op\":" ++ quoted span.op.text ++
    ",\"status\":\"" ++ span.status.asStr ++ "\",\"duration_us\":" ++
    decimal span.durationUs.toNat ++ ",\"start_ms\":" ++ decimal span.startMs.toNat ++
    traceText span.trace ++ attrsText "attrs" span.attrs

def metricText (metric : MetricRecord) : String :=
  ",\"component\":" ++ quoted metric.component.text ++ ",\"name\":" ++ quoted metric.name.text ++
    ",\"metric_kind\":\"" ++ metric.kind.asStr ++ "\",\"unit\":\"" ++ metric.unit.asStr ++
    "\",\"value\":" ++ decimal metric.value.toNat ++ attrsText "labels" metric.labels

def alertText (severity : Severity) : String :=
  if severity = .error ∨ severity = .critical then ",\"alert\":true" else ""

def eventText (event : EventRecord) : String :=
  ",\"topic\":" ++ quoted event.topic.text ++ ",\"source\":" ++ quoted event.source.text ++
    ",\"schema\":" ++ quoted event.schema.text ++ ",\"schema_version\":" ++
    decimal event.schemaVersion.toNat ++ ",\"severity\":\"" ++ event.severity.asStr ++
    "\",\"count\":" ++ decimal event.count.toNat ++ alertText event.severity ++
    traceText event.trace ++ attrsText "attrs" event.attrs

def fieldsText : Record → String
  | .span span => spanText span
  | .metric metric => metricText metric
  | .event event => eventText event

/-- One line, without its end; a record without a stamp takes the present one. -/
def line (record : Record) (nowMs : UInt64) : String :=
  let ms := if 0 < record.tsMs then record.tsMs else nowMs
  "\x7b\"ts\":\"" ++ iso8601 ms.toNat ++ "\",\"kind\":\"" ++ record.kindStr ++ "\"" ++
    fieldsText record ++ "\x7d"

@[simp]
theorem unbroken_quoted (text : String) : Unbroken (quoted text) := by
  rw [quoted, unbroken_append, unbroken_append]
  exact ⟨⟨by decide, unbroken_escape text⟩, by decide⟩

theorem unbroken_valueJson (value : AttrValue) : Unbroken (valueJson value) := by
  cases value with
  | id id => exact unbroken_quoted id.text
  | count value => exact unbroken_decimal value.toNat
  | digest len hash =>
    simp only [valueJson, unbroken_append, unbroken_decimal, unbroken_padded, and_true]
    decide
  | redacted => exact (by decide : Unbroken "\"<redacted>\"")

theorem unbroken_attrText (attr : Attr) : Unbroken (attrText attr) := by
  rw [attrText, unbroken_append, unbroken_append]
  exact ⟨⟨unbroken_quoted _, by decide⟩, unbroken_valueJson _⟩

theorem unbroken_joined (entries : List Attr) : Unbroken (joined entries) := by
  fun_induction joined entries with
  | case1 => decide
  | case2 attr => exact unbroken_attrText attr
  | case3 attr entries _ ih =>
    rw [unbroken_append, unbroken_append]
    exact ⟨⟨unbroken_attrText attr, by decide⟩, ih⟩

@[simp]
theorem unbroken_traceText (trace : Option TraceId) : Unbroken (traceText trace) := by
  cases trace with
  | none => exact (by decide : Unbroken ",\"trace\":null")
  | some trace =>
    have hhex : Unbroken (toHex trace) := by
      apply unbroken_ofList
      rw [mem_flatMap]
      rintro ⟨byte, -, hmem⟩
      exact unbroken_padded 16 2 byte.toNat hmem
    rw [traceText, unbroken_append, unbroken_append]
    exact ⟨⟨by decide, hhex⟩, by decide⟩

theorem unbroken_attrsText {name : String} {attrs : Attrs} (hname : Unbroken name) :
    Unbroken (attrsText name attrs) := by
  simp only [attrsText, unbroken_append]
  exact ⟨⟨⟨⟨by decide, hname⟩, by decide⟩, unbroken_joined _⟩, by decide⟩

theorem SpanStatus.unbroken_asStr (status : SpanStatus) : Unbroken status.asStr := by
  cases status <;> decide +kernel

theorem Severity.unbroken_asStr (severity : Severity) : Unbroken severity.asStr := by
  cases severity <;> decide +kernel

theorem MetricKind.unbroken_asStr (kind : MetricKind) : Unbroken kind.asStr := by
  cases kind <;> decide +kernel

theorem MetricUnit.unbroken_asStr (unit : MetricUnit) : Unbroken unit.asStr := by
  cases unit <;> decide +kernel

theorem Record.unbroken_kindStr (record : Record) : Unbroken record.kindStr := by
  cases record with
  | span => exact (by decide : Unbroken "span")
  | metric => exact (by decide : Unbroken "metric")
  | event => exact (by decide : Unbroken "event")

theorem unbroken_spanText (span : SpanRecord) : Unbroken (spanText span) := by
  have hattrs := @unbroken_attrsText "attrs" span.attrs (by decide)
  delta spanText
  simp only [unbroken_append, unbroken_quoted, unbroken_decimal, unbroken_traceText,
    SpanStatus.unbroken_asStr, hattrs, and_true]
  decide

theorem unbroken_metricText (metric : MetricRecord) : Unbroken (metricText metric) := by
  have hlab := @unbroken_attrsText "labels" metric.labels (by decide)
  delta metricText
  simp only [unbroken_append, unbroken_quoted, unbroken_decimal,
    MetricKind.unbroken_asStr, MetricUnit.unbroken_asStr, hlab, and_true]
  decide

theorem unbroken_alertText (severity : Severity) : Unbroken (alertText severity) := by
  rw [alertText]
  split
  · decide
  · decide

theorem unbroken_eventText (event : EventRecord) : Unbroken (eventText event) := by
  have hattrs := @unbroken_attrsText "attrs" event.attrs (by decide)
  delta eventText
  simp only [unbroken_append, unbroken_quoted, unbroken_decimal, unbroken_traceText,
    Severity.unbroken_asStr, unbroken_alertText, hattrs, and_true]
  decide

theorem unbroken_line (record : Record) (nowMs : UInt64) : Unbroken (line record nowMs) := by
  have hfiel : Unbroken (fieldsText record) := by
    cases record with
    | span span => exact unbroken_spanText span
    | metric metric => exact unbroken_metricText metric
    | event event => exact unbroken_eventText event
  simp only [line, unbroken_append, unbroken_iso8601, Record.unbroken_kindStr, hfiel, and_true]
  decide

end Texts

end WasmAgent.Sink
