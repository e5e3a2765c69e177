import Mathlib.Data.List.Sort
import Mathlib.Data.String.Basic
import WasmAgent.Core.Reading

/-!
# The records of the telemetry sink

A record carries names, numbers and attributes, and no text.  A name keeps its character
set, and attributes their number, their order and their distinct keys, as fields of their
own.
-/

namespace WasmAgent.Sink

open List WasmAgent.Core

abbrev Bytes := List UInt8

def maxId : ℕ := 64
/-- Attribute pairs kept on one record. -/
def maxAttrs : ℕ := 8

def keeps (ch : Char) : Bool :=
  ch.isAlphanum || ['_', '-', '.', ':', '/', '@', '*', '+', '#', '%'].contains ch

structure Clean (text : String) : Prop where
  named : text ≠ ""
  short : (utf8 text).length ≤ maxId
  kept : text.toList.all keeps = true

instance (text : String) : Decidable (Clean text) :=
  decidable_of_iff (text ≠ "" ∧ (utf8 text).length ≤ maxId ∧ text.toList.all keeps = true)
    ⟨fun h => ⟨h.1, h.2.1, h.2.2⟩, fun h => ⟨h.named, h.short, h.kept⟩⟩

/-- A component, an op, a topic, a key: never a message. -/
structure Id where
  text : String
  clean : Clean text
  deriving DecidableEq

namespace Id

theorem utf8_length_ofList {chars : List Char} (hkept : chars.all keeps = true) :
    (utf8 (String.ofList chars)).length = chars.length := by
  rw [utf8_ofList]
  induction chars with
  | nil => rfl
  | cons ch chars ih =>
    rw [all_cons, Bool.and_eq_true] at hkept
    have hsize : ch.utf8Size = 1 := by
      rw [Char.utf8Size_eq_one_iff]
      have hch := hkept.1
      rw [keeps, Bool.or_eq_true] at hch
      delta Char.isAlphanum Char.isAlpha Char.isUpper Char.isLower Char.isDigit at hch
      simp only [Bool.or_eq_true, contains_eq_mem, mem_cons, not_mem_nil, or_false,
        decide_eq_true_eq, Bool.and_eq_true] at hch
      rw [UInt32.le_iff_toNat_le]
      simp only [ge_iff_le, UInt32.le_iff_toNat_le] at hch
      rcases hch with ((h | h) | h) | h
      · exact Nat.le_trans h.2 (by decide)
      · exact Nat.le_trans h.2 (by decide)
      · exact Nat.le_trans h.2 (by decide)
      · rcases h with h | h | h | h | h | h | h | h | h | h <;> subst h <;> decide
    rw [flatMap_cons, length_append, ih hkept.2, String.length_utf8EncodeChar, hsize,
      length_cons, Nat.add_comm]

/-- Every other character becomes `_`; a kept one takes one byte, so the longest name is of
so many characters. -/
def new (raw : String) : Id :=
  if hempty : raw.toList.take maxId = [] then
    ⟨"unknown", by decide +kernel⟩
  else
    ⟨String.ofList ((raw.toList.take maxId).map fun ch => if keeps ch then ch else '_'), by
      have hkept : ((raw.toList.take maxId).map fun ch => if keeps ch then ch else '_').all keeps =
          true := by
        rw [List.all_map, List.all_eq_true]
        intro ch _
        dsimp only [Function.comp]
        split
        · assumption
        · decide
      constructor
      · intro hnone
        have hlist := congrArg String.toList hnone
        rw [String.toList_ofList] at hlist
        exact hempty (List.map_eq_nil_iff.mp hlist)
      · rw [utf8_length_ofList hkept, List.length_map]
        exact List.length_take_le _ _
      · rwa [String.toList_ofList]⟩

/-- The wire form, refused rather than mangled. -/
def fromWire (raw : String) : Option Id :=
  if hclean : Clean raw then some ⟨raw, hclean⟩ else none

theorem fromWire_text (id : Id) : fromWire id.text = some id := by
  rw [fromWire, dif_pos id.clean]

theorem text_of_fromWire {raw : String} {id : Id} (hid : fromWire raw = some id) :
    id.text = raw := by
  rw [fromWire] at hid
  split at hid
  · cases hid
    rfl
  · cases hid

theorem ext_text {left right : Id} (htext : left.text = right.text) : left = right := by
  obtain ⟨text, hclean⟩ := left
  obtain ⟨_, _⟩ := right
  cases htext
  rfl

end Id

abbrev TraceId := { bytes : Bytes // bytes.length = 16 }

inductive SpanStatus where
  | ok
  | error
  | expired
  | cancelled
  deriving DecidableEq

inductive Severity where
  | trace
  | debug
  | info
  | warn
  | error
  | critical
  deriving DecidableEq

inductive MetricKind where
  | counter
  | gauge
  deriving DecidableEq

inductive MetricUnit where
  | count
  | micros
  | millis
  | bytes
  | ratio
  deriving DecidableEq

namespace SpanStatus

def asStr : SpanStatus → String
  | ok => "ok"
  | error => "error"
  | expired => "expired"
  | cancelled => "cancelled"

def fromCode (code : UInt8) : Option SpanStatus :=
  match code with
  | 0 => some ok
  | 1 => some error
  | 2 => some expired
  | 3 => some cancelled
  | _ => none

def code : SpanStatus → UInt8
  | ok => 0
  | error => 1
  | expired => 2
  | cancelled => 3

theorem fromCode_code (status : SpanStatus) : fromCode status.code = some status := by
  cases status <;> rfl

theorem code_of_fromCode {code : UInt8} {status : SpanStatus} (hstt : fromCode code = some status) :
    status.code = code := by
  simp only [fromCode] at hstt
  split at hstt <;> cases hstt <;> rfl

end SpanStatus

namespace Severity

def asStr : Severity → String
  | trace => "trace"
  | debug => "debug"
  | info => "info"
  | warn => "warn"
  | error => "error"
  | critical => "critical"

def fromCode (code : UInt8) : Option Severity :=
  match code with
  | 0 => some trace
  | 1 => some debug
  | 2 => some info
  | 3 => some warn
  | 4 => some error
  | 5 => some critical
  | _ => none

def code : Severity → UInt8
  | trace => 0
  | debug => 1
  | info => 2
  | warn => 3
  | error => 4
  | critical => 5

theorem fromCode_code (severity : Severity) : fromCode severity.code = some severity := by
  cases severity <;> rfl

theorem code_of_fromCode {code : UInt8} {severity : Severity} (hsev : fromCode code = some severity) :
    severity.code = code := by
  simp only [fromCode] at hsev
  split at hsev <;> cases hsev <;> rfl

end Severity

namespace MetricKind

def asStr : MetricKind → String
  | counter => "counter"
  | gauge => "gauge"

def fromCode (code : UInt8) : Option MetricKind :=
  match code with
  | 0 => some counter
  | 1 => some gauge
  | _ => none

def code : MetricKind → UInt8
  | counter => 0
  | gauge => 1

theorem fromCode_code (kind : MetricKind) : fromCode kind.code = some kind := by
  cases kind <;> rfl

theorem code_of_fromCode {code : UInt8} {kind : MetricKind} (hkind : fromCode code = some kind) :
    kind.code = code := by
  simp only [fromCode] at hkind
  split at hkind <;> cases hkind <;> rfl

end MetricKind

namespace MetricUnit

def asStr : MetricUnit → String
  | count => "1"
  | micros => "us"
  | millis => "ms"
  | bytes => "By"
  | ratio => "1"

def fromCode (code : UInt8) : Option MetricUnit :=
  match code with
  | 0 => some count
  | 1 => some micros
  | 2 => some millis
  | 3 => some bytes
  | 4 => some ratio
  | _ => none

def code : MetricUnit → UInt8
  | count => 0
  | micros => 1
  | millis => 2
  | bytes => 3
  | ratio => 4

theorem fromCode_code (unit : MetricUnit) : fromCode unit.code = some unit := by
  cases unit <;> rfl

theorem code_of_fromCode {code : UInt8} {unit : MetricUnit} (hunit : fromCode code = some unit) :
    unit.code = code := by
  simp only [fromCode] at hunit
  split at hunit <;> cases hunit <;> rfl

end MetricUnit

inductive AttrValue where
  | id (id : Id)
  | count (value : UInt64)
  | digest (len : UInt32) (hash : UInt64)
  | redacted
  deriving DecidableEq

structure Attr where
  key : Id
  value : AttrValue
  deriving DecidableEq

structure Attrs where
  entries : List Attr
  capped : entries.length ≤ maxAttrs
  ascending : entries.Pairwise fun before after => before.key.text < after.key.text
  deriving DecidableEq

/-- `sort_by` on the keys. -/
def sortByKey (entries : List Attr) : List Attr :=
  entries.insertionSort fun before after => before.key.text ≤ after.key.text

theorem sortByKey_perm (entries : List Attr) : (sortByKey entries).Perm entries :=
  perm_insertionSort _ _

theorem sortByKey_ascending {entries : List Attr} (hdist : (entries.map Attr.key).Nodup) :
    (sortByKey entries).Pairwise fun before after => before.key.text < after.key.text := by
  have : Std.Total fun before after : Attr => before.key.text ≤ after.key.text :=
    ⟨fun before after => le_total _ _⟩
  have : IsTrans Attr fun before after => before.key.text ≤ after.key.text :=
    ⟨fun _ _ _ => le_trans⟩
  have hsrt := pairwise_insertionSort
    (fun before after : Attr => before.key.text ≤ after.key.text) entries
  have hndp : ((sortByKey entries).map Attr.key).Nodup :=
    ((sortByKey_perm entries).map Attr.key).nodup_iff.mpr hdist
  have hapart : (sortByKey entries).Pairwise fun before after => before.key ≠ after.key :=
    pairwise_map.mp hndp
  apply hsrt.imp₂ _ hapart
  intro before after hle hne
  exact lt_of_le_of_ne hle (mt Id.ext_text hne)

namespace Attrs

def new : Attrs := ⟨[], Nat.zero_le _, .nil⟩

theorem distinct (attrs : Attrs) : (attrs.entries.map Attr.key).Nodup := by
  rw [List.Nodup, pairwise_map]
  apply attrs.ascending.imp
  intro before after hlt hsame
  exact ne_of_lt hlt (congrArg Id.text hsame)

/-- Keeps `attr`, unless the record is full or has the key already. -/
def push (attrs : Attrs) (attr : Attr) : Option Attrs :=
  if hkept : maxAttrs ≤ attrs.entries.length ∨ attr.key ∈ attrs.entries.map Attr.key then
    none
  else
    some {
      entries := sortByKey (attrs.entries ++ [attr])
      capped := by
        rw [(sortByKey_perm _).length_eq, List.length_append]
        exact Nat.lt_of_not_le (not_or.mp hkept).1
      ascending := by
        apply sortByKey_ascending
        rw [List.map_append, List.map_singleton, List.nodup_append_comm, List.singleton_append,
          List.nodup_cons]
        exact ⟨(not_or.mp hkept).2, attrs.distinct⟩ }

end Attrs

structure SpanRecord where
  component : Id
  op : Id
  startMs : UInt64
  durationUs : UInt64
  status : SpanStatus
  trace : Option TraceId
  attrs : Attrs
  deriving DecidableEq

structure MetricRecord where
  component : Id
  name : Id
  kind : MetricKind
  unit : MetricUnit
  value : UInt64
  labels : Attrs
  deriving DecidableEq

structure EventRecord where
  topic : Id
  source : Id
  schema : Id
  schemaVersion : UInt32
  tsMs : UInt64
  count : UInt64
  severity : Severity
  trace : Option TraceId
  attrs : Attrs
  deriving DecidableEq

inductive Record where
  | span (span : SpanRecord)
  | metric (metric : MetricRecord)
  | event (event : EventRecord)
  deriving DecidableEq

def idLen (id : Id) : ℕ := 2 + (utf8 id.text).length

def traceLen (trace : Option TraceId) : ℕ :=
  if trace.isSome then 1 + 16 else 1

def valueLen : AttrValue → ℕ
  | .id id => idLen id
  | .count _ => 8
  | .digest _ _ => 4 + 8
  | .redacted => 0

def attrsLen (attrs : Attrs) : ℕ :=
  attrs.entries.foldl (fun total attr => total + idLen attr.key + 1 + valueLen attr.value) 1

namespace Record

def kindStr : Record → String
  | .span _ => "span"
  | .metric _ => "metric"
  | .event _ => "event"

def attrs : Record → Attrs
  | .span record => record.attrs
  | .metric record => record.labels
  | .event record => record.attrs

def trace : Record → Option TraceId
  | .span record => record.trace
  | .metric _ => none
  | .event record => record.trace

/-- The stamp a record is filed under. -/
def tsMs : Record → UInt64
  | .span record => record.startMs
  | .metric _ => 0
  | .event record => record.tsMs

/-- The bytes of a record in a frame, as the buffer counts them. -/
def encodedLen : Record → ℕ
  | .span record =>
      1 + idLen record.component + idLen record.op + 8 + 8 + 1 + traceLen record.trace +
        attrsLen record.attrs
  | .metric record =>
      1 + idLen record.component + idLen record.name + 1 + 1 + 8 + attrsLen record.labels
  | .event record =>
      1 + idLen record.topic + idLen record.source + idLen record.schema + 4 + 8 + 8 + 1 +
        traceLen record.trace + attrsLen record.attrs

end Record

end WasmAgent.Sink
