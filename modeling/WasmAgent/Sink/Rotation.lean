import WasmAgent.Core.Maps
import WasmAgent.Sink.Jsonl

/-!
# What the rotating files keep

An open prunes with file 0 named as current, whichever file it goes on with, and a write
that stops leaves part of a line.  Where neither can do harm, the written file stays, the
oldest files go first, and every record is one whole line of a file or is counted as lost.
-/

namespace WasmAgent.Sink

open List WasmAgent.Core

section Lines

structure Complete (content : Bytes) : Prop where
  ended : (splitLines content).2 = []
  lines : ∀ text ∈ (splitLines content).1, ∃ record nowMs, text = utf8 (line record nowMs)

theorem complete_nil : Complete [] := ⟨rfl, by nofun⟩

theorem splitLines_rowBytes (record : Record) (nowMs : UInt64) :
    splitLines (rowBytes record nowMs) = ([utf8 (line record nowMs)], []) :=
  splitLines_line [] (newline_not_mem_utf8 (unbroken_line record nowMs))

theorem Complete.append {content : Bytes} (hcont : Complete content) (record : Record)
    (nowMs : UInt64) : Complete (content ++ rowBytes record nowMs) := by
  have hspl := splitLines_append (rowBytes record nowMs) hcont.ended
  rw [splitLines_rowBytes] at hspl
  constructor
  · rw [hspl]
  rw [hspl]
  intro text htext
  cases List.mem_append.mp htext with
  | inl hold => exact hcont.lines text hold
  | inr hnew => exact ⟨record, nowMs, mem_singleton.mp hnew⟩

end Lines

variable {sequence : ℕ}

section Pruning

variable {dir : Directory} {cfg : JsonlConfig} {current : ℕ} {deletes : ℕ → Bool}

theorem keys_ascending (dir : Directory) : dir.keys.Pairwise (· < ·) :=
  Std.ExtTreeMap.ordered_keys.imp Nat.compare_eq_lt.mp

theorem keys_length (dir : Directory) : dir.keys.length = dir.size := Std.ExtTreeMap.length_keys

def Goes (dir : Directory) (cfg : JsonlConfig) (current : ℕ) (deletes : ℕ → Bool)
    (sequence : ℕ) : Prop :=
  max cfg.maxFiles 1 < dir.keys.length ∧ sequence ∈ victims dir cfg current ∧
    deletes sequence = true

theorem getElem?_prune_of_goes (hgoes : Goes dir cfg current deletes sequence) :
    (prune dir cfg current deletes)[sequence]? = none := by
  rw [prune, if_neg (Nat.not_le.mpr hgoes.1), ← foldl_filter, getElem?_foldl_erase,
    if_pos (mem_filter.mpr hgoes.2)]

theorem getElem?_prune_of_stays (hstays : ¬Goes dir cfg current deletes sequence) :
    (prune dir cfg current deletes)[sequence]? = dir[sequence]? := by
  rw [prune]
  split
  · rfl
  · next hcrw =>
    rw [← foldl_filter, getElem?_foldl_erase, if_neg]
    exact fun hvic => hstays ⟨Nat.not_le.mp hcrw, mem_filter.mp hvic⟩

theorem mem_iff_isSome : sequence ∈ dir ↔ ∃ content, dir[sequence]? = some content := by
  rw [Std.ExtTreeMap.mem_iff_isSome_getElem?, Option.isSome_iff_exists]

theorem mem_prune : sequence ∈ prune dir cfg current deletes ↔
    sequence ∈ dir ∧ ¬Goes dir cfg current deletes sequence := by
  by_cases hgoes : Goes dir cfg current deletes sequence
  · rw [mem_iff_isSome, getElem?_prune_of_goes hgoes]
    exact ⟨by nofun, fun h => absurd hgoes h.2⟩
  · rw [mem_iff_isSome, getElem?_prune_of_stays hgoes, ← mem_iff_isSome]
    exact ⟨fun h => ⟨h, hgoes⟩, fun h => h.1⟩

theorem mem_victims (hvic : sequence ∈ victims dir cfg current) :
    sequence ∈ dir ∧ sequence ≠ current := by
  have hmem := mem_filter.mp (mem_of_mem_take hvic)
  exact ⟨Std.ExtTreeMap.mem_keys.mp hmem.1, of_decide_eq_true hmem.2⟩

theorem mem_take_of_lt {numbers : List ℕ} {count earlier later : ℕ}
    (hasc : numbers.Pairwise (· < ·)) (hltr : later ∈ numbers.take count)
    (hearl : earlier ∈ numbers) (hlt : earlier < later) : earlier ∈ numbers.take count := by
  rw [← take_append_drop count numbers] at hearl hasc
  cases List.mem_append.mp hearl with
  | inl htkn => exact htkn
  | inr hdrp =>
    have hgt := (pairwise_append.mp hasc).2.2 later hltr earlier hdrp
    exact absurd hlt (Nat.lt_asymm hgt)

theorem mem_victims_of_lt {earlier later : ℕ} (hltr : later ∈ victims dir cfg current)
    (hearl : earlier ∈ dir) (hoth : earlier ≠ current) (hlt : earlier < later) :
    earlier ∈ victims dir cfg current := by
  apply mem_take_of_lt ((keys_ascending dir).filter _) hltr _ hlt
  exact mem_filter.mpr ⟨Std.ExtTreeMap.mem_keys.mpr hearl, decide_eq_true hoth⟩

theorem newest_not_mem_victims {newest : ℕ} (hnew : ∀ sequence ∈ dir, sequence ≤ newest)
    (habs : current ∉ dir) (hcrw : max cfg.maxFiles 1 < dir.keys.length) :
    newest ∉ victims dir cfg current := by
  intro hvic
  have hall : dir.keys ⊆ victims dir cfg current := by
    intro sequence hkey
    have hmem := Std.ExtTreeMap.mem_keys.mp hkey
    cases Nat.lt_or_eq_of_le (hnew sequence hmem) with
    | inl hlt => exact mem_victims_of_lt hvic hmem (fun hsame => habs (hsame ▸ hmem)) hlt
    | inr hsame => exact hsame ▸ hvic
  have hcnt := (subperm_of_subset Std.ExtTreeMap.nodup_keys hall).length_le
  have htkn : (victims dir cfg current).length ≤ dir.keys.length - max cfg.maxFiles 1 :=
    length_take_le _ _
  omega

theorem prune_length (hdel : ∀ sequence, deletes sequence = true) :
    (prune dir cfg current deletes).keys.length ≤ max cfg.maxFiles 1 := by
  by_cases hcrw : max cfg.maxFiles 1 < dir.keys.length
  · have hkept : (prune dir cfg current deletes).keys ⊆
        dir.keys.filter (· ∉ victims dir cfg current) := by
      intro sequence hkey
      have hstays := mem_prune.mp (Std.ExtTreeMap.mem_keys.mp hkey)
      apply mem_filter.mpr ⟨Std.ExtTreeMap.mem_keys.mpr hstays.1, _⟩
      exact decide_eq_true fun hvic => hstays.2 ⟨hcrw, hvic, hdel sequence⟩
    have hle := (subperm_of_subset Std.ExtTreeMap.nodup_keys hkept).length_le
    have hspl := @length_eq_length_filter_add _ dir.keys (· ∈ victims dir cfg current)
    have hgone : (victims dir cfg current).length ≤
        (dir.keys.filter (· ∈ victims dir cfg current)).length := by
      apply List.Subperm.length_le
      apply subperm_of_subset
      · exact (Std.ExtTreeMap.nodup_keys.filter _).sublist (take_sublist _ _)
      · intro sequence hvic
        exact mem_filter.mpr ⟨Std.ExtTreeMap.mem_keys.mpr (mem_victims hvic).1, decide_eq_true hvic⟩
    have hoths : dir.keys.length - 1 ≤ (dir.keys.filter (· ≠ current)).length := by
      have herase : dir.keys.filter (· ≠ current) = dir.keys.erase current := by
        rw [Std.ExtTreeMap.nodup_keys.erase_eq_filter]
        apply filter_congr
        intro sequence _
        rw [Bool.eq_iff_iff, bne_iff_ne, decide_eq_true_iff]
      rw [herase]
      exact le_length_erase
    have hvict : (victims dir cfg current).length =
        min (dir.keys.length - max cfg.maxFiles 1) (dir.keys.filter (· ≠ current)).length :=
      length_take
    have hsame : (dir.keys.filter (· ∉ victims dir cfg current)) =
        dir.keys.filter fun sequence => !decide (sequence ∈ victims dir cfg current) := by
      apply filter_congr
      intro sequence _
      exact decide_not
    rw [hsame] at hle
    omega
  · rw [prune, if_pos (Nat.le_of_not_lt hcrw)]
    exact Nat.le_of_not_lt hcrw

end Pruning

section Books

/-- The rows that were written to a file, in order. -/
def rowsOf (ledger : List (Bytes × Option ℕ)) (sequence : ℕ) : Bytes :=
  (ledger.filter fun entry => entry.2 = some sequence).flatMap Prod.fst

structure Accounts (start : Directory) (ledger : List (Bytes × Option ℕ)) (edge : Edge) : Prop where
  rows : edge.counters.jsonlRows = ledger.countP (·.2.isSome)
  failed : edge.counters.jsonlFailed = ledger.countP (·.2.isNone)
  files : ∀ (sequence : ℕ) (content : Bytes), edge.dir[sequence]? = some content →
    content = start[sequence]?.getD [] ++ rowsOf ledger sequence

structure Writes (dir : Directory) (writer : JsonlWriter) : Prop where
  linked : writer.linked = true
  present : writer.current ∈ dir
  newest : ∀ sequence ∈ dir, sequence ≤ writer.current
  ahead : writer.current ≤ writer.sequence
  keeps : 1 ≤ writer.cfg.maxFiles

/-- What holds of an edge in every run that is careful. -/
structure Kept (start : Directory) (ledger : List (Bytes × Option ℕ)) (edge : Edge) : Prop where
  writes : ∀ writer, edge.writer = some writer → Writes edge.dir writer
  complete : ∀ (sequence : ℕ) (content : Bytes), edge.dir[sequence]? = some content →
    Complete content
  accounts : Accounts start ledger edge
  past : ∀ sequence, sequence ∈ start ∨ some sequence ∈ ledger.map Prod.snd →
    ∃ newer ∈ edge.dir, sequence ≤ newer

theorem rowsOf_append (ledger : List (Bytes × Option ℕ)) (bytes : Bytes) (fate : Option ℕ)
    (sequence : ℕ) : rowsOf (ledger ++ [(bytes, fate)]) sequence =
      rowsOf ledger sequence ++ if fate = some sequence then bytes else [] := by
  rw [rowsOf, filter_append, flatMap_append, rowsOf]
  congr 1
  by_cases hfate : fate = some sequence
  · subst hfate
    simp
  · simp only [filter_cons, filter_nil, hfate, decide_false, if_false]
    rfl

variable {ledger : List (Bytes × Option ℕ)}

/-- Nothing was written to a file that no newer one follows. -/
theorem Kept.fresh {start : Directory} {edge : Edge}
    (hkept : Kept start ledger edge) (hbey : ∀ older ∈ edge.dir, older < sequence) :
    start[sequence]?.getD [] ++ rowsOf ledger sequence = [] := by
  have hsta : sequence ∉ start := by
    intro hmem
    obtain ⟨newer, hnewer, hle⟩ := hkept.past sequence (.inl hmem)
    exact absurd hle (Nat.not_le.mpr (hbey newer hnewer))
  have hrows : ledger.filter (fun entry => entry.2 = some sequence) = [] := by
    rw [filter_eq_nil_iff]
    intro entry hent hsame
    obtain ⟨newer, hnewer, hle⟩ :=
      hkept.past sequence (.inr (mem_map.mpr ⟨entry, hent, of_decide_eq_true hsame⟩))
    exact absurd hle (Nat.not_le.mpr (hbey newer hnewer))
  rw [Std.ExtTreeMap.getElem?_eq_none hsta, rowsOf, hrows]
  rfl

theorem mem_openFile {dir : Directory} {other : ℕ} :
    other ∈ openFile dir sequence ↔ sequence = other ∨ other ∈ dir := by
  rw [openFile, Std.ExtTreeMap.mem_insertIfNew, Nat.compare_eq_eq]

theorem getElem?_openFile {dir : Directory} {other : ℕ} {content : Bytes}
    (hcont : (openFile dir sequence)[other]? = some content) :
    dir[other]? = some content ∨ sequence = other ∧ other ∉ dir ∧ content = [] := by
  rw [openFile, Std.ExtTreeMap.getElem?_insertIfNew] at hcont
  split at hcont
  · next hnew =>
    cases hcont
    have hsame := Nat.compare_eq_eq.mp hnew.1
    exact .inr ⟨hsame, hsame ▸ hnew.2, rfl⟩
  · exact .inl hcont

theorem Kept.reopened {start : Directory} {edge : Edge}
    (hkept : Kept start ledger edge) {current : ℕ} {cfg : JsonlConfig} {deletes : ℕ → Bool}
    {counters : Counters} {writer : JsonlWriter} (hnew : ∀ other ∈ edge.dir, other ≤ sequence)
    (hspa : ¬Goes (openFile edge.dir sequence) cfg current deletes sequence)
    (hrows : counters.jsonlRows = edge.counters.jsonlRows)
    (hfail : counters.jsonlFailed = edge.counters.jsonlFailed)
    (hwrit : writer.linked =
      (prune (openFile edge.dir sequence) cfg current deletes).contains sequence)
    (hcur : writer.current = sequence) (hahead : sequence ≤ writer.sequence)
    (hks : 1 ≤ writer.cfg.maxFiles) :
    Kept start ledger
      ⟨prune (openFile edge.dir sequence) cfg current deletes, some writer, counters⟩ := by
  have hpres : sequence ∈ prune (openFile edge.dir sequence) cfg current deletes :=
    mem_prune.mpr ⟨mem_openFile.mpr (.inl rfl), hspa⟩
  have hcon : ∀ (other : ℕ) (content : Bytes),
      (prune (openFile edge.dir sequence) cfg current deletes)[other]? = some content →
        edge.dir[other]? = some content ∨ sequence = other ∧ other ∉ edge.dir ∧ content = [] := by
    intro other content hcont
    have hstays := mem_prune.mp (mem_iff_isSome.mpr ⟨content, hcont⟩)
    rw [getElem?_prune_of_stays hstays.2] at hcont
    exact getElem?_openFile hcont
  constructor
  · intro _ hsome
    cases hsome
    constructor
    · rw [hwrit]
      exact Std.ExtTreeMap.contains_iff_mem.mpr hpres
    · rwa [hcur]
    · intro other hoth
      rw [hcur]
      cases mem_openFile.mp (mem_prune.mp hoth).1 with
      | inl hsame => exact Nat.le_of_eq hsame.symm
      | inr hold => exact hnew other hold
    · rwa [hcur]
    · exact hks
  · intro other content hcont
    rcases hcon other content hcont with hold | ⟨-, -, rfl⟩
    · exact hkept.complete other content hold
    · exact complete_nil
  · constructor
    · rw [hrows]
      exact hkept.accounts.rows
    · rw [hfail]
      exact hkept.accounts.failed
    · intro other content hcont
      rcases hcon other content hcont with hold | ⟨rfl, habs, rfl⟩
      · exact hkept.accounts.files other content hold
      · refine (hkept.fresh ?_).symm
        intro older holder
        exact Nat.lt_of_le_of_ne (hnew older holder) fun hsame => habs (hsame ▸ holder)
  · intro other hoth
    obtain ⟨newer, hnewer, hle⟩ := hkept.past other hoth
    exact ⟨sequence, hpres, Nat.le_trans hle (hnew newer hnewer)⟩

end Books

variable {bytes : Bytes}

section Rows

variable {start : Directory} {ledger : List (Bytes × Option ℕ)}
variable {dir : Directory} {writer : JsonlWriter} {counters : Counters}

variable (hwrs : Writes dir writer)
include hwrs

theorem getElem?_append (sequence : ℕ) :
    (append dir writer bytes)[sequence]? =
      dir[sequence]?.map fun content => content ++ if writer.current = sequence then bytes else [] := by
  rw [append, if_pos hwrs.linked, Std.ExtTreeMap.getElem?_insert]
  by_cases hsame : writer.current = sequence
  · subst hsame
    obtain ⟨content, hcont⟩ := mem_iff_isSome.mp hwrs.present
    rw [if_pos (Nat.compare_eq_eq.mpr rfl), hcont, if_pos rfl]
    rfl
  rw [if_neg (mt Nat.compare_eq_eq.mp hsame), if_neg hsame]
  cases dir[sequence]? with
  | none => rfl
  | some content => rw [Option.map_some, append_nil]

theorem mem_append : sequence ∈ append dir writer bytes ↔ sequence ∈ dir := by
  rw [mem_iff_isSome, getElem?_append hwrs, mem_iff_isSome]
  cases dir[sequence]? with
  | none => rfl
  | some content => exact ⟨fun _ => ⟨content, rfl⟩, fun _ => ⟨_, rfl⟩⟩

theorem mem_writeAll {disk : RowDisk} :
    sequence ∈ (writeAll disk bytes dir writer counters).dir ↔ sequence ∈ dir := by
  rw [writeAll]
  split
  · exact mem_append hwrs
  · exact mem_append hwrs

omit hwrs

theorem writeAll_writer (disk : RowDisk) (bytes : Bytes) : ∃ after,
    (writeAll disk bytes dir writer counters).writer = some after ∧
      after.current = writer.current ∧ after.cfg = writer.cfg := by
  rw [writeAll]
  split
  · exact ⟨_, rfl, rfl, rfl⟩
  · exact ⟨_, rfl, rfl, rfl⟩

theorem Kept.writeAll (hkept : Kept start ledger ⟨dir, some writer, counters⟩) (disk : RowDisk)
    (record : Record) (nowMs : UInt64)
    (hstops : ∀ stop, disk.stops = some stop → landed (rowBytes record nowMs) stop = []) :
    ∃ fate, Kept start (ledger ++ [(rowBytes record nowMs, fate)])
      (writeAll disk (rowBytes record nowMs) dir writer counters) := by
  have hwrs := hkept.writes writer rfl
  have hpast : ∀ fate : Option ℕ, (∀ sequence ∈ fate, sequence = writer.current) →
      ∀ sequence, sequence ∈ start ∨
        some sequence ∈ (ledger ++ [(rowBytes record nowMs, fate)]).map Prod.snd →
        ∀ bytes, ∃ newer ∈ append dir writer bytes, sequence ≤ newer := by
    intro fate hfate sequence hold bytes
    rw [map_append, List.mem_append, map_singleton, mem_singleton, ← or_assoc] at hold
    cases hold with
    | inl hold =>
      obtain ⟨newer, hnewer, hle⟩ := hkept.past sequence hold
      exact ⟨newer, (mem_append hwrs).mpr hnewer, hle⟩
    | inr hnew =>
      refine ⟨writer.current, (mem_append hwrs).mpr hwrs.present, ?_⟩
      exact Nat.le_of_eq (hfate sequence hnew.symm)
  have hnewest : ∀ bytes, ∀ sequence ∈ append dir writer bytes, sequence ≤ writer.current := by
    intro bytes sequence hmem
    exact hwrs.newest sequence ((mem_append hwrs).mp hmem)
  cases hdisk : disk.stops with
  | none =>
    refine ⟨some writer.current, ?_⟩
    rw [Sink.writeAll, hdisk]
    constructor
    · intro _ hsome
      cases hsome
      exact { hwrs with
        present := (mem_append hwrs).mpr hwrs.present
        newest := hnewest _ }
    · intro sequence content hcont
      rw [getElem?_append hwrs, Option.map_eq_some_iff] at hcont
      obtain ⟨old, hold, rfl⟩ := hcont
      have hcom := hkept.complete sequence old hold
      split
      · exact hcom.append record nowMs
      · rwa [append_nil]
    · constructor
      · rw [countP_append]
        exact congrArg (· + 1) hkept.accounts.rows
      · rw [countP_append]
        exact hkept.accounts.failed
      · intro sequence content hcont
        rw [getElem?_append hwrs, Option.map_eq_some_iff] at hcont
        obtain ⟨old, hold, rfl⟩ := hcont
        rw [rowsOf_append, ← append_assoc, ← hkept.accounts.files sequence old hold]
        congr 1
        by_cases hsame : writer.current = sequence
        · rw [if_pos hsame, if_pos (congrArg some hsame)]
        · rw [if_neg hsame, if_neg (fun h => hsame (Option.some.inj h))]
    · intro sequence hold
      exact hpast (some writer.current) (fun _ h => (Option.some.inj h).symm) sequence hold _
  | some stop =>
    refine ⟨none, ?_⟩
    rw [Sink.writeAll, hdisk]
    dsimp only
    rw [hstops stop hdisk]
    have hsame : ∀ sequence : ℕ, (append dir writer [])[sequence]? = dir[sequence]? := by
      intro sequence
      rw [getElem?_append hwrs]
      cases dir[sequence]? with
      | none => rfl
      | some content => rw [Option.map_some, ite_self, append_nil]
    constructor
    · intro _ hsome
      cases hsome
      exact { hwrs with
        present := (mem_append hwrs).mpr hwrs.present
        newest := hnewest _ }
    · intro sequence content hcont
      rw [hsame] at hcont
      exact hkept.complete sequence content hcont
    · constructor
      · rw [countP_append]
        exact hkept.accounts.rows
      · rw [countP_append]
        exact congrArg (· + 1) hkept.accounts.failed
      · intro sequence content hcont
        rw [hsame] at hcont
        rw [rowsOf_append, if_neg (by nofun), append_nil]
        exact hkept.accounts.files sequence content hcont
    · intro sequence hold
      exact hpast none (by nofun) sequence hold []

end Rows

section Steps

def Careful (edge : Edge) : Event → Prop
  | .open cfg _ => 1 ≤ cfg.maxFiles ∧ (0 ∈ edge.dir → edge.dir.size ≤ cfg.maxFiles)
  | .row record nowMs disk =>
      ∀ stop, disk.stops = some stop → landed (rowBytes record nowMs) stop = []

def CarefulRun (edge : Edge) : List Event → Prop
  | [] => True
  | event :: events => Careful edge event ∧ CarefulRun (step edge event) events

def handed (edge : Edge) : Event → List Bytes
  | .open _ _ => []
  | .row record nowMs _ => if edge.writer.isSome then [rowBytes record nowMs] else []

def drained (edge : Edge) : List Event → List Bytes
  | [] => []
  | event :: events => handed edge event ++ drained (step edge event) events

def Event.deletes : Event → ℕ → Bool
  | .open _ disk => disk.deletes
  | .row _ _ disk => disk.deletes

/-- The file that is written is another than before, or was opened anew. -/
def Turned (before : Edge) (event : Event) (writer : JsonlWriter) : Prop :=
  match event with
  | .open _ _ => True
  | .row _ _ _ => ∀ old, before.writer = some old → old.current ≠ writer.current

structure Tidy (before : Edge) (event : Event) (after : Edge) : Prop where
  crowded : ∀ sequence ∈ before.dir, sequence ∉ after.dir → ∃ writer,
    after.writer = some writer ∧ writer.cfg.maxFiles < (openFile before.dir writer.current).size
  oldest : ∀ sequence ∈ before.dir, sequence ∉ after.dir → ∀ older ∈ before.dir,
    older < sequence → older ∉ after.dir ∨ event.deletes older = false
  bounded : ∀ writer, after.writer = some writer → Turned before event writer →
    (∀ sequence, event.deletes sequence = true) → after.dir.size ≤ writer.cfg.maxFiles

theorem Tidy.of_all {before after : Edge} {event : Event}
    (hall : ∀ sequence ∈ before.dir, sequence ∈ after.dir)
    (hboun : ∀ writer, after.writer = some writer → Turned before event writer →
      (∀ sequence, event.deletes sequence = true) → after.dir.size ≤ writer.cfg.maxFiles) :
    Tidy before event after where
  crowded sequence hmem hgone := absurd (hall sequence hmem) hgone
  oldest sequence hmem hgone := absurd (hall sequence hmem) hgone
  bounded := hboun

theorem size_of_mem_iff {left right : Directory} (hsame : ∀ sequence, sequence ∈ left ↔ sequence ∈ right) :
    left.size = right.size := by
  rw [← keys_length, ← keys_length]
  apply List.Perm.length_eq
  rw [perm_ext_iff_of_nodup Std.ExtTreeMap.nodup_keys Std.ExtTreeMap.nodup_keys]
  intro sequence
  rw [Std.ExtTreeMap.mem_keys, Std.ExtTreeMap.mem_keys]
  exact hsame sequence

variable {dir : Directory} {cfg : JsonlConfig}

theorem spared {current : ℕ} {deletes : ℕ → Bool} (hnew : ∀ other ∈ dir, other ≤ sequence)
    (hexc : max cfg.maxFiles 1 < (openFile dir sequence).keys.length →
      current ∈ openFile dir sequence → current = sequence) :
    ¬Goes (openFile dir sequence) cfg current deletes sequence := by
  rintro ⟨hcrw, hvic, -⟩
  by_cases hpres : current ∈ openFile dir sequence
  · exact (mem_victims hvic).2 (hexc hcrw hpres).symm
  apply newest_not_mem_victims _ hpres hcrw hvic
  intro other hoth
  cases mem_openFile.mp hoth with
  | inl hsame => exact Nat.le_of_eq hsame.symm
  | inr hold => exact hnew other hold

theorem Tidy.of_prune {before after : Edge} {event : Event} {current : ℕ} {writer : JsonlWriter}
    (hnew : ∀ other ∈ before.dir, other ≤ sequence)
    (hexc : max writer.cfg.maxFiles 1 < (openFile before.dir sequence).keys.length →
      current ∈ openFile before.dir sequence → current = sequence)
    (hwrit : after.writer = some writer) (hcur : writer.current = sequence)
    (hks : 1 ≤ writer.cfg.maxFiles)
    (hdir : ∀ other, other ∈ after.dir ↔
      other ∈ prune (openFile before.dir sequence) writer.cfg current event.deletes) :
    Tidy before event after := by
  have hgoes : ∀ other ∈ before.dir, other ∉ after.dir →
      Goes (openFile before.dir sequence) writer.cfg current event.deletes other := by
    intro other hmem hgone
    apply Classical.byContradiction
    intro hstays
    exact hgone ((hdir other).mpr (mem_prune.mpr ⟨mem_openFile.mpr (.inr hmem), hstays⟩))
  constructor
  · intro other hmem hgone
    refine ⟨writer, hwrit, ?_⟩
    have hcrw := (hgoes other hmem hgone).1
    rw [keys_length] at hcrw
    rw [hcur]
    exact Nat.lt_of_le_of_lt (Nat.le_max_left _ _) hcrw
  · intro other hmem hgone older holder hlt
    have hoth := hgoes other hmem hgone
    cases hdel : event.deletes older with
    | false => exact .inr rfl
    | true =>
      left
      intro hstill
      have hopd : older ∈ openFile before.dir sequence := mem_openFile.mpr (.inr holder)
      have hne : older ≠ current := by
        intro hsame
        have hlast := hexc hoth.1 (hsame ▸ hopd)
        have hle := hnew other hmem
        omega
      have hvic := mem_victims_of_lt hoth.2.1 hopd hne hlt
      exact (mem_prune.mp ((hdir older).mp hstill)).2 ⟨hoth.1, hvic, hdel⟩
  intro found hfnd _ hdel
  rw [hwrit] at hfnd
  cases hfnd
  rw [size_of_mem_iff hdir, ← keys_length]
  have hle := @prune_length (openFile before.dir sequence) writer.cfg current event.deletes hdel
  omega

variable {start : Directory} {ledger : List (Bytes × Option ℕ)} {edge : Edge}

theorem le_highestSequence (hmem : sequence ∈ dir) : sequence ≤ (highestSequence dir).getD 0 := by
  have hkey := Std.ExtTreeMap.mem_keys.mpr hmem
  rw [highestSequence]
  cases hlast : dir.keys.getLast? with
  | none =>
    rw [getLast?_eq_none_iff] at hlast
    rw [hlast] at hkey
    cases hkey
  | some last =>
    rw [getLast?_eq_some_iff] at hlast
    obtain ⟨earlier, hkeys⟩ := hlast
    rw [hkeys, List.mem_append, mem_singleton] at hkey
    cases hkey with
    | inl hearl =>
      have hasc := keys_ascending dir
      rw [hkeys, pairwise_append] at hasc
      exact Nat.le_of_lt (hasc.2.2 sequence hearl last (mem_singleton.mpr rfl))
    | inr hsame => exact Nat.le_of_eq hsame

theorem highestSequence_mem (hmem : sequence ∈ dir) : (highestSequence dir).getD 0 ∈ dir := by
  have hkey := Std.ExtTreeMap.mem_keys.mpr hmem
  rw [highestSequence]
  cases hlast : dir.keys.getLast? with
  | none =>
    rw [getLast?_eq_none_iff] at hlast
    rw [hlast] at hkey
    cases hkey
  | some last => exact Std.ExtTreeMap.mem_keys.mp (mem_of_getLast? hlast)

theorem Careful.except {disk : OpenDisk} (hcare : Careful edge (.open cfg disk))
    (hcrw : max cfg.maxFiles 1 <
      (openFile edge.dir ((highestSequence edge.dir).getD 0)).keys.length)
    (hpres : 0 ∈ openFile edge.dir ((highestSequence edge.dir).getD 0)) :
    0 = (highestSequence edge.dir).getD 0 := by
  cases mem_openFile.mp hpres with
  | inl hsame => exact hsame.symm
  | inr hzero =>
    have hfew := hcare.2 hzero
    have hsize : (openFile edge.dir ((highestSequence edge.dir).getD 0)).size = edge.dir.size := by
      apply size_of_mem_iff
      intro other
      rw [mem_openFile]
      exact ⟨fun h => h.elim (fun hsame => hsame ▸ highestSequence_mem hzero) id, .inr⟩
    rw [keys_length, hsize] at hcrw
    omega

theorem Kept.unopened (hkept : Kept start ledger edge) :
    Kept start ledger { edge with writer := none } where
  writes := by nofun
  complete := hkept.complete
  accounts := ⟨hkept.accounts.rows, hkept.accounts.failed, hkept.accounts.files⟩
  past := hkept.past

/-- A row for which no file could be opened. -/
theorem Kept.lost {writer : JsonlWriter} {counters : Counters}
    (hkept : Kept start ledger ⟨dir, some writer, counters⟩) :
    Kept start (ledger ++ [(bytes, none)])
      ⟨dir, some { writer with sequence := writer.sequence + 1 },
        { counters with jsonlFailed := counters.jsonlFailed + 1 }⟩ where
  writes := by
    intro _ hsome
    cases hsome
    have hwrs := hkept.writes writer rfl
    exact { hwrs with ahead := Nat.le_succ_of_le hwrs.ahead }
  complete := hkept.complete
  accounts := by
    constructor
    · rw [countP_append]
      exact hkept.accounts.rows
    · rw [countP_append]
      exact congrArg (· + 1) hkept.accounts.failed
    · intro sequence content hcont
      rw [rowsOf_append, if_neg (by nofun), append_nil]
      exact hkept.accounts.files sequence content hcont
  past := by
    intro sequence hold
    apply hkept.past sequence
    rw [map_append, List.mem_append, map_singleton, mem_singleton] at hold
    rcases hold with h | h | h
    · exact .inl h
    · exact .inr h
    · cases h

theorem Kept.openJsonl {disk : OpenDisk} (hkept : Kept start ledger edge)
    (hcare : Careful edge (.open cfg disk)) :
    Kept start ledger (openJsonl cfg disk edge) ∧
      Tidy edge (.open cfg disk) (openJsonl cfg disk edge) := by
  have hnone : Tidy edge (.open cfg disk) { edge with writer := none } :=
    Tidy.of_all (fun _ hmem => hmem) (by nofun)
  rw [Sink.openJsonl]
  split
  · exact ⟨hkept.unopened, hnone⟩
  dsimp only
  split
  · exact ⟨hkept.unopened, hnone⟩
  have hnew : ∀ other ∈ edge.dir, other ≤ (highestSequence edge.dir).getD 0 :=
    fun _ hmem => le_highestSequence hmem
  have hexc := hcare.except
  constructor
  · exact hkept.reopened hnew (spared hnew hexc) rfl rfl rfl rfl (Nat.le_refl _)
      hcare.1
  · exact Tidy.of_prune hnew hexc rfl rfl hcare.1 fun _ => Iff.rfl

theorem Kept.writeRow {record : Record} {nowMs : UInt64} {disk : RowDisk}
    (hkept : Kept start ledger edge) (hcare : Careful edge (.row record nowMs disk)) :
    ∃ later, later.map Prod.fst = handed edge (.row record nowMs disk) ∧
      Kept start (ledger ++ later) (writeRow record nowMs disk edge) ∧
        Tidy edge (.row record nowMs disk) (writeRow record nowMs disk edge) := by
  obtain ⟨dir, found, counters⟩ := edge
  cases found with
  | none =>
    refine ⟨[], rfl, ?_, Tidy.of_all (fun _ hmem => hmem) (by nofun)⟩
    rwa [append_nil]
  | some writer =>
    have hwrs := hkept.writes writer rfl
    rw [Sink.writeRow]
    dsimp only
    split
    · rw [rotate]
      split
      · next heq =>
        split at heq
        · cases heq
          refine ⟨[(rowBytes record nowMs, none)], rfl, hkept.lost, ?_⟩
          refine Tidy.of_all (fun _ hmem => hmem) ?_
          intro after haft htrn
          cases haft
          exact absurd rfl (htrn writer rfl)
        · cases heq
      rename_i opened next heq
      split at heq
      · cases heq
      cases heq
      have hnew : ∀ other ∈ dir, other ≤ writer.sequence + 1 := fun other hmem =>
        Nat.le_trans (hwrs.newest other hmem) (Nat.le_succ_of_le hwrs.ahead)
      have hreop : Kept start ledger
          ⟨prune (openFile dir (writer.sequence + 1)) writer.cfg (writer.sequence + 1) disk.deletes,
            some ⟨writer.cfg, writer.sequence + 1,
              (prune (openFile dir (writer.sequence + 1)) writer.cfg (writer.sequence + 1)
                disk.deletes).contains (writer.sequence + 1), writer.sequence + 1, 0⟩,
            { counters with jsonlRotations := counters.jsonlRotations + 1 }⟩ :=
        hkept.reopened hnew (spared hnew fun _ _ => rfl) rfl rfl rfl rfl (Nat.le_refl _) hwrs.keeps
      obtain ⟨fate, haft⟩ := hreop.writeAll disk record nowMs hcare
      refine ⟨[(rowBytes record nowMs, fate)], rfl, haft, ?_⟩
      obtain ⟨after, hsome, hcur, hcfg⟩ := @writeAll_writer _ _ _ disk (rowBytes record nowMs)
      apply Tidy.of_prune hnew (fun _ _ => rfl) hsome hcur
      · rw [hcfg]
        exact hwrs.keeps
      · intro other
        rw [mem_writeAll (hreop.writes _ rfl), hcfg]
        rfl
    obtain ⟨fate, haft⟩ := hkept.writeAll disk record nowMs hcare
    refine ⟨[(rowBytes record nowMs, fate)], rfl, haft, ?_⟩
    apply Tidy.of_all (fun _ hmem => (mem_writeAll hwrs).mpr hmem)
    intro after haft htrn
    obtain ⟨found, hsome, hcur, -⟩ := @writeAll_writer dir writer counters disk
      (rowBytes record nowMs)
    cases haft.symm.trans hsome
    exact absurd hcur.symm (htrn writer rfl)

theorem Kept.step {event : Event} (hkept : Kept start ledger edge) (hcare : Careful edge event) :
    ∃ later, later.map Prod.fst = handed edge event ∧ Kept start (ledger ++ later) (step edge event) ∧
      Tidy edge event (step edge event) := by
  cases event with
  | «open» cfg disk =>
    have hopd := hkept.openJsonl hcare
    refine ⟨[], rfl, ?_, hopd.2⟩
    rw [append_nil]
    exact hopd.1
  | row record nowMs disk => exact hkept.writeRow hcare

end Steps

section Runs

variable {start : Directory}

theorem carefulRun_append {edge : Edge} {before after : List Event} :
    CarefulRun edge (before ++ after) ↔
      CarefulRun edge before ∧ CarefulRun (run edge before) after := by
  induction before generalizing edge with
  | nil => exact ⟨fun h => ⟨trivial, h⟩, fun h => h.2⟩
  | cons event before ih =>
    change Careful edge event ∧ CarefulRun (step edge event) (before ++ after) ↔ _
    rw [ih, ← and_assoc]
    rfl

theorem Kept.run {ledger : List (Bytes × Option ℕ)} {edge : Edge} {events : List Event}
    (hkept : Kept start ledger edge) (hcare : CarefulRun edge events) :
    ∃ later, later.map Prod.fst = drained edge events ∧
      Kept start (ledger ++ later) (run edge events) := by
  induction events generalizing edge ledger with
  | nil =>
    refine ⟨[], rfl, ?_⟩
    rwa [append_nil]
  | cons event events ih =>
    obtain ⟨now, hnow, hstep, -⟩ := hkept.step hcare.1
    obtain ⟨later, hltr, hrun⟩ := ih hstep hcare.2
    refine ⟨now ++ later, ?_, ?_⟩
    · rw [map_append, hnow, hltr]
      rfl
    · rw [← append_assoc]
      exact hrun

theorem Kept.initially (hsta : ∀ (sequence : ℕ) (content : Bytes), start[sequence]? = some content →
    Complete content) : Kept start [] (Edge.start start) where
  writes := by nofun
  complete := hsta
  accounts := by
    refine ⟨rfl, rfl, ?_⟩
    intro sequence content hcont
    have hsame : start[sequence]? = some content := hcont
    rw [hsame]
    exact (append_nil content).symm
  past := by
    intro sequence hold
    cases hold with
    | inl hmem => exact ⟨sequence, hmem, Nat.le_refl _⟩
    | inr hmem => cases hmem

/-- The local edge is as it should be: the written file is there, every line of every file
is a record's, and every record handed over is one row or counted as failed. -/
structure Sound (start : Directory) (rows : List Bytes) (edge : Edge) : Prop where
  written : ∀ writer, edge.writer = some writer → writer.linked = true ∧ writer.current ∈ edge.dir
  complete : ∀ (sequence : ℕ) (content : Bytes), edge.dir[sequence]? = some content →
    Complete content
  accounted : ∃ ledger, ledger.map Prod.fst = rows ∧ Accounts start ledger edge

def tick : Record :=
  .metric ⟨Id.new "c", Id.new "n", .counter, .count, 7, Attrs.new⟩

/-- Nothing fails. -/
def OpenDisk.fine : OpenDisk := ⟨true, true, fun _ => true⟩

def RowDisk.fine : RowDisk := ⟨true, fun _ => true, none⟩

def tour : List Event := [.open ⟨10, 1⟩ .fine, .row tick 0 .fine, .row tick 0 .fine]

end Runs

end WasmAgent.Sink
