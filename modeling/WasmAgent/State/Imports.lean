import WasmAgent.State.Settled

/-!
# What an import leaves

An import writes the snapshot's entries and its metadata over a namespace it has
emptied of the component's keys.  It leaves what it would leave on a fresh namespace
exactly when nothing else of the engine's was there, or was cleared with those keys.
-/

namespace WasmAgent.State

open List Option Std.ExtTreeMap Std WasmAgent.Core

section Reading

theorem streamLength_yields : Yields streamLength (fun _ _ _ => True) := by
  apply Yields.bind
  apply Reader.takeOr_yields
  intro bytes _ hlen
  apply Yields.lift
  · rw [Reader.array_ok hlen]
    intro hpan
    cases hpan
  · intro taken _
    exact Yields.pure (fun _ => trivial)

theorem readEntry_yields : Yields readEntry (fun _ entry _ => isReserved entry.1 = false) := by
  apply Yields.bind
  apply streamLength_yields.weaken
  intro _ keyLen _ _
  apply Yields.bind
  apply Reader.takeOr_yields
  intro key _ _
  apply Yields.bind
  apply streamLength_yields.weaken
  intro _ valueLen _ _
  apply Yields.bind
  apply Reader.takeOr_yields
  intro value _ _
  split
  · exact Yields.error _
  rename_i hpln
  apply Yields.lift
  · cases checkSize key (some value) with
    | error fault =>
      intro hpan
      cases hpan
    | ok _ =>
      intro hpan
      cases hpan
  · intro _ _
    exact Yields.pure (fun _ => Bool.eq_false_iff.mpr hpln)

theorem readEntries_yields (steps : ℕ) :
    Yields (readEntries steps)
      (fun _ entries _ => ∀ entry ∈ entries, isReserved entry.1 = false) := by
  induction steps with
  | zero =>
    apply Yields.pure
    intro _ entry hent
    cases hent
  | succ steps ih =>
    apply Yields.look
    intro reader
    split
    · apply Yields.bind
      apply readEntry_yields.weaken
      intro _ entry _ hent
      apply Yields.bind
      apply ih.weaken
      intro _ entries _ hents
      apply Yields.pure
      intro _
      exact forall_mem_cons.mpr ⟨hent, hents⟩
    · apply Yields.pure
      intro _ entry hent
      cases hent

theorem readBody_yields (headEnd : ℕ) :
    Yields (readBody headEnd)
      (fun _ entries _ => ∀ entry ∈ entries, isReserved entry.1 = false) := by
  apply Yields.bind
  apply Reader.takeOr_yields
  intro taken _ _
  apply Yields.look
  intro reader
  exact readEntries_yields reader.buf.length

theorem readSnapshot_plain {crates : Crates} {maxBytes : ℕ} {input : Bytes}
    {snapshot : ReadSnapshot} (hread : readSnapshot crates maxBytes input = .ok snapshot) :
    ∀ entry ∈ snapshot.entries, isReserved entry.1 = false := by
  rw [readSnapshot] at hread
  obtain ⟨-, hread⟩ := of_guard hread
  obtain ⟨-, hread⟩ := of_guard hread
  obtain ⟨payload, -, hread⟩ := bind_eq_ok.mp hread
  obtain ⟨-, hread⟩ := of_guard hread
  obtain ⟨-, hread⟩ := of_guard hread
  obtain ⟨-, hread⟩ := of_guard hread
  obtain ⟨head, -, hread⟩ := bind_eq_ok.mp hread
  obtain ⟨-, hread⟩ := of_guard hread
  obtain ⟨_, -, hread⟩ := bind_eq_ok.mp hread
  obtain ⟨-, hread⟩ := of_guard hread
  obtain ⟨entries, hents, hread⟩ := bind_eq_ok.mp hread
  obtain ⟨-, hread⟩ := of_guard hread
  obtain ⟨-, hread⟩ := of_guard hread
  obtain ⟨-, hread⟩ := of_guard hread
  cases hread
  exact (readBody_yields _).value_whole (of_mapError hents)

end Reading

/-- The keys the metadata is written under. -/
def metaKeys : List Bytes :=
  [Key.schemaVersion, Key.component, Key.componentVersion, Key.lastMigratedBy,
    Key.lastMigratedAt, Key.createdAt, Key.updatedAt]

/-- The writes of an import, once the namespace is emptied. -/
def ReadSnapshot.writes (snapshot : ReadSnapshot) (now : UInt64) : List Change :=
  snapshot.entries.map (fun entry => .put entry.1 entry.2) ++ (snapshot.meta now).writes now

/-- The namespace with the component's keys gone, and what an unfinished migration left. -/
def emptied (store : Namespace) : Namespace :=
  if userKeys store = [] then store
  else
    Core.Change.applyAll [.del Key.journal, .del Key.pending]
      (Core.Change.applyAll ((userKeys store).map Core.Change.del) store)

/-- Nothing of the engine's that an import would leave behind. -/
def NothingElse (store : Namespace) : Prop :=
  ∀ key, isReserved key = true → store.get key ≠ none →
    key ∈ metaKeys ∨ (key = Key.journal ∨ key = Key.pending) ∧ userKeys store ≠ []

section Emptied

variable {store : Namespace} {key : Bytes}

theorem mem_userKeys : key ∈ userKeys store ↔ isReserved key = false ∧ store.get key ≠ none := by
  rw [userKeys, List.mem_filter, List.mem_map, Bool.not_eq_true', and_comm]
  apply and_congr_right
  intro _
  rw [Namespace.get]
  constructor
  · rintro ⟨entry, hent, rfl⟩
    rw [mem_toList_iff_getElem?_eq_some.mp hent]
    exact some_ne_none _
  · intro hpres
    obtain ⟨value, hval⟩ := ne_none_iff_exists'.mp hpres
    exact ⟨(key, value), mem_toList_iff_getElem?_eq_some.mpr hval, rfl⟩

theorem get_applyAll_dels {keys : List Bytes} :
    Namespace.get (Core.Change.applyAll (keys.map Core.Change.del) store) key =
      if key ∈ keys then none else store.get key := by
  induction keys generalizing store with
  | nil => rfl
  | cons first keys ih =>
    rw [map_cons, Core.Change.applyAll_cons, ih, Namespace.get_apply]
    by_cases hrest : key ∈ keys
    · rw [if_pos hrest, if_pos (mem_cons_of_mem first hrest)]
    rw [if_neg hrest]
    apply ite_congr
    · rw [mem_cons, or_iff_left hrest]
      exact propext eq_comm
    · intro _
      rfl
    · intro _
      rfl

theorem get_emptied :
    (emptied store).get key =
      if userKeys store ≠ [] ∧ (key ∈ userKeys store ∨ key = Key.journal ∨ key = Key.pending)
      then none else store.get key := by
  rw [emptied]
  split
  · next hemp =>
    rw [if_neg (fun hall => hall.1 hemp)]
  rename_i hsome
  have hdels : ([.del Key.journal, .del Key.pending] : List Change) =
      [Key.journal, Key.pending].map Core.Change.del := rfl
  rw [hdels, get_applyAll_dels, get_applyAll_dels]
  by_cases heng : key ∈ [Key.journal, Key.pending]
  · rw [if_pos heng, if_pos]
    exact ⟨hsome, .inr (by simpa using heng)⟩
  rw [if_neg heng]
  have hoth : ¬(key = Key.journal ∨ key = Key.pending) := by simpa using heng
  apply ite_congr
  · rw [or_iff_left hoth, and_iff_right hsome]
  · intro _
    rfl
  · intro _
    rfl

theorem emptied_other_iff :
    (∀ key, key ∉ metaKeys → (emptied store).get key = none) ↔ NothingElse store := by
  constructor
  · intro hgone key hrsv hpres
    by_cases hmeta : key ∈ metaKeys
    · exact .inl hmeta
    have hnone := hgone key hmeta
    rw [get_emptied] at hnone
    split at hnone
    · next hclear =>
      obtain ⟨hsome, huser | heng⟩ := hclear
      · rw [(mem_userKeys.mp huser).1] at hrsv
        cases hrsv
      · exact .inr ⟨heng, hsome⟩
    · exact absurd hnone hpres
  intro hnot key hmeta
  rw [get_emptied]
  split
  · rfl
  rename_i hkept
  by_contra hpres
  cases hrsv : isReserved key with
  | true =>
    obtain hnmd | ⟨heng, hsome⟩ := hnot key hrsv hpres
    · exact hmeta hnmd
    · exact hkept ⟨hsome, .inr heng⟩
  | false =>
    have huser := mem_userKeys.mpr ⟨hrsv, hpres⟩
    exact hkept ⟨ne_nil_of_mem huser, .inl huser⟩

end Emptied

section Writes

variable {snapshot : ReadSnapshot} {now : UInt64}

theorem metaKeys_of_writes (info : Meta) : (info.writes now).map Core.Change.key = metaKeys := by
  rfl

theorem mem_writes_keys {key : Bytes} :
    key ∈ (snapshot.writes now).map Core.Change.key ↔
      key ∈ snapshot.entries.map Prod.fst ∨ key ∈ metaKeys := by
  rw [ReadSnapshot.writes, List.map_append, List.mem_append, metaKeys_of_writes, List.map_map]
  rfl

theorem imported_iff {store : Namespace}
    (hpln : ∀ entry ∈ snapshot.entries, isReserved entry.1 = false) :
    Core.Change.applyAll (snapshot.writes now) (emptied store) =
        Core.Change.applyAll (snapshot.writes now) ∅ ↔
      NothingElse store := by
  rw [← emptied_other_iff]
  constructor
  · intro hsame key hmeta
    by_cases hent : key ∈ snapshot.entries.map Prod.fst
    · obtain ⟨entry, hmem, rfl⟩ := List.mem_map.mp hent
      rw [get_emptied]
      split
      · rfl
      rename_i hkept
      by_contra hpres
      have huser := mem_userKeys.mpr ⟨hpln entry hmem, hpres⟩
      exact hkept ⟨List.ne_nil_of_mem huser, .inl huser⟩
    have hoth : key ∉ (snapshot.writes now).map Core.Change.key := by
      rw [mem_writes_keys, not_or]
      exact ⟨hent, hmeta⟩
    have hlook := congrArg (fun table : Namespace => table[key]?) hsame
    rw [Core.Change.getElem?_applyAll_other hoth, Core.Change.getElem?_applyAll_other hoth] at hlook
    rw [Namespace.get, hlook]
    exact ExtTreeMap.getElem?_empty
  intro hgone
  apply ExtTreeMap.ext_getElem?
  intro key
  by_cases hwrn : key ∈ (snapshot.writes now).map Core.Change.key
  · exact Core.Change.getElem?_applyAll_congr (.inl hwrn)
  have hmeta : key ∉ metaKeys := by
    intro hmeta
    exact hwrn (mem_writes_keys.mpr (.inr hmeta))
  rw [Core.Change.getElem?_applyAll_other hwrn,
    Core.Change.getElem?_applyAll_other hwrn, ExtTreeMap.getElem?_empty]
  exact hgone key hmeta

end Writes

section Importing

variable {crates : Crates} {options : ImportOptions} {now : UInt64} {input : Bytes}
  {store : Namespace}

theorem makeRoom_ends :
    Survives kv (fun _ => True) (IfOk (fun _ final => final = emptied store))
      (makeRoom options (userKeys store)) store := by
  rw [makeRoom, emptied]
  by_cases hemp : userKeys store = []
  · rw [if_pos hemp, if_neg (not_not_intro hemp)]
    exact Survives.pure trivial (IfOk.ok rfl)
  rw [if_neg hemp, if_pos hemp]
  split
  · exact Survives.throw trivial (IfOk.failed _ _)
  apply Survives.okBind
  refine ⟨fun _ => trivial, fun _ _ => ?_⟩
  rw [writeAll_final]
  refine ⟨fun _ => trivial, fun _ _ => ?_⟩
  rw [writeAll_final]

theorem importSnapshot_ends :
    Survives kv (fun _ => True)
      (IfOk (fun header final => ∃ snapshot,
        readSnapshot crates options.maxBytes input = .ok snapshot ∧
          options.accept snapshot.header = .ok () ∧ header = snapshot.header ∧
          final = Core.Change.applyAll (snapshot.writes now) (emptied store)))
      (importSnapshot crates options now input) store := by
  apply Survives.checkBind trivial (fun fault _ => IfOk.failed fault _)
  intro snapshot hread
  apply Survives.checkBind trivial (fun fault _ => IfOk.failed fault _)
  intro _ haccd
  apply Survives.askBind
  apply Survives.okBind
  apply makeRoom_ends.weaken
  intro outcome middle hroom _ hok
  rw [hroom _ hok]
  apply Survives.okBind
  refine ⟨fun _ => trivial, fun _ _ => ?_⟩
  rw [writeAll_final]
  apply Survives.okBind
  refine ⟨fun _ => trivial, fun _ _ => ?_⟩
  rw [Meta.write, writeAll_final, ← Core.Change.applyAll_append]
  exact Survives.pure trivial (IfOk.ok ⟨snapshot, hread, haccd, rfl, rfl⟩)

variable {snapshot : ReadSnapshot}
variable (hread : readSnapshot crates options.maxBytes input = .ok snapshot)
variable (haccd : options.accept snapshot.header = .ok ())
variable (hroom : userKeys store = [] ∨ options.replace = true)
include hread haccd hroom

theorem importSnapshot_result :
    Program.result kv (importSnapshot crates options now input) store = .ok snapshot.header := by
  have hmade : Program.result kv (makeRoom options (userKeys store)) store = .ok () := by
    rw [makeRoom]
    by_cases hemp : userKeys store = []
    · rw [if_neg (not_not_intro hemp)]
      rfl
    rw [if_pos hemp, hroom.resolve_left hemp]
    refine (Fallible.result_bind kv (writeAll _) _ store).trans ?_
    rw [writeAll_result]
    exact writeAll_result _
  rw [importSnapshot, Fallible.result_bind, Fallible.result_check, hread, Fallible.final_check]
  change Program.result kv _ _ = _
  rw [Fallible.result_bind, Fallible.result_check, haccd, Fallible.final_check]
  change Program.result kv _ _ = _
  rw [Fallible.result_bind]
  change Program.result kv _ _ = _
  rw [Fallible.result_bind]
  change Except.bind (Program.result kv (makeRoom options (userKeys store)) store) _ = _
  rw [hmade]
  change Program.result kv _ _ = _
  rw [Fallible.result_bind, writeAll_result]
  change Program.result kv _ _ = _
  rw [Fallible.result_bind, Meta.write, writeAll_result]
  rfl

theorem importSnapshot_final :
    Program.final kv (importSnapshot crates options now input) store =
      Core.Change.applyAll (snapshot.writes now) (emptied store) := by
  obtain ⟨other, hoth, -, -, hfin⟩ :=
    importSnapshot_ends.outcome _ (importSnapshot_result hread haccd hroom)
  rw [hread] at hoth
  cases hoth
  exact hfin

omit hroom

theorem importSnapshot_fresh :
    Program.final kv (importSnapshot crates options now input) ∅ =
      Core.Change.applyAll (snapshot.writes now) ∅ := by
  have hnone : userKeys ∅ = [] := by
    rw [userKeys, ExtTreeMap.toList_eq_nil_iff.mpr rfl]
    rfl
  rw [importSnapshot_final hread haccd (.inl hnone), emptied, if_pos hnone]

omit haccd hread

structure Replaced (crates : Crates) (options : ImportOptions) (now : UInt64) (input : Bytes)
    (after : Namespace) : Prop where
  holds : ∃ snapshot, readSnapshot crates options.maxBytes input = .ok snapshot ∧
    after = Core.Change.applyAll (snapshot.writes now) ∅
  settled : after.get Key.journal = none ∧ after.get Key.pending = none
  fresh : ∀ (migrator : Migrator) (target : UInt32) (later : UInt64),
    Program.result kv (migrator.migrate target later) after =
        Program.result kv (migrator.migrate target later)
          (Program.final kv (importSnapshot crates options now input) ∅) ∧
      Program.final kv (migrator.migrate target later) after =
        Program.final kv (migrator.migrate target later)
          (Program.final kv (importSnapshot crates options now input) ∅)

theorem settled_of_writes (snapshot : ReadSnapshot)
    (hpln : ∀ entry ∈ snapshot.entries, isReserved entry.1 = false) {key : Bytes}
    (hrsv : isReserved key = true) (hoth : key ∉ metaKeys) :
    Namespace.get (Core.Change.applyAll (snapshot.writes now) ∅) key = none := by
  rw [Namespace.get, Core.Change.getElem?_applyAll_other]
  · exact getElem?_empty
  rw [mem_writes_keys, not_or]
  refine ⟨?_, hoth⟩
  intro hent
  obtain ⟨entry, hmem, rfl⟩ := List.mem_map.mp hent
  rw [hpln entry hmem] at hrsv
  cases hrsv

/-- A successful import replaces everything exactly where nothing else of the engine's
was in the way. -/
theorem import_replaces_iff {header : SnapshotHeader}
    (hok : Program.result kv (importSnapshot crates options now input) store = .ok header) :
    Replaced crates options now input
        (Program.final kv (importSnapshot crates options now input) store) ↔
      NothingElse store := by
  obtain ⟨snapshot, hread, haccepted, -, hfinal⟩ := importSnapshot_ends.outcome _ hok
  have hplain := readSnapshot_plain hread
  rw [← imported_iff  hplain, ← hfinal]
  constructor
  · intro hreplaced
    obtain ⟨other, hother, hholds⟩ := hreplaced.holds
    rw [hread] at hother
    cases hother
    exact hholds
  intro hholds
  refine ⟨⟨snapshot, hread, hholds⟩, ?_, ?_⟩
  · rw [hholds]
    exact ⟨settled_of_writes snapshot hplain (by decide) (by decide),
      settled_of_writes snapshot hplain (by decide) (by decide)⟩
  · intro migrator target later
    rw [importSnapshot_fresh hread haccepted, hholds]
    exact ⟨rfl, rfl⟩

end Importing

namespace Notes

def exportedPayload : Bytes :=
  let head := Records.crates.printHead ⟨snapshotFormat, 1, info.id, info.version, info.sha256, 1⟩
  littleEndian 4 head.length ++ head ++ littleEndian 4 1 ++ utf8 "a" ++ littleEndian 4 1 ++ utf8 "7"

/-- A snapshot of one note at the first version, in one raw block. -/
def exported : Bytes :=
  let whole := exportedPayload ++ footerTag ++ littleEndian 8 1 ++ littleEndian 8 2 ++
    Sha256.digest exportedPayload
  snapshotMagic ++ Records.frameMagic ++ [0, 0] ++ littleEndian 3 (whole.length * 8 + 1) ++ whole

def importing : ImportOptions := ⟨none, true, none, none, 0x100000⟩

def imported : ReadSnapshot where
  head := ⟨snapshotFormat, 1, info.id, info.version, info.sha256, 1⟩
  entries := [(utf8 "a", utf8 "7")]
  header := ⟨snapshotFormat, 1, info.id, info.version, info.sha256, 1, 1, 2,
    hex (Sha256.digest exportedPayload)⟩

theorem reads_exported :
    readSnapshot Records.crates importing.maxBytes exported = .ok imported := by
  simp only [imported, exported, exportedPayload, Records.crates_plain]
  decide +kernel

/-- Take the one note away. -/
def erase : StepProgram :=
  .remove (utf8 "a") fun _ => .done (.ok ())

/-- A namespace of one note, its upgrade stopped when the note was gone. -/
def erased : Namespace :=
  afterRun [⟨migrator erase erase, 2, 5, 3⟩] (store 1 [(utf8 "a", utf8 "1")])

end Notes

/-- The snapshot over two notes at rest. -/
theorem import_replaces_notes :
    ∃ header, Program.result kv (importSnapshot Records.crates Notes.importing 5 Notes.exported)
        Notes.notes = .ok header ∧
      (Replaced Records.crates Notes.importing 5 Notes.exported
          (Program.final kv (importSnapshot Records.crates Notes.importing 5 Notes.exported)
            Notes.notes) ↔
        NothingElse Notes.notes) := by
  have hheader := @importSnapshot_result _ _ 5 _ Notes.notes _ Notes.reads_exported rfl (.inr rfl)
  exact ⟨_, hheader, import_replaces_iff hheader⟩

/-- Where the upgrade had taken the last note away, its journal outlives an import, and
the next migration replays it over the imported note. -/
theorem import_keeps_journal :
    (∃ header, Program.result kv (importSnapshot Records.crates Notes.importing 5 Notes.exported)
        Notes.erased = .ok header) ∧
      ¬Replaced Records.crates Notes.importing 5 Notes.exported
        (Program.final kv (importSnapshot Records.crates Notes.importing 5 Notes.exported)
          Notes.erased) ∧
      Program.result kv ((Notes.migrator Notes.erase Notes.erase).migrate 1 6)
          (Program.final kv (importSnapshot Records.crates Notes.importing 5 Notes.exported)
            Notes.erased) =
        .error (.downgradeRefused 2 1) ∧
      ∃ report, Program.result kv ((Notes.migrator Notes.erase Notes.erase).migrate 1 6)
          (Program.final kv (importSnapshot Records.crates Notes.importing 5 Notes.exported) ∅) =
        .ok report := by
  refine ⟨⟨_, importSnapshot_result Notes.reads_exported rfl (.inr rfl)⟩, ?_, ?_, ?_⟩
  · intro hreplaced
    have hsettled := hreplaced.settled.1
    rw [importSnapshot_final Notes.reads_exported rfl (.inr rfl)] at hsettled
    exact absurd hsettled (by decide +kernel)
  · rw [importSnapshot_final Notes.reads_exported rfl (.inr rfl)]
    simp only [Notes.erased, Notes.migrator, Records.crates_plain]
    decide +kernel
  rw [importSnapshot_fresh Notes.reads_exported rfl]
  apply ok_of_isSome
  simp only [Notes.migrator, Records.crates_plain]
  decide +kernel

end WasmAgent.State
