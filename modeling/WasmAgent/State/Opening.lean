import WasmAgent.State.Imports

/-!
# A namespace that is opened and stopped

Opening an empty namespace writes its metadata key by key.  A stop among these writes
leaves a namespace no later call can read; a stop among the writes of a migration,
where the metadata was there before, never does.
-/

namespace WasmAgent.State

open List Std.ExtTreeMap Std WasmAgent.Core

/-- The metadata of a namespace that is opened for the first time. -/
def ComponentInfo.fresh (info : ComponentInfo) (initialVersion : UInt32) (now : UInt64) : Meta where
  schemaVersion := initialVersion
  component := info.id
  componentVersion := info.version
  lastMigratedBy := info.sha256
  createdAtMs := now
  lastMigratedAtMs := now

/-- The build that runs now, recorded. -/
def ComponentInfo.visit (info : ComponentInfo) (now : UInt64) : List Change :=
  [.put Key.componentVersion (utf8 info.version), .put Key.updatedAt (decimal now.toNat)]

def ComponentInfo.enter (info : ComponentInfo) (initialVersion : UInt32) (now : UInt64) :
    Option Meta → Call Meta
  | some found =>
      if found.component ≠ info.id then
        throw (.ownerMismatch info.id found.component)
      else if found.componentVersion ≠ info.version then do
        writeAll (info.visit now)
        return { found with componentVersion := info.version }
      else
        return found
  | none => do
      let keys ← Fallible.ask userKeys
      if keys ≠ [] then
        throw (.uninitialised keys.length)
      else do
        (info.fresh initialVersion now).write now
        return info.fresh initialVersion now

/-- `meta::open`. -/
def openMeta (info : ComponentInfo) (initialVersion : UInt32) (now : UInt64) : Call Meta := do
  Fallible.check info.validate
  if initialVersion = 0 then
    throw (.corrupt "schema versions start at 1; 0 is not a version")
  else do
    let read ← Fallible.tryAsk Meta.read
    info.enter initialVersion now read

section Partly

variable {store : Namespace} {found next : Meta} {now : UInt64}

/-- The metadata after some of the writes of the next. -/
def Meta.partly (found next : Meta) (stop : ℕ) : Meta where
  schemaVersion := if 0 < stop then next.schemaVersion else found.schemaVersion
  component := if 1 < stop then next.component else found.component
  componentVersion := if 2 < stop then next.componentVersion else found.componentVersion
  lastMigratedBy := if 3 < stop then next.lastMigratedBy else found.lastMigratedBy
  lastMigratedAtMs := if 4 < stop then next.lastMigratedAtMs else found.lastMigratedAtMs
  createdAtMs := if 5 < stop then next.createdAtMs else found.createdAtMs

theorem Meta.schema_of_read_none (hread : Meta.read store = .ok none) :
    store.get Key.schemaVersion = none := by
  by_contra hsch
  rw [Meta.read, if_neg hsch] at hread
  iterate 7 obtain ⟨_, -, hread⟩ := bind_eq_ok.mp hread
  split at hread
  · cases hread
  split at hread <;> cases hread

theorem Meta.number_congr {other : Namespace} {key : Bytes}
    (hsame : other.get key = store.get key) : Meta.number other key = Meta.number store key := by
  rw [Meta.number, Meta.number, Meta.text_congr hsame]

theorem Meta.read_congr {other : Namespace}
    (hsame : ∀ key ∈ identityKeys, other.get key = store.get key) :
    Meta.read other = Meta.read store := by
  have hsch := hsame Key.schemaVersion (by decide)
  have hcomp := hsame Key.component (by decide)
  rw [Meta.read, Meta.read, hsch, hcomp, Meta.number_congr hsch,
    Meta.text_congr hcomp, Meta.text_congr (hsame Key.componentVersion (by decide)),
    Meta.text_congr (hsame Key.lastMigratedBy (by decide)),
    Meta.number_congr (hsame Key.createdAt (by decide)),
    Meta.number_congr (hsame Key.lastMigratedAt (by decide))]

variable {after : Namespace} {written : Prop}

theorem text_partly {key : Bytes} {old new : String} [Decidable written]
    (hget : after.get key = if written then some (utf8 new) else store.get key)
    (hold : Meta.text store key = .ok old) :
    Meta.text after key = .ok (if written then new else old) := by
  split at hget
  · next hwrn =>
    rw [text_of_get hget, if_pos hwrn]
  · next hkept =>
    rw [Meta.text_congr hget, hold, if_neg hkept]

theorem number_partly {key : Bytes} {old new : UInt64} [Decidable written]
    (hget : after.get key = if written then some (decimal new.toNat) else store.get key)
    (hold : Meta.number store key = .ok old) :
    Meta.number after key = .ok (if written then new else old) := by
  split at hget
  · next hwrn =>
    rw [number_of_get hget, if_pos hwrn]
  · next hkept =>
    rw [Meta.number, Meta.text_congr hget, if_neg hkept]
    exact hold

theorem schema_partly {old new : UInt32} [Decidable written]
    (hget : after.get Key.schemaVersion =
      if written then some (decimal new.toNat) else store.get Key.schemaVersion)
    (hold : ∃ schema, Meta.number store Key.schemaVersion = .ok schema ∧
      Meta.narrow schema = .ok old) :
    ∃ schema, Meta.number after Key.schemaVersion = .ok schema ∧
      Meta.narrow schema = .ok (if written then new else old) := by
  split at hget
  · next hwrn =>
    rw [if_pos hwrn]
    exact schema_of_get hget
  · next hkept =>
    rw [if_neg hkept, Meta.number_congr hget]
    exact hold

theorem Says.partly (htold : Says store found) (stop : ℕ) :
    Says (Core.Change.applyAll ((next.writes now).take stop) store) (found.partly next stop) := by
  have hndp : ((next.writes now).map Core.Change.key).Nodup := by
    rw [metaKeys_of_writes]
    decide
  have hget : ∀ (index : ℕ) (hidx : index < (next.writes now).length),
      Namespace.get (Core.Change.applyAll ((next.writes now).take stop) store)
          (next.writes now)[index].key =
        if index < stop then (next.writes now)[index].value
        else store.get (next.writes now)[index].key :=
    fun index hidx => Core.Change.getElem?_applyAll_take hndp hidx stop
  constructor
  · exact schema_partly (hget 0 (by decide : 0 < 7)) htold.schema
  · exact text_partly (hget 1 (by decide : 1 < 7)) htold.component
  · exact text_partly (hget 2 (by decide : 2 < 7)) htold.build
  · exact text_partly (hget 3 (by decide : 3 < 7)) htold.pin
  · exact number_partly (hget 5 (by decide : 5 < 7)) htold.created
  · exact number_partly (hget 4 (by decide : 4 < 7)) htold.migrated

theorem Meta.read_partly (hread : Meta.read store = .ok (some found)) (hvld : next.Valid)
    (stop : ℕ) :
    Meta.read (Core.Change.applyAll ((next.writes now).take stop) store) =
      .ok (some (found.partly next stop)) := by
  obtain ⟨htold, hfnd⟩ := Meta.read_some_iff.mp hread
  refine Meta.read_some_iff.mpr ⟨htold.partly stop, ?_⟩
  obtain ⟨hident, hsem, hdig⟩ := ComponentInfo.validate_ok_iff.mp hfnd
  obtain ⟨hnextIdent, hnextSemver, hnextDigest⟩ := ComponentInfo.validate_ok_iff.mp hvld
  refine ComponentInfo.validate_ok_iff.mpr ⟨?_, ?_, ?_⟩
  · change ident (if 1 < stop then _ else _) = true
    split
    · exact hnextIdent
    · exact hident
  · change isSemver (if 2 < stop then _ else _) = true
    split
    · exact hnextSemver
    · exact hsem
  change isSha256 (if 3 < stop then _ else _) = true
  split
  · exact hnextDigest
  · exact hdig

theorem get_applyAll_stamped {changes : List Change} {own key : Bytes}
    (hkeys : changes.map Core.Change.key ⊆ [own, Key.updatedAt]) (hown : key ≠ own)
    (hupd : key ≠ Key.updatedAt) :
    Namespace.get (Core.Change.applyAll changes store) key = store.get key := by
  apply Core.Change.getElem?_applyAll_other
  intro hkey
  have hmem := hkeys hkey
  simp only [mem_cons, not_mem_nil, or_false] at hmem
  exact hmem.elim hown hupd

theorem Meta.read_committed (hread : Meta.read store = .ok (some found)) (version : UInt32)
    (stop : ℕ) :
    Meta.read (Core.Change.applyAll ((Meta.schemaWrites version now).take stop) store) =
      .ok (some { found with
        schemaVersion := if 0 < stop then version else found.schemaVersion }) := by
  obtain ⟨htold, hvld⟩ := Meta.read_some_iff.mp hread
  have hkeys : ((Meta.schemaWrites version now).take stop).map Core.Change.key ⊆
      [Key.schemaVersion, Key.updatedAt] := by
    rw [map_take]
    exact fun key hkey => mem_of_mem_take hkey
  have hoth := fun key => @get_applyAll_stamped store _ _ key hkeys
  have hndp : ((Meta.schemaWrites version now).map Core.Change.key).Nodup := by
    change [Key.schemaVersion, Key.updatedAt].Nodup
    decide
  have hsch := @Core.Change.getElem?_applyAll_take _ _ _ _ _ _
    (Meta.schemaWrites version now) store hndp 0 (by decide : 0 < 2) stop
  refine Meta.read_some_iff.mpr ⟨⟨schema_partly hsch htold.schema, ?_, ?_, ?_, ?_, ?_⟩, hvld⟩
  · exact (Meta.text_congr (hoth _ (by decide) (by decide))).trans htold.component
  · exact (Meta.text_congr (hoth _ (by decide) (by decide))).trans htold.build
  · exact (Meta.text_congr (hoth _ (by decide) (by decide))).trans htold.pin
  · exact (Meta.number_congr (hoth _ (by decide) (by decide))).trans htold.created
  · exact (Meta.number_congr (hoth _ (by decide) (by decide))).trans htold.migrated

theorem Meta.read_visited {info : ComponentInfo} (hread : Meta.read store = .ok (some found))
    (hvld : info.validate = .ok ()) :
    Meta.read (Core.Change.applyAll (info.visit now) store) =
      .ok (some { found with componentVersion := info.version }) := by
  obtain ⟨htold, hfnd⟩ := Meta.read_some_iff.mp hread
  have hoth := fun key => @get_applyAll_stamped store (info.visit now) Key.componentVersion key
    (Subset.refl _)
  have hndp : ((info.visit now).map Core.Change.key).Nodup := by
    change [Key.componentVersion, Key.updatedAt].Nodup
    decide
  have hbuild : Namespace.get (Core.Change.applyAll (info.visit now) store)
      Key.componentVersion = some (utf8 info.version) :=
    Core.Change.getElem?_applyAll_mem hndp mem_cons_self
  refine Meta.read_some_iff.mpr ⟨⟨?_, ?_, ?_, ?_, ?_, ?_⟩, ?_⟩
  · obtain ⟨schema, hsch, hver⟩ := htold.schema
    exact ⟨schema, (Meta.number_congr (hoth _ (by decide) (by decide))).trans hsch, hver⟩
  · exact (Meta.text_congr (hoth _ (by decide) (by decide))).trans htold.component
  · exact text_of_get hbuild
  · exact (Meta.text_congr (hoth _ (by decide) (by decide))).trans htold.pin
  · exact (Meta.number_congr (hoth _ (by decide) (by decide))).trans htold.created
  · exact (Meta.number_congr (hoth _ (by decide) (by decide))).trans htold.migrated
  · exact ComponentInfo.validate_ok_iff.mpr ⟨(ComponentInfo.validate_ok_iff.mp hfnd).1,
      (ComponentInfo.validate_ok_iff.mp hvld).2.1, (ComponentInfo.validate_ok_iff.mp hfnd).2.2⟩

end Partly

section Opens

variable {info : ComponentInfo} {initialVersion : UInt32} {now : UInt64} {store : Namespace}

theorem writeAll_writes (changes : List Change) (store : Namespace) :
    Program.writes kv (writeAll changes) store = changes := by
  induction changes generalizing store with
  | nil => rfl
  | cons change changes ih => exact congrArg (change :: ·) (ih _)

theorem openMeta_eq (hvld : info.validate = .ok ()) (hinit : initialVersion ≠ 0) :
    openMeta info initialVersion now =
      (Fallible.tryAsk Meta.read >>= info.enter initialVersion now : Call Meta) := by
  rw [openMeta, hvld, if_neg hinit]
  rfl

theorem openMeta_fresh (hvld : info.validate = .ok ()) (hinit : initialVersion ≠ 0)
    (hread : Meta.read store = .ok none) (hkeys : userKeys store = []) :
    Program.writes kv (openMeta info initialVersion now) store =
        (info.fresh initialVersion now).writes now ∧
      Program.result kv (openMeta info initialVersion now) store =
        .ok (info.fresh initialVersion now) := by
  rw [openMeta_eq hvld hinit]
  constructor
  · change Program.writes kv (ExceptT.bindCont _ (Meta.read store)) store = _
    rw [hread]
    change Program.writes kv (if userKeys store ≠ [] then _ else _ : Call Meta) store = _
    rw [if_neg (not_not_intro hkeys)]
    refine (Program.writes_bind kv _ _ store).trans ?_
    rw [Meta.write, writeAll_writes]
    exact append_nil _
  rw [Fallible.result_bind, Fallible.result_tryAsk]
  change (Meta.read store).bind _ = _
  rw [hread]
  change Program.result kv (if userKeys store ≠ [] then _ else _ : Call Meta) store = _
  rw [if_neg (not_not_intro hkeys), Fallible.result_bind, Meta.write, writeAll_result]
  rfl

theorem openMeta_found {found : Meta} (hvld : info.validate = .ok ()) (hinit : initialVersion ≠ 0)
    (hread : Meta.read store = .ok (some found)) (hown : found.component = info.id) :
    Program.result kv (openMeta info initialVersion now) store =
        .ok { found with componentVersion := info.version } ∧
      Meta.read (Program.final kv (openMeta info initialVersion now) store) =
        .ok (some { found with componentVersion := info.version }) := by
  rw [openMeta_eq hvld hinit, Fallible.result_bind, Fallible.result_tryAsk]
  have hfin : Program.final kv (Fallible.tryAsk Meta.read >>= info.enter initialVersion now :
      Call Meta) store = Program.final kv (info.enter initialVersion now (some found)) store :=
    Fallible.final_bind_of_ok kv _ hread
  rw [hfin]
  change (Meta.read store).bind _ = _ ∧ _
  rw [hread]
  change Program.result kv (info.enter initialVersion now (some found)) store = _ ∧ _
  rw [ComponentInfo.enter, if_neg (not_not_intro hown)]
  split
  · next hbuild =>
    rw [Fallible.result_bind, Fallible.final_bind_of_ok kv _ (writeAll_result _), writeAll_result,
      writeAll_final]
    exact ⟨rfl, Meta.read_visited hread hvld⟩
  rename_i hbuild
  rw [not_not] at hbuild
  rw [← hbuild]
  exact ⟨rfl, hread⟩

structure Reopens (info : ComponentInfo) (initialVersion : UInt32) (now : UInt64)
    (left : Namespace) : Prop where
  reads : ∃ read, Meta.read left = .ok read
  opens : ∀ later, ∃ found,
    Program.result kv (openMeta info initialVersion later) left = .ok found ∧
      Meta.read (Program.final kv (openMeta info initialVersion later) left) = .ok (some found) ∧
      (Program.result kv (openMeta info initialVersion now) ∅ = .ok found ∨
        Program.result kv (openMeta info initialVersion later) ∅ = .ok found)

structure Open (store : Namespace) (found : Meta) : Prop where
  reads : Meta.read store = .ok (some found)
  opens : ∀ (info : ComponentInfo) (initialVersion : UInt32) (later : UInt64),
    info.validate = .ok () → initialVersion ≠ 0 → found.component = info.id →
    Program.result kv (openMeta info initialVersion later) store =
        .ok { found with componentVersion := info.version } ∧
      Meta.read (Program.final kv (openMeta info initialVersion later) store) =
        .ok (some { found with componentVersion := info.version })

structure StaysOpen (store : Namespace) (found : Meta) (stop : ℕ) : Prop where
  committed : ∀ version now,
    Open (Core.Change.applyAll ((Meta.schemaWrites version now).take stop) store)
      { found with schemaVersion := if 0 < stop then version else found.schemaVersion }
  signed : ∀ (next : Meta) (now : UInt64), next.Valid →
    Open (Core.Change.applyAll ((next.writes now).take stop) store) (found.partly next stop)

theorem open_of_read {found : Meta} (hread : Meta.read store = .ok (some found)) :
    Open store found :=
  ⟨hread, fun _ _ _ hvld hinit hown => openMeta_found hvld hinit hread hown⟩

theorem StaysOpen.of_read {found : Meta} (hread : Meta.read store = .ok (some found))
    (stop : ℕ) : StaysOpen store found stop :=
  ⟨fun version _ => open_of_read (Meta.read_committed hread version stop),
    fun _ _ hvld => open_of_read (Meta.read_partly hread hvld stop)⟩

theorem read_empty : Meta.read ∅ = .ok none := by
  decide

theorem userKeys_empty : userKeys ∅ = [] := by
  rw [userKeys, toList_eq_nil_iff.mpr rfl]
  rfl

/-- What a first opening has written when it is stopped. -/
theorem get_unfinished (fresh : Meta) (index stop : ℕ) (hidx : index < 7) :
    Namespace.get (Core.Change.applyAll ((fresh.writes now).take stop) ∅)
        ((fresh.writes now).get ⟨index, hidx⟩).key =
      if index < stop then ((fresh.writes now).get ⟨index, hidx⟩).value else none := by
  have hndp : ((fresh.writes now).map Core.Change.key).Nodup := by
    rw [metaKeys_of_writes]
    decide
  refine (@Core.Change.getElem?_applyAll_take _ _ _ _ _ _ (fresh.writes now) ∅ hndp
    index hidx stop).trans ?_
  rfl

theorem read_unfinished (fresh : Meta) {stop : ℕ} (hstad : 0 < stop) (hstp : stop < 6)
    (read : Option Meta) :
    Meta.read (Core.Change.applyAll ((fresh.writes now).take stop) ∅) ≠ .ok read := by
  intro hread
  have hsch := @get_unfinished now fresh 0 stop (by decide)
  have hcre := @get_unfinished now fresh 5 stop (by decide)
  rw [if_pos hstad] at hsch
  rw [if_neg (Nat.not_lt.mpr (Nat.le_of_lt_succ hstp))] at hcre
  cases read with
  | none =>
    cases (Meta.schema_of_read_none hread).symm.trans hsch
  | some found =>
    obtain ⟨raw, hraw, -⟩ := Meta.number_ok_iff.mp (Meta.read_some_iff.mp hread).1.created
    exact Meta.get_of_text hraw hcre

/-- A first opening that has written the time of creation is as good as done. -/
theorem read_finished {fresh : Meta} (hvld : fresh.Valid) {stop : ℕ} (hstop : 6 ≤ stop) :
    Meta.read (Core.Change.applyAll ((fresh.writes now).take stop) ∅) =
      .ok (some fresh) := by
  rw [← Meta.read_written hvld now ∅]
  have hget : ∀ (index : ℕ) (hidx : index < 6),
      Namespace.get (Core.Change.applyAll ((fresh.writes now).take stop) ∅)
          ((fresh.writes now).get ⟨index, Nat.lt_succ_of_lt hidx⟩).key =
        Namespace.get (Core.Change.applyAll (fresh.writes now) ∅)
          ((fresh.writes now).get ⟨index, Nat.lt_succ_of_lt hidx⟩).key := by
    intro index hidx
    have hall := @get_unfinished now fresh index 7 (Nat.lt_succ_of_lt hidx)
    rw [if_pos (Nat.lt_succ_of_lt hidx)] at hall
    rw [get_unfinished, if_pos (Nat.lt_of_lt_of_le hidx hstop)]
    exact hall.symm
  apply Meta.read_congr
  intro key hkey
  simp only [identityKeys, mem_cons, not_mem_nil, or_false] at hkey
  rcases hkey with rfl | rfl | rfl | rfl | rfl | rfl
  · exact hget 0 (by decide)
  · exact hget 1 (by decide)
  · exact hget 2 (by decide)
  · exact hget 3 (by decide)
  · exact hget 5 (by decide)
  · exact hget 4 (by decide)

theorem open_survives_iff (hvalid : info.validate = .ok ()) (hinitial : initialVersion ≠ 0)
    (stop : ℕ) :
    (Reopens info initialVersion now
        (Program.stopped kv (openMeta info initialVersion now) stop ∅) ↔ stop = 0 ∨ 6 ≤ stop) ∧
      ∀ store found, Meta.read store = .ok (some found) → StaysOpen store found stop := by
  obtain ⟨hwrites, hresult⟩ := @openMeta_fresh info initialVersion now ∅ hvalid hinitial read_empty
    userKeys_empty
  refine ⟨?_, fun store found hread => StaysOpen.of_read hread stop⟩
  rw [Program.stopped, hwrites]
  constructor
  · intro hreopens
    by_contra hneither
    rw [not_or, Nat.not_le] at hneither
    obtain ⟨read, hread⟩ := hreopens.reads
    exact read_unfinished _ (Nat.pos_of_ne_zero hneither.1) hneither.2 read hread
  rintro (rfl | hfinished)
  · refine ⟨⟨none, read_empty⟩, fun later => ?_⟩
    obtain ⟨hagain, hopened⟩ := @openMeta_fresh info initialVersion later ∅ hvalid hinitial
      read_empty userKeys_empty
    refine ⟨_, hopened, ?_, .inr hopened⟩
    rw [take_zero, Machine.applyAll_nil, Program.final, hagain]
    have hfresh : (info.fresh initialVersion later).Valid := hvalid
    exact Meta.read_written hfresh later ∅
  · have hfresh : (info.fresh initialVersion now).Valid := hvalid
    have hread := @read_finished now _ hfresh stop hfinished
    refine ⟨⟨_, hread⟩, fun later => ?_⟩
    obtain ⟨hopened, hagain⟩ := @openMeta_found info initialVersion later _ _ hvalid hinitial hread
      rfl
    exact ⟨_, hopened, hagain, .inl hresult⟩

end Opens

/-- A first opening of the notes, and notes that are there. -/
theorem open_survives_notes :
    (Reopens Notes.info 1 5 (Program.stopped kv (openMeta Notes.info 1 5) 6 ∅) ↔
        6 = 0 ∨ 6 ≤ 6) ∧ StaysOpen Notes.notes (Notes.named 1) 6 := by
  obtain ⟨hopening, hsettled⟩ := @open_survives_iff Notes.info 1 5 (by decide) (by decide) 6
  exact ⟨hopening, hsettled Notes.notes (Notes.named 1) (by decide +kernel)⟩

/-- Stopped after the first of its writes, the opening leaves a namespace that neither
reads nor opens again. -/
theorem open_corrupted :
    Meta.read (Program.stopped kv (openMeta Notes.info 1 5) 1 ∅) =
        .error (.corrupt "meta component is missing") ∧
      Program.result kv (openMeta Notes.info 1 6)
          (Program.stopped kv (openMeta Notes.info 1 5) 1 ∅) =
        .error (.corrupt "meta component is missing") := by
  decide +kernel

end WasmAgent.State
