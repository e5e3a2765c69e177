import WasmAgent.Core.Maps
import WasmAgent.State.Loading
import WasmAgent.State.Outcomes
import WasmAgent.State.Records

/-!
# Steps and the engine's own keys

A step as a program over the operations of a batch, which it may follow with whatever
it reads.  An insertion refuses the keys of the engine; a move of a prefix composes
its new keys without a look at them.  A step leaves those keys alone exactly when each
of them that it composes is taken away again before it ends.
-/

namespace WasmAgent.State

open List Option Std WasmAgent.Core

/-- A step, operation by operation; it sees how each one went. -/
inductive StepProgram where
  | done (outcome : Except Error Unit)
  | iter (next : List (Bytes × Bytes) → StepProgram)
  | insert (key value : Bytes) (next : Except Error (Option Bytes) → StepProgram)
  | remove (key : Bytes) (next : Option Bytes → StepProgram)
  | renamePrefix (source target : Bytes) (next : Except Error ℕ → StepProgram)

namespace Batch

/-- The moves of a prefix: old key, new key, value. -/
def moves (batch : Batch) (source target : Bytes) : List (Bytes × Bytes × Bytes) :=
  (batch.withPrefix source).map (fun entry =>
    (entry.1, target ++ entry.1.drop source.length, entry.2))

def insertChanges (batch : Batch) (key value : Bytes) : List Change :=
  match (batch.insert key value).2 with
  | .ok _ => [.put key value]
  | .error _ => []

def moveChanges : List (Bytes × Bytes × Bytes) → List Change
  | [] => []
  | (old, new, value) :: moves =>
      match checkSize new (some value) with
      | .error _ => [.del old]
      | .ok () => .del old :: .put new value :: moveChanges moves

def renameChanges (batch : Batch) (source target : Bytes) : List Change :=
  if isReserved source || isReserved target then []
  else moveChanges (batch.moves source target)

end Batch

namespace StepProgram

def run : StepProgram → StepFn
  | done outcome, batch => (batch, outcome)
  | iter next, batch => (next batch.iter).run batch
  | insert key value next, batch =>
      (next (batch.insert key value).2).run (batch.insert key value).1
  | remove key next, batch => (next (batch.remove key).2).run (batch.remove key).1
  | renamePrefix source target next, batch =>
      (next (batch.renamePrefix source target).2).run (batch.renamePrefix source target).1

def footprint : StepProgram → Batch → List Change
  | done _, _ => []
  | iter next, batch => (next batch.iter).footprint batch
  | insert key value next, batch =>
      batch.insertChanges key value ++
        (next (batch.insert key value).2).footprint (batch.insert key value).1
  | remove key next, batch =>
      .del key :: (next (batch.remove key).2).footprint (batch.remove key).1
  | renamePrefix source target next, batch =>
      batch.renameChanges source target ++
        (next (batch.renamePrefix source target).2).footprint (batch.renamePrefix source target).1

end StepProgram

section Footprints

variable {batch : Batch}

theorem Batch.insert_entries (key value : Bytes) :
    (batch.insert key value).1.entries =
      Core.Change.applyAll (batch.insertChanges key value) batch.entries := by
  rw [Batch.insertChanges, Batch.insert]
  split
  · rfl
  · split <;> rfl

theorem Batch.moveAll_entries (moves : List (Bytes × Bytes × Bytes)) :
    (batch.moveAll moves).1.entries =
      Core.Change.applyAll (Batch.moveChanges moves) batch.entries := by
  induction moves generalizing batch with
  | nil => rfl
  | cons move moves ih =>
    rw [Batch.moveAll, Batch.moveChanges]
    split
    · next fault hsize =>
      rw [hsize]
      rfl
    rename_i hsize
    rw [ih]
    change Core.Change.applyAll _ ((batch.entries.erase _).insert _ _) = _
    rw [hsize]
    rfl

theorem Batch.renamePrefix_entries (source target : Bytes) :
    (batch.renamePrefix source target).1.entries =
      Core.Change.applyAll (batch.renameChanges source target) batch.entries := by
  rw [Batch.renamePrefix, Batch.renameChanges]
  split
  · rfl
  · exact Batch.moveAll_entries _

theorem StepProgram.run_entries (program : StepProgram) :
    (program.run batch).1.entries =
      Core.Change.applyAll (program.footprint batch) batch.entries := by
  induction program generalizing batch with
  | done outcome => rfl
  | iter next ih => exact ih _
  | insert key value next ih =>
    rw [run, footprint, ih, Batch.insert_entries, ← Core.Change.applyAll_append]
  | remove key next ih => exact ih _
  | renamePrefix source target next ih =>
    rw [run, footprint, ih, Batch.renamePrefix_entries, ← Core.Change.applyAll_append]

end Footprints

/-- Every key of the engine's own that the step composes is taken away again. -/
def Withdraws (program : StepProgram) (batch : Batch) : Prop :=
  ∀ key, isReserved key = true → Core.Change.Withdrawn key (program.footprint batch)

/-- None of a step's changes is of a key of the engine's own. -/
def LeavesReserved (before after : Batch) : Prop :=
  ∀ change ∈ (diff before after).2, isReserved change.key = false

section Steps

variable {before after : Batch}

theorem leavesReserved_iff (hbef : Plain before.entries) :
    LeavesReserved before after ↔ Plain after.entries := by
  constructor
  · intro hleav key value hent
    by_contra hrsv
    have hoth : before.entries[key]? ≠ after.entries[key]? := by
      intro hsame
      rw [hent] at hsame
      exact hrsv (hbef key value hsame)
    obtain ⟨change, hchg, hkey⟩ := List.mem_map.mp (Core.Change.mem_keys_difference.mpr hoth)
    rw [← hkey] at hrsv
    exact hrsv (hleav change hchg)
  · intro haft
    exact plain_diff hbef haft

theorem plain_run_iff (program : StepProgram) (hbef : Plain before.entries) :
    Plain (program.run before).1.entries ↔ Withdraws program before := by
  have habs : ∀ key, isReserved key = true → before.entries[key]? = none := by
    intro key hrsv
    apply eq_none_iff_forall_ne_some.mpr
    intro value hent
    rw [hbef key value hent] at hrsv
    cases hrsv
  have hgone : ∀ key, isReserved key = true →
      ((program.run before).1.entries[key]? = none ↔
        Core.Change.Withdrawn key (program.footprint before)) := by
    intro key hrsv
    rw [program.run_entries, Core.Change.getElem?_applyAll_eq_none]
    exact and_iff_right (.inl (habs key hrsv))
  constructor
  · intro hpln key hrsv
    rw [← hgone key hrsv]
    apply eq_none_iff_forall_ne_some.mpr
    intro value hent
    rw [hpln key value hent] at hrsv
    cases hrsv
  intro hwit key value hent
  by_contra hoth
  have hrsv : isReserved key = true := Bool.not_eq_false _ ▸ hoth
  rw [(hgone key hrsv).mpr (hwit key hrsv)] at hent
  cases hent

end Steps

def StepProgram.NoMoves : StepProgram → Prop
  | done _ => True
  | iter next => ∀ entries, (next entries).NoMoves
  | insert _ _ next => ∀ outcome, (next outcome).NoMoves
  | remove _ next => ∀ value, (next value).NoMoves
  | renamePrefix _ _ _ => False

theorem Batch.mem_insertChanges {batch : Batch} {key value : Bytes} {change : Change}
    (hchg : change ∈ batch.insertChanges key value) : isReserved change.key = false := by
  rw [Batch.insertChanges, Batch.insert] at hchg
  split at hchg
  · next hok =>
    rw [mem_singleton] at hchg
    rw [hchg]
    split at hok
    · cases hok
    · next hkey => exact Bool.eq_false_iff.mpr hkey
  · cases hchg

theorem StepProgram.NoMoves.withdraws {program : StepProgram} (hmoves : program.NoMoves)
    (batch : Batch) : Withdraws program batch := by
  intro key hrsv
  apply Core.Change.withdrawn_of_forall
  intro change hchg hkey
  induction program generalizing batch with
  | done outcome => cases hchg
  | iter next ih => exact ih _ (hmoves _) batch hchg
  | insert own value next ih =>
    rcases mem_append.mp hchg with hins | hrest
    · have hpln := Batch.mem_insertChanges hins
      rw [hkey, hrsv] at hpln
      cases hpln
    · exact ih _ (hmoves _) _ hrest
  | remove own next ih =>
    rcases mem_cons.mp hchg with rfl | hrest
    · rfl
    · exact ih _ (hmoves _) _ hrest
  | renamePrefix source target next ih => exact hmoves.elim

structure Built (registry : Registry) (up down : UInt32 → StepProgram) : Prop where
  up : ∀ version step, registry.step version = some step → step.up = (up version).run
  down : ∀ version step, registry.step version = some step →
    ∀ back, step.down = some back → back = (down version).run

def PlannedStep.program (up down : UInt32 → StepProgram) (planned : PlannedStep) : StepProgram :=
  match planned.direction with
  | .up => up planned.step.fromVersion
  | .down => down planned.step.fromVersion

section Paths

variable {registry : Registry} {up down : UInt32 → StepProgram} {planned : PlannedStep}
  {batch next : Batch} {steps : List PlannedStep}

theorem Built.apply_eq (hbuilt : Built registry up down) (hofs : registry.Offers planned) :
    planned.apply batch = (planned.program up down).run batch := by
  have hstep := hofs.step
  have hback := hofs.down
  obtain ⟨step, direction⟩ := planned
  cases direction with
  | up =>
    change step.up batch = _
    rw [hbuilt.up _ step hstep]
    rfl
  | down =>
    obtain ⟨back, hdown⟩ := isSome_iff_exists.mp (hback rfl)
    change step.applyDown batch = _
    rw [Step.applyDown, hdown, hbuilt.down _ step hstep back hdown]
    rfl

theorem PlannedStep.of_next (hnext : planned.next batch = .ok next) :
    (planned.apply batch).1 = next := by
  rw [PlannedStep.next] at hnext
  split at hnext
  · next happly =>
    rw [happly]
    exact Except.ok.inj hnext
  · cases hnext

theorem along_leavesReserved_iff (hbat : Plain batch.entries) :
    Along (fun _ before after => LeavesReserved before after) steps batch ↔
      Along (fun _ _ after => Plain after.entries) steps batch := by
  induction steps generalizing batch with
  | nil => exact Iff.rfl
  | cons planned rest ih =>
    apply forall_congr'
    intro next
    apply forall_congr'
    intro _
    change LeavesReserved batch next ∧ _ ↔ Plain next.entries ∧ _
    rw [leavesReserved_iff hbat]
    apply and_congr_right
    intro hpln
    exact ih hpln

theorem along_plain_iff (hbuilt : Built registry up down)
    (hofs : ∀ planned ∈ steps, registry.Offers planned) (hbat : Plain batch.entries) :
    Along (fun _ _ after => Plain after.entries) steps batch ↔
      Along (fun planned before _ => Withdraws (planned.program up down) before) steps batch := by
  induction steps generalizing batch with
  | nil => exact Iff.rfl
  | cons planned rest ih =>
    have hhead := hofs planned mem_cons_self
    have hrest := fun other hoth => hofs other (mem_cons_of_mem planned hoth)
    apply forall_congr'
    intro next
    apply forall_congr'
    intro hnext
    have hrun : ((planned.program up down).run batch).1 = next := by
      rw [← hbuilt.apply_eq hhead]
      exact PlannedStep.of_next hnext
    have hpln := plain_run_iff (planned.program up down) hbat
    rw [hrun] at hpln
    change Plain next.entries ∧ _ ↔ Withdraws (planned.program up down) batch ∧ _
    rw [← hpln]
    apply and_congr_right
    intro haft
    exact ih hrest haft

end Paths

section Plain

variable {migrator : Migrator} {store : Namespace} {start progress : Migrator.Progress}

theorem Batch.plain_insert {batch : Batch} {key value : Bytes} (hpln : Plain batch.entries) :
    Plain (batch.insert key value).1.entries := by
  rw [Batch.insert]
  split
  · exact hpln
  rename_i hkey
  split
  · exact hpln
  intro other found hent
  change (batch.entries.insert key value)[other]? = some found at hent
  rcases getElem?_insert_cases hent with ⟨rfl, -⟩ | ⟨-, hold⟩
  · exact Bool.eq_false_iff.mpr hkey
  · exact hpln other found hold

theorem Batch.plain_drop {batch : Batch} {key : Bytes} (hpln : Plain batch.entries) :
    Plain (batch.drop key).entries := by
  intro other found hent
  change (batch.entries.erase key)[other]? = some found at hent
  rw [ExtTreeMap.getElem?_erase] at hent
  split at hent
  · cases hent
  · exact hpln other found hent

theorem plain_applyToBatch {changes : List Change} {batch after : Batch} {counts counted : ChangeCounts}
    (hpln : Plain batch.entries)
    (hok : applyToBatch changes batch counts = .ok (after, counted)) : Plain after.entries := by
  induction changes generalizing batch counts with
  | nil =>
    cases hok
    exact hpln
  | cons change changes ih =>
    cases change with
    | put key value =>
      rw [applyToBatch] at hok
      have hgrown := @Batch.plain_insert batch key value hpln
      cases hins : batch.insert key value with
      | mk inserted outcome =>
        rw [hins] at hok hgrown
        cases outcome with
        | error fault =>
          dsimp only at hok
          split at hok
          · cases hok
          · split at hok
            · cases hok
            · exact ih hpln hok
        | ok previous =>
          dsimp only at hok
          split at hok
          · exact ih hgrown hok
          · split at hok
            · exact ih hgrown hok
            · exact ih hpln hok
    | del key =>
      rw [applyToBatch] at hok
      split at hok
      · exact ih (Batch.plain_drop hpln) hok
      · exact ih hpln hok

theorem plain_finish (hsta : Plain start.batch.entries)
    (hfns : migrator.finishOutcome store start = .ok progress) : Plain progress.batch.entries := by
  obtain ⟨found, -, hfns⟩ := bind_eq_ok.mp hfns
  cases found with
  | none =>
    cases hfns
    exact hsta
  | some journal =>
    change migrator.pickUpOutcome store journal start = _ at hfns
    rw [Migrator.pickUpOutcome] at hfns
    split at hfns
    · next pending _ =>
      obtain ⟨resumed, hrsm, hfns⟩ := bind_eq_ok.mp hfns
      cases hfns
      change Plain resumed.batch.entries
      obtain ⟨step, -, hrsm⟩ := bind_eq_ok.mp hrsm
      obtain ⟨changes, -, hrsm⟩ := bind_eq_ok.mp hrsm
      obtain ⟨known, -, hrsm⟩ := bind_eq_ok.mp hrsm
      cases known with
      | none => cases hrsm
      | some known =>
        dsimp only at hrsm
        split at hrsm
        · cases hrsm
          exact hsta
        split at hrsm
        · cases hrsm
        · obtain ⟨replayed, hrpd, hrsm⟩ := bind_eq_ok.mp hrsm
          cases hrsm
          exact plain_applyToBatch hsta hrpd
    · cases hfns
      exact hsta

end Plain

/-- Whatever operations its steps are made of, a migration's path changes no key of the
engine's own exactly where each of its steps withdraws every such key that it composes. -/
theorem path_leavesReserved_iff (migrator : Migrator) (up down : UInt32 → StepProgram)
    (hbuilt : Built migrator.registry up down) (target : UInt32) (store : Namespace)
    (start progress : Migrator.Progress) (hstart : start.batch.entries = store.user)
    (hfinish : migrator.finishOutcome store start = .ok progress) (steps : List PlannedStep)
    (hplan : migrator.plan progress.version target = .ok steps) :
    Along (fun _ before after => validateChanges (diff before after).2 = .ok () →
        LeavesReserved before after) steps progress.batch ↔
      Along (fun planned before _ => Withdraws (planned.program up down) before) steps
        progress.batch := by
  have hplain : Plain start.batch.entries := by
    rw [hstart]
    exact Namespace.plain_user store
  have hbatch := plain_finish hplain hfinish
  rw [← along_plain_iff hbuilt (Registry.plan_offers hplan) hbatch,
    ← along_leavesReserved_iff hbatch]
  constructor
  · intro hvalid
    apply hvalid.weaken
    intro planned _ before after hleaves
    exact hleaves (validateChanges_ok fits_diff)
  intro hleaves
  apply hleaves.weaken
  intro planned _ before after hkept _
  exact hkept

namespace Notes

/-! A component with one step from its first version, up and down. -/

def info : ComponentInfo :=
  ⟨"notes", "1.0.0", "e3b0c44298fc1c149afbf4c8996fb92427ae41e4649b934ca495991b7852b855"⟩

def named (version : UInt32) : Meta := ⟨version, info.id, info.version, info.sha256, 1, 1⟩

def store (version : UInt32) (entries : List (Bytes × Bytes)) : Namespace :=
  Core.Change.applyAll
    (entries.map (fun entry => .put entry.1 entry.2) ++ (named version).writes 1) ∅

variable (up down : StepProgram)

def step : Step := ⟨1, "rewrite", up.run, some down.run⟩

def registry : Registry := Registry.empty.add (step up down) (by decide : (1 : UInt32) ≠ 0)

def migrator : Migrator := ⟨Records.crates, registry up down, info, .default, fun _ _ => .ok ()⟩

theorem registry_step (version : UInt32) :
    (registry up down).step version = if version = 1 then some (step up down) else none := by
  change ((∅ : ExtTreeMap UInt32 Step).insert 1 (step up down))[version]? = _
  rw [ExtTreeMap.getElem?_insert, ExtTreeMap.getElem?_empty]
  apply ite_congr
  · rw [LawfulEqCmp.compare_eq_iff_eq]
    exact propext eq_comm
  · intro _
    rfl
  · intro _
    rfl

theorem built : Built (registry up down) (fun _ => up) (fun _ => down) := by
  constructor
  · intro version found hfnd
    rw [registry_step] at hfnd
    split at hfnd
    · cases hfnd
      rfl
    · cases hfnd
  intro version found hfnd back hback
  rw [registry_step] at hfnd
  split at hfnd
  · cases hfnd
    cases hback
    rfl
  · cases hfnd

/-- Write one value under two keys. -/
def rewrite (value : Bytes) : StepProgram :=
  .insert (utf8 "a") value fun _ => .insert (utf8 "b") value fun _ => .done (.ok ())

/-- Move a prefix next to that of the engine, and with it a key under the engine's own. -/
def forge : StepProgram :=
  .renamePrefix (utf8 "m") (utf8 "__w") fun outcome => .done (outcome.map fun _ => ())

theorem rewrite_noMoves (value : Bytes) : (rewrite value).NoMoves :=
  fun _ _ => trivial

/-- What `forge` moves to where the schema version is. -/
def bait : List (Bytes × Bytes) := [(utf8 "ma/meta/schema", utf8 "9")]

/-- What `forge` moves to a key of the host. -/
def hostBait : List (Bytes × Bytes) := [(utf8 "ma/host", utf8 "9")]

end Notes

namespace Notes

theorem plan_up (value : Bytes) :
    (migrator (rewrite value) (rewrite value)).plan 1 2 =
      .ok [⟨step (rewrite value) (rewrite value), .up⟩] := by
  refine (Registry.plan_up_cons (by decide)).mpr ⟨⟨?_, rfl⟩, Registry.plan_self⟩
  rw [migrator, registry_step]
  rfl

theorem finishOutcome_none {migrator : Migrator} {store : Namespace} {start : Migrator.Progress}
    (hjrn : store.get Key.journal = none) : migrator.finishOutcome store start = .ok start := by
  rw [Migrator.finishOutcome, readJournal, hjrn]
  rfl

end Notes

/-- The step that only inserts, from a namespace that holds one of its keys. -/
theorem path_leavesReserved_rewrite :
    ∃ batch, Batch.load 64 (Notes.store 1 [(utf8 "a", utf8 "1")]) = .ok batch ∧
      (Along (fun _ before after => validateChanges (diff before after).2 = .ok () →
          LeavesReserved before after)
          [⟨Notes.step (Notes.rewrite (utf8 "2")) (Notes.rewrite (utf8 "2")), .up⟩] batch ↔
        Along (fun planned before _ => Withdraws (planned.program
            (fun _ => Notes.rewrite (utf8 "2")) (fun _ => Notes.rewrite (utf8 "2"))) before)
          [⟨Notes.step (Notes.rewrite (utf8 "2")) (Notes.rewrite (utf8 "2")), .up⟩] batch) := by
  obtain ⟨batch, hload⟩ : ∃ batch,
      Batch.load 64 (Notes.store 1 [(utf8 "a", utf8 "1")]) = .ok batch := by
    apply ok_of_isSome
    decide +kernel
  exact ⟨batch, hload, path_leavesReserved_iff
    (Notes.migrator (Notes.rewrite (utf8 "2")) (Notes.rewrite (utf8 "2"))) _ _ (Notes.built _ _) 2
    (Notes.store 1 [(utf8 "a", utf8 "1")]) ⟨1, batch, .start 1 2 false none⟩ _
    (Batch.entries_of_load hload) (Notes.finishOutcome_none (by decide +kernel)) _
    (Notes.plan_up _)⟩

/-- A step that moves a prefix writes the schema version, and a crash leaves it there. -/
theorem forge_writes_reserved :
    (∃ report, Program.result kv ((Notes.migrator Notes.forge Notes.forge).migrate 2 5)
        (Notes.store 1 Notes.bait) = .ok report) ∧
      (Meta.read (Program.stopped kv ((Notes.migrator Notes.forge Notes.forge).migrate 2 5) 3
        (Notes.store 1 Notes.bait))).map (Option.map Meta.schemaVersion) = .ok (some 9) := by
  constructor
  · apply ok_of_isSome
    decide +kernel
  · decide +kernel

end WasmAgent.State
