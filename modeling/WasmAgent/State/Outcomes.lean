import WasmAgent.State.Migrate
import WasmAgent.State.Paths

/-!
# What a migration comes to

The writes of a migration cannot fail, so whether it ends well, and with which
report, is read off the store it starts from.  A migration that runs a journal
over, and walks its path, comes to what is computed here without a write.
-/

namespace WasmAgent.State

open Std WasmAgent.Core

section Writes

variable {store : Namespace}

theorem writeAll_result (changes : List Change) :
    Program.result kv (writeAll changes) store = .ok () := by
  induction changes generalizing store with
  | nil => rfl
  | cons change changes ih =>
    rw [writeAll, Fallible.result_bind, Fallible.result_write]
    exact ih

theorem writeAll_final (changes : List Change) :
    Program.final kv (writeAll changes) store = Core.Change.applyAll changes store := by
  induction changes generalizing store with
  | nil => rfl
  | cons change changes ih =>
    rw [writeAll, Fallible.final_bind_of_ok kv _ (Fallible.result_write kv change store)]
    exact ih

end Writes

namespace Migrator

variable {migrator : Migrator} {store : Namespace}

theorem applyChanges_result (total : ℕ) (journal : Journal) (done : ℕ) (changes : List Change) :
    Program.result kv (migrator.applyChanges total journal done changes) store = .ok () := by
  induction changes generalizing store journal done with
  | nil => rfl
  | cons change changes ih =>
    rw [applyChanges, Fallible.result_bind, Fallible.result_write]
    change Program.result kv _ _ = _
    split
    · rw [Fallible.result_bind]
      exact ih _ _
    · exact ih _ _

variable (journal : Journal)

theorem replay_result (applied : ℕ) (toVersion : UInt32) (now : UInt64) (changes : List Change) :
    Program.result kv (migrator.replay journal applied toVersion now changes) store = .ok () := by
  rw [replay, Fallible.result_bind, writeJournal, Fallible.result_write]
  change Program.result kv _ _ = _
  rw [Fallible.result_bind, applyChanges_result]
  change Program.result kv _ _ = _
  rw [Fallible.result_bind, Meta.setSchemaVersion, writeAll_result]
  exact writeAll_result _

def resumeOutcome (migrator : Migrator) (store : Namespace) (pending : PendingStep)
    (progress : Progress) : Except Error Progress := do
  let step ← migrator.resumedStep pending
  let changes ← pendingChanges "pending changes are missing; restore the pre-migration snapshot"
    store
  match ← Meta.read store with
  | none => throw (.uninitialised 0)
  | some found =>
      if found.schemaVersion = pending.toVersion then
        return { progress with version := found.schemaVersion }
      else if found.schemaVersion ≠ pending.fromVersion then
        throw (.journalInconsistent
          s!"state is at v{found.schemaVersion} but the journal expects v{pending.fromVersion} or v{pending.toVersion}; restore the pre-migration snapshot")
      else do
        let (batch, counts) ← applyToBatch (changes.drop (min pending.applied changes.length))
          progress.batch .zero
        return {
          version := pending.toVersion
          batch := batch
          report := progress.report.push
            ⟨pending.fromVersion, pending.toVersion, step.name, counts, true⟩ }

theorem resume_result (pending : PendingStep) (now : UInt64) (progress : Progress) :
    Program.result kv (migrator.resume journal pending now progress) store =
      migrator.resumeOutcome store pending progress := by
  rw [resume, resumeOutcome, Fallible.result_bind, Fallible.result_check]
  cases migrator.resumedStep pending with
  | error fault => rfl
  | ok step =>
    rw [ok_bind]
    change Program.result kv _ _ = _
    rw [Fallible.result_bind, Fallible.result_tryAsk, Fallible.final_check]
    change Except.bind (pendingChanges _ store) _ = _
    cases pendingChanges "pending changes are missing; restore the pre-migration snapshot" store with
    | error fault => rfl
    | ok changes =>
      rw [ok_bind]
      change Program.result kv _ _ = _
      rw [Fallible.result_bind, Fallible.result_tryAsk, Fallible.final_tryAsk]
      change Except.bind (Meta.read store) _ = _
      cases Meta.read store with
      | error fault => rfl
      | ok found =>
        rw [ok_bind]
        change Program.result kv _ _ = _
        cases found with
        | none => rfl
        | some found =>
          dsimp only
          split
          · rw [Fallible.result_bind, clearJournal, writeAll_result]
            rfl
          split
          · rfl
          rw [Fallible.result_bind, Fallible.result_check]
          cases applyToBatch (changes.drop (min pending.applied changes.length))
            progress.batch .zero with
          | error fault => rfl
          | ok replayed =>
            change Program.result kv _ _ = _
            rw [Fallible.result_bind, replay_result]
            rfl

theorem clearJournal_result : Program.result kv clearJournal store = .ok () := writeAll_result _

theorem clearJournal_clears : (Program.final kv clearJournal store).get Key.journal = none := by
  rw [clearJournal, writeAll_final, Core.Change.applyAll_cons,
    Core.Change.applyAll_cons, Core.Change.applyAll_nil, Namespace.get_apply]
  refine (if_neg (show Key.pending ≠ Key.journal by decide)).trans ?_
  rw [Namespace.get_apply]
  exact if_pos rfl

def Clears (program : Call Progress) (store : Namespace) : Prop :=
  Survives kv (fun _ => True) (IfOk (fun _ final => final.get Key.journal = none)) program store

theorem clears_of_clearJournal (progress : Progress) :
    Clears (do clearJournal; return progress) store := by
  refine ⟨fun _ => trivial, fun _ _ => ?_⟩
  rw [Fallible.final_bind_of_ok kv _ clearJournal_result]
  exact clearJournal_clears

theorem replay_clears (applied : ℕ) (toVersion : UInt32) (now : UInt64) (changes : List Change) :
    (Program.final kv (migrator.replay journal applied toVersion now changes) store).get
      Key.journal = none := by
  rw [replay, writeJournal, Fallible.final_bind_of_ok kv _ (Fallible.result_write kv _ _),
    Fallible.final_bind_of_ok kv _ (applyChanges_result _ _ _ _), Meta.setSchemaVersion,
    Fallible.final_bind_of_ok kv _ (writeAll_result _)]
  exact clearJournal_clears

theorem resume_clears (pending : PendingStep) (now : UInt64)
    (progress : Progress) : Clears (migrator.resume journal pending now progress) store := by
  apply Survives.checkBind trivial (fun fault _ => IfOk.failed fault _)
  intro step _
  apply Survives.tryAskBind trivial (fun fault _ => IfOk.failed fault _)
  intro changes _
  apply Survives.tryAskBind trivial (fun fault _ => IfOk.failed fault _)
  intro found _
  cases found with
  | none => exact Survives.throw trivial (IfOk.failed _ _)
  | some found =>
    dsimp only
    split
    · exact clears_of_clearJournal _
    split
    · exact Survives.throw trivial (IfOk.failed _ _)
    apply Survives.checkBind trivial (fun fault _ => IfOk.failed fault _)
    intro replayed _
    refine ⟨fun _ => trivial, fun _ _ => ?_⟩
    rw [Fallible.final_bind_of_ok kv _ (replay_result _ _ _ _ _)]
    exact replay_clears _ _ _ _ _

def pickUpOutcome (migrator : Migrator) (store : Namespace) (journal : Journal)
    (progress : Progress) : Except Error Progress :=
  match journal.pendingStep with
  | some pending => do
      let progress ← migrator.resumeOutcome store pending progress
      return { progress with report := { progress.report with resumed := true } }
  | none => .ok progress

/-- What finishing an earlier run comes to. -/
def finishOutcome (migrator : Migrator) (store : Namespace) (progress : Progress) :
    Except Error Progress := do
  match ← readJournal migrator.crates store with
  | none => return progress
  | some journal => migrator.pickUpOutcome store journal progress

variable (now : UInt64) (progress : Progress)

theorem pickUp_result :
    Program.result kv (migrator.pickUp journal now progress) store =
      migrator.pickUpOutcome store journal progress := by
  rw [pickUp, pickUpOutcome]
  cases journal.pendingStep with
  | none =>
    dsimp only
    rw [Fallible.result_bind, clearJournal_result]
    rfl
  | some pending =>
    dsimp only
    rw [Fallible.result_bind, resume_result]
    cases migrator.resumeOutcome store pending progress with
    | error fault => rfl
    | ok resumed => rfl

theorem finish_result :
    Program.result kv (migrator.finish now progress) store =
      migrator.finishOutcome store progress := by
  rw [finish, finishOutcome, Fallible.result_bind, Fallible.result_tryAsk]
  change Except.bind (readJournal migrator.crates store) _ = _
  cases readJournal migrator.crates store with
  | error fault => rfl
  | ok journal =>
    rw [ok_bind]
    change Program.result kv _ _ = _
    cases journal with
    | none => rfl
    | some journal => exact pickUp_result journal now progress

theorem pickUp_clears : Clears (migrator.pickUp journal now progress) store := by
  unfold Clears
  rw [pickUp]
  cases journal.pendingStep with
  | none => exact clears_of_clearJournal progress
  | some pending =>
    apply Survives.okBind
    apply (resume_clears journal pending now progress).weaken
    intro outcome final hclear resumed hrsm
    exact Survives.pure trivial (IfOk.ok (hclear resumed hrsm))

theorem finish_clears : Clears (migrator.finish now progress) store := by
  apply Survives.tryAskBind trivial (fun fault _ => IfOk.failed fault _)
  intro journal hjrn
  cases journal with
  | none =>
    apply Survives.pure trivial
    apply IfOk.ok
    change readJournal migrator.crates store = .ok none at hjrn
    rw [readJournal] at hjrn
    split at hjrn
    · next hnone => exact hnone
    · split at hjrn
      · cases hjrn
      · split at hjrn <;> cases hjrn
  | some journal => exact pickUp_clears journal now progress

theorem dropStray_result (hjrn : store.get Key.journal = none) :
    Program.result kv migrator.dropStray store = .ok () := by
  have hread : readJournal migrator.crates store = .ok none := by
    rw [readJournal, hjrn]
  rw [dropStray, Fallible.result_bind]
  change Program.result kv _ _ = _
  split
  · rw [Fallible.result_bind, Fallible.result_tryAsk]
    change Except.bind (readJournal migrator.crates store) _ = _
    rw [hread]
    rfl
  · rfl

def carryOutcome (migrator : Migrator) (changes : List Change) : Except Error Unit :=
  if changes ≠ [] then migrator.checkChanges changes else .ok ()

variable (target : UInt32)

theorem carry_result (now : UInt64) (version : UInt32) (planned : PlannedStep)
    (changes : List Change) :
    Program.result kv (migrator.carry target now version planned changes) store =
      migrator.carryOutcome changes := by
  rw [carry, carryOutcome]
  split
  · rw [Fallible.result_bind, applyStep, Fallible.result_bind, Fallible.result_check]
    cases migrator.checkChanges changes with
    | error fault => rfl
    | ok _ =>
      change Except.bind (Program.result kv _ _) _ = _
      rw [Fallible.result_bind, Fallible.result_write]
      change Except.bind (Program.result kv _ _) _ = _
      rw [Fallible.result_bind, writeJournal, Fallible.result_write]
      change Except.bind (Program.result kv _ _) _ = _
      rw [applyChanges_result]
      change Program.result kv _ _ = _
      rw [Fallible.result_bind, Meta.setSchemaVersion, writeAll_result]
      rfl
  · exact writeAll_result _

def walkOutcome (migrator : Migrator) : List PlannedStep → Progress → Except Error Progress
  | [], progress => .ok progress
  | planned :: rest, progress => do
      let next ← planned.next progress.batch
      migrator.carryOutcome (diff progress.batch next).2
      walkOutcome migrator rest {
        version := planned.toVersion
        batch := next
        report := progress.report.push ⟨planned.fromVersion, planned.toVersion,
          planned.step.name, (diff progress.batch next).1, false⟩ }

theorem walk_result (now : UInt64) (steps : List PlannedStep) (progress : Progress) :
    Program.result kv (migrator.walk target now steps progress) store =
      migrator.walkOutcome steps progress := by
  induction steps generalizing store progress with
  | nil => rfl
  | cons planned rest ih =>
    rw [walk, walkOutcome, Fallible.result_bind, Fallible.result_check]
    cases planned.next progress.batch with
    | error fault => rfl
    | ok next =>
      rw [ok_bind]
      change Program.result kv _ _ = _
      rw [Fallible.result_bind, carry_result]
      cases migrator.carryOutcome (diff progress.batch next).2 with
      | error fault => rfl
      | ok _ => exact ih _

theorem sign_result (found : Meta) (now : UInt64) (progress : Progress) :
    Program.result kv (migrator.sign found now progress) store = .ok () := by
  rw [sign]
  split
  · exact writeAll_result _
  · rfl

theorem openMeta_ok_iff {found : Meta} :
    migrator.openMeta store = .ok found ↔
      migrator.info.validate = .ok () ∧ Meta.read store = .ok (some found) ∧
        found.component = migrator.info.id := by
  rw [openMeta]
  cases migrator.info.validate with
  | error fault =>
    constructor
    · intro hok
      cases hok
    · intro hall
      cases hall.1
  | ok _ =>
    rw [ok_bind]
    cases Meta.read store with
    | error fault =>
      constructor
      · intro hok
        cases hok
      · intro hall
        cases hall.2.1
    | ok read =>
      rw [ok_bind]
      cases read with
      | none =>
        constructor
        · intro hok
          cases hok
        · intro hall
          cases hall.2.1
      | some other =>
        dsimp only
        split
        · next hown =>
          constructor
          · intro hok
            cases hok
          · rintro ⟨-, hsame, hfnd⟩
            cases hsame
            exact absurd hfnd hown
        rename_i hown
        rw [Decidable.not_not] at hown
        constructor
        · intro hok
          cases hok
          exact ⟨rfl, rfl, hown⟩
        · rintro ⟨-, hsame, -⟩
          cases hsame
          rfl

/-- Everything that precedes the first write went well. -/
structure Prepared (migrator : Migrator) (target : UInt32) (now : UInt64) (store : Namespace)
    (found : Meta) (snapshot : Snapshot) : Prop where
  opened : migrator.openMeta store = .ok found
  nonzero : target ≠ 0
  plan : ∃ steps, migrator.plan found.schemaVersion target = .ok steps
  taken : Snapshot.take migrator.crates found now migrator.options.maxBatchBytes store =
    .ok snapshot

theorem prepare_ok_iff {target : UInt32} {now : UInt64} {found : Meta} {snapshot : Snapshot} :
    migrator.prepare target now store = .ok (found, snapshot) ↔
      migrator.Prepared target now store found snapshot := by
  rw [prepare]
  constructor
  · intro hok
    obtain ⟨other, hopd, hok⟩ := bind_eq_ok.mp hok
    split at hok
    · cases hok
    next htgt =>
    obtain ⟨steps, hstps, hok⟩ := bind_eq_ok.mp hok
    obtain ⟨taken, htkn, hok⟩ := bind_eq_ok.mp hok
    cases hok
    exact ⟨hopd, htgt, ⟨steps, hstps⟩, htkn⟩
  intro hprep
  obtain ⟨steps, hstps⟩ := hprep.plan
  rw [hprep.opened, ok_bind, if_neg hprep.nonzero, hstps, ok_bind, hprep.taken]
  rfl

def runOutcome (migrator : Migrator) (store : Namespace) (target : UInt32) (found : Meta)
    (snapshot : Snapshot) : Except Error MigrationReport := do
  let batch ← snapshot.batch
  let progress ← migrator.finishOutcome store
    ⟨found.schemaVersion, batch, .start found.schemaVersion target false (some snapshot)⟩
  let steps ← migrator.plan progress.version target
  let progress ← migrator.walkOutcome steps progress
  return { progress.report with finalVersion := progress.version }

theorem run_result (now : UInt64) (found : Meta) (snapshot : Snapshot) :
    Program.result kv (migrator.run target now found snapshot) store =
      migrator.runOutcome store target found snapshot := by
  rw [run, runOutcome, Fallible.result_bind, Fallible.result_check]
  cases snapshot.batch with
  | error fault => rfl
  | ok batch =>
    rw [ok_bind]
    change Program.result kv _ _ = _
    rw [Fallible.result_bind, finish_result, Fallible.final_check]
    have hclears := (@finish_clears migrator store now ⟨found.schemaVersion, batch,
      .start found.schemaVersion target false (some snapshot)⟩).outcome
    rw [finish_result] at hclears
    cases hfns : migrator.finishOutcome store
      ⟨found.schemaVersion, batch, .start found.schemaVersion target false (some snapshot)⟩ with
    | error fault => rfl
    | ok progress =>
      rw [ok_bind]
      change Program.result kv _ _ = _
      rw [Fallible.result_bind, dropStray_result (hclears progress hfns)]
      change Program.result kv _ _ = _
      rw [Fallible.result_bind, Fallible.result_check]
      cases migrator.plan progress.version target with
      | error fault => rfl
      | ok steps =>
        rw [ok_bind]
        change Program.result kv _ _ = _
        rw [Fallible.result_bind, walk_result]
        cases migrator.walkOutcome steps progress with
        | error fault => rfl
        | ok walked =>
          change Program.result kv _ _ = _
          rw [Fallible.result_bind, sign_result]
          rfl

def migrateOutcome (migrator : Migrator) (target : UInt32) (now : UInt64) (store : Namespace) :
    Except Error MigrationReport := do
  let (found, snapshot) ← migrator.prepare target now store
  migrator.sink found snapshot
  migrator.runOutcome store target found snapshot

theorem migrate_result (now : UInt64) :
    Program.result kv (migrator.migrate target now) store =
      migrator.migrateOutcome target now store := by
  rw [migrate, migrateOutcome, Fallible.result_bind, Fallible.result_tryAsk]
  change Except.bind (migrator.prepare target now store) _ = _
  cases migrator.prepare target now store with
  | error fault => rfl
  | ok prepared =>
    rw [ok_bind]
    change Program.result kv _ _ = _
    dsimp only
    rw [Fallible.result_bind, Fallible.result_check]
    cases migrator.sink prepared.1 prepared.2 with
    | error fault => rfl
    | ok _ => exact run_result _ _ _ _

end Migrator

end WasmAgent.State
