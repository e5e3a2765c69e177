import WasmAgent.State.Snapshot

/-!
# The migration engine

A migration takes a snapshot, finishes what an earlier run left, and walks the
steps to its target: each step's changes are written down, journaled, applied with
checkpoints, committed with the schema version, and cleared.
-/

namespace WasmAgent.State

open Std WasmAgent.Core

structure MigrateOptions where
  allowDowngrade : Bool
  checkpointEvery : ℕ
  maxBatchBytes : ℕ
  maxJournalBytes : ℕ

/-- `MigrateOptions::default`. -/
def MigrateOptions.default : MigrateOptions := ⟨false, 32, 0x10000000, 0x10000000⟩

structure StepReport where
  fromVersion : UInt32
  toVersion : UInt32
  name : String
  counts : ChangeCounts
  resumed : Bool
  deriving DecidableEq

structure MigrationReport where
  fromVersion : UInt32
  target : UInt32
  finalVersion : UInt32
  steps : List StepReport
  totals : ChangeCounts
  resumed : Bool
  dryRun : Bool
  snapshot : Option Snapshot
  deriving DecidableEq

namespace MigrationReport

def start (fromVersion target : UInt32) (dryRun : Bool) (snapshot : Option Snapshot) :
    MigrationReport :=
  ⟨fromVersion, target, fromVersion, [], .zero, false, dryRun, snapshot⟩

def push (report : MigrationReport) (step : StepReport) : MigrationReport :=
  { report with steps := report.steps ++ [step], totals := report.totals.add step.counts }

end MigrationReport

structure Migrator where
  crates : Crates
  registry : Registry
  info : ComponentInfo
  options : MigrateOptions
  sink : Meta → Snapshot → Except Error Unit

namespace Migrator

variable (migrator : Migrator)

def openMeta (store : Namespace) : Except Error Meta := do
  migrator.info.validate
  match ← Meta.read store with
  | none => throw (.uninitialised 0)
  | some found =>
      if found.component ≠ migrator.info.id then
        throw (.ownerMismatch migrator.info.id found.component)
      else
        return found

def plan (fromVersion toVersion : UInt32) : Except Error (List PlannedStep) :=
  migrator.registry.plan fromVersion toVersion migrator.options.allowDowngrade

/-- The journal says that `applied` changes are done. -/
def checkpoint (journal : Journal) (applied : ℕ) : Journal :=
  { journal with
    pendingStep := journal.pendingStep.map (fun entry => { entry with applied := applied }) }

/-- `apply_changes` over the changes left, `done` of `total` behind them. -/
def applyChanges (total : ℕ) : Journal → ℕ → List Change → Call Unit
  | _, _, [] => return ()
  | journal, done, change :: changes => do
      Fallible.write change
      if (migrator.options.checkpointEvery = 0 ∨ (done + 1) % migrator.options.checkpointEvery = 0 ∨
          done + 1 = total) ∧ done + 1 < total then
        writeJournal migrator.crates (checkpoint journal (done + 1))
        applyChanges total (checkpoint journal (done + 1)) (done + 1) changes
      else
        applyChanges total journal (done + 1) changes

def resumedStep (pending : PendingStep) : Except Error Step :=
  match migrator.registry.step pending.fromVersion with
  | some step =>
      if step.toVersion = pending.toVersion then .ok step
      else .error (.journalInconsistent
        s!"the v{pending.fromVersion} -> v{pending.toVersion} step is no longer registered; restore the pre-migration snapshot")
  | none => .error (.journalInconsistent
      s!"the v{pending.fromVersion} -> v{pending.toVersion} step is no longer registered; restore the pre-migration snapshot")

def pendingChanges (missing : String) (store : Namespace) : Except Error (List Change) :=
  match store.get Key.pending with
  | some raw => decodeChanges raw
  | none => .error (.journalInconsistent missing)

/-- How many times a run has written the journal. -/
def nextAttempt (attempts : UInt32) : UInt32 :=
  if attempts = 0xFFFFFFFF then attempts else attempts + 1

structure Progress where
  version : UInt32
  batch : Batch
  report : MigrationReport

def replay (journal : Journal) (applied : ℕ) (toVersion : UInt32) (now : UInt64)
    (changes : List Change) : Call Unit := do
  writeJournal migrator.crates journal
  migrator.applyChanges changes.length journal applied (changes.drop applied)
  Meta.setSchemaVersion toVersion now
  clearJournal

def resume (journal : Journal) (pending : PendingStep) (now : UInt64) (progress : Progress) :
    Call Progress := do
  let step ← Fallible.check (migrator.resumedStep pending)
  let changes ← Fallible.tryAsk
    (pendingChanges "pending changes are missing; restore the pre-migration snapshot")
  let found ← Fallible.tryAsk Meta.read
  match found with
  | none => throw (.uninitialised 0)
  | some found =>
      if found.schemaVersion = pending.toVersion then
        clearJournal
        return { progress with version := found.schemaVersion }
      else if found.schemaVersion ≠ pending.fromVersion then
        throw (.journalInconsistent
          s!"state is at v{found.schemaVersion} but the journal expects v{pending.fromVersion} or v{pending.toVersion}; restore the pre-migration snapshot")
      else do
        let applied := min pending.applied changes.length
        let (batch, counts) ← Fallible.check
          (applyToBatch (changes.drop applied) progress.batch .zero)
        migrator.replay
          { checkpoint journal applied with attempts := nextAttempt journal.attempts } applied
          pending.toVersion now changes
        return {
          version := pending.toVersion
          batch := batch
          report := progress.report.push
            ⟨pending.fromVersion, pending.toVersion, step.name, counts, true⟩ }

def pickUp (journal : Journal) (now : UInt64) (progress : Progress) : Call Progress :=
  match journal.pendingStep with
  | some pending => do
      let progress ← migrator.resume journal pending now progress
      return { progress with report := { progress.report with resumed := true } }
  | none => do
      clearJournal
      return progress

/-- Finish a step that a previous run left half applied, if there is one. -/
def finish (now : UInt64) (progress : Progress) : Call Progress := do
  match ← Fallible.tryAsk (readJournal migrator.crates) with
  | none => return progress
  | some journal => migrator.pickUp journal now progress

def dropStray : Call Unit := do
  let pending ← Fallible.ask (fun store => store.get Key.pending)
  if pending.isSome then do
    let journal ← Fallible.tryAsk (readJournal migrator.crates)
    if journal.isNone then
      Fallible.write (.del Key.pending)
    else
      return ()
  else
    return ()

/-- Refuse a step's changes before anything is written down. -/
def checkChanges (changes : List Change) : Except Error Unit := do
  validateChanges changes
  if migrator.options.maxJournalBytes < (encodeChanges changes).length then
    throw (.limit "step change list" migrator.options.maxJournalBytes
      (encodeChanges changes).length)

def stepJournal (target : UInt32) (now : UInt64) (version : UInt32) (planned : PlannedStep) :
    Journal where
  fromVersion := version
  target := target
  doneUpto := version
  startedAtMs := now
  attempts := 1
  component := migrator.info.id
  pendingStep := some ⟨version, planned.toVersion, planned.step.name, planned.direction, 0⟩

def applyStep (target : UInt32) (now : UInt64) (version : UInt32) (planned : PlannedStep)
    (changes : List Change) : Call Unit := do
  Fallible.check (migrator.checkChanges changes)
  Fallible.write (.put Key.pending (encodeChanges changes))
  writeJournal migrator.crates (migrator.stepJournal target now version planned)
  migrator.applyChanges changes.length (migrator.stepJournal target now version planned) 0 changes

/-- Commit a step, then clear: the other order would let it be taken twice. -/
def carry (target : UInt32) (now : UInt64) (version : UInt32) (planned : PlannedStep)
    (changes : List Change) : Call Unit :=
  if changes ≠ [] then do
    migrator.applyStep target now version planned changes
    Meta.setSchemaVersion planned.toVersion now
    clearJournal
  else
    Meta.setSchemaVersion planned.toVersion now

def walk (target : UInt32) (now : UInt64) : List PlannedStep → Progress → Call Progress
  | [], progress => return progress
  | planned :: rest, progress => do
      let next ← Fallible.check (planned.next progress.batch)
      migrator.carry target now progress.version planned (diff progress.batch next).2
      walk target now rest {
        version := planned.toVersion
        batch := next
        report := progress.report.push
          ⟨planned.fromVersion, planned.toVersion, planned.step.name,
            (diff progress.batch next).1, false⟩ }

/-- The metadata after the migration: which build moved the data. -/
def record (found : Meta) (now : UInt64) (version : UInt32) : Meta :=
  { found with
    schemaVersion := version
    lastMigratedBy := migrator.info.sha256
    lastMigratedAtMs := now
    componentVersion := migrator.info.version }

/-- A run with no steps is not a migration, and does not claim to be the last one. -/
def sign (found : Meta) (now : UInt64) (progress : Progress) : Call Unit :=
  if progress.report.steps ≠ [] then
    (migrator.record found now progress.version).write now
  else
    return ()

/-- What precedes the first write: the checks and the snapshot. -/
def prepare (target : UInt32) (now : UInt64) (store : Namespace) :
    Except Error (Meta × Snapshot) := do
  let found ← migrator.openMeta store
  if target = 0 then
    throw (.corrupt "schema versions start at 1")
  else do
    let _ ← migrator.plan found.schemaVersion target
    let snapshot ← Snapshot.take migrator.crates found now migrator.options.maxBatchBytes store
    return (found, snapshot)

def run (target : UInt32) (now : UInt64) (found : Meta) (snapshot : Snapshot) :
    Call MigrationReport := do
  let batch ← Fallible.check snapshot.batch
  let progress ← migrator.finish now
    ⟨found.schemaVersion, batch, .start found.schemaVersion target false (some snapshot)⟩
  migrator.dropStray
  let steps ← Fallible.check (migrator.plan progress.version target)
  let progress ← migrator.walk target now steps progress
  migrator.sign found now progress
  return { progress.report with finalVersion := progress.version }

def migrate (target : UInt32) (now : UInt64) : Call MigrationReport := do
  let (found, snapshot) ← Fallible.tryAsk (migrator.prepare target now)
  Fallible.check (migrator.sink found snapshot)
  migrator.run target now found snapshot

/-- The steps of a dry run, in memory. -/
def rehearse : List PlannedStep → Progress → Except Error Progress
  | [], progress => .ok progress
  | planned :: rest, progress => do
      let next ← planned.next progress.batch
      rehearse rest {
        version := planned.toVersion
        batch := next
        report := progress.report.push ⟨planned.fromVersion, planned.toVersion,
          planned.step.name, (diff progress.batch next).1, false⟩ }

/-- A journal left by an earlier crash, folded into a dry run. -/
def foldJournal (store : Namespace) (progress : Progress) : Except Error Progress := do
  match ← readJournal migrator.crates store with
  | none => return progress
  | some journal =>
      match journal.pendingStep with
      | none => return progress
      | some pending =>
          let resumed := { progress.report with resumed := true }
          if progress.version = pending.fromVersion then do
            let changes ← pendingChanges "pending changes are missing" store
            let applied := min pending.applied changes.length
            let (batch, counts) ← applyToBatch (changes.drop applied) progress.batch .zero
            return {
              version := pending.toVersion
              batch := batch
              report := resumed.push
                ⟨pending.fromVersion, pending.toVersion, pending.name, counts, true⟩ }
          else
            return { progress with report := resumed }

def dryRun (target : UInt32) : Call MigrationReport := do
  let found ← Fallible.tryAsk migrator.openMeta
  let batch ← Fallible.tryAsk (Batch.load migrator.options.maxBatchBytes)
  let progress ← Fallible.tryAsk (fun store => migrator.foldJournal store
    ⟨found.schemaVersion, batch, .start found.schemaVersion target true none⟩)
  let steps ← Fallible.check (migrator.plan progress.version target)
  let progress ← Fallible.check (rehearse steps progress)
  return { progress.report with finalVersion := progress.version }

end Migrator

end WasmAgent.State
