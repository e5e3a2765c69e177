import Mathlib.Algebra.Group.Nat.Defs
import Mathlib.Data.Finset.Basic
import Std.Data.ExtTreeMap

/-!
# Run admission

Who may run, where, and in what order: a conversation is owned by the node-thread of its first run
until every run that was admitted for it has completed.
-/

namespace WasmAgent.Serve

open Std

inductive RunClass where
  | interactive
  | background
  deriving DecidableEq

inductive RunState where
  | queued
  | running
  | cancelled
  | completed
  | unknown
  | notStarted
  deriving DecidableEq

inductive Refusal where
  | sessionBusy
  | sessionQueueFull
  | journalUnavailable
  | backgroundQueueFull
  deriving DecidableEq

inductive Decision where
  | run (runId nodeThread : ℕ)
  | behind (runId nodeThread : ℕ)
  | refused (refusal : Refusal)
  deriving DecidableEq

inductive CancelOutcome where
  | requested (runId : ℕ) (state : RunState)
  | notFound
  | forbidden
  deriving DecidableEq

/-- The bounds; a conversation's own backlog has room for its running run. -/
structure Config where
  sessionQueueDepth : ℕ
  backgroundMax : ℕ
  backgroundBacklog : ℕ
  room : 0 < sessionQueueDepth

/-- Admitted runs that have not completed are `pending`. -/
structure Owner where
  nodeThread : ℕ
  runClass : RunClass
  pending : ℕ
  deriving DecidableEq

structure RunRecord where
  owner : String
  conversation : String
  runClass : RunClass
  cancel : Bool
  state : RunState
  deriving DecidableEq

def RunRecord.settles (run : RunRecord) : RunState :=
  if run.state = .unknown then .unknown
  else if run.cancel then .cancelled
  else if run.state = .queued then .notStarted
  else .completed

/-- What the calls of the journal answer during one call of the scheduler. -/
structure Journal where
  probe : Bool
  admission : Option ℕ
  write : Bool

/-- Which node-thread a run gets, told which are claimed. -/
abbrev Pick : Type := RunClass → Finset ℕ → Option ℕ

/-- The admission table, with or without a journal. -/
structure Scheduler where
  config : Config
  owners : ExtTreeMap String Owner
  runs : ExtTreeMap ℕ RunRecord
  nextRunId : ℕ
  journaled : Bool
  journalFailed : Bool

namespace Scheduler

def new (config : Config) (journaled : Bool) : Scheduler := ⟨config, ∅, ∅, 0, journaled, false⟩

def journalError (scheduler : Scheduler) : Scheduler := { scheduler with journalFailed := true }

/-- After a failed write, runs are admitted again once a probe succeeds. -/
def writable (journal : Journal) (scheduler : Scheduler) : Option Scheduler :=
  if scheduler.journalFailed then
    if scheduler.journaled && journal.probe then some { scheduler with journalFailed := false }
    else none
  else some scheduler

def allocate (journal : Journal) (scheduler : Scheduler) : Option ℕ :=
  if scheduler.journaled then journal.admission else some scheduler.nextRunId

/-- A record of its own for a run that waits for its node-thread. -/
def record (runId : ℕ) (owner conversation : String) (runClass : RunClass)
    (scheduler : Scheduler) : Scheduler :=
  { scheduler with
    runs := scheduler.runs.insert runId ⟨owner, conversation, runClass, false, .queued⟩ }

def admitBehind (journal : Journal) (conversation owner : String) (runClass : RunClass)
    (rejectBusy : Bool) (holder : Owner) (scheduler : Scheduler) : Scheduler × Decision :=
  if rejectBusy then (scheduler, .refused .sessionBusy)
  else if scheduler.config.sessionQueueDepth ≤ holder.pending then
    (scheduler, .refused .sessionQueueFull)
  else match scheduler.allocate journal with
    | none => (scheduler.journalError, .refused .journalUnavailable)
    | some runId =>
        (({ scheduler with
            owners := scheduler.owners.insert conversation
              { holder with pending := holder.pending + 1 } } : Scheduler).record runId owner
            conversation runClass,
          .behind runId holder.nodeThread)

def backgroundOwners (scheduler : Scheduler) : ℕ :=
  scheduler.owners.toList.countP (fun entry => entry.2.runClass = .background)

def claimed (scheduler : Scheduler) : Finset ℕ :=
  (scheduler.owners.toList.map (fun entry => entry.2.nodeThread)).toFinset

def laneFull (runClass : RunClass) (scheduler : Scheduler) : Bool :=
  runClass = .background &&
    min (scheduler.config.backgroundMax + scheduler.config.backgroundBacklog) (2 ^ 64 - 1) ≤
      scheduler.backgroundOwners

def admitFirst (journal : Journal) (conversation owner : String) (runClass : RunClass)
    (pick : Pick) (scheduler : Scheduler) : Scheduler × Decision :=
  if scheduler.laneFull runClass then (scheduler, .refused .backgroundQueueFull)
  else match pick runClass scheduler.claimed with
    | none =>
        (scheduler, .refused
          (if runClass = .background then .backgroundQueueFull else .sessionQueueFull))
    | some nodeThread =>
        match scheduler.allocate journal with
        | none => (scheduler.journalError, .refused .journalUnavailable)
        | some runId =>
            let owners :=
              if conversation = "" then scheduler.owners
              else scheduler.owners.insert conversation ⟨nodeThread, runClass, 1⟩
            (({ scheduler with owners := owners } : Scheduler).record runId owner conversation
              runClass, .run runId nodeThread)

def admitWithPolicy (journal : Journal) (conversation owner : String) (runClass : RunClass)
    (rejectBusy : Bool) (pick : Pick) (scheduler : Scheduler) : Scheduler × Decision :=
  let counted := { scheduler with nextRunId := (scheduler.nextRunId + 1) % 2 ^ 64 }
  match counted.writable journal with
  | none => (counted, .refused .journalUnavailable)
  | some ready =>
      match if conversation = "" then none else ready.owners[conversation]? with
      | some holder => ready.admitBehind journal conversation owner runClass rejectBusy holder
      | none => ready.admitFirst journal conversation owner runClass pick

def admitRun (journal : Journal) (conversation owner : String) (runClass : RunClass) (pick : Pick)
    (scheduler : Scheduler) : Scheduler × Decision :=
  scheduler.admitWithPolicy journal conversation owner runClass false pick

/-- Refuse submissions behind an existing writer. -/
def admitIfIdle (journal : Journal) (conversation owner : String) (runClass : RunClass)
    (pick : Pick) (scheduler : Scheduler) : Scheduler × Decision :=
  scheduler.admitWithPolicy journal conversation owner runClass true pick

def unwritten (journal : Journal) (scheduler : Scheduler) : Bool :=
  scheduler.journaled && !journal.write

def markRunning (journal : Journal) (runId : ℕ) (scheduler : Scheduler) : Scheduler :=
  match scheduler.runs[runId]? with
  | none => scheduler
  | some run =>
      if run.state ≠ .queued then scheduler
      else if scheduler.unwritten journal then
        { scheduler.journalError with
          runs := scheduler.runs.insert runId { run with cancel := true, state := .unknown } }
      else { scheduler with runs := scheduler.runs.insert runId { run with state := .running } }

/-- One run less is pending; the last one gives the conversation up. -/
def release (conversation : String) (scheduler : Scheduler) : Scheduler :=
  match scheduler.owners[conversation]? with
  | none => scheduler
  | some holder =>
      if holder.pending - 1 = 0 then
        { scheduler with owners := scheduler.owners.erase conversation }
      else
        { scheduler with
          owners := scheduler.owners.insert conversation
            { holder with pending := holder.pending - 1 } }

def listed (conversation : String) (entry : ℕ × RunRecord) : Bool :=
  entry.2.conversation = conversation && (entry.2.state = .cancelled || entry.2.state = .completed)

/-- The settled runs of a conversation but the last four, by id. -/
def stale (conversation : String) (scheduler : Scheduler) : List ℕ :=
  ((scheduler.runs.toList.filter (listed conversation)).map Prod.fst).reverse.drop 4

def prune (conversation : String) (scheduler : Scheduler) : Scheduler :=
  { scheduler with runs := (scheduler.stale conversation).foldl ExtTreeMap.erase scheduler.runs }

def settle (journal : Journal) (runId : ℕ) (run : RunRecord) (scheduler : Scheduler) : Scheduler :=
  if scheduler.unwritten journal then
    { scheduler.journalError with
      runs := scheduler.runs.insert runId { run with state := .unknown } }
  else { scheduler with runs := scheduler.runs.insert runId { run with state := run.settles } }

def completeRun (journal : Journal) (runId : ℕ) (scheduler : Scheduler) : Scheduler :=
  match scheduler.runs[runId]? with
  | none => scheduler
  | some run =>
      ((scheduler.settle journal runId run).release run.conversation).prune run.conversation

def oldest (owner conversation : String) (state : RunState) (scheduler : Scheduler) : Option ℕ :=
  (scheduler.runs.toList.find? (fun entry => entry.2.conversation = conversation &&
    entry.2.owner = owner && entry.2.state = state)).map Prod.fst

def cancelTarget (owner conversation : String) (runId : Option ℕ) (scheduler : Scheduler) :
    Option ℕ :=
  match runId with
  | some id =>
      match scheduler.runs[id]? with
      | some run => if run.conversation = conversation then some id else none
      | none => none
  | none =>
      (scheduler.oldest owner conversation .running).or
        (scheduler.oldest owner conversation .queued)

def cancelRun (journal : Journal) (owner conversation : String) (runId : Option ℕ)
    (scheduler : Scheduler) : Scheduler × CancelOutcome :=
  match scheduler.cancelTarget owner conversation runId with
  | none => (scheduler, .notFound)
  | some id =>
      match scheduler.runs[id]? with
      | none => (scheduler, .notFound)
      | some run =>
          if run.owner ≠ owner then (scheduler, .forbidden)
          else
            let flagged := { scheduler with
              runs := scheduler.runs.insert id { run with cancel := true } }
            (if scheduler.unwritten journal then flagged.journalError else flagged,
              .requested id run.state)

/-- Evidence that cannot be written down cancels its run. -/
def recordEvent (journal : Journal) (runId : ℕ) (scheduler : Scheduler) : Scheduler :=
  if scheduler.unwritten journal then
    match scheduler.runs[runId]? with
    | none => scheduler.journalError
    | some run =>
        { scheduler.journalError with
          runs := scheduler.runs.insert runId { run with cancel := true } }
  else scheduler

end Scheduler

end WasmAgent.Serve
