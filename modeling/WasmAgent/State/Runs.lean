import WasmAgent.State.Stops

/-!
# Runs of migrations with crashes

A run is a list of calls, each made by its own migrator and stopped after some of its
writes.  It is followed on the store and its last landing; as long as no step makes a
key of the engine's own, the namespace stands at every point of the run.
-/

namespace WasmAgent.State

open Std WasmAgent.Core

/-- One call of a run, stopped after `stop` writes; one that has no more writes than
that runs to its end. -/
structure Attempt where
  migrator : Migrator
  target : UInt32
  now : UInt64
  stop : ℕ

namespace Attempt

variable (attempt : Attempt)

def call : Call MigrationReport := attempt.migrator.migrate attempt.target attempt.now

def leaves (store : Namespace) : Namespace := Program.stopped kv attempt.call attempt.stop store

def leavesTracked (state : Tracked) : Tracked :=
  Program.stopped tracked attempt.call attempt.stop state

theorem leavesTracked_store (state : Tracked) :
    (attempt.leavesTracked state).store = attempt.leaves state.store :=
  Program.stopped_project tracked_projects _ _ _

end Attempt

def afterRun (attempts : List Attempt) (store : Namespace) : Namespace :=
  attempts.foldl (fun current attempt => attempt.leaves current) store

def afterRunTracked (attempts : List Attempt) (state : Tracked) : Tracked :=
  attempts.foldl (fun current attempt => attempt.leavesTracked current) state

variable (attempts : List Attempt)

theorem afterRunTracked_store (state : Tracked) :
    (afterRunTracked attempts state).store = afterRun attempts state.store := by
  induction attempts generalizing state with
  | nil => rfl
  | cons attempt attempts ih =>
    change (afterRunTracked attempts (attempt.leavesTracked state)).store =
      afterRun attempts (attempt.leaves state.store)
    rw [ih, Attempt.leavesTracked_store]

/-- Something holds of every call of a run, on the store it is made on. -/
def EachAttempt (holds : Attempt → Namespace → Prop) : List Attempt → Namespace → Prop
  | [], _ => True
  | attempt :: rest, store => holds attempt store ∧ EachAttempt holds rest (attempt.leaves store)

section Standing

variable {terms : Terms} {state : Tracked}

theorem Attempt.leaves_standing {attempt : Attempt} (hstg : Standing terms state)
    (hcr : attempt.migrator.crates = terms.crates)
    (hsound : SoundPath terms attempt.migrator attempt.target state.store) :
    Standing terms (attempt.leavesTracked state) := by
  obtain ⟨version, hstds⟩ := hstg
  exact (migrate_survives hcr hstds hsound).stops attempt.stop

end Standing

section Unnamed

variable {store : Namespace}

/-- A namespace that was never initialised, or whose metadata is damaged. -/
def Unnamed (store : Namespace) : Prop := ∀ found, Meta.read store ≠ .ok (some found)

theorem Attempt.writes_refused (attempt : Attempt)
    (href : ∀ prepared, attempt.migrator.prepare attempt.target attempt.now store ≠ .ok prepared) :
    Program.writes kv attempt.call store = [] := by
  rw [Attempt.call, Migrator.migrate]
  change Program.writes kv (ExceptT.bindCont _ (attempt.migrator.prepare attempt.target
    attempt.now store)) store = []
  cases hprep : attempt.migrator.prepare attempt.target attempt.now store with
  | error fault => rfl
  | ok prepared => exact absurd hprep (href prepared)

/-- A migration of such a namespace writes nothing. -/
theorem Attempt.leaves_unnamed (attempt : Attempt) (hunn : Unnamed store) :
    attempt.leaves store = store := by
  have hwrs := attempt.writes_refused (fun prepared hprep =>
    hunn _ (Migrator.openMeta_ok_iff.mp (Migrator.prepare_ok_iff.mp hprep).opened).2.1)
  rw [Attempt.leaves, Program.stopped, hwrs, List.take_nil]
  rfl

theorem afterRun_unnamed (hunn : Unnamed store) : afterRun attempts store = store := by
  induction attempts with
  | nil => rfl
  | cons attempt attempts ih =>
    change afterRun attempts (attempt.leaves store) = store
    rw [attempt.leaves_unnamed hunn, ih]

end Unnamed

end WasmAgent.State
