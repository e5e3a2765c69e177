import Mathlib.Logic.Function.Basic
import WasmAgent.Core.Server

/-!
# Callers of one store

Any number of callers work through procedures on one state, one operation at a time and in any
order.  A caller can stop at any of its operations.
-/

namespace WasmAgent.Core

open Function

variable {Op : Type} {Answer : Op → Type} {State Value Caller : Type}

structure Team (Op : Type) (Answer : Op → Type) (State Value Caller : Type) where
  state : State
  threads : Caller → Option (Script Op Answer Value)

/-- The states that callers reach who make the calls that `calls` allows. -/
inductive Team.Reaches [DecidableEq Caller]
    (perform : (op : Op) → State → Answer op → State → Prop)
    (calls : Script Op Answer Value → Prop) (first : State → Prop) :
    Team Op Answer State Value Caller → Prop where
  | start {state : State} (hfirst : first state) :
      Reaches perform calls first ⟨state, fun _ => none⟩
  | call {team : Team Op Answer State Value Caller} (caller : Caller)
      {script : Script Op Answer Value} (hbefore : Reaches perform calls first team)
      (hidle : team.threads caller = none) (hcalls : calls script) :
      Reaches perform calls first ⟨team.state, Function.update team.threads caller (some script)⟩
  | answer {team : Team Op Answer State Value Caller} (caller : Caller) {op : Op}
      {next : Answer op → Script Op Answer Value} {after : State} (answer : Answer op)
      (hbefore : Reaches perform calls first team)
      (hthread : team.threads caller = some (.ask op next))
      (hperform : perform op team.state answer after) :
      Reaches perform calls first ⟨after, Function.update team.threads caller (some (next answer))⟩
  | leave {team : Team Op Answer State Value Caller} (caller : Caller)
      (hbefore : Reaches perform calls first team) :
      Reaches perform calls first ⟨team.state, Function.update team.threads caller none⟩

namespace Team

variable [DecidableEq Caller] {perform : (op : Op) → State → Answer op → State → Prop}
variable {calls : Script Op Answer Value → Prop} {first : State → Prop}

theorem Reaches.invariant {holds : State → Prop} (hfirst : ∀ state, first state → holds state)
    (hper : ∀ op state answer after, holds state → perform op state answer after → holds after)
    {team : Team Op Answer State Value Caller} (hrchs : team.Reaches perform calls first) :
    holds team.state := by
  induction hrchs with
  | start hsta => exact hfirst _ hsta
  | call caller _ _ _ ih => exact ih
  | answer caller answer _ _ hstep ih => exact hper _ _ answer _ ih hstep
  | leave caller _ ih => exact ih

/-- One caller makes its calls alone. -/
def playAlone (respond : (op : Op) → State → Answer op × State) :
    ℕ → Script Op Answer Value → State → State
  | 0, _, state => state
  | _ + 1, .done _, state => state
  | count + 1, .ask op next, state =>
      playAlone respond count (next (respond op state).1) (respond op state).2

variable {respond : (op : Op) → State → Answer op × State}
variable (hres : ∀ op state, perform op state (respond op state).1 (respond op state).2)
include hres

variable {team : Team Op Answer State Value Caller}

theorem Reaches.alone (caller : Caller) (count : ℕ) {script : Script Op Answer Value}
    (hrchs : team.Reaches perform calls first) (hthr : team.threads caller = some script) :
    ∃ after : Team Op Answer State Value Caller, after.Reaches perform calls first ∧
      after.state = playAlone respond count script team.state ∧ after.threads caller = none := by
  induction count generalizing script team with
  | zero => exact ⟨_, hrchs.leave caller, rfl, update_self caller none team.threads⟩
  | succ count ih =>
    cases script with
    | done value => exact ⟨_, hrchs.leave caller, rfl, update_self caller none team.threads⟩
    | ask op next =>
      have hstep := hrchs.answer caller (respond op team.state).1 hthr (hres op team.state)
      exact ih hstep (update_self caller _ team.threads)

theorem Reaches.session (caller : Caller) (count : ℕ) (scripts : List (Script Op Answer Value))
    (hcalls : ∀ script ∈ scripts, calls script)
    (hrchs : team.Reaches perform calls first) (hidle : team.threads caller = none) :
    ∃ after : Team Op Answer State Value Caller, after.Reaches perform calls first ∧
      after.state =
        scripts.foldl (fun state script => playAlone respond count script state) team.state := by
  induction scripts generalizing team with
  | nil => exact ⟨team, hrchs, rfl⟩
  | cons script scripts ih =>
    have hcld := hrchs.call caller hidle (hcalls script List.mem_cons_self)
    obtain ⟨middle, hmid, hst, hdone⟩ := hcld.alone hres caller count
      (update_self caller _ team.threads)
    obtain ⟨after, haft, hlast⟩ := ih
      (fun script hmem => hcalls script (List.mem_cons_of_mem _ hmem)) hmid hdone
    refine ⟨after, haft, ?_⟩
    rw [hlast, hst]
    rfl

end Team

end WasmAgent.Core
