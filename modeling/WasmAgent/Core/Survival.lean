import WasmAgent.Core.Program

/-!
# What holds wherever a procedure is stopped

A procedure that runs alone and may be stopped after any of its writes.  Each rule
gives back two things: what holds at every stop, and how the run ends when it is
not stopped.  Procedures that may fail run in `ExceptT`; a failure ends them where
it is thrown.
-/

namespace WasmAgent.Core

open List

variable {Query : Type → Type} {Write State Fault : Type} {Result Next : Type}

/-- Every stop leaves `crash`, and the whole run ends as `post` says. -/
structure Survives (machine : Machine Query Write State) (crash : State → Prop)
    (post : Result → State → Prop) (program : Program Query Write Result) (state : State) :
    Prop where
  stops : ∀ count, crash (program.stopped machine count state)
  outcome : post (program.result machine state) (program.final machine state)

/-- What holds at the end, where the end is a success. -/
def IfOk (post : Result → State → Prop) (outcome : Except Fault Result) (final : State) : Prop :=
  ∀ value, outcome = .ok value → post value final

variable {post : Result → State → Prop}

theorem IfOk.failed (fault : Fault) (final : State) : IfOk post (.error fault) final := by
  intro value hval
  cases hval

variable {value : Result}

theorem IfOk.ok {final : State} (hpost : post value final) :
    IfOk post (.ok value : Except Fault Result) final := by
  intro other hoth
  cases hoth
  exact hpost

/-- What went well in two parts went well in each. -/
theorem bind_eq_ok {first : Except Fault Result} {next : Result → Except Fault Next}
    {value : Next} :
    first >>= next = .ok value ↔ ∃ middle, first = .ok middle ∧ next middle = .ok value := by
  cases first with
  | error fault =>
    constructor
    · intro hok
      cases hok
    · rintro ⟨middle, hmid, -⟩
      cases hmid
  | ok found =>
    constructor
    · intro hok
      exact ⟨found, rfl, hok⟩
    · rintro ⟨middle, hmid, hok⟩
      cases hmid
      exact hok

theorem ok_bind (value : Result) (next : Result → Except Fault Next) :
    Except.ok value >>= next = next value := by
  rfl

theorem error_bind (fault : Fault) (next : Result → Except Fault Next) :
    Except.error fault >>= next = .error fault := by
  rfl

theorem mapped_bind {Mapped : Type} (value : Result) (map : Fault → Mapped)
    (next : Result → Except Mapped Next) :
    (Except.ok value).mapError map >>= next = next value := by
  rfl

theorem ok_of_isSome {outcome : Except Fault Result} (hok : outcome.toOption.isSome = true) :
    ∃ value, outcome = .ok value := by
  cases outcome with
  | error fault => cases hok
  | ok value => exact ⟨value, rfl⟩

variable {next : Unit → Except Fault Result}

/-- What went well past a check passed it. -/
theorem of_guard {refuses : Prop} [Decidable refuses] {fault : Fault}
    (hok : (if refuses then throw fault >>= next else next ()) = .ok value) :
    ¬refuses ∧ next () = .ok value := by
  split at hok
  · cases hok
  · next hpas =>
    exact ⟨hpas, hok⟩

/-- A check that passes is no obstacle. -/
theorem pass_guard {refuses : Prop} [Decidable refuses] {fault : Fault} (hpas : ¬refuses) :
    (if refuses then throw fault >>= next else next ()) = next () :=
  if_neg hpas

theorem of_mapError {Mapped : Type} {outcome : Except Fault Result} {map : Fault → Mapped}
    (hok : outcome.mapError map = .ok value) : outcome = .ok value := by
  cases outcome with
  | error fault => cases hok
  | ok found =>
    cases hok
    rfl

/-- A procedure that may fail. -/
abbrev Fallible (Query : Type → Type) (Write Fault : Type) := ExceptT Fault (Program Query Write)

namespace Fallible

def ask {Reply : Type} (question : Query Reply) : Fallible Query Write Fault Reply :=
  ExceptT.lift (Program.query question)

/-- Ask one query whose answer may be a failure. -/
def tryAsk {Reply : Type} (question : Query (Except Fault Reply)) :
    Fallible Query Write Fault Reply :=
  ExceptT.mk (Program.query question)

def write (change : Write) : Fallible Query Write Fault Unit := ExceptT.lift (Program.write change)

/-- Go on with a value, or fail. -/
def check (checked : Except Fault Result) : Fallible Query Write Fault Result :=
  ExceptT.mk (Program.done checked)

variable (machine : Machine Query Write State)

theorem result_bind (program : Fallible Query Write Fault Result)
    (next : Result → Fallible Query Write Fault Next) (state : State) :
    Program.result machine (program >>= next : Fallible Query Write Fault Next) state =
      (Program.result machine program state).bind (fun value =>
        Program.result machine (next value) (Program.final machine program state)) := by
  refine (Program.result_bind machine (program : Program Query Write (Except Fault Result))
    (ExceptT.bindCont next) state).trans ?_
  cases Program.result machine program state with
  | error fault => rfl
  | ok value => rfl

theorem final_bind_of_ok {program : Fallible Query Write Fault Result}
    (next : Result → Fallible Query Write Fault Next) {state : State}
    (hval : Program.result machine program state = .ok value) :
    Program.final machine (program >>= next : Fallible Query Write Fault Next) state =
      Program.final machine (next value) (Program.final machine program state) := by
  refine (Program.final_bind machine (program : Program Query Write (Except Fault Result))
    (ExceptT.bindCont next) state).trans ?_
  rw [hval]
  rfl

variable (checked : Except Fault Result)

@[simp]
theorem result_check (state : State) :
    Program.result machine (check checked : Fallible Query Write Fault Result) state = checked := by
  rfl

@[simp]
theorem final_check (state : State) :
    Program.final machine (check checked : Fallible Query Write Fault Result) state = state := by
  rfl

variable (question : Query (Except Fault Result))

@[simp]
theorem result_tryAsk (state : State) :
    Program.result machine (tryAsk question : Fallible Query Write Fault Result) state =
      machine.answer question state := by
  rfl

@[simp]
theorem final_tryAsk (state : State) :
    Program.final machine (tryAsk question : Fallible Query Write Fault Result) state = state := by
  rfl

@[simp]
theorem result_write (change : Write) (state : State) :
    Program.result machine (write change : Fallible Query Write Fault Unit) state = .ok () := by
  rfl

end Fallible

namespace Survives

variable {machine : Machine Query Write State} {crash : State → Prop} {state : State}
variable {post : Result → State → Prop}

theorem done (hcra : crash state) (hpost : post value state) :
    Survives machine crash post (Program.done value) state := by
  constructor
  · intro count
    rw [Program.stopped, Program.writes_done, take_nil]
    exact hcra
  · exact hpost

theorem ask {Reply : Type} {question : Query Reply} {rest : Reply → Program Query Write Result}
    (hrest : Survives machine crash post (rest (machine.answer question state)) state) :
    Survives machine crash post (Program.ask question rest) state :=
  { hrest with }

theorem put {change : Write} {rest : Program Query Write Result} (hcra : crash state)
    (hrest : Survives machine crash post rest (machine.apply change state)) :
    Survives machine crash post (Program.put change rest) state := by
  constructor
  · intro count
    cases count with
    | zero => exact hcra
    | succ count => exact hrest.stops count
  · exact hrest.outcome

variable {program : Program Query Write Result}

/-- The whole run is one of the stops. -/
theorem last (hsurv : Survives machine crash post program state) :
    crash (program.final machine state) := by
  have hstop := hsurv.stops (program.writes machine state).length
  rwa [Program.stopped_of_length_le machine program _ state (Nat.le_refl _)] at hstop

theorem weaken {post wider : Result → State → Prop}
    (hsurv : Survives machine crash post program state)
    (hwider : ∀ value final, post value final → wider value final) :
    Survives machine crash wider program state :=
  ⟨hsurv.stops, hwider _ _ hsurv.outcome⟩

theorem withResult (hsurv : Survives machine crash post program state) :
    Survives machine crash
      (fun value final => value = program.result machine state ∧ post value final) program
      state :=
  ⟨hsurv.stops, rfl, hsurv.outcome⟩

theorem bind {post : Next → State → Prop} {next : Result → Program Query Write Next}
    (hsurv : Survives machine crash
      (fun value middle => Survives machine crash post (next value) middle) program state) :
    Survives machine crash post (program >>= next) state := by
  obtain ⟨hstops, hnext⟩ := hsurv
  constructor
  · intro count
    rw [Program.stopped, Program.writes_bind, take_append]
    rcases Nat.lt_or_ge count (program.writes machine state).length with hins | hpast
    · rw [Nat.sub_eq_zero_of_le (Nat.le_of_lt hins), take_zero, append_nil]
      exact hstops count
    · rw [take_of_length_le hpast, Machine.applyAll_append]
      exact hnext.stops _
  · rw [Program.result_bind, Program.final_bind]
    exact hnext.outcome

section Failure

variable {post : Except Fault Next → State → Prop} {next : Result → Fallible Query Write Fault Next}

/-- Run a part that may fail, and go on where it does not. -/
theorem tryBind {program : Fallible Query Write Fault Result}
    (hsurv : Survives machine crash
      (fun outcome middle => (∀ fault, outcome = .error fault → post (.error fault) middle) ∧
        ∀ value, outcome = .ok value → Survives machine crash post (next value) middle)
      program state) :
    Survives machine crash post (program >>= next : Fallible Query Write Fault Next) state := by
  apply bind
  refine ⟨hsurv.stops, ?_⟩
  obtain ⟨hfail, hwent⟩ := hsurv.outcome
  have hlast : crash (Program.final machine program state) := hsurv.last
  cases hoc : program.result machine state with
  | error fault => exact done hlast (hfail fault hoc)
  | ok value => exact hwent value hoc

/-- Run a part, and go on where it went well, as the rest is only about success. -/
theorem okBind {post : Next → State → Prop} {program : Fallible Query Write Fault Result}
    (hsurv : Survives machine crash
      (IfOk (fun value middle => Survives machine crash (IfOk post) (next value) middle))
      program state) :
    Survives machine crash (IfOk post)
      (program >>= next : Fallible Query Write Fault Next) state := by
  apply tryBind
  apply hsurv.weaken
  intro outcome middle hnext
  refine ⟨?_, hnext⟩
  intro fault _
  exact IfOk.failed fault middle

theorem pure {value : Next} (hcra : crash state) (hpost : post (.ok value) state) :
    Survives machine crash post (Pure.pure value : Fallible Query Write Fault Next) state :=
  done hcra hpost

theorem throw {fault : Fault} (hcra : crash state) (hpost : post (.error fault) state) :
    Survives machine crash post (throw fault : Fallible Query Write Fault Next) state :=
  done hcra hpost

theorem askBind {question : Query Result}
    (hnext : Survives machine crash post (next (machine.answer question state)) state) :
    Survives machine crash post (Fallible.ask question >>= next : Fallible Query Write Fault Next)
      state :=
  ask hnext

theorem tryAskBind {question : Query (Except Fault Result)} (hcra : crash state)
    (hfail : ∀ fault, machine.answer question state = .error fault → post (.error fault) state)
    (hnext : ∀ value, machine.answer question state = .ok value →
      Survives machine crash post (next value) state) :
    Survives machine crash post (Fallible.tryAsk question >>= next : Fallible Query Write Fault Next)
      state := by
  apply tryBind
  apply ask
  exact done hcra ⟨hfail, hnext⟩

theorem checkBind {checked : Except Fault Result} (hcra : crash state)
    (hfail : ∀ fault, checked = .error fault → post (.error fault) state)
    (hnext : ∀ value, checked = .ok value → Survives machine crash post (next value) state) :
    Survives machine crash post (Fallible.check checked >>= next : Fallible Query Write Fault Next)
      state := by
  apply tryBind
  exact done hcra ⟨hfail, hnext⟩

theorem writeBind {change : Write} {next : Unit → Fallible Query Write Fault Next}
    (hcra : crash state)
    (hnext : Survives machine crash post (next ()) (machine.apply change state)) :
    Survives machine crash post (Fallible.write change >>= next : Fallible Query Write Fault Next)
      state :=
  put hcra hnext

end Failure

end Survives

end WasmAgent.Core
