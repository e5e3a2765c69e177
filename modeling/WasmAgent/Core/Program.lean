import Mathlib.Data.List.Basic

/-!
# Procedures over a shared store

A procedure asks queries of a store and issues writes to it, one at a time.
Running it alone, stopping it after some of its writes, and interleaving it
with others are all read off the same syntax tree.
-/

namespace WasmAgent.Core

open List

inductive Program (Query : Type → Type) (Write : Type) (Result : Type) : Type 1 where
  | done (result : Result)
  | ask {Reply : Type} (query : Query Reply) (next : Reply → Program Query Write Result)
  | put (write : Write) (next : Program Query Write Result)

structure Machine (Query : Type → Type) (Write State : Type) where
  answer : {Reply : Type} → Query Reply → State → Reply
  apply : Write → State → State

namespace Machine

variable {Query : Type → Type} {Write State : Type}

def applyAll (machine : Machine Query Write State) (writes : List Write) (state : State) : State :=
  writes.foldl (fun current write => machine.apply write current) state

variable (machine : Machine Query Write State)

@[simp]
theorem applyAll_nil (state : State) : machine.applyAll [] state = state := by
  rfl

@[simp]
theorem applyAll_cons (write : Write) (writes : List Write) (state : State) :
    machine.applyAll (write :: writes) state =
      machine.applyAll writes (machine.apply write state) := by
  rfl

@[simp]
theorem applyAll_append (first second : List Write) (state : State) :
    machine.applyAll (first ++ second) state =
      machine.applyAll second (machine.applyAll first state) := by
  exact foldl_append

end Machine

namespace Program

variable {Query : Type → Type} {Write State : Type} {Result Next : Type}

def bind : Program Query Write Result → (Result → Program Query Write Next) →
    Program Query Write Next
  | done result, next => next result
  | ask query rest, next => ask query (fun reply => (rest reply).bind next)
  | put write rest, next => put write (rest.bind next)

instance : Monad (Program Query Write) where
  pure := done
  bind := bind

def query {Reply : Type} (question : Query Reply) : Program Query Write Reply := ask question done

def write (change : Write) : Program Query Write Unit := put change (done ())

@[simp]
theorem pure_eq (result : Result) : (pure result : Program Query Write Result) = done result := by
  rfl

@[simp]
theorem done_bind (result : Result) (next : Result → Program Query Write Next) :
    done result >>= next = next result := by
  rfl

variable {Reply : Type} (question : Query Reply)

@[simp]
theorem ask_bind (rest : Reply → Program Query Write Result)
    (next : Result → Program Query Write Next) :
    ask question rest >>= next = ask question (fun reply => rest reply >>= next) := by
  rfl

@[simp]
theorem put_bind (change : Write) (rest : Program Query Write Result)
    (next : Result → Program Query Write Next) :
    put change rest >>= next = put change (rest >>= next) := by
  rfl

@[simp]
theorem query_bind (next : Reply → Program Query Write Next) :
    query question >>= next = ask question next := by
  rfl

@[simp]
theorem write_bind (change : Write) (next : Unit → Program Query Write Next) :
    write change >>= next = put change (next ()) := by
  rfl

theorem bind_done (program : Program Query Write Result) : program.bind done = program := by
  induction program with
  | done result => rfl
  | ask question rest ih => exact congrArg (ask question) (funext ih)
  | put change rest ih => exact congrArg (put change) ih

theorem bind_bind {Middle : Type} (program : Program Query Write Result)
    (first : Result → Program Query Write Middle) (second : Middle → Program Query Write Next) :
    (program.bind first).bind second = program.bind (fun result => (first result).bind second) := by
  induction program with
  | done result => rfl
  | ask question rest ih => exact congrArg (ask question) (funext ih)
  | put change rest ih => exact congrArg (put change) ih

instance : LawfulMonad (Program Query Write) :=
  LawfulMonad.mk' _ bind_done (fun _ _ => rfl) bind_bind

/-- The result of a procedure that runs alone. -/
def result (machine : Machine Query Write State) :
    Program Query Write Result → State → Result
  | done value, _ => value
  | ask question rest, state => (rest (machine.answer question state)).result machine state
  | put change rest, state => rest.result machine (machine.apply change state)

/-- The writes a procedure issues when it runs alone, in order. -/
def writes (machine : Machine Query Write State) :
    Program Query Write Result → State → List Write
  | done _, _ => []
  | ask question rest, state => (rest (machine.answer question state)).writes machine state
  | put change rest, state => change :: rest.writes machine (machine.apply change state)

/-- The store after a procedure ran alone. -/
def final (machine : Machine Query Write State) (program : Program Query Write Result)
    (state : State) : State :=
  machine.applyAll (program.writes machine state) state

/-- The store a procedure leaves when it is stopped after its first `count` writes. -/
def stopped (machine : Machine Query Write State) (program : Program Query Write Result)
    (count : ℕ) (state : State) : State :=
  machine.applyAll ((program.writes machine state).take count) state

section Execution

variable (machine : Machine Query Write State)

@[simp]
theorem result_done (value : Result) (state : State) :
    (done value : Program Query Write Result).result machine state = value := by
  rfl

@[simp]
theorem result_ask (question : Query Reply) (rest : Reply → Program Query Write Result)
    (state : State) :
    (ask question rest).result machine state =
      (rest (machine.answer question state)).result machine state := by
  rfl

@[simp]
theorem result_put (change : Write) (rest : Program Query Write Result) (state : State) :
    (put change rest).result machine state = rest.result machine (machine.apply change state) := by
  rfl

@[simp]
theorem writes_done (value : Result) (state : State) :
    (done value : Program Query Write Result).writes machine state = [] := by
  rfl

@[simp]
theorem writes_ask (question : Query Reply) (rest : Reply → Program Query Write Result)
    (state : State) :
    (ask question rest).writes machine state =
      (rest (machine.answer question state)).writes machine state := by
  rfl

@[simp]
theorem writes_put (change : Write) (rest : Program Query Write Result) (state : State) :
    (put change rest).writes machine state =
      change :: rest.writes machine (machine.apply change state) := by
  rfl

variable (program : Program Query Write Result) (next : Result → Program Query Write Next)

theorem writes_bind (state : State) :
    (program >>= next).writes machine state =
      program.writes machine state ++
        (next (program.result machine state)).writes machine (program.final machine state) := by
  induction program generalizing state with
  | done value => rfl
  | ask question rest ih => exact ih _ state
  | put change rest ih => exact congrArg (change :: ·) (ih (machine.apply change state))

theorem result_bind (state : State) :
    (program >>= next).result machine state =
      (next (program.result machine state)).result machine (program.final machine state) := by
  induction program generalizing state with
  | done value => rfl
  | ask question rest ih => exact ih _ state
  | put change rest ih => exact ih (machine.apply change state)

theorem final_bind (state : State) :
    (program >>= next).final machine state =
      (next (program.result machine state)).final machine (program.final machine state) := by
  rw [final, writes_bind, Machine.applyAll_append]
  rfl

@[simp]
theorem final_done (value : Result) (state : State) :
    (done value : Program Query Write Result).final machine state = state := by
  rfl

@[simp]
theorem final_ask (question : Query Reply) (rest : Reply → Program Query Write Result)
    (state : State) :
    (ask question rest).final machine state =
      (rest (machine.answer question state)).final machine state := by
  rfl

@[simp]
theorem final_put (change : Write) (rest : Program Query Write Result) (state : State) :
    (put change rest).final machine state = rest.final machine (machine.apply change state) := by
  rfl

theorem stopped_of_length_le (count : ℕ)
    (state : State) (hlen : (program.writes machine state).length ≤ count) :
    program.stopped machine count state = program.final machine state := by
  rw [stopped, take_of_length_le hlen]
  rfl

end Execution

/-- The result and the store of a procedure that runs alone, in one pass. -/
def run (machine : Machine Query Write State) :
    Program Query Write Result → State → Result × State
  | done value, state => (value, state)
  | ask question rest, state => (rest (machine.answer question state)).run machine state
  | put change rest, state => rest.run machine (machine.apply change state)

theorem run_eq (machine : Machine Query Write State) (program : Program Query Write Result)
    (state : State) :
    program.run machine state = (program.result machine state, program.final machine state) := by
  induction program generalizing state with
  | done value => rfl
  | ask question rest ih => exact ih _ state
  | put change rest ih => exact ih (machine.apply change state)

section Projection

/-- A machine that carries more along than another, and forgets it. -/
structure Projects {Small : Type} (machine : Machine Query Write State)
    (smaller : Machine Query Write Small) (project : State → Small) : Prop where
  answer : ∀ {Reply : Type} (question : Query Reply) (state : State),
    machine.answer question state = smaller.answer question (project state)
  apply : ∀ change state, project (machine.apply change state) =
    smaller.apply change (project state)

variable {Small : Type} {machine : Machine Query Write State} {smaller : Machine Query Write Small}
  {project : State → Small}

variable (hprj : Projects machine smaller project)
include hprj

variable (program : Program Query Write Result)

theorem writes_project (state : State) :
    program.writes machine state = program.writes smaller (project state) := by
  induction program generalizing state with
  | done value => rfl
  | ask question rest ih =>
    rw [writes_ask, writes_ask, ← hprj.answer]
    exact ih _ state
  | put change rest ih =>
    rw [writes_put, writes_put, ← hprj.apply]
    exact congrArg (change :: ·) (ih (machine.apply change state))

theorem result_project (state : State) :
    program.result machine state = program.result smaller (project state) := by
  induction program generalizing state with
  | done value => rfl
  | ask question rest ih =>
    rw [result_ask, result_ask, ← hprj.answer]
    exact ih _ state
  | put change rest ih =>
    rw [result_put, result_put, ← hprj.apply]
    exact ih (machine.apply change state)

theorem applyAll_project (writes : List Write) (state : State) :
    project (machine.applyAll writes state) = smaller.applyAll writes (project state) := by
  induction writes generalizing state with
  | nil => rfl
  | cons change writes ih =>
    rw [Machine.applyAll_cons, Machine.applyAll_cons, ih, hprj.apply]

theorem stopped_project (count : ℕ) (state : State) :
    project (program.stopped machine count state) =
      program.stopped smaller count (project state) := by
  rw [stopped, stopped, applyAll_project hprj, writes_project hprj]

theorem final_project (state : State) :
    project (program.final machine state) = program.final smaller (project state) := by
  rw [final, final, applyAll_project hprj, writes_project hprj]

def amid (machine : Machine Query Write State) (others : ℕ → State → State) :
    Program Query Write Result → ℕ → State → Result
  | done value, _, _ => value
  | ask question rest, turn, state =>
      (rest (machine.answer question (others turn state))).amid machine others (turn + 1)
        (others turn state)
  | put change rest, turn, state =>
      rest.amid machine others (turn + 1) (machine.apply change (others turn state))

theorem amid_eq {others : ℕ → State → State}
    (hoths : ∀ turn state, project (others turn state) = project state)
    (program : Program Query Write Result) (turn : ℕ) (state : State) :
    program.amid machine others turn state = program.result machine state := by
  rw [result_project hprj]
  induction program generalizing turn state with
  | done value => rfl
  | ask question rest ih =>
    rw [amid, result_ask, ih, hoths, hprj.answer, hoths]
  | put change rest ih =>
    rw [amid, result_put, ih, hprj.apply, hoths]

end Projection

section Embedding

variable {SmallQuery : Type → Type} {SmallWrite Small : Type}

/-- A procedure of a smaller machine, its queries and writes put in the words of a larger. -/
def relabel (query : {Reply : Type} → SmallQuery Reply → Query Reply)
    (write : SmallWrite → Write) :
    Program SmallQuery SmallWrite Result → Program Query Write Result
  | done value => done value
  | ask question rest => ask (query question) (fun reply => (rest reply).relabel query write)
  | put change rest => put (write change) (rest.relabel query write)

/-- A machine that holds a smaller one, under words of its own. -/
structure Embeds (machine : Machine Query Write State)
    (smaller : Machine SmallQuery SmallWrite Small)
    (query : {Reply : Type} → SmallQuery Reply → Query Reply) (write : SmallWrite → Write)
    (project : State → Small) : Prop where
  answer : ∀ {Reply : Type} (question : SmallQuery Reply) (state : State),
    machine.answer (query question) state = smaller.answer question (project state)
  apply : ∀ change state, project (machine.apply (write change) state) =
    smaller.apply change (project state)

variable {machine : Machine Query Write State} {smaller : Machine SmallQuery SmallWrite Small}
  {query : {Reply : Type} → SmallQuery Reply → Query Reply} {write : SmallWrite → Write}
  {project : State → Small}

variable (hemb : Embeds machine smaller query write project)
include hemb

variable (program : Program SmallQuery SmallWrite Result)

theorem writes_relabel (state : State) :
    (program.relabel query write).writes machine state =
      (program.writes smaller (project state)).map write := by
  induction program generalizing state with
  | done value => rfl
  | ask question rest ih =>
    rw [relabel, writes_ask, hemb.answer, writes_ask]
    exact ih _ state
  | put change rest ih =>
    rw [relabel, writes_put, writes_put, map_cons, ← hemb.apply]
    exact congrArg (write change :: ·) (ih (machine.apply (write change) state))

theorem result_relabel (state : State) :
    (program.relabel query write).result machine state =
      program.result smaller (project state) := by
  induction program generalizing state with
  | done value => rfl
  | ask question rest ih =>
    rw [relabel, result_ask, hemb.answer, result_ask]
    exact ih _ state
  | put change rest ih =>
    rw [relabel, result_put, result_put, ← hemb.apply]
    exact ih (machine.apply (write change) state)

end Embedding

section Tracing

variable (machine : Machine Query Write State)

def traced : Machine Query Write (State × Option Write) where
  answer := fun question state => machine.answer question state.1
  apply := fun change state => (machine.apply change state.1, some change)

theorem traced_projects : Projects (traced machine) machine Prod.fst :=
  ⟨fun _ _ => rfl, fun _ _ => rfl⟩

theorem traced_last (writes : List Write) (state : State) (last : Option Write) :
    ((traced machine).applyAll writes (state, last)).2 = writes.getLast?.or last := by
  induction writes generalizing state last with
  | nil => rfl
  | cons change writes ih =>
    rw [Machine.applyAll_cons, getLast?_cons]
    refine (ih (machine.apply change state) (some change)).trans ?_
    cases writes.getLast? with
    | none => rfl
    | some final => rfl

end Tracing

end Program

end WasmAgent.Core
