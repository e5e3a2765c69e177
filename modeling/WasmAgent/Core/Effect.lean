import Mathlib.Data.Nat.Notation

/-!
# Steps that may fail

Steps on a state, up to the first that fails.  A step that fails leaves what was done
before it.
-/

namespace WasmAgent.Core

def Effect (State Fault Value : Type) : Type := State → Except Fault Value × State

namespace Effect

variable {State Inner Fault Value Next View : Type}

def done (value : Value) : Effect State Fault Value :=
  fun state => (.ok value, state)

def bind (effect : Effect State Fault Value) (next : Value → Effect State Fault Next) :
    Effect State Fault Next :=
  fun state =>
    match effect state with
    | (.ok value, reached) => next value reached
    | (.error fault, reached) => (.error fault, reached)

instance : Monad (Effect State Fault) where
  pure := done
  bind := bind

def lift (answer : Except Fault Value) : Effect State Fault Value :=
  fun state => (answer, state)

def read : Effect State Fault State :=
  fun state => (.ok state, state)

def write (change : State → State) : Effect State Fault Unit :=
  fun state => (.ok (), change state)

def within (part : State → Inner) (put : Inner → State → State)
    (effect : Effect Inner Fault Value) : Effect State Fault Value :=
  fun state => ((effect (part state)).1, put (effect (part state)).2 state)

theorem bind_run (effect : Effect State Fault Value) (next : Value → Effect State Fault Next)
    (state : State) : (effect >>= next) state =
      match effect state with
      | (.ok value, reached) => next value reached
      | (.error fault, reached) => (.error fault, reached) :=
  rfl

section Outcomes

variable {effect : Effect State Fault Value} {next : Value → Effect State Fault Next}
variable {state reached : State} {fault : Fault}

theorem bind_ok {result : Next} (hok : (effect >>= next) state = (.ok result, reached)) :
    ∃ value middle, effect state = (.ok value, middle) ∧
      next value middle = (.ok result, reached) := by
  rw [bind_run] at hok
  cases heff : effect state with
  | mk answer middle =>
    rw [heff] at hok
    cases answer with
    | ok value => exact ⟨value, middle, rfl, hok⟩
    | error fault => cases hok

theorem bind_of_ok {value : Value} {middle : State} (hok : effect state = (.ok value, middle)) :
    (effect >>= next) state = next value middle := by
  rw [bind_run, hok]

theorem bind_of_error (hflt : effect state = (.error fault, reached)) :
    (effect >>= next) state = (.error fault, reached) := by
  rw [bind_run, hflt]

end Outcomes

def Spares (view : State → View) (effect : Effect State Fault Value) : Prop :=
  ∀ state, view (effect state).2 = view state

namespace Spares

variable {view : State → View} {effect : Effect State Fault Value}

theorem pure (value : Value) : Spares view (pure value : Effect State Fault Value) :=
  fun _ => rfl

theorem lift (answer : Except Fault Value) : Spares view (lift answer : Effect State Fault Value) :=
  fun _ => rfl

theorem read : Spares view (read : Effect State Fault State) :=
  fun _ => rfl

theorem bind {next : Value → Effect State Fault Next} (hfst : Spares view effect)
    (hnext : ∀ value, Spares view (next value)) : Spares view (effect >>= next) := by
  intro state
  have hst := hfst state
  rw [bind_run]
  cases heff : effect state with
  | mk answer reached =>
    rw [heff] at hst
    cases answer with
    | ok value => exact (hnext value reached).trans hst
    | error fault => exact hst

end Spares

end Effect

end WasmAgent.Core
