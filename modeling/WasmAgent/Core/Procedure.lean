import Mathlib.Logic.Function.Basic

/-!
# Callers of a shared state, one statement at a time

A procedure executes statements, each of which reads and changes the state at once and
says what it found.  Any number of callers run procedures side by side.  A caller relies
on the state only getting later between its own statements, and what each of its
statements keeps under that assumption every run keeps.
-/

namespace WasmAgent.Core

open Function

inductive Procedure (Statement : Type → Type) (Result : Type) : Type 1 where
  | done (result : Result)
  | exec {Reply : Type} (statement : Statement Reply) (next : Reply → Procedure Statement Result)

/-- What a statement replies and leaves, and what a shift that no caller asked for leaves. -/
structure Engine (Statement : Type → Type) (State Shift : Type) where
  run : {Reply : Type} → Statement Reply → State → Reply × State
  shift : Shift → State → State

variable {Statement : Type → Type} {State Shift Result Next Request Caller : Type}

namespace Procedure

def bind : Procedure Statement Result → (Result → Procedure Statement Next) →
    Procedure Statement Next
  | done result, next => next result
  | exec statement rest, next => exec statement fun reply => (rest reply).bind next

instance : Monad (Procedure Statement) where
  pure := done
  bind := bind

def execute {Reply : Type} (statement : Statement Reply) : Procedure Statement Reply :=
  exec statement done

end Procedure

structure Traffic (Statement : Type → Type) (State Result Caller : Type) : Type 1 where
  state : State
  callers : Caller → Option (State × Procedure Statement Result)

inductive Act (Caller Request Shift : Type) where
  | shift (change : Shift)
  | call (caller : Caller) (request : Request)
  | step (caller : Caller)

namespace Traffic

def start (state : State) : Traffic Statement State Result Caller where
  state := state
  callers := fun _ => none

section Plays

variable [DecidableEq Caller] (engine : Engine Statement State Shift)
variable (route : Request → Procedure Statement Result)

def step (traffic : Traffic Statement State Result Caller) (caller : Caller) :
    Traffic Statement State Result Caller :=
  match traffic.callers caller with
  | none => traffic
  | some (_, .done _) => { traffic with callers := Function.update traffic.callers caller none }
  | some (_, .exec statement next) =>
      { state := (engine.run statement traffic.state).2
        callers := Function.update traffic.callers caller
          (some ((engine.run statement traffic.state).2,
            next (engine.run statement traffic.state).1)) }

def play (traffic : Traffic Statement State Result Caller) :
    Act Caller Request Shift → Traffic Statement State Result Caller
  | .shift change => { traffic with state := engine.shift change traffic.state }
  | .call caller request =>
      match traffic.callers caller with
      | none =>
          { traffic with
            callers := Function.update traffic.callers caller
              (some (traffic.state, route request)) }
      | some _ => traffic
  | .step caller => traffic.step engine caller

def plays (traffic : Traffic Statement State Result Caller)
    (acts : List (Act Caller Request Shift)) : Traffic Statement State Result Caller :=
  acts.foldl (play engine route) traffic

end Plays

section Conditions

variable (ok : State → State → {Reply : Type} → Statement Reply → Prop)

def Due (now : State) : Option (State × Procedure Statement Result) → Prop
  | some (last, .exec statement _) => ok last now statement
  | _ => True

def Meets (traffic : Traffic Statement State Result Caller) : Act Caller Request Shift → Prop
  | .step caller => Due ok traffic.state (traffic.callers caller)
  | _ => True

def MeetsAll [DecidableEq Caller] (engine : Engine Statement State Shift)
    (route : Request → Procedure Statement Result) (traffic : Traffic Statement State Result Caller) :
    List (Act Caller Request Shift) → Prop
  | [] => True
  | act :: acts => traffic.Meets ok act ∧ MeetsAll engine route (traffic.play engine route act) acts

variable [∀ last now Reply (statement : Statement Reply), Decidable (ok last now statement)]

instance (now : State) :
    (next : Option (State × Procedure Statement Result)) → Decidable (Due ok now next)
  | some (last, .exec statement _) => inferInstanceAs (Decidable (ok last now statement))
  | none | some (_, .done _) => isTrue trivial

instance (traffic : Traffic Statement State Result Caller) :
    (act : Act Caller Request Shift) → Decidable (traffic.Meets ok act)
  | .step caller => inferInstanceAs (Decidable (Due ok traffic.state (traffic.callers caller)))
  | .shift _ | .call _ _ => isTrue trivial

instance instDecidableMeetsAll [DecidableEq Caller] (engine : Engine Statement State Shift)
    (route : Request → Procedure Statement Result) :
    (traffic : Traffic Statement State Result Caller) → (acts : List (Act Caller Request Shift)) →
      Decidable (MeetsAll ok engine route traffic acts)
  | _, [] => isTrue trivial
  | traffic, act :: acts =>
      have := instDecidableMeetsAll engine route (traffic.play engine route act) acts
      inferInstanceAs (Decidable (_ ∧ _))

end Conditions

section Runs

variable [DecidableEq Caller] {engine : Engine Statement State Shift}
variable {route : Request → Procedure Statement Result}
variable {ok : State → State → {Reply : Type} → Statement Reply → Prop}
variable {traffic : Traffic Statement State Result Caller}

theorem meetsAll_append {acts more : List (Act Caller Request Shift)} :
    MeetsAll ok engine route traffic (acts ++ more) ↔
      MeetsAll ok engine route traffic acts ∧
        MeetsAll ok engine route (traffic.plays engine route acts) more := by
  induction acts generalizing traffic with
  | nil => exact (iff_of_eq (true_and _)).symm
  | cons act acts ih =>
    change _ ∧ MeetsAll ok engine route _ (acts ++ more) ↔ _
    rw [ih, ← and_assoc]
    rfl

theorem plays_append {acts more : List (Act Caller Request Shift)} :
    traffic.plays engine route (acts ++ more) =
      (traffic.plays engine route acts).plays engine route more :=
  List.foldl_append

end Runs

end Traffic

structure Rely (engine : Engine Statement State Shift) (holds : State → Prop)
    (later : State → State → Prop) : Prop where
  refl : ∀ state, later state state
  trans : ∀ first second third, later first second → later second third → later first third
  shift : ∀ change state, holds state → holds (engine.shift change state) ∧
    later state (engine.shift change state)

section Safety

variable (engine : Engine Statement State Shift) (holds : State → Prop)
variable (later : State → State → Prop)
variable (ok : State → State → {Reply : Type} → Statement Reply → Prop)

def Safe : Procedure Statement Result → State → Prop
  | .done _, _ => True
  | .exec statement next, last => ∀ now, later last now → holds now → ok last now statement →
      holds (engine.run statement now).2 ∧ later now (engine.run statement now).2 ∧
        Safe (next (engine.run statement now).1) (engine.run statement now).2

def OnlyReads : Procedure Statement Result → Prop
  | .done _ => True
  | .exec statement next =>
      (∀ state, (engine.run statement state).2 = state) ∧ ∀ reply, OnlyReads (next reply)

structure Traffic.Sound (traffic : Traffic Statement State Result Caller) : Prop where
  kept : holds traffic.state
  safe : ∀ caller last rest, traffic.callers caller = some (last, rest) →
    later last traffic.state ∧ Safe engine holds later ok rest last

end Safety

section Rules

open Procedure

variable {engine : Engine Statement State Shift} {holds : State → Prop}
variable {later : State → State → Prop}
variable {ok : State → State → {Reply : Type} → Statement Reply → Prop} {last : State}

theorem Safe.executes {Reply : Type} {statement : Statement Reply}
    {next : Reply → Procedure Statement Result}
    (hnext : ∀ now, later last now → holds now → ok last now statement →
      holds (engine.run statement now).2 ∧ later now (engine.run statement now).2 ∧
        Safe engine holds later ok (next (engine.run statement now).1)
          (engine.run statement now).2) :
    Safe engine holds later ok (execute statement >>= next) last :=
  hnext

theorem Safe.asks {Reply : Type} {statement : Statement Reply}
    {next : Reply → Procedure Statement Result} (hrely : Rely engine holds later)
    (hreads : ∀ state, (engine.run statement state).2 = state)
    (hnext : ∀ now, later last now → holds now →
      Safe engine holds later ok (next (engine.run statement now).1) now) :
    Safe engine holds later ok (execute statement >>= next) last := by
  apply Safe.executes
  intro now hltr hhld _
  rw [hreads]
  exact ⟨hhld, hrely.refl now, hnext now hltr hhld⟩

theorem Safe.guards {condition : Prop} [Decidable condition] {result : Result}
    {rest : Procedure Statement Result}
    (hrest : ¬condition → Safe engine holds later ok rest last) :
    Safe engine holds later ok (if condition then pure result else rest) last := by
  split
  · trivial
  · next hcon => exact hrest hcon

variable {first : Procedure Statement Result} {next : Result → Procedure Statement Next}

theorem Safe.after (hrely : Rely engine holds later)
    (hreads : OnlyReads engine first) (hlast : holds last)
    (hnext : ∀ result now, later last now → holds now →
      Safe engine holds later ok (next result) now) :
    Safe engine holds later ok (first >>= next) last := by
  induction first generalizing last with
  | done result => exact hnext result last (hrely.refl last) hlast
  | exec statement rest ih =>
    intro now hltr hhld _
    rw [hreads.1]
    refine ⟨hhld, hrely.refl now, ih _ (hreads.2 _) hhld ?_⟩
    intro result reached hrch
    exact hnext result reached (hrely.trans last now reached hltr hrch)

theorem Safe.bind (hfst : Safe engine holds later ok first last) (hlast : holds last)
    (hnext : ∀ result now, holds now → Safe engine holds later ok (next result) now) :
    Safe engine holds later ok (first >>= next) last := by
  induction first generalizing last with
  | done result => exact hnext result last hlast
  | exec statement rest ih =>
    intro now hltr hhld hok
    obtain ⟨hkept, hltr', hrest⟩ := hfst now hltr hhld hok
    exact ⟨hkept, hltr', ih _ hrest hkept⟩

theorem OnlyReads.execute {Reply : Type} {statement : Statement Reply}
    (hreads : ∀ state, (engine.run statement state).2 = state) :
    OnlyReads engine (execute statement) :=
  ⟨hreads, fun _ => trivial⟩

theorem OnlyReads.bind (hfst : OnlyReads engine first)
    (hnext : ∀ result, OnlyReads engine (next result)) : OnlyReads engine (first >>= next) := by
  induction first with
  | done result => exact hnext result
  | exec statement rest ih => exact ⟨hfst.1, fun reply => ih reply (hfst.2 reply)⟩

namespace Traffic.Sound

variable {traffic : Traffic Statement State Result Caller}

theorem start {state : State} (hhld : holds state) :
    Sound engine holds later ok (Traffic.start state : Traffic Statement State Result Caller) where
  kept := hhld
  safe := by nofun

variable (hsound : traffic.Sound engine holds later ok) (hrely : Rely engine holds later)
include hsound hrely

theorem moves {after : Traffic Statement State Result Caller} (hhld : holds after.state)
    (hltr : later traffic.state after.state)
    (hcall : ∀ caller last rest, after.callers caller = some (last, rest) →
      traffic.callers caller = some (last, rest) ∨
        (last = after.state ∧ Safe engine holds later ok rest last)) :
    after.Sound engine holds later ok where
  kept := hhld
  safe := by
    intro caller last rest hcal
    rcases hcall caller last rest hcal with hbef | ⟨rfl, hsafe⟩
    · obtain ⟨hlast, hsafe⟩ := hsound.safe caller last rest hbef
      exact ⟨hrely.trans last traffic.state after.state hlast hltr, hsafe⟩
    · exact ⟨hrely.refl after.state, hsafe⟩

variable [DecidableEq Caller] {route : Request → Procedure Statement Result}

omit hsound hrely in
theorem of_update {callers : Caller → Option (State × Procedure Statement Result)}
    {caller other : Caller} {new : Option (State × Procedure Statement Result)}
    {rest : Procedure Statement Result}
    (hoth : update callers caller new other = some (last, rest)) :
    callers other = some (last, rest) ∨ new = some (last, rest) := by
  by_cases hsame : other = caller
  · rw [hsame, update_self] at hoth
    exact .inr hoth
  · rw [update_of_ne hsame] at hoth
    exact .inl hoth

theorem step (caller : Caller)
    (hmeets : traffic.Meets ok (.step caller : Act Caller Request Shift)) :
    (traffic.step engine caller).Sound engine holds later ok ∧
      later traffic.state (traffic.step engine caller).state := by
  rw [Traffic.step]
  cases hcal : traffic.callers caller with
  | none => exact ⟨hsound, hrely.refl traffic.state⟩
  | some thread =>
    obtain ⟨last, rest⟩ := thread
    cases rest with
    | done result =>
      refine ⟨hsound.moves hrely hsound.kept (hrely.refl traffic.state) ?_,
        hrely.refl traffic.state⟩
      intro other before rest hoth
      rcases of_update hoth with hsame | hnew
      · exact .inl hsame
      · cases hnew
    | exec statement next =>
      obtain ⟨hlast, hsafe⟩ := hsound.safe caller last _ hcal
      rw [Traffic.Meets, hcal] at hmeets
      obtain ⟨hhld, hltr, hnext⟩ := hsafe traffic.state hlast hsound.kept hmeets
      refine ⟨hsound.moves hrely hhld hltr ?_, hltr⟩
      intro other before rest hoth
      rcases of_update hoth with hsame | hnew
      · exact .inl hsame
      · cases hnew
        exact .inr ⟨rfl, hnext⟩

variable (hroute : ∀ request state, holds state → Safe engine holds later ok (route request) state)
include hroute

theorem play (act : Act Caller Request Shift) (hmeets : traffic.Meets ok act) :
    (traffic.play engine route act).Sound engine holds later ok ∧
      later traffic.state (traffic.play engine route act).state := by
  cases act with
  | shift change =>
    obtain ⟨hhld, hltr⟩ := hrely.shift change traffic.state hsound.kept
    exact ⟨hsound.moves hrely hhld hltr fun _ _ _ hcal => .inl hcal, hltr⟩
  | call caller request =>
    rw [Traffic.play]
    split
    · refine ⟨hsound.moves hrely hsound.kept (hrely.refl traffic.state) ?_,
        hrely.refl traffic.state⟩
      intro other last rest hoth
      rcases of_update hoth with hsame | hnew
      · exact .inl hsame
      · cases hnew
        exact .inr ⟨rfl, hroute request traffic.state hsound.kept⟩
    · exact ⟨hsound, hrely.refl traffic.state⟩
  | step caller => exact hsound.step hrely caller hmeets

theorem plays
    (acts : List (Act Caller Request Shift)) (hmeets : Traffic.MeetsAll ok engine route traffic acts) :
    (traffic.plays engine route acts).Sound engine holds later ok ∧
      later traffic.state (traffic.plays engine route acts).state := by
  induction acts generalizing traffic with
  | nil => exact ⟨hsound, hrely.refl traffic.state⟩
  | cons act acts ih =>
    obtain ⟨hnext, hltr⟩ := hsound.play hrely hroute act hmeets.1
    obtain ⟨hlast, hltr'⟩ := ih hnext hmeets.2
    exact ⟨hlast, hrely.trans _ _ _ hltr hltr'⟩

end Traffic.Sound

end Rules

end WasmAgent.Core
