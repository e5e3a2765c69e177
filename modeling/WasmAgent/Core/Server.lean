import Mathlib.Data.Nat.Notation

/-!
# A process that works in turns

A process repeats a procedure that asks a changing world for one operation at a time.  Others
change the world between any two operations, and the process may end at any of them and be
started again.  An observer keeps a view of the operations of the process: what a procedure
asks for is judged by that view alone, whatever the world does.
-/

namespace WasmAgent.Core

/-- A procedure, as the operations that it asks for, one at a time. -/
inductive Script (Op : Type) (Answer : Op → Type) (Value : Type) : Type where
  | done (value : Value)
  | ask (op : Op) (next : Answer op → Script Op Answer Value)

/-- What an observer makes of the operations it sees: which are in order, which answers they can
have, and what it knows after them. -/
structure Observer (Op : Type) (Answer : Op → Type) (View : Type) where
  lawful : Op → View → Prop
  admits : (op : Op) → View → Answer op → Prop
  step : (op : Op) → Answer op → View → View

namespace Script

variable {Op : Type} {Answer : Op → Type} {Value Next View : Type}

def bind : Script Op Answer Value → (Value → Script Op Answer Next) → Script Op Answer Next
  | done value, next => next value
  | ask op rest, next => ask op (fun answer => (rest answer).bind next)

instance : Monad (Script Op Answer) where
  pure := done
  bind := bind

/-- One operation. -/
def call (op : Op) : Script Op Answer (Answer op) := ask op done

/-- Every operation is in order for the observer, whatever was answered, and at the end `post`
holds of what it has seen. -/
def Follows (observer : Observer Op Answer View) :
    Script Op Answer Value → (Value → View → Prop) → View → Prop
  | done value, post, view => post value view
  | ask op next, post, view => observer.lawful op view ∧ ∀ answer, observer.admits op view answer →
      (next answer).Follows observer post (observer.step op answer view)

section Following

variable {observer : Observer Op Answer View} {view : View}
variable {script : Script Op Answer Value} {next : Value → Script Op Answer Next}

variable {post : Next → View → Prop}

@[simp]
theorem follows_bind :
    (script >>= next).Follows observer post view ↔
      script.Follows observer (fun value seen => (next value).Follows observer post seen) view := by
  induction script generalizing view with
  | done value => rfl
  | ask op rest ih =>
    apply and_congr_right
    intro _
    apply forall_congr'
    intro answer
    apply imp_congr_right
    intro _
    exact ih answer

theorem Follows.weaken {post wider : Value → View → Prop} (hfol : script.Follows observer post view)
    (hwider : ∀ value seen, post value seen → wider value seen) :
    script.Follows observer wider view := by
  induction script generalizing view with
  | done value => exact hwider value view hfol
  | ask op rest ih =>
    apply And.intro hfol.1
    intro answer hadm
    exact ih answer (hfol.2 answer hadm)

theorem Follows.bind {middle : Value → View → Prop} (hfirst : script.Follows observer middle view)
    (hnext : ∀ value seen, middle value seen → (next value).Follows observer post seen) :
    (script >>= next).Follows observer post view :=
  follows_bind.mpr (hfirst.weaken hnext)

/-- Whatever is answered, the procedure asks for nothing else, and `post` holds of what it
returns. -/
def Only (quiet : Op → Prop) (post : Value → Prop) (script : Script Op Answer Value) : Prop :=
  script.Follows ⟨fun op _ => quiet op, fun _ _ _ => True, fun _ _ seen => seen⟩
    (fun value _ => post value) ()

section Quiet

variable {quiet wider : Op → Prop}

theorem only_call {op : Op} {post : Answer op → Prop} (hquiet : quiet op)
    (hpost : ∀ answer, post answer) : Only quiet post (call op : Script Op Answer (Answer op)) :=
  ⟨hquiet, fun answer _ => hpost answer⟩

theorem Only.bind {middle : Value → Prop} {post : Next → Prop} (hfirst : Only quiet middle script)
    (hnext : ∀ value, middle value → Only quiet post (next value)) :
    Only quiet post (script >>= next) :=
  Follows.bind hfirst (fun value _ hmid => hnext value hmid)

theorem Only.widen {post weaker : Value → Prop} (honly : Only quiet post script)
    (hquiet : ∀ op, quiet op → wider op) (hpost : ∀ value, post value → weaker value) :
    Only wider weaker script := by
  induction script with
  | done value => exact hpost value honly
  | ask op next ih =>
    apply And.intro (hquiet op honly.1)
    intro answer _
    exact ih answer (honly.2 answer trivial)

theorem Only.follows {script : Script Op Answer Value} {post : Value → Prop}
    {kept : View → Prop} (honly : Only quiet post script) (hview : kept view)
    (hlaw : ∀ op seen, quiet op → kept seen → observer.lawful op seen)
    (hstep : ∀ op answer seen, quiet op → kept seen → kept (observer.step op answer seen)) :
    script.Follows observer (fun value seen => post value ∧ kept seen) view := by
  induction script generalizing view with
  | done value => exact ⟨honly, hview⟩
  | ask op next ih =>
    apply And.intro (hlaw op view honly.1 hview)
    intro answer _
    exact ih answer (honly.2 answer trivial) (hstep op answer view honly.1 hview)

end Quiet

end Following

end Script

/-- A process: what its operations do, what others do meanwhile, and the turns that it takes.
The number that a turn is given bounds the loops in it that wait for something. -/
structure Server (Op : Type) (Answer : Op → Type) (State Memory : Type) where
  perform : (op : Op) → State → Answer op → State → Prop
  drift : State → State → Prop
  boots : State → Memory → Prop
  resumes : Memory → Prop
  turn : ℕ → Memory → Script Op Answer Memory

inductive Process (Op : Type) (Answer : Op → Type) (Memory : Type) where
  | down
  | resting (memory : Memory)
  | busy (script : Script Op Answer Memory)

/-- What the runs are like that a result is about: the answers that operations get, where the
process ends, and what its start and its end are for the observer. -/
structure Terms (Op : Type) (Answer : Op → Type) (View : Type) where
  fair : (op : Op) → View → Answer op → Prop
  mayEnd : View → Prop
  started : View → View
  ended : View → View

namespace Server

variable {Op : Type} {Answer : Op → Type} {State Memory View : Type}

inductive Reaches (server : Server Op Answer State Memory) (observer : Observer Op Answer View)
    (terms : Terms Op Answer View) (first : State → View → Prop) :
    Process Op Answer Memory → State → View → Prop where
  | start {state : State} {view : View} (hfirst : first state view) :
      Reaches server observer terms first .down state view
  | drift {process : Process Op Answer Memory} {state after : State} {view : View}
      (hbefore : Reaches server observer terms first process state view)
      (hdrift : server.drift state after) : Reaches server observer terms first process after view
  | boot {state : State} {view : View} (memory : Memory)
      (hbefore : Reaches server observer terms first .down state view)
      (hboots : server.boots state memory) :
      Reaches server observer terms first (.resting memory) state (terms.started view)
  | turn {memory : Memory} {state : State} {view : View} (patience : ℕ)
      (hbefore : Reaches server observer terms first (.resting memory) state view)
      (hresumes : server.resumes memory) :
      Reaches server observer terms first (.busy (server.turn patience memory)) state view
  | answer {op : Op} {next : Answer op → Script Op Answer Memory} {state after : State}
      {view : View} (answer : Answer op)
      (hbefore : Reaches server observer terms first (.busy (.ask op next)) state view)
      (hperform : server.perform op state answer after) (hfair : terms.fair op view answer) :
      Reaches server observer terms first (.busy (next answer)) after (observer.step op answer view)
  | rest {memory : Memory} {state : State} {view : View}
      (hbefore : Reaches server observer terms first (.busy (.done memory)) state view) :
      Reaches server observer terms first (.resting memory) state view
  | ends {process : Process Op Answer Memory} {state : State} {view : View}
      (hbefore : Reaches server observer terms first process state view)
      (hmay : terms.mayEnd view) :
      Reaches server observer terms first .down state (terms.ended view)

def Stands (observer : Observer Op Answer View) (without : View → Prop)
    (atRest : Memory → View → Prop) : Process Op Answer Memory → View → Prop
  | .down, view => without view
  | .resting memory, view => atRest memory view
  | .busy script, view => script.Follows observer atRest view

section Invariants

variable {server : Server Op Answer State Memory} {observer : Observer Op Answer View}
variable {terms : Terms Op Answer View} {first : State → View → Prop}

theorem Reaches.invariant {holds : State → View → Prop} {without : View → Prop}
    {atRest : Memory → View → Prop}
    (hfirst : ∀ state view, first state view → holds state view ∧ without view)
    (hdrift : ∀ state after view, holds state view → server.drift state after → holds after view)
    (hboot : ∀ state view memory, holds state view → without view →
      server.boots state memory → holds state (terms.started view) ∧ atRest memory (terms.started view))
    (hturn : ∀ patience memory view, atRest memory view → server.resumes memory →
      (server.turn patience memory).Follows observer atRest view)
    (hans : ∀ op state answer after view, holds state view → observer.lawful op view →
      server.perform op state answer after → terms.fair op view answer →
      observer.admits op view answer ∧ holds after (observer.step op answer view))
    (hends : ∀ state view, holds state view → terms.mayEnd view →
      holds state (terms.ended view) ∧ without (terms.ended view))
    {process : Process Op Answer Memory} {state : State} {view : View}
    (hrchs : server.Reaches observer terms first process state view) :
    holds state view ∧ Stands observer without atRest process view := by
  induction hrchs with
  | start hsta => exact hfirst _ _ hsta
  | drift _ hdrif ih => exact ⟨hdrift _ _ _ ih.1 hdrif, ih.2⟩
  | boot memory _ hboots ih => exact hboot _ _ memory ih.1 ih.2 hboots
  | turn patience _ hres ih => exact ⟨ih.1, hturn patience _ _ ih.2 hres⟩
  | answer answer _ hper hfair ih =>
    obtain ⟨hlaw, hrest⟩ := ih.2
    obtain ⟨hadm, hhld⟩ := hans _ _ answer _ _ ih.1 hlaw hper hfair
    exact ⟨hhld, hrest answer hadm⟩
  | rest _ ih => exact ih
  | ends _ hmay ih => exact hends _ _ ih.1 hmay

end Invariants

section Playing

variable {server : Server Op Answer State Memory} {observer : Observer Op Answer View}
variable {terms : Terms Op Answer View} {first : State → View → Prop}

/-- Some moves of a process in a row, its operations answered as `reply` says for as long as it
does. -/
def play (turn : ℕ → Memory → Script Op Answer Memory) (observer : Observer Op Answer View)
    (goes : Memory → Bool) (reply : (op : Op) → State → Option (Answer op))
    (leave : State → (op : Op) → Answer op → State) (patience : ℕ) :
    ℕ → Process Op Answer Memory → State → View → Process Op Answer Memory × State × View
  | 0, process, state, view => (process, state, view)
  | _ + 1, .down, state, view => (.down, state, view)
  | count + 1, .resting memory, state, view =>
      if goes memory then
        play turn observer goes reply leave patience count (.busy (turn patience memory)) state view
      else (.resting memory, state, view)
  | count + 1, .busy (.done memory), state, view =>
      play turn observer goes reply leave patience count (.resting memory) state view
  | count + 1, .busy (.ask op next), state, view =>
      match reply op state with
      | none => (.busy (.ask op next), state, view)
      | some answer =>
          play turn observer goes reply leave patience count (.busy (next answer))
            (leave state op answer) (observer.step op answer view)

theorem Reaches.playing {goes : Memory → Bool} {reply : (op : Op) → State → Option (Answer op)}
    {leave : State → (op : Op) → Answer op → State}
    (hgoes : ∀ memory, goes memory = true → server.resumes memory)
    (hreply : ∀ op state view answer, reply op state = some answer →
      server.perform op state answer (leave state op answer) ∧ terms.fair op view answer)
    (patience count : ℕ) {process : Process Op Answer Memory} {state : State} {view : View}
    (hbef : server.Reaches observer terms first process state view) :
    let played := play server.turn observer goes reply leave patience count process state view
    server.Reaches observer terms first played.1 played.2.1 played.2.2 := by
  induction count generalizing process state view with
  | zero => exact hbef
  | succ count ih =>
    cases process with
    | down => exact hbef
    | resting memory =>
      dsimp only [play]
      by_cases hmore : goes memory = true
      · rw [if_pos hmore]
        exact ih (hbef.turn patience (hgoes memory hmore))
      · rw [if_neg hmore]
        exact hbef
    | busy script =>
      cases script with
      | done memory => exact ih hbef.rest
      | ask op next =>
        dsimp only [play]
        cases hans : reply op state with
        | none => exact hbef
        | some answer =>
          obtain ⟨hper, hfair⟩ := hreply op state view answer hans
          exact ih (hbef.answer answer hper hfair)

end Playing

end Server

end WasmAgent.Core
