import WasmAgent.Core.Program

/-!
# Procedures that run side by side

Any number of callers run procedures over one store, one query or write at a
time.  Each running procedure is accompanied by what it has seen of the store.
What is legal for a procedure whatever the queries answer is legal in every
interleaving.
-/

namespace WasmAgent.Core

open Function

variable {Query : Type → Type} {Write State Result Next View Caller Item : Type}

/-- What a procedure remembers of its own queries and writes. -/
structure Memory (Query : Type → Type) (Write View : Type) where
  blank : View
  observe : {Reply : Type} → Query Reply → Reply → View → View
  record : Write → View → View

/-- A caller between two calls, or inside one. -/
inductive Thread (Query : Type → Type) (Write Result View : Type) : Type 1 where
  | idle
  | running (view : View) (rest : Program Query Write Result)

inductive Entry (Write State Result Caller : Type) where
  | wrote (caller : Caller) (write : Write) (found : State)
  | returned (caller : Caller) (result : Result)

structure World (Query : Type → Type) (Write State Result View Caller : Type) : Type 1 where
  state : State
  threads : Caller → Thread Query Write Result View
  history : List (Entry Write State Result Caller)

namespace World

/-- A store and no call running. -/
def start (state : State) : World Query Write State Result View Caller where
  state := state
  threads := fun _ => .idle
  history := []

variable [DecidableEq Caller]

def begin (memory : Memory Query Write View) (caller : Caller)
    (program : Program Query Write Result)
    (world : World Query Write State Result View Caller) :
    World Query Write State Result View Caller :=
  { world with
    threads := Function.update world.threads caller (.running memory.blank program) }

/-- A call ends. -/
def finish (caller : Caller) (result : Result)
    (world : World Query Write State Result View Caller) :
    World Query Write State Result View Caller :=
  { world with
    threads := Function.update world.threads caller .idle
    history := .returned caller result :: world.history }

def reply {Reply : Type} (machine : Machine Query Write State) (memory : Memory Query Write View)
    (caller : Caller) (view : View) (question : Query Reply)
    (next : Reply → Program Query Write Result)
    (world : World Query Write State Result View Caller) :
    World Query Write State Result View Caller :=
  { world with
    threads := Function.update world.threads caller
      (.running (memory.observe question (machine.answer question world.state) view)
        (next (machine.answer question world.state))) }

def commit (machine : Machine Query Write State) (memory : Memory Query Write View)
    (caller : Caller) (view : View) (write : Write) (next : Program Query Write Result)
    (world : World Query Write State Result View Caller) :
    World Query Write State Result View Caller where
  state := machine.apply write world.state
  threads := Function.update world.threads caller (.running (memory.record write view) next)
  history := .wrote caller write world.state :: world.history

def advance (machine : Machine Query Write State) (memory : Memory Query Write View)
    (caller : Caller) (world : World Query Write State Result View Caller) :
    World Query Write State Result View Caller :=
  match world.threads caller with
  | .idle => world
  | .running _ (.done result) => world.finish caller result
  | .running view (.ask question next) => world.reply machine memory caller view question next
  | .running view (.put write next) => world.commit machine memory caller view write next

end World

inductive Interleaved [DecidableEq Caller] (machine : Machine Query Write State)
    (memory : Memory Query Write View) (calls : Caller → Program Query Write Result → Prop)
    (ok : Write → View → State → Prop) (state : State) :
    World Query Write State Result View Caller → Prop where
  | start : Interleaved machine memory calls ok state (World.start state)
  | begin {world : World Query Write State Result View Caller} (caller : Caller)
      (program : Program Query Write Result)
      (hworld : Interleaved machine memory calls ok state world)
      (hidle : world.threads caller = .idle) (hcall : calls caller program) :
      Interleaved machine memory calls ok state (world.begin memory caller program)
  | advance {world : World Query Write State Result View Caller} (caller : Caller)
      (hworld : Interleaved machine memory calls ok state world)
      (hok : ∀ view write next, world.threads caller = .running view (.put write next) →
        ok write view world.state) :
      Interleaved machine memory calls ok state (world.advance machine memory caller)

/-- Whatever its queries answer, a procedure writes only what is allowed for what
it has seen, and ends as `post` says. -/
def Legal (machine : Machine Query Write State) (memory : Memory Query Write View)
    (allowed : Write → View → Prop) (post : Result → View → Prop) :
    Program Query Write Result → View → Prop
  | .done result, view => post result view
  | .ask question next, view => ∀ state, Legal machine memory allowed post
      (next (machine.answer question state))
      (memory.observe question (machine.answer question state) view)
  | .put write next, view => allowed write view ∧
      Legal machine memory allowed post next (memory.record write view)

namespace Legal

variable {machine : Machine Query Write State} {memory : Memory Query Write View}
variable {allowed : Write → View → Prop} {post : Result → View → Prop} {view : View}

@[simp]
theorem ask_iff {Reply : Type} {question : Query Reply}
    {next : Reply → Program Query Write Result} :
    Legal machine memory allowed post (.ask question next) view ↔
      ∀ state, Legal machine memory allowed post (next (machine.answer question state))
        (memory.observe question (machine.answer question state) view) := by
  rfl

variable {program : Program Query Write Result}

theorem weaken {wider : Result → View → Prop}
    (hlegal : Legal machine memory allowed post program view)
    (hwider : ∀ result final, post result final → wider result final) :
    Legal machine memory allowed wider program view := by
  induction program generalizing view with
  | done result => exact hwider result view hlegal
  | ask question next ih =>
    intro state
    exact ih _ (hlegal state)
  | put write next ih => exact ⟨hlegal.1, ih hlegal.2⟩

theorem bind {post : Next → View → Prop} {next : Result → Program Query Write Next}
    (hlegal : Legal machine memory allowed
      (fun result middle => Legal machine memory allowed post (next result) middle) program view) :
    Legal machine memory allowed post (program >>= next) view := by
  induction program generalizing view with
  | done result => exact hlegal
  | ask question rest ih =>
    intro state
    exact ih _ (hlegal state)
  | put write rest ih => exact ⟨hlegal.1, ih hlegal.2⟩

theorem foldlM {body : Result → Item → Program Query Write Result}
    (holds : List Item → Result → View → Prop)
    (hbody : ∀ item items value current, holds (item :: items) value current →
      Legal machine memory allowed (holds items) (body value item) current)
    (hlast : ∀ value current, holds [] value current → post value current)
    (items : List Item) (value : Result) (hsta : holds items value view) :
    Legal machine memory allowed post (items.foldlM body value) view := by
  induction items generalizing value view with
  | nil => exact hlast value view hsta
  | cons item items ih =>
    apply bind
    apply weaken (hbody item items value view hsta)
    intro reached middle hrch
    exact ih reached hrch

end Legal

section Threads

variable [DecidableEq Caller] {machine : Machine Query Write State}
variable {memory : Memory Query Write View} {calls : Caller → Program Query Write Result → Prop}
variable {ok : Write → View → State → Prop} {state : State}
variable {world : World Query Write State Result View Caller}

/-- Every running call goes on legally. -/
def World.Lawful (machine : Machine Query Write State) (memory : Memory Query Write View)
    (allowed : Write → View → Prop) (post : Result → View → Prop)
    (world : World Query Write State Result View Caller) : Prop :=
  ∀ caller view rest, world.threads caller = .running view rest →
    Legal machine memory allowed post rest view

theorem running_update {threads : Caller → Thread Query Write Result View} {caller other : Caller}
    {thread : Thread Query Write Result View} {view : View} {rest : Program Query Write Result}
    (hrun : update threads caller thread other = .running view rest) :
    other = caller ∧ thread = .running view rest ∨
      other ≠ caller ∧ threads other = .running view rest := by
  by_cases hoth : other = caller
  · subst hoth
    rw [update_self] at hrun
    exact Or.inl ⟨rfl, hrun⟩
  · rw [update_of_ne hoth] at hrun
    exact Or.inr ⟨hoth, hrun⟩

variable {allowed : Write → View → Prop} {post : Result → View → Prop}

theorem World.Lawful.advance (hlaw : world.Lawful machine memory allowed post) (caller : Caller) :
    (world.advance machine memory caller).Lawful machine memory allowed post := by
  intro other view rest hrun
  unfold World.advance at hrun
  split at hrun
  · exact hlaw other view rest hrun
  · rcases running_update hrun with ⟨-, hidle⟩ | ⟨-, hbef⟩
    · cases hidle
    · exact hlaw other view rest hbef
  · rename_i before Reply question next hthr
    rcases running_update hrun with ⟨-, hthis⟩ | ⟨-, hbef⟩
    · cases hthis
      exact hlaw caller before _ hthr world.state
    · exact hlaw other view rest hbef
  rename_i before write next hthr
  rcases running_update hrun with ⟨-, hthis⟩ | ⟨-, hbef⟩
  · cases hthis
    exact (hlaw caller before _ hthr).2
  · exact hlaw other view rest hbef

theorem Interleaved.lawful (hworld : Interleaved machine memory calls ok state world)
    (hcalls : ∀ caller program, calls caller program →
      Legal machine memory allowed post program memory.blank) :
    world.Lawful machine memory allowed post := by
  induction hworld with
  | start =>
    intro caller view rest hrun
    cases hrun
  | begin caller program _ _ hcall ih =>
    intro other view rest hrun
    rcases running_update hrun with ⟨-, hthis⟩ | ⟨-, hbef⟩
    · cases hthis
      exact hcalls caller program hcall
    · exact ih other view rest hbef
  | advance caller _ _ ih => exact ih.advance caller

theorem Interleaved.invariant {holds : World Query Write State Result View Caller → Prop}
    (hcalls : ∀ caller program, calls caller program →
      Legal machine memory allowed post program memory.blank)
    (hsta : holds (World.start state))
    (hbegin : ∀ (world : World Query Write State Result View Caller) caller program, holds world →
      world.threads caller = .idle → holds (world.begin memory caller program))
    (hfns : ∀ (world : World Query Write State Result View Caller) caller view result,
      holds world → world.threads caller = .running view (.done result) → post result view →
      holds (world.finish caller result))
    (hreply : ∀ (world : World Query Write State Result View Caller) caller view Reply
      (question : Query Reply) next, holds world →
      world.threads caller = .running view (.ask question next) →
      holds (world.reply machine memory caller view question next))
    (hcom : ∀ (world : World Query Write State Result View Caller) caller view write next,
      holds world → world.threads caller = .running view (.put write next) →
      allowed write view → ok write view world.state →
      holds (world.commit machine memory caller view write next))
    (hworld : Interleaved machine memory calls ok state world) : holds world := by
  induction hworld with
  | start => exact hsta
  | begin caller program _ hidle _ ih => exact hbegin _ caller program ih hidle
  | @advance world caller hworld hok ih =>
    have hlaw := hworld.lawful hcalls caller
    unfold World.advance
    split
    · exact ih
    · rename_i view result hthr
      exact hfns world caller view result ih hthr (hlaw view _ hthr)
    · rename_i view Reply question next hthr
      exact hreply world caller view Reply question next ih hthr
    · rename_i view write next hthr
      exact hcom world caller view write next ih hthr (hlaw view _ hthr).1
        (hok view write next hthr)

end Threads

/-! ## Schedules -/

inductive Turn (Caller Call : Type) where
  | call (caller : Caller) (request : Call)
  | step (caller : Caller)

section Schedules

variable {Call : Type} [DecidableEq Caller]

def Turn.play (machine : Machine Query Write State) (memory : Memory Query Write View)
    (program : Call → Program Query Write Result) (ok : Write → View → State → Prop)
    [∀ write view state, Decidable (ok write view state)] (turn : Turn Caller Call)
    (world : World Query Write State Result View Caller) :
    World Query Write State Result View Caller :=
  match turn with
  | .call caller request =>
      match world.threads caller with
      | .idle => world.begin memory caller (program request)
      | .running _ _ => world
  | .step caller =>
      match world.threads caller with
      | .running view (.put write _) =>
          if ok write view world.state then world.advance machine memory caller else world
      | _ => world.advance machine memory caller

def World.play (machine : Machine Query Write State) (memory : Memory Query Write View)
    (program : Call → Program Query Write Result) (ok : Write → View → State → Prop)
    [∀ write view state, Decidable (ok write view state)] (turns : List (Turn Caller Call))
    (world : World Query Write State Result View Caller) :
    World Query Write State Result View Caller :=
  turns.foldl (fun current turn => turn.play machine memory program ok current) world

theorem Interleaved.play {machine : Machine Query Write State} {memory : Memory Query Write View}
    {program : Call → Program Query Write Result} {ok : Write → View → State → Prop}
    [∀ write view state, Decidable (ok write view state)]
    {calls : Caller → Program Query Write Result → Prop} {state : State}
    {world : World Query Write State Result View Caller} (turns : List (Turn Caller Call))
    (hworld : Interleaved machine memory calls ok state world)
    (hcalls : ∀ caller request, Turn.call caller request ∈ turns → calls caller (program request)) :
    Interleaved machine memory calls ok state (world.play machine memory program ok turns) := by
  induction turns generalizing world with
  | nil => exact hworld
  | cons turn turns ih =>
    have hrest : ∀ caller request, Turn.call caller request ∈ turns → calls caller (program request) := by
      intro caller request hmem
      exact hcalls caller request (List.mem_cons_of_mem turn hmem)
    apply ih _ hrest
    cases turn with
    | call caller request =>
      unfold Turn.play
      dsimp only
      split
      · rename_i hidle
        exact .begin caller _ hworld hidle (hcalls caller request List.mem_cons_self)
      · exact hworld
    | step caller =>
      unfold Turn.play
      dsimp only
      split
      · rename_i view write next hthr
        split
        · rename_i hok
          apply Interleaved.advance caller hworld
          intro other change rest hrun
          rw [hthr] at hrun
          cases hrun
          exact hok
        · exact hworld
      rename_i hnot
      apply Interleaved.advance caller hworld
      intro view write next hrun
      exact absurd hrun (hnot view write next)

end Schedules

end WasmAgent.Core
