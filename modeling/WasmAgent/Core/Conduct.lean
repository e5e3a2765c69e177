import WasmAgent.Core.Program

/-!
# What a procedure does to the store, block by block

A procedure that runs alone issues its writes in blocks, each of them allowed
in the store it starts from.  Invariants of blocks are invariants of runs, and
what holds inside a block holds wherever the procedure is stopped.
-/

namespace WasmAgent.Core

open List

variable {Query : Type → Type} {Write State : Type} {Result Next Item : Type}

inductive Chain (machine : Machine Query Write State)
    (allowed : State → List Write → Prop) : State → List Write → Prop where
  | nil (state : State) : Chain machine allowed state []
  | block {state : State} (writes rest : List Write) (hallowed : allowed state writes)
      (hrest : Chain machine allowed (machine.applyAll writes state) rest) :
      Chain machine allowed state (writes ++ rest)

/-- A procedure that goes block by block and ends as `post` says. -/
structure Goes (machine : Machine Query Write State) (allowed : State → List Write → Prop)
    (post : Result → State → Prop) (program : Program Query Write Result) (state : State) :
    Prop where
  chain : Chain machine allowed state (program.writes machine state)
  outcome : post (program.result machine state) (program.final machine state)

namespace Program

def putAll (writes : List Write) (rest : Program Query Write Result) : Program Query Write Result :=
  writes.foldr put rest

theorem putAll_append (first second : List Write) (rest : Program Query Write Result) :
    putAll (first ++ second) rest = putAll first (putAll second rest) := by
  exact foldr_append

end Program

variable {writes : List Write}

namespace Chain

variable {machine : Machine Query Write State} {allowed : State → List Write → Prop}
variable {state : State}

theorem single (hall : allowed state writes) : Chain machine allowed state writes := by
  have hchain := (Chain.block writes [] hall (Chain.nil _) :
    Chain machine allowed state (writes ++ []))
  rwa [append_nil] at hchain

theorem append {first second : List Write} (hfst : Chain machine allowed state first)
    (hsnd : Chain machine allowed (machine.applyAll first state) second) :
    Chain machine allowed state (first ++ second) := by
  induction hfst with
  | nil state => exact hsnd
  | block writes rest hall _ ih =>
    rw [Machine.applyAll_append] at hsnd
    rw [append_assoc]
    exact Chain.block writes _ hall (ih hsnd)

/-- Where nothing is allowed, nothing is written. -/
theorem eq_nil_of_never (hchain : Chain machine (fun _ _ => False) state writes) : writes = [] := by
  cases hchain with
  | nil => rfl
  | block writes rest hall => exact hall.elim

theorem invariant {holds : State → Prop} {state : State} {writes : List Write}
    (hblc : ∀ current block, holds current → allowed current block →
      holds (machine.applyAll block current))
    (hchain : Chain machine allowed state writes) (hst : holds state) :
    holds (machine.applyAll writes state) := by
  induction hchain with
  | nil state => exact hst
  | block writes rest hall _ ih =>
    rw [Machine.applyAll_append]
    exact ih (hblc _ _ hst hall)

theorem invariant_take {holds : State → Prop}
    (hblc : ∀ current block count, holds current → allowed current block →
      holds (machine.applyAll (block.take count) current))
    (hchain : Chain machine allowed state writes) (hst : holds state) (count : ℕ) :
    holds (machine.applyAll (writes.take count) state) := by
  induction hchain generalizing count with
  | nil state =>
    rw [take_nil]
    exact hst
  | @block state writes rest hall _ ih =>
    rw [take_append]
    rcases Nat.lt_or_ge writes.length count with hpast | hins
    · have hwhole := hblc state writes writes.length hst hall
      rw [take_length] at hwhole
      rw [take_of_length_le (Nat.le_of_lt hpast), Machine.applyAll_append]
      exact ih hwhole _
    · rw [Nat.sub_eq_zero_of_le hins, take_zero, append_nil]
      exact hblc state writes count hst hall

end Chain

/-- A stop that falls between two writes of a run, both as `together` says. -/
def Splits (machine : Machine Query Write State) (together : Write → Write → State → Prop)
    (writes : List Write) (count : ℕ) (state : State) : Prop :=
  ∃ before last next after, writes = before ++ last :: next :: after ∧
    count = before.length + 1 ∧
    together last next (machine.applyAll (before ++ [last]) state)

variable {together : Write → Write → State → Prop} {machine : Machine Query Write State}

theorem not_splits_of_length_le {count : ℕ} {state : State}
    (hlen : writes.length ≤ count) : ¬ Splits machine together writes count state := by
  intro hspl
  obtain ⟨before, last, next, after, rfl, hcnt, -⟩ := hspl
  simp at hlen
  omega

theorem Chain.invariant_unless_splits
    {allowed : State → List Write → Prop} {holds : State → Prop} {state : State}
    (hblc : ∀ current block count, holds current → allowed current block →
      holds (machine.applyAll (block.take count) current) ∨
        Splits machine together block count current) (hchain : Chain machine allowed state writes)
    (hst : holds state) (count : ℕ) :
    holds (machine.applyAll (writes.take count) state) ∨
      Splits machine together writes count state := by
  induction hchain generalizing count with
  | nil state =>
    rw [take_nil]
    exact .inl hst
  | @block state writes rest hall _ ih =>
    rw [take_append]
    rcases Nat.lt_or_ge count writes.length with hins | hpast
    · rw [Nat.sub_eq_zero_of_le (Nat.le_of_lt hins), take_zero, append_nil]
      rcases hblc state writes count hst hall with hhld | hspl
      · exact .inl hhld
      · obtain ⟨before, last, next, after, rfl, hcnt, htog⟩ := hspl
        refine .inr ⟨before, last, next, after ++ rest, ?_, hcnt, htog⟩
        simp
    have hwhole : holds (machine.applyAll writes state) := by
      rcases hblc state writes writes.length hst hall with hhld | hspl
      · rwa [take_length] at hhld
      · obtain ⟨before, last, next, after, rfl, hcnt, -⟩ := hspl
        simp at hcnt
    rw [take_of_length_le hpast, Machine.applyAll_append]
    rcases ih hwhole (count - writes.length) with hhld | hspl
    · exact .inl hhld
    obtain ⟨before, last, next, after, rfl, hcnt, htog⟩ := hspl
    refine .inr ⟨writes ++ before, last, next, after, ?_, ?_, ?_⟩
    · simp
    · rw [length_append]
      omega
    · rwa [append_assoc, Machine.applyAll_append]

namespace Goes

variable {machine : Machine Query Write State} {allowed : State → List Write → Prop}
variable {post : Result → State → Prop} {state : State}

@[simp]
theorem done_iff {value : Result} :
    Goes machine allowed post (Program.done value) state ↔ post value state := by
  constructor
  · intro hgoes
    exact hgoes.outcome
  · intro hpost
    exact ⟨Chain.nil state, hpost⟩

@[simp]
theorem ask_iff {Reply : Type} {question : Query Reply}
    {rest : Reply → Program Query Write Result} :
    Goes machine allowed post (Program.ask question rest) state ↔
      Goes machine allowed post (rest (machine.answer question state)) state := by
  constructor
  · intro hgoes
    exact { hgoes with }
  · intro hgoes
    exact { hgoes with }

variable {program : Program Query Write Result}

theorem weaken {wider : Result → State → Prop} (hgoes : Goes machine allowed post program state)
    (hwider : ∀ value final, post value final → wider value final) :
    Goes machine allowed wider program state :=
  ⟨hgoes.chain, hwider _ _ hgoes.outcome⟩

theorem named (hgoes : Goes machine allowed post program state) :
    Goes machine allowed
      (fun value final => post value final ∧ final = program.final machine state) program
      state :=
  ⟨hgoes.chain, hgoes.outcome, rfl⟩

theorem bind {post : Next → State → Prop} {next : Result → Program Query Write Next}
    (hgoes : Goes machine allowed
      (fun value middle => Goes machine allowed post (next value) middle) program state) :
    Goes machine allowed post (program >>= next) state := by
  obtain ⟨hchain, hnext⟩ := hgoes
  constructor
  · rw [Program.writes_bind]
    exact hchain.append hnext.chain
  · rw [Program.result_bind, Program.final_bind]
    exact hnext.outcome

variable {rest : Program Query Write Result}

theorem block (writes : List Write) (hall : allowed state writes)
    (hrest : Goes machine allowed post rest (machine.applyAll writes state)) :
    Goes machine allowed post (Program.putAll writes rest) state := by
  have hwrs : (Program.putAll writes rest).writes machine state =
      writes ++ rest.writes machine (machine.applyAll writes state) := by
    clear hall hrest
    induction writes generalizing state with
    | nil => rfl
    | cons write writes ih => exact congrArg (write :: ·) ih
  have hres : (Program.putAll writes rest).result machine state =
      rest.result machine (machine.applyAll writes state) := by
    clear hall hrest hwrs
    induction writes generalizing state with
    | nil => rfl
    | cons write writes ih => exact ih
  constructor
  · rw [hwrs]
    exact Chain.block writes _ hall hrest.chain
  · rw [hres, Program.final, hwrs, Machine.applyAll_append]
    exact hrest.outcome

theorem block_append (first second third : List Write)
    (hall : allowed state (first ++ (second ++ third)))
    (hrest : Goes machine allowed post rest (machine.applyAll (first ++ (second ++ third)) state)) :
    Goes machine allowed post
      (Program.putAll first (Program.putAll second (Program.putAll third rest))) state := by
  have hblc := block (first ++ (second ++ third)) hall hrest
  rwa [Program.putAll_append, Program.putAll_append] at hblc

theorem foldlM {body : Result → Item → Program Query Write Result}
    (holds : List Item → Result → State → Prop)
    (hbody : ∀ item items value current, holds (item :: items) value current →
      Goes machine allowed (holds items) (body value item) current)
    (hlast : ∀ value current, holds [] value current → post value current)
    (items : List Item) (value : Result) (hsta : holds items value state) :
    Goes machine allowed post (items.foldlM body value) state := by
  induction items generalizing value state with
  | nil => exact done_iff.mpr (hlast value state hsta)
  | cons item items ih =>
    apply bind
    apply weaken (hbody item items value state hsta)
    intro reached middle hrch
    exact ih reached hrch

end Goes

end WasmAgent.Core
