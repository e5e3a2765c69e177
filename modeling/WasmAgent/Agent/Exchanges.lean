import WasmAgent.Agent.BuildContext
import WasmAgent.Core.Ballot
import Mathlib.Data.List.Dedup
import Mathlib.Data.List.Count
import Mathlib.Data.List.Perm.Basic

/-!
# The provider's rule as a condition on counted words

A message list splits into blocks: every message that is not a tool result,
with the results that follow it directly.  The provider accepts the list when
the results of every block answer exactly the calls of its head.  For one call
id the list becomes a word of sites, and the rule says that every such word is
answered.  Each repair pass acts on the words in a simple way.
-/

namespace WasmAgent.Agent

open List WasmAgent.Ballot

/-- The results before the first other message, and every other message with
the results that follow it directly. -/
def splitBlocks : List Message → List Message × List (Message × List Message)
  | [] => ([], [])
  | message :: rest =>
      let split := splitBlocks rest
      if message.isTool then (message :: split.1, split.2)
      else ([], (message, split.1) :: split.2)

/-- The provider's rule: an assistant message with tool calls is followed
directly by exactly one result for each of its call ids and by no other, and
tool messages occur nowhere else. -/
def ProviderRule (messages : List Message) : Prop :=
  (splitBlocks messages).1 = [] ∧
    ∀ block ∈ (splitBlocks messages).2, (block.2.map Message.toolCallId).Perm block.1.callIds.dedup

instance (messages : List Message) : Decidable (ProviderRule messages) := by
  unfold ProviderRule
  infer_instance

def resultCount (id : String) (results : List Message) : ℕ :=
  (results.map Message.toolCallId).count id

@[simp]
theorem resultCount_nil (id : String) : resultCount id [] = 0 := rfl

theorem resultCount_cons (id : String) (message : Message) (rest : List Message) :
    resultCount id (message :: rest) =
      resultCount id rest + if message.toolCallId = id then 1 else 0 := by
  simp [resultCount, count_cons]

def blockSite (id : String) (block : Message × List Message) : Site :=
  (decide (id ∈ block.1.callIds), resultCount id block.2)

/-- The word of one id.  The results before the first other message count for
a site whose head calls the id if `opens` does. -/
def word (id : String) (opens : Bool) (messages : List Message) : List Site :=
  (opens, resultCount id (splitBlocks messages).1) :: (splitBlocks messages).2.map (blockSite id)

theorem word_nil (id : String) (opens : Bool) : word id opens [] = [(opens, 0)] := rfl

theorem word_cons_other {message : Message} (hoth : message.isTool = false)
    (id : String) (opens : Bool) (rest : List Message) :
    word id opens (message :: rest) =
      (opens, 0) :: word id (decide (id ∈ message.callIds)) rest := by
  simp [word, splitBlocks, hoth, blockSite]

def bump (closings : ℕ) : List Site → List Site
  | [] => []
  | site :: rest => (site.1, site.2 + closings) :: rest

@[simp]
theorem bump_zero (sites : List Site) : bump 0 sites = sites := by
  cases sites <;> simp [bump]

@[simp]
theorem bump_bump (first second : ℕ) (sites : List Site) :
    bump first (bump second sites) = bump (second + first) sites := by
  cases sites <;> simp [bump, Nat.add_assoc]

theorem word_cons_tool {message : Message} (htool : message.isTool = true)
    (id : String) (opens : Bool) (rest : List Message) :
    word id opens (message :: rest) =
      bump (if message.toolCallId = id then 1 else 0) (word id opens rest) := by
  simp [word, splitBlocks, htool, resultCount_cons, bump]

theorem word_append_tools {block : List Message} (htools : ∀ message ∈ block, message.isTool = true)
    (id : String) (opens : Bool) (rest : List Message) :
    word id opens (block ++ rest) = bump (resultCount id block) (word id opens rest) := by
  induction block with
  | nil => simp [word, bump]
  | cons message block ih =>
      have hmsg : message.isTool = true := htools message (by simp)
      have hblc := ih fun other hoth => htools other (by simp [hoth])
      rw [cons_append, word_cons_tool hmsg, hblc, resultCount_cons]
      simp [word, bump, Nat.add_assoc]

theorem word_of_no_leading {messages : List Message}
    (hlead : ∀ message ∈ messages.head?, message.isTool = false) (id : String) (opens : Bool) :
    word id opens messages = (opens, 0) :: (splitBlocks messages).2.map (blockSite id) := by
  cases messages with
  | nil => rfl
  | cons message rest =>
      have hoth : message.isTool = false := hlead message (by simp)
      simp [word, splitBlocks, hoth]

theorem perm_dedup_iff (results callIds : List String) :
    results.Perm callIds.dedup ↔ ∀ id, results.count id = (decide (id ∈ callIds)).toNat := by
  rw [perm_iff_count]
  constructor
  · intro hcnt id
    rw [hcnt id, count_dedup]
    split <;> simp_all
  · intro hcnt id
    rw [hcnt id, count_dedup]
    split <;> simp_all

theorem providerRule_iff (messages : List Message) :
    ProviderRule messages ↔ ∀ id, Answered (word id false messages) := by
  constructor
  · rintro ⟨hlead, hbloc⟩ id site hsite
    rw [word, hlead] at hsite
    rcases mem_cons.mp hsite with rfl | hsite
    · rfl
    · obtain ⟨block, hblc, rfl⟩ := mem_map.mp hsite
      exact (perm_dedup_iff _ _).mp (hbloc block hblc) id
  intro hansd
  constructor
  · cases hlead : (splitBlocks messages).1 with
    | nil => rfl
    | cons message rest =>
        have hsite := hansd message.toolCallId
          (false, resultCount message.toolCallId (message :: rest))
          (by simp [word, hlead])
        simp [resultCount_cons] at hsite
  intro block hblc
  refine (perm_dedup_iff _ _).mpr fun id => ?_
  exact hansd id (blockSite id block) (mem_cons_of_mem _ (mem_map_of_mem hblc))

end WasmAgent.Agent
