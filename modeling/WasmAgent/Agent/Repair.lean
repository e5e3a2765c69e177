import WasmAgent.Agent.Exchanges
import Mathlib.Data.List.TakeWhile

/-!
# What the repair of a window does to the counted words

The first pass of the repair is the first-come matching of `Ballot`, run for
all ids at once.  The two dropping passes only remove ids that are not both
called and answered somewhere, and images become messages without results.
Together they decide when the repaired window satisfies the provider's rule.
-/

namespace WasmAgent.Agent

open List Option WasmAgent.Ballot

/-! ## Late results move up to their call -/

variable (want : List String)

theorem mem_forget (id other : String) : other ∈ forget want id ↔ other ∈ want ∧ other ≠ id := by
  simp [forget]

theorem mem_foldl_forget (ids want : List String) (id : String) :
    id ∈ ids.foldl forget want ↔ id ∈ want ∧ ids.count id = 0 := by
  induction ids generalizing want with
  | nil => simp
  | cons head ids ih =>
      rw [foldl_cons, ih, mem_forget, count_cons]
      by_cases hhead : head = id
      · subst hhead
        simp
      · simp [hhead, Ne.symm hhead]

variable (messages : List Message)

theorem collect_perm : ((collect want messages).1 ++ (collect want messages).2).Perm messages := by
  induction messages generalizing want with
  | nil => simp [collect]
  | cons message rest ih =>
      by_cases hwan : (message.isTool && want.contains message.toolCallId) = true
      · simp only [collect, hwan, if_true, cons_append]
        exact (ih _).cons message
      · simp only [collect, hwan]
        exact perm_middle.trans ((ih want).cons message)

theorem collect_tools : ∀ message ∈ (collect want messages).1, message.isTool = true := by
  induction messages generalizing want with
  | nil => simp [collect]
  | cons message rest ih =>
      by_cases hwan : (message.isTool && want.contains message.toolCallId) = true
      · simp only [collect, hwan, if_true, mem_cons]
        rintro other (rfl | hoth)
        · exact (Bool.and_eq_true_iff.mp hwan).1
        · exact ih _ other hoth
      · simp only [collect, hwan]
        exact ih want

variable {id : String}

theorem collect_unwanted {want : List String} (hwant : id ∉ want) (opens : Bool)
    (messages : List Message) :
    word id opens (collect want messages).2 = word id opens messages ∧
      resultCount id (collect want messages).1 = 0 := by
  induction messages generalizing want opens with
  | nil => simp [collect]
  | cons message rest ih =>
      by_cases htool : message.isTool = true
      · by_cases hmem : message.toolCallId ∈ want
        · have hne : message.toolCallId ≠ id := fun heq => hwant (heq ▸ hmem)
          have hfor : id ∉ forget want message.toolCallId := by
            rw [mem_forget]
            exact fun hboth => hwant hboth.1
          obtain ⟨hword, hcnt⟩ := ih hfor opens
          have hctn : (message.isTool && want.contains message.toolCallId) = true := by
            simp [htool, hmem]
          simp only [collect, hctn, if_true]
          rw [word_cons_tool htool, resultCount_cons, hword, hcnt, if_neg hne]
          simp [bump, word]
        · obtain ⟨hword, hcnt⟩ := ih hwant opens
          have hctn : (message.isTool && want.contains message.toolCallId) = false := by
            simp [hmem]
          simp only [collect, hctn, Bool.false_eq_true, if_false]
          rw [word_cons_tool htool, word_cons_tool htool, hword]
          exact ⟨rfl, hcnt⟩
      have hoth : message.isTool = false := by simpa using htool
      obtain ⟨hword, hcnt⟩ := ih hwant (decide (id ∈ message.callIds))
      simp only [collect, hoth, Bool.false_and, Bool.false_eq_true, if_false]
      rw [word_cons_other hoth, word_cons_other hoth, hword]
      exact ⟨rfl, hcnt⟩

theorem collect_wanted {want : List String} (hwant : id ∈ want) (opens : Bool)
    (messages : List Message) :
    match pull (word id opens messages) with
    | some pulled =>
        word id opens (collect want messages).2 = pulled ∧
          resultCount id (collect want messages).1 = 1
    | none =>
        word id opens (collect want messages).2 = word id opens messages ∧
          resultCount id (collect want messages).1 = 0 := by
  induction messages generalizing want opens with
  | nil => simp [collect, word, splitBlocks, pull]
  | cons message rest ih =>
      by_cases htool : message.isTool = true
      · by_cases hid : message.toolCallId = id
        · -- This result is the one the call waits for.
          have hfor : id ∉ forget want message.toolCallId := by
            rw [mem_forget]
            exact fun hboth => hboth.2 hid.symm
          obtain ⟨hword, hcnt⟩ := collect_unwanted hfor opens rest
          have hctn : (message.isTool && want.contains message.toolCallId) = true := by
            simp [htool, hid, hwant]
          simp only [collect, hctn, if_true]
          rw [word_cons_tool htool, if_pos hid]
          simp only [word, bump, pull]
          refine ⟨hword, ?_⟩
          rw [resultCount_cons, hcnt, if_pos hid]
        · have hsame : word id opens (message :: rest) = word id opens rest := by
            rw [word_cons_tool htool, if_neg hid]
            simp [word, bump]
          by_cases hmem : message.toolCallId ∈ want
          · have hfor : id ∈ forget want message.toolCallId :=
              (mem_forget _ _ _).mpr ⟨hwant, Ne.symm hid⟩
            have hctn : (message.isTool && want.contains message.toolCallId) = true := by
              simp [htool, hmem]
            simp only [collect, hctn, if_true]
            rw [hsame, resultCount_cons, if_neg hid]
            exact ih hfor opens
          have hctn : (message.isTool && want.contains message.toolCallId) = false := by
            simp [hmem]
          have hlt : word id opens (message :: (collect want rest).2) =
              word id opens (collect want rest).2 := by
            rw [word_cons_tool htool, if_neg hid]
            simp [word, bump]
          simp only [collect, hctn, Bool.false_eq_true, if_false]
          rw [hsame, hlt]
          exact ih hwant opens
      have hoth : message.isTool = false := by simpa using htool
      have hrest := ih hwant (decide (id ∈ message.callIds))
      simp only [collect, hoth, Bool.false_and, Bool.false_eq_true, if_false]
      rw [word_cons_other hoth, word_cons_other hoth, pull]
      cases hpull : pull (word id (decide (id ∈ message.callIds)) rest) with
      | none =>
          rw [hpull] at hrest
          simp only [map_none]
          rw [hrest.1]
          exact ⟨rfl, hrest.2⟩
      | some pulled =>
          rw [hpull] at hrest
          simp only [map_some]
          rw [hrest.1]
          exact ⟨rfl, hrest.2⟩

theorem gather_perm (message : Message) (rest : List Message) :
    (gather message rest).1.Perm rest := by
  unfold gather
  split
  · have hcoll := collect_perm
      (((rest.takeWhile Message.isTool).map Message.toolCallId).foldl forget message.callIds)
      (rest.dropWhile Message.isTool)
    have happ := hcoll.append_left (rest.takeWhile Message.isTool)
    simpa using happ
  · exact List.Perm.refl rest

/-- The sites after one message, once the message has been served first. -/
def serve (opens : Bool) (closings : ℕ) (rest : List Site) : List Site :=
  if opens = true ∧ closings = 0 then
    match pull rest with
    | some pulled => (opens, 1) :: pulled
    | none => (opens, 0) :: rest
  else (opens, closings) :: rest

theorem settle_succ_cons (count : ℕ) (opens : Bool) (closings : ℕ) (rest : List Site) :
    settle (count + 1) ((opens, closings) :: rest) =
      match serve opens closings rest with
      | [] => []
      | site :: served => site :: settle count served := by
  simp only [settle, serve]
  split
  · cases pull rest <;> rfl
  · rfl

theorem dropWhile_head_isTool :
    ∀ message ∈ (messages.dropWhile Message.isTool).head?, message.isTool = false := by
  intro message hmsg
  have hnot := head?_dropWhile_not Message.isTool messages
  rw [mem_def.mp hmsg] at hnot
  simpa using hnot

theorem word_gather (message : Message) (rest : List Message) (id : String) :
    word id (decide (id ∈ message.callIds)) (gather message rest).1 =
      serve (decide (id ∈ message.callIds)) (resultCount id (splitBlocks rest).1)
        ((splitBlocks rest).2.map (blockSite id)) := by
  set opens := decide (id ∈ message.callIds) with hopens
  set block := rest.takeWhile Message.isTool with hblc
  set tail := rest.dropWhile Message.isTool with htail
  have hspl : rest = block ++ tail := (takeWhile_append_dropWhile).symm
  have htools : ∀ other ∈ block, other.isTool = true := by
    intro other hoth
    exact mem_takeWhile_imp hoth
  have hword := word_of_no_leading (dropWhile_head_isTool rest) id opens
  rw [← htail] at hword
  have hrest : word id opens rest =
      (opens, resultCount id block) :: (splitBlocks tail).2.map (blockSite id) := by
    rw [hspl, word_append_tools htools, hword]
    simp [bump]
  have hsites := List.cons.inj (hrest.symm.trans (rfl : word id opens rest = _))
  have hcnt : resultCount id (splitBlocks rest).1 = resultCount id block :=
    (congrArg Prod.snd hsites.1).symm
  rw [hcnt, ← hsites.2]
  by_cases hcal : (message.isAssistant && !message.toolCalls.isEmpty) = true
  · rw [gather, if_pos hcal]
    simp only [← hblc, ← htail]
    set want := (block.map Message.toolCallId).foldl forget message.callIds with hwant
    have hmem : id ∈ want ↔ opens = true ∧ resultCount id block = 0 := by
      rw [hwant, mem_foldl_forget, hopens, decide_eq_true_iff]
      rfl
    rw [append_assoc, word_append_tools htools, word_append_tools (collect_tools want tail)]
    by_cases hid : id ∈ want
    · have hzero := (hmem.mp hid).2
      have hfnd := collect_wanted hid opens tail
      rw [hword] at hfnd
      simp only [pull] at hfnd
      rw [serve, if_pos (hmem.mp hid)]
      cases hpull : pull ((splitBlocks tail).2.map (blockSite id)) with
      | none =>
          rw [hpull] at hfnd
          simp only [map_none] at hfnd
          rw [hfnd.1, hfnd.2, hzero]
          simp [bump]
      | some pulled =>
          rw [hpull] at hfnd
          simp only [map_some] at hfnd
          rw [hfnd.1, hfnd.2, hzero]
          simp [bump]
    · have hfnd := collect_unwanted hid opens tail
      rw [serve, if_neg (fun hboth => hid (hmem.mpr hboth)), hfnd.1, hfnd.2, hword]
      simp [bump]
  · -- A message without calls opens no site and moves nothing.
    have hclos : opens = false := by
      have hids : message.callIds = [] := by
        unfold Message.callIds
        by_cases hass : message.isAssistant = true
        · have hemp : message.toolCalls = [] := by simpa [hass] using hcal
          simp [hemp]
        · simp [hass]
      simp [hopens, hids]
    rw [gather, if_neg hcal, hrest, serve, hclos]
    simp

theorem serve_length (rest : List Site) (opens : Bool) (closings : ℕ) :
    (serve opens closings rest).length = rest.length + 1 := by
  simp only [serve]
  split
  · cases hpull : pull rest with
    | none => simp
    | some pulled => simp [pull_length hpull]
  · simp

theorem settle_succ {count : ℕ} {sites : List Site} (hcnt : sites.length ≤ count) :
    settle (count + 1) sites = settle count sites := by
  induction count generalizing sites with
  | zero =>
      have hnil : sites = [] := eq_nil_of_length_eq_zero (by omega)
      subst hnil
      rfl
  | succ count ih =>
      cases sites with
      | nil => rfl
      | cons site rest =>
          obtain ⟨opens, closings⟩ := site
          rw [settle_succ_cons, settle_succ_cons]
          have hlen := serve_length rest opens closings
          cases hserve : serve opens closings rest with
          | nil => rfl
          | cons served others =>
              rw [hserve] at hlen
              have hoths : others.length ≤ count := by
                simp only [length_cons] at hlen hcnt
                omega
              simp only [ih hoths]

/-- The walk over all sites after the first. -/
def settleRest (count : ℕ) : List Site → List Site
  | [] => []
  | site :: rest => site :: settle count rest

theorem settleRest_bump (count closings : ℕ) (sites : List Site) :
    settleRest count (bump closings sites) = bump closings (settleRest count sites) := by
  cases sites <;> rfl

theorem splitBlocks_length_le : (splitBlocks messages).2.length ≤ messages.length := by
  induction messages with
  | nil => simp [splitBlocks]
  | cons message rest ih =>
      by_cases htool : message.isTool = true
      · simp only [splitBlocks, htool, if_true, length_cons]
        exact Nat.le_succ_of_le ih
      · simpa [splitBlocks, htool] using ih

theorem settleRest_succ_word {count : ℕ} {messages : List Message}
    (hcnt : messages.length ≤ count) (id : String) (opens : Bool) :
    settleRest (count + 1) (word id opens messages) =
      settleRest count (word id opens messages) := by
  have hlen : ((splitBlocks messages).2.map (blockSite id)).length ≤ count := by
    rw [length_map]
    exact (splitBlocks_length_le messages).trans hcnt
  simp only [word, settleRest, settle_succ hlen]

theorem word_moveResults {count : ℕ} {messages : List Message}
    (hcnt : messages.length ≤ count) (id : String) (opens : Bool) :
    word id opens (moveResults count messages).1 = settleRest count (word id opens messages) := by
  induction count generalizing messages opens with
  | zero =>
      have hnil : messages = [] := eq_nil_of_length_eq_zero (by omega)
      subst hnil
      rfl
  | succ count ih =>
      cases messages with
      | nil => rfl
      | cons message rest =>
          have hrest : rest.length ≤ count := by simpa using hcnt
          simp only [moveResults]
          by_cases htool : message.isTool = true
          · have hass : message.isAssistant = false := by
              have hrole : message.role = .tool := by simpa [Message.isTool] using htool
              simp [Message.isAssistant, hrole]
            have hgat : gather message rest = (rest, 0) := by
              simp [gather, hass]
            rw [hgat, word_cons_tool htool, word_cons_tool htool, ih hrest,
              settleRest_bump, settleRest_succ_word hrest]
          have hoth : message.isTool = false := by simpa using htool
          have hgath : (gather message rest).1.length ≤ count := by
            rw [(gather_perm message rest).length_eq]
            exact hrest
          rw [word_cons_other hoth, word_cons_other hoth, ih hgath, word_gather]
          -- The site of this message is served, then the walk goes on.
          simp only [settleRest, word]
          rw [settle_succ_cons]

theorem moveResults_perm (count : ℕ) (messages : List Message) :
    (moveResults count messages).1.Perm messages := by
  induction count generalizing messages with
  | zero => exact List.Perm.refl messages
  | succ count ih =>
      cases messages with
      | nil => exact List.Perm.refl []
      | cons message rest =>
          simp only [moveResults]
          exact ((ih _).trans (gather_perm message rest)).cons message

/-! ## Calls without results and results without calls -/

def Calls (id : String) (messages : List Message) : Prop :=
  ∃ message ∈ messages, id ∈ message.callIds

def Results (id : String) (messages : List Message) : Prop :=
  ∃ message ∈ messages, message.isTool = true ∧ message.toolCallId = id

theorem mem_answeredIds (id : String) (messages : List Message) :
    id ∈ answeredIds messages ↔ id ≠ "" ∧ Results id messages := by
  simp only [answeredIds, List.mem_map, List.mem_filter, Bool.and_eq_true, bne_iff_ne, Results]
  constructor
  · rintro ⟨message, ⟨hmem, htool, hid⟩, rfl⟩
    exact ⟨hid, message, hmem, htool, rfl⟩
  · rintro ⟨hid, message, hmem, htool, rfl⟩
    exact ⟨message, ⟨hmem, htool, hid⟩, rfl⟩

variable (answered : List String) (message : Message)

@[simp]
theorem keepAnswered_isTool : (keepAnswered answered message).isTool = message.isTool := by
  unfold keepAnswered
  split <;> rfl

@[simp]
theorem keepAnswered_isAssistant :
    (keepAnswered answered message).isAssistant = message.isAssistant := by
  unfold keepAnswered
  split <;> rfl

@[simp]
theorem keepAnswered_toolCallId :
    (keepAnswered answered message).toolCallId = message.toolCallId := by
  unfold keepAnswered
  split <;> rfl

theorem mem_callIds (id : String) (message : Message) :
    id ∈ message.callIds ↔
      message.isAssistant = true ∧ ∃ call ∈ message.toolCalls, call.id = some id := by
  unfold Message.callIds
  by_cases hass : message.isAssistant = true
  · simp [hass]
  · simp [hass]

theorem mem_callIds_keepAnswered (id : String) :
    id ∈ (keepAnswered answered message).callIds ↔ id ∈ message.callIds ∧ id ∈ answered := by
  rw [mem_callIds, mem_callIds, keepAnswered_isAssistant]
  unfold keepAnswered
  split
  · simp only [mem_filter]
    constructor
    · rintro ⟨hass, call, ⟨hcall, hansd⟩, hid⟩
      have hmem : id ∈ answered := by
        simpa [ToolCall.isAnswered, hid] using hansd
      exact ⟨⟨hass, call, hcall, hid⟩, hmem⟩
    · rintro ⟨⟨hass, call, hcall, hid⟩, hmem⟩
      exact ⟨hass, call, ⟨hcall, by simpa [ToolCall.isAnswered, hid] using hmem⟩, hid⟩
  · simp_all

theorem mem_declaredIds_dropCalls (messages : List Message) (id : String) :
    id ∈ declaredIds (dropCalls answered messages) ↔ Calls id messages ∧ id ∈ answered := by
  simp only [declaredIds, dropCalls, List.mem_flatMap, List.mem_map, Calls]
  constructor
  · rintro ⟨_, ⟨message, hmem, rfl⟩, hid⟩
    obtain ⟨hcall, hansd⟩ := (mem_callIds_keepAnswered answered message id).mp hid
    exact ⟨⟨message, hmem, hcall⟩, hansd⟩
  · rintro ⟨⟨message, hmem, hcall⟩, hansd⟩
    exact ⟨_, ⟨message, hmem, rfl⟩,
      (mem_callIds_keepAnswered answered message id).mpr ⟨hcall, hansd⟩⟩

theorem word_drop_of_declared {answered declared : List String} (hansd : id ∈ answered)
    (hdec : id ∈ declared) (opens : Bool) (messages : List Message) :
    word id opens (dropResults declared (dropCalls answered messages)) =
      word id opens messages := by
  induction messages generalizing opens with
  | nil => rfl
  | cons message rest ih =>
      have hcalls : decide (id ∈ (keepAnswered answered message).callIds) =
          decide (id ∈ message.callIds) := by
        simp [mem_callIds_keepAnswered, hansd]
      simp only [dropCalls, dropResults, map_cons, filter_cons] at ih ⊢
      by_cases htool : message.isTool = true
      · by_cases hid : message.toolCallId ∈ declared
        · rw [if_pos (by simp [isDeclared, hid])]
          rw [word_cons_tool (by simpa using htool), word_cons_tool htool, ih]
          simp
        · have hne : message.toolCallId ≠ id := fun heq => hid (heq ▸ hdec)
          rw [if_neg (by simp [isDeclared, htool, hid]), word_cons_tool htool, if_neg hne, ih]
          simp [word, bump]
      · have hoth : message.isTool = false := by simpa using htool
        rw [if_pos (by simp [isDeclared, hoth]),
          word_cons_other (by simpa using hoth), word_cons_other hoth, ih, hcalls]

theorem answered_drop_of_not_declared {answered declared : List String}
    (hdec : id ∉ declared) (messages : List Message)
    (hcalls : ∀ message ∈ messages, id ∉ (keepAnswered answered message).callIds) :
    Answered (word id false (dropResults declared (dropCalls answered messages))) := by
  induction messages with
  | nil => simp [dropCalls, dropResults, word, splitBlocks, Answered]
  | cons message rest ih =>
      have hrest := ih fun other hoth => hcalls other (by simp [hoth])
      have hmsg := hcalls message (by simp)
      simp only [dropCalls, dropResults, map_cons, filter_cons] at hrest ⊢
      by_cases htool : message.isTool = true
      · by_cases hid : message.toolCallId ∈ declared
        · have hne : message.toolCallId ≠ id := fun heq => hdec (heq ▸ hid)
          rw [if_pos (by simp [isDeclared, hid]), word_cons_tool (by simpa using htool)]
          rw [keepAnswered_toolCallId, if_neg hne]
          simpa [word, bump] using hrest
        · rw [if_neg (by simp [isDeclared, htool, hid])]
          exact hrest
      have hoth : message.isTool = false := by simpa using htool
      rw [if_pos (by simp [isDeclared, hoth]), word_cons_other (by simpa using hoth), answered_cons]
      exact ⟨rfl, by simpa [hmsg] using hrest⟩

end WasmAgent.Agent
