import WasmAgent.Agent.Repair

/-!
# When a built request satisfies the provider

The repaired window satisfies the provider's rule if and only if, for every
call id that is both called and answered in the window, the results settle the
calls in order of arrival.  User and assistant texts always survive, and so
does every call whose result comes later, unless its id is empty.
-/

namespace WasmAgent.Agent

open List WasmAgent.Ballot

variable (env : ContextEnv)

/-! ## Messages around the window -/

theorem answered_materialize_iff (id : String) (opens : Bool) (closings : ℕ)
    (pending : List ImageReference) (messages : List Message) :
    Answered (bump closings (word id opens (materializeToolImages env pending messages))) ↔
      Answered (bump closings (word id opens messages)) := by
  induction messages generalizing opens closings pending with
  | nil =>
      simp only [materializeToolImages, flushImages]
      split
      · rfl
      · rw [word_cons_other (by simp [toolImageMessage])]
        simp [word_nil, bump, toolImageMessage, Answered]
  | cons message rest ih =>
      simp only [materializeToolImages]
      by_cases htool : message.isTool = true
      · rw [if_pos htool, word_cons_tool (by simpa [stripImages, Message.isTool] using htool),
          word_cons_tool htool, bump_bump, bump_bump]
        exact ih opens _ _
      have hoth : message.isTool = false := by simpa using htool
      have hrest := ih (decide (id ∈ message.callIds)) 0 []
      rw [bump_zero, bump_zero] at hrest
      rw [if_neg htool, word_cons_other hoth, flushImages]
      split
      · rw [nil_append, word_cons_other hoth]
        simp only [bump, answered_cons]
        rw [hrest]
      rw [cons_append, nil_append, word_cons_other (by simp [toolImageMessage]),
        word_cons_other hoth]
      simp only [bump, answered_cons, toolImageMessage, imageMessage_callIds]
      rw [hrest]
      simp

theorem answered_concat_iff {note : Message} (hoth : note.isTool = false)
    (hcalls : note.callIds = []) (id : String) (opens : Bool) (closings : ℕ)
    (messages : List Message) :
    Answered (bump closings (word id opens (messages ++ [note]))) ↔
      Answered (bump closings (word id opens messages)) := by
  induction messages generalizing opens closings with
  | nil =>
      rw [nil_append, word_cons_other hoth]
      simp [word_nil, bump, hcalls, Answered]
  | cons message rest ih =>
      rw [cons_append]
      by_cases htool : message.isTool = true
      · rw [word_cons_tool htool, word_cons_tool htool, bump_bump, bump_bump]
        exact ih opens _
      have hmsg : message.isTool = false := by simpa using htool
      have hrest := ih (decide (id ∈ message.callIds)) 0
      rw [bump_zero, bump_zero] at hrest
      rw [word_cons_other hmsg, word_cons_other hmsg]
      simp only [bump, answered_cons]
      rw [hrest]

theorem answered_append_notes_iff (id : String) (messages : List Message) (notes : List String) :
    Answered (word id false (messages ++ notes.map noteMessage)) ↔
      Answered (word id false messages) := by
  induction notes generalizing messages with
  | nil => simp
  | cons note notes ih =>
      have hone := @answered_concat_iff (noteMessage note) rfl rfl id false 0 messages
      rw [bump_zero, bump_zero] at hone
      have hrest := ih (messages ++ [noteMessage note])
      rw [append_assoc, singleton_append] at hrest
      exact hrest.trans hone

theorem providerRule_buildContext_iff (frame : Frame) (session : Session)
    (transcript : Transcript) :
    ProviderRule (buildContext env frame session transcript) ↔
      ProviderRule (repair (contextWindow env frame session transcript)).messages := by
  rw [providerRule_iff, providerRule_iff]
  refine forall_congr' fun id => ?_
  rw [buildContext, answered_append_notes_iff]
  have himag := answered_materialize_iff env id false 0 []
    (repair (contextWindow env frame session transcript)).messages
  simpa using himag

/-! ## The rule after the repair -/

theorem calls_perm {left right : List Message} (hperm : left.Perm right) (id : String) :
    Calls id left ↔ Calls id right := by
  simp only [Calls, hperm.mem_iff]

theorem results_perm {left right : List Message} (hperm : left.Perm right) (id : String) :
    Results id left ↔ Results id right := by
  simp only [Results, hperm.mem_iff]

theorem answered_settleRest_iff {messages : List Message} {count : ℕ}
    (hlead : ∀ message ∈ messages.head?, message.isTool = false)
    (hcnt : messages.length ≤ count) (id : String) :
    Answered (settleRest count (word id false messages)) ↔ IsBallot 0 (word id false messages) := by
  have hlen : ((splitBlocks messages).2.map (blockSite id)).length ≤ count := by
    rw [length_map]
    exact (splitBlocks_length_le messages).trans hcnt
  rw [word_of_no_leading hlead, settleRest, answered_cons, answered_settle_iff count _ hlen]
  simp [IsBallot]

theorem providerRule_repair_iff {messages : List Message}
    (hlead : ∀ message ∈ messages.head?, message.isTool = false) :
    ProviderRule (repair messages).messages ↔
      ∀ id, id ≠ "" → Calls id messages → Results id messages →
        IsBallot 0 (word id false messages) := by
  have hperm := moveResults_perm messages.length messages
  set moved := (moveResults messages.length messages).1 with hmoved
  have hdec : ∀ id, id ∈ declaredIds (dropCalls (answeredIds moved) moved) ↔
      Calls id messages ∧ id ≠ "" ∧ Results id messages := by
    intro id
    rw [mem_declaredIds_dropCalls, mem_answeredIds, calls_perm hperm, results_perm hperm]
  have hone : ∀ id, Answered (word id false (repair messages).messages) ↔
      (id ≠ "" → Calls id messages → Results id messages →
        IsBallot 0 (word id false messages)) := by
    intro id
    by_cases hid : id ∈ declaredIds (dropCalls (answeredIds moved) moved)
    · obtain ⟨hcalls, hne, hress⟩ := (hdec id).mp hid
      have hansd : id ∈ answeredIds moved := by
        rw [mem_answeredIds, results_perm hperm]
        exact ⟨hne, hress⟩
      have hword : word id false (repair messages).messages =
          settleRest messages.length (word id false messages) := by
        rw [← word_moveResults le_rfl]
        exact word_drop_of_declared hansd hid false moved
      rw [hword, answered_settleRest_iff hlead le_rfl]
      exact ⟨fun hbal _ _ _ => hbal, fun h => h hne hcalls hress⟩
    have hnone : Answered (word id false (repair messages).messages) := by
      apply answered_drop_of_not_declared hid
      intro message hmsg hcall
      apply hid
      exact mem_flatMap.mpr ⟨_, mem_map_of_mem hmsg, hcall⟩
    refine ⟨fun _ hne hcalls hress => ?_, fun _ => hnone⟩
    exact absurd ((hdec id).mpr ⟨hcalls, hne, hress⟩) hid
  rw [providerRule_iff]
  exact forall_congr' hone

end WasmAgent.Agent
