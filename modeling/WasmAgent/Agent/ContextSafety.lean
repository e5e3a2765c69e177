import WasmAgent.Agent.ProviderRule

/-!
# Safety of a built request, read off the stored rows

The repair is judged on the rows themselves.  A request must satisfy the
provider's rule, keep all user and assistant texts in order, and keep every
call together with a result that comes later.  It does so if and only if the
results in the window settle the calls, id by id, in order of arrival.
-/

namespace WasmAgent.Agent

open List Option WasmAgent.Ballot

variable (env : ContextEnv)

def Row.Calls (id : String) (row : Row) : Prop :=
  row.role = .assistant ∧ ∃ call ∈ row.toolCalls, call.id = some id

def Row.Answers (id : String) (row : Row) : Prop := row.role = .tool ∧ row.toolCallId = id

instance (id : String) (row : Row) : Decidable (row.Calls id) := by
  unfold Row.Calls
  infer_instance

instance (id : String) (row : Row) : Decidable (row.Answers id) := by
  unfold Row.Answers
  infer_instance

def Row.IsSpoken (row : Row) : Bool := row.role == .user || row.role == .assistant

/-- The window starts at its first user or assistant row. -/
def windowRows (rows : List Row) : List Row := rows.dropWhile fun row => !row.IsSpoken

def Settles (id : String) : ℕ → List Row → Prop
  | outstanding, [] => outstanding = 0
  | outstanding, row :: rows =>
      if row.Calls id then Settles id (outstanding + 1) rows
      else if row.Answers id then 0 < outstanding ∧ Settles id (outstanding - 1) rows
      else Settles id outstanding rows

/-- A call with the empty id that a result with the empty id follows. -/
def BlankExchange (rows : List Row) : Prop :=
  ∃ before asking between answer after,
    rows = before ++ asking :: (between ++ answer :: after) ∧ asking.Calls "" ∧ answer.Answers ""

def ExchangesSettle (rows : List Row) : Prop :=
  (∀ id, id ≠ "" → (∃ row ∈ rows, row.Calls id) → (∃ row ∈ rows, row.Answers id) →
    Settles id 0 rows) ∧ ¬ BlankExchange rows

def spoken (row : Row) : Option (Role × Content) :=
  match row.role with
  | .user => some (.user, (userMessage env row).content)
  | .assistant => some (.assistant, .text row.content)
  | .tool | .retry | .summary => none

/-- All user and assistant texts of the window are sent, in order. -/
def KeepsTexts (rows : List Row) (sent : List Message) : Prop :=
  (rows.filterMap (spoken env)).Sublist (sent.map fun message => (message.role, message.content))

def KeepsExchanges (rows : List Row) (sent : List Message) : Prop :=
  ∀ before asking between answer after,
    rows = before ++ asking :: (between ++ answer :: after) →
    asking.role = .assistant → answer.role = .tool →
    ∀ call ∈ asking.toolCalls, call.id = some answer.toolCallId →
      (∃ message, (sent.filter Message.isAssistant)[
          (before.filter fun row => row.role == .assistant).length]? = some message ∧
        call ∈ message.toolCalls) ∧
      stripImages (toolMessage env answer) ∈ sent

/-! ## The window and its rows -/

def rowMessage (row : Row) : Option Message :=
  match row.role with
  | .user => some (userMessage env row)
  | .assistant => some (assistantMessage env row)
  | .tool => some (toolMessage env row)
  | .retry | .summary => none

variable (rows : List Row)

theorem window_true : window env true rows = rows.filterMap (rowMessage env) := by
  induction rows with
  | nil => rfl
  | cons row rows ih =>
      cases hrole : row.role <;> simp [window, rowMessage, hrole, ih]

theorem window_false : window env false rows = (windowRows rows).filterMap (rowMessage env) := by
  induction rows with
  | nil => rfl
  | cons row rows ih =>
      cases hrole : row.role <;>
        simp [window, windowRows, Row.IsSpoken, rowMessage, hrole, window_true] <;>
        simpa [windowRows, Row.IsSpoken] using ih

theorem assistantMessage_callIds (row : Row) (id : String) (hrole : row.role = .assistant) :
    id ∈ (assistantMessage env row).callIds ↔ row.Calls id := by
  rw [mem_callIds]
  simp [assistantMessage, Message.isAssistant, Row.Calls, hrole]

theorem isBallot_word_opens (id : String) (pending : ℕ) (opens : Bool) (messages : List Message) :
    IsBallot pending (word id opens messages) ↔
      IsBallot (pending + opens.toNat) (word id false messages) := by
  simp [word, IsBallot]

theorem isBallot_window_iff (id : String) (outstanding : ℕ) (rows : List Row) :
    IsBallot outstanding (word id false (rows.filterMap (rowMessage env))) ↔
      Settles id outstanding rows := by
  induction rows generalizing outstanding with
  | nil => simp [word_nil, IsBallot, Settles]
  | cons row rows ih =>
      cases hrole : row.role with
      | user =>
          have hword : word id false ((row :: rows).filterMap (rowMessage env)) =
              (false, 0) :: word id false (rows.filterMap (rowMessage env)) := by
            rw [filterMap_cons_some (b := userMessage env row) (by simp [rowMessage, hrole]),
              word_cons_other (by simp [userMessage])]
            simp [userMessage]
          rw [hword]
          simpa [IsBallot, Settles, Row.Calls, Row.Answers, hrole] using ih outstanding
      | assistant =>
          have hword : word id false ((row :: rows).filterMap (rowMessage env)) =
              (false, 0) :: word id (decide (row.Calls id)) (rows.filterMap (rowMessage env)) := by
            rw [filterMap_cons_some (b := assistantMessage env row)
              (by simp [rowMessage, hrole]), word_cons_other rfl]
            simp [assistantMessage_callIds env row id hrole]
          rw [hword]
          simp only [IsBallot, Nat.zero_le, true_and, Bool.toNat_false, Nat.add_zero, Nat.sub_zero]
          rw [isBallot_word_opens]
          by_cases hcalls : row.Calls id
          · simp [Settles, hcalls, ih]
          · simp [Settles, hcalls, Row.Answers, hrole, ih]
      | tool =>
          have hcalls : ¬ row.Calls id := by simp [Row.Calls, hrole]
          rw [filterMap_cons_some (b := toolMessage env row) (by simp [rowMessage, hrole]),
            word_cons_tool rfl]
          by_cases hid : row.toolCallId = id
          · have hanss : row.Answers id := ⟨hrole, hid⟩
            rw [if_pos (by simpa [toolMessage] using hid)]
            simp only [Settles, if_neg hcalls, if_pos hanss]
            cases outstanding with
            | zero => simp [word, bump, IsBallot]
            | succ smaller =>
                rw [← ih]
                simp only [word, bump, IsBallot, Nat.succ_sub_succ, Bool.toNat_false]
                simp
          · have hanss : ¬ row.Answers id := fun h => hid h.2
            rw [if_neg (by simpa [toolMessage] using hid), bump_zero]
            simpa [Settles, hcalls, hanss] using ih outstanding
      | retry =>
          rw [filterMap_cons_none (by simp [rowMessage, hrole])]
          simpa [Settles, Row.Calls, Row.Answers, hrole] using ih outstanding
      | summary =>
          rw [filterMap_cons_none (by simp [rowMessage, hrole])]
          simpa [Settles, Row.Calls, Row.Answers, hrole] using ih outstanding

/-! ## The provider's rule on rows -/

theorem head_others (frame : Frame) (session : Session) :
    ∀ message ∈ frame.head session, message.isTool = false ∧ message.callIds = [] := by
  intro message hmem
  have hsys : message.role = .system := by
    simp only [Frame.head, mem_cons, mem_append, mem_toList, map_eq_some_iff] at hmem
    rcases hmem with rfl | hsum | ⟨notice, _, rfl⟩
    · rfl
    · split at hsum
      · simp at hsum
      · rw [mem_singleton.mp hsum]
        rfl
    · rfl
  simp [Message.isTool, Message.callIds, Message.isAssistant, hsys]

theorem isBallot_append_others {others : List Message}
    (hoths : ∀ message ∈ others, message.isTool = false ∧ message.callIds = [])
    (id : String) (messages : List Message) :
    IsBallot 0 (word id false (others ++ messages)) ↔ IsBallot 0 (word id false messages) := by
  induction others with
  | nil => rfl
  | cons message others ih =>
      obtain ⟨hoth, hcalls⟩ := hoths message (by simp)
      rw [cons_append, word_cons_other hoth]
      simpa [IsBallot, hcalls] using ih fun other hmem => hoths other (by simp [hmem])

theorem of_rowMessage {row : Row} {message : Message} (hmsg : rowMessage env row = some message) :
    row.role = .assistant ∧ assistantMessage env row = message ∨
      userMessage env row = message ∨ row.role = .tool ∧ toolMessage env row = message := by
  rw [rowMessage] at hmsg
  split at hmsg
  · exact .inr (.inl (Option.some.inj hmsg))
  · next hrole => exact .inl ⟨hrole, Option.some.inj hmsg⟩
  · next hrole => exact .inr (.inr ⟨hrole, Option.some.inj hmsg⟩)
  · cases hmsg
  · cases hmsg

theorem calls_window_iff (id : String) (rows : List Row) :
    Calls id (rows.filterMap (rowMessage env)) ↔ ∃ row ∈ rows, row.Calls id := by
  simp only [WasmAgent.Agent.Calls, mem_filterMap]
  constructor
  · rintro ⟨message, ⟨row, hrow, hmsg⟩, hid⟩
    rcases of_rowMessage env hmsg with ⟨hrole, rfl⟩ | rfl | ⟨-, rfl⟩
    · exact ⟨row, hrow, (assistantMessage_callIds env row id hrole).mp hid⟩
    · simp [userMessage] at hid
    · simp [toolMessage, Message.callIds, Message.isAssistant] at hid
  · rintro ⟨row, hrow, hid⟩
    exact ⟨assistantMessage env row, ⟨row, hrow, by simp [rowMessage, hid.1]⟩,
      (assistantMessage_callIds env row id hid.1).mpr hid⟩

theorem results_window_iff (id : String) (rows : List Row) :
    Results id (rows.filterMap (rowMessage env)) ↔ ∃ row ∈ rows, row.Answers id := by
  simp only [Results, mem_filterMap]
  constructor
  · rintro ⟨message, ⟨row, hrow, hmsg⟩, htool, hid⟩
    rcases of_rowMessage env hmsg with ⟨-, rfl⟩ | rfl | ⟨hrole, rfl⟩
    · simp [assistantMessage, Message.isTool] at htool
    · simp [userMessage] at htool
    · exact ⟨row, hrow, hrole, hid⟩
  · rintro ⟨row, hrow, hid⟩
    exact ⟨toolMessage env row, ⟨row, hrow, by simp [rowMessage, hid.1]⟩, rfl, hid.2⟩

theorem calls_append_others {others : List Message}
    (hoths : ∀ message ∈ others, message.isTool = false ∧ message.callIds = [])
    (id : String) (messages : List Message) :
    Calls id (others ++ messages) ↔ Calls id messages := by
  simp only [WasmAgent.Agent.Calls, mem_append]
  constructor
  · rintro ⟨message, hmem | hmem, hid⟩
    · rw [(hoths message hmem).2] at hid
      simp at hid
    · exact ⟨message, hmem, hid⟩
  · rintro ⟨message, hmem, hid⟩
    exact ⟨message, .inr hmem, hid⟩

theorem results_append_others {others : List Message}
    (hoths : ∀ message ∈ others, message.isTool = false ∧ message.callIds = [])
    (id : String) (messages : List Message) :
    Results id (others ++ messages) ↔ Results id messages := by
  simp only [Results, mem_append]
  constructor
  · rintro ⟨message, hmem | hmem, htool, hid⟩
    · rw [(hoths message hmem).1] at htool
      simp at htool
    · exact ⟨message, hmem, htool, hid⟩
  · rintro ⟨message, hmem, hid⟩
    exact ⟨message, .inr hmem, hid⟩

theorem contextWindow_head_isTool (frame : Frame) (session : Session) (transcript : Transcript) :
    ∀ message ∈ (contextWindow env frame session transcript).head?, message.isTool = false := by
  intro message hmsg
  simp only [contextWindow, Frame.head, cons_append, head?_cons, mem_def, Option.some.injEq] at hmsg
  subst hmsg
  rfl

theorem providerRule_iff_settles (frame : Frame) (session : Session) (transcript : Transcript) :
    ProviderRule (buildContext env frame session transcript) ↔
      ∀ id, id ≠ "" →
        (∃ row ∈ windowRows (sessionMessages transcript session.summarizedUntil), row.Calls id) →
        (∃ row ∈ windowRows (sessionMessages transcript session.summarizedUntil), row.Answers id) →
        Settles id 0 (windowRows (sessionMessages transcript session.summarizedUntil)) := by
  have hoths := head_others frame session
  rw [providerRule_buildContext_iff,
    providerRule_repair_iff (contextWindow_head_isTool env frame session transcript)]
  refine forall_congr' fun id => ?_
  rw [contextWindow, calls_append_others hoths, results_append_others hoths,
    isBallot_append_others hoths, window_false, calls_window_iff, results_window_iff,
    isBallot_window_iff]

/-! ## Nothing else is lost -/

def others (messages : List Message) : List Message :=
  messages.filter fun message => !message.isTool

theorem others_tools {block : List Message}
    (htools : ∀ message ∈ block, message.isTool = true) : others block = [] := by
  rw [others, filter_eq_nil_iff]
  intro message hmem
  simp [htools message hmem]

theorem others_collect (want : List String) (messages : List Message) :
    others (collect want messages).2 = others messages := by
  induction messages generalizing want with
  | nil => rfl
  | cons message rest ih =>
      by_cases hwan : (message.isTool && want.contains message.toolCallId) = true
      · have htool := (Bool.and_eq_true_iff.mp hwan).1
        simp only [collect, hwan, if_true]
        simpa [others, htool] using ih (forget want message.toolCallId)
      have hrest := ih want
      simp only [others] at hrest ⊢
      simp only [collect, hwan, Bool.false_eq_true, if_false, filter_cons]
      rw [hrest]

theorem others_gather (message : Message) (rest : List Message) :
    others (gather message rest).1 = others rest := by
  unfold gather
  split
  · set want := ((rest.takeWhile Message.isTool).map Message.toolCallId).foldl forget
      message.callIds
    have hblc : others (rest.takeWhile Message.isTool) = [] :=
      others_tools fun other hoth => mem_takeWhile_imp hoth
    have hmoved : others (collect want (rest.dropWhile Message.isTool)).1 = [] :=
      others_tools (collect_tools want _)
    have hlt := others_collect want (rest.dropWhile Message.isTool)
    have hspl : others rest = others (rest.takeWhile Message.isTool) ++
        others (rest.dropWhile Message.isTool) := by
      rw [others, others, others, ← filter_append, takeWhile_append_dropWhile]
    rw [hspl, hblc, ← hlt]
    simp only [others, filter_append] at hblc hmoved ⊢
    rw [hblc, hmoved]
    rfl
  · rfl

theorem others_moveResults (count : ℕ) (messages : List Message) :
    others (moveResults count messages).1 = others messages := by
  induction count generalizing messages with
  | zero => rfl
  | succ count ih =>
      cases messages with
      | nil => rfl
      | cons message rest =>
          have hrest := (ih (gather message rest).1).trans (others_gather message rest)
          simp only [moveResults, others, filter_cons] at hrest ⊢
          rw [hrest]

theorem others_repair (messages : List Message) :
    others (repair messages).messages =
      (others messages).map
        (keepAnswered (answeredIds (moveResults messages.length messages).1)) := by
  rw [← others_moveResults messages.length messages]
  simp only [repair, others, dropResults, dropCalls, List.filter_filter, List.filter_map]
  congr 1
  apply List.filter_congr
  intro message _
  by_cases htool : message.isTool = true <;> simp [isDeclared, htool]

theorem others_sublist_materialize (pending : List ImageReference) (messages : List Message) :
    (others messages).Sublist (materializeToolImages env pending messages) := by
  induction messages generalizing pending with
  | nil => simp [others]
  | cons message rest ih =>
      simp only [others, filter_cons, materializeToolImages] at ih ⊢
      by_cases htool : message.isTool = true
      · simpa [htool] using (ih (pending ++ message.images)).cons (stripImages message)
      · simpa [htool] using ((ih []).cons_cons message).trans
          (sublist_append_right (flushImages env pending) _)

theorem assistants_materialize (pending : List ImageReference) (messages : List Message) :
    (materializeToolImages env pending messages).filter Message.isAssistant =
      (others messages).filter Message.isAssistant := by
  have hflush : ∀ pending, (flushImages env pending).filter Message.isAssistant = [] := by
    intro pending
    unfold flushImages
    split <;> simp [toolImageMessage, Message.isAssistant]
  induction messages generalizing pending with
  | nil => simpa [materializeToolImages, others] using hflush pending
  | cons message rest ih =>
      simp only [others, filter_cons, materializeToolImages] at ih ⊢
      by_cases htool : message.isTool = true
      · have hass : (stripImages message).isAssistant = false := by
          have hrole : message.role = .tool := by simpa [Message.isTool] using htool
          simp [stripImages, Message.isAssistant, hrole]
        simp [htool, hass, ih]
      · simp [htool, filter_append, hflush, filter_cons, ih]

theorem tools_mem_materialize (pending : List ImageReference) {messages : List Message}
    {message : Message} (hmem : message ∈ messages) (htool : message.isTool = true) :
    stripImages message ∈ materializeToolImages env pending messages := by
  induction messages generalizing pending with
  | nil => simp at hmem
  | cons first rest ih =>
      rw [materializeToolImages]
      rcases mem_cons.mp hmem with rfl | hrest
      · simp [htool]
      · split
        · exact mem_cons_of_mem _ (ih _ hrest)
        · exact mem_append_right _ (mem_cons_of_mem _ (ih _ hrest))

theorem others_contextWindow (frame : Frame) (session : Session) (transcript : Transcript) :
    others (contextWindow env frame session transcript) =
      frame.head session ++ others
        ((windowRows (sessionMessages transcript session.summarizedUntil)).filterMap
          (rowMessage env)) := by
  rw [contextWindow, window_false, others, filter_append]
  congr 1
  rw [filter_eq_self]
  intro message hmem
  simp [(head_others frame session message hmem).1]

theorem filterMap_spoken :
    rows.filterMap (spoken env) =
      (others (rows.filterMap (rowMessage env))).map
        fun message => (message.role, message.content) := by
  induction rows with
  | nil => rfl
  | cons row rows ih =>
      simp only [others] at ih ⊢
      cases hrole : row.role <;>
        simp [rowMessage, spoken, hrole, ih, userMessage, assistantMessage, toolMessage,
          Message.isTool]

theorem keepsTexts_buildContext (frame : Frame) (session : Session) (transcript : Transcript) :
    KeepsTexts env (windowRows (sessionMessages transcript session.summarizedUntil))
      (buildContext env frame session transcript) := by
  set rows := windowRows (sessionMessages transcript session.summarizedUntil) with hrows
  set repaired := (repair (contextWindow env frame session transcript)).messages with hrep
  have htexts : (others repaired).map (fun message => (message.role, message.content)) =
      (frame.head session).map (fun message => (message.role, message.content)) ++
        rows.filterMap (spoken env) := by
    rw [hrep, others_repair, others_contextWindow, filterMap_spoken, List.map_map,
      ← List.map_append]
    apply List.map_congr_left
    intro message _
    simp only [Function.comp_apply, keepAnswered]
    split <;> rfl
  have hrepairedSublist := (others_sublist_materialize env [] repaired).map
    fun message => (message.role, message.content)
  rw [htexts] at hrepairedSublist
  rw [KeepsTexts, buildContext, List.map_append]
  exact ((List.sublist_append_right _ _).trans hrepairedSublist).trans
    (List.sublist_append_left _ _)

theorem head_assistants (frame : Frame) (session : Session) :
    (frame.head session).filter Message.isAssistant = [] := by
  rw [filter_eq_nil_iff]
  intro message hmem
  simp only [Frame.head, mem_cons, mem_append, mem_toList, map_eq_some_iff] at hmem
  rcases hmem with rfl | hsum | ⟨notice, _, rfl⟩
  · simp [systemMessage, Message.isAssistant]
  · split at hsum
    · simp at hsum
    · rw [mem_singleton.mp hsum]
      simp [systemMessage, Message.isAssistant]
  · simp [systemMessage, Message.isAssistant]

theorem assistants_rows :
    (others (rows.filterMap (rowMessage env))).filter Message.isAssistant =
      (rows.filter fun row => row.role == .assistant).map (assistantMessage env) := by
  induction rows with
  | nil => rfl
  | cons row rows ih =>
      simp only [others, List.filter_filter, Message.isTool, Message.isAssistant] at ih ⊢
      cases hrole : row.role <;>
        simp [rowMessage, hrole, ih, userMessage, assistantMessage, toolMessage]

theorem assistants_buildContext (frame : Frame) (session : Session) (transcript : Transcript) :
    ∃ answered : List String,
      (∀ id, id ∈ answered ↔ id ≠ "" ∧ ∃ row ∈
        windowRows (sessionMessages transcript session.summarizedUntil), row.Answers id) ∧
      (buildContext env frame session transcript).filter Message.isAssistant =
        ((windowRows (sessionMessages transcript session.summarizedUntil)).filter
          fun row => row.role == .assistant).map fun row =>
            keepAnswered answered (assistantMessage env row) := by
  set messages := contextWindow env frame session transcript with hmsgs
  refine ⟨answeredIds (moveResults messages.length messages).1, fun id => ?_, ?_⟩
  · rw [mem_answeredIds, results_perm (moveResults_perm _ messages), hmsgs,
      contextWindow, results_append_others (head_others frame session), window_false,
      results_window_iff]
  have hnotes : (frame.notes.map noteMessage).filter Message.isAssistant = [] := by
    rw [List.filter_eq_nil_iff]
    intro message hmem
    obtain ⟨note, _, rfl⟩ := List.mem_map.mp hmem
    simp [noteMessage, Message.isAssistant]
  have hcom : ∀ answered, ∀ list : List Message,
      (list.map (keepAnswered answered)).filter Message.isAssistant =
        (list.filter Message.isAssistant).map (keepAnswered answered) := by
    intro answered list
    rw [List.filter_map]
    congr 1
    exact List.filter_congr fun message _ => keepAnswered_isAssistant answered message
  rw [buildContext, List.filter_append, hnotes, List.append_nil, assistants_materialize,
    others_repair, ← hmsgs, hcom, hmsgs, others_contextWindow,
    List.filter_append, head_assistants, List.nil_append, assistants_rows, List.map_map]
  rfl

theorem result_mem_buildContext (frame : Frame) (session : Session)
    (transcript : Transcript) {answer : Row}
    (hans : answer ∈ windowRows (sessionMessages transcript session.summarizedUntil))
    (hrole : answer.role = .tool) (hid : answer.toolCallId ≠ "")
    (hcalls : ∃ row ∈ windowRows (sessionMessages transcript session.summarizedUntil),
      row.Calls answer.toolCallId) :
    stripImages (toolMessage env answer) ∈ buildContext env frame session transcript := by
  set messages := contextWindow env frame session transcript with hmsgs
  have hperm := moveResults_perm messages.length messages
  have hmem : toolMessage env answer ∈ messages := by
    rw [hmsgs, contextWindow, window_false]
    exact mem_append_right _ (mem_filterMap.mpr ⟨answer, hans, by simp [rowMessage, hrole]⟩)
  have hcallsMessages : Calls answer.toolCallId messages := by
    rw [hmsgs, contextWindow, calls_append_others (head_others frame session),
      window_false, calls_window_iff]
    exact hcalls
  have hdec : answer.toolCallId ∈ declaredIds
      (dropCalls (answeredIds (moveResults messages.length messages).1)
        (moveResults messages.length messages).1) := by
    rw [mem_declaredIds_dropCalls, calls_perm hperm, mem_answeredIds, results_perm hperm]
    exact ⟨hcallsMessages, hid, toolMessage env answer, hmem, rfl, rfl⟩
  have hrep : toolMessage env answer ∈ (repair messages).messages := by
    simp only [repair, dropResults, mem_filter]
    refine ⟨?_, by simpa [isDeclared, toolMessage] using .inr hdec⟩
    have hmoved := hperm.mem_iff.mpr hmem
    have hkept := List.mem_map_of_mem (f := keepAnswered
      (answeredIds (moveResults messages.length messages).1)) hmoved
    simpa [dropCalls, keepAnswered, toolMessage, Message.isAssistant] using hkept
  rw [buildContext, ← hmsgs]
  exact mem_append_left _ (tools_mem_materialize env [] hrep rfl)

theorem keepsExchanges_iff (frame : Frame) (session : Session) (transcript : Transcript) :
    KeepsExchanges env (windowRows (sessionMessages transcript session.summarizedUntil))
        (buildContext env frame session transcript) ↔
      ¬ BlankExchange (windowRows (sessionMessages transcript session.summarizedUntil)) := by
  obtain ⟨answered, hansd, hass⟩ := assistants_buildContext env frame session transcript
  set rows := windowRows (sessionMessages transcript session.summarizedUntil) with hrows
  have hpos : ∀ before asking rest, rows = before ++ asking :: rest →
      asking.role = .assistant →
      ((buildContext env frame session transcript).filter Message.isAssistant)[
        (before.filter fun row => row.role == .assistant).length]? =
          some (keepAnswered answered (assistantMessage env asking)) := by
    intro before asking rest hspl hrole
    rw [hass, hspl, filter_append, map_append, getElem?_append_right (by simp)]
    simp [hrole]
  constructor
  · -- An exchange with the empty id is dropped as if it were unanswered.
    rintro hks ⟨before, asking, between, answer, after, hspl, ⟨hrole, call, hcall, hid⟩,
      hans, hblank⟩
    obtain ⟨⟨message, hmsg, hkept⟩, _⟩ := hks before asking between answer after
      hspl hrole hans call hcall (by rw [hid, hblank])
    rw [hpos before asking _ hspl hrole, Option.some.injEq] at hmsg
    subst hmsg
    have hemp : "" ∉ answered := fun hmem => ((hansd "").mp hmem).1 rfl
    simp [keepAnswered, assistantMessage, Message.isAssistant, ToolCall.isAnswered, hid,
      hemp] at hkept
  intro hblank before asking between answer after hspl hrole hans call hcall hid
  have hne : answer.toolCallId ≠ "" := by
    intro hemp
    exact hblank ⟨before, asking, between, answer, after, hspl,
      ⟨hrole, call, hcall, by rw [hid, hemp]⟩, hans, hemp⟩
  have hask : asking ∈ rows := by simp [hspl]
  have hanswerMem : answer ∈ rows := by simp [hspl]
  have hmem : answer.toolCallId ∈ answered := (hansd _).mpr ⟨hne, answer, hanswerMem, hans, rfl⟩
  constructor
  · refine ⟨_, hpos before asking _ hspl hrole, ?_⟩
    simp [keepAnswered, assistantMessage, Message.isAssistant, ToolCall.isAnswered, hid,
      hmem, hcall]
  · exact result_mem_buildContext env frame session transcript hanswerMem hans hne
      ⟨asking, hask, hrole, call, hcall, hid⟩

/-- The request is safe and loses nothing if and only if the exchanges of the
window settle in order of arrival. -/
theorem buildContext_safe_iff_settles (frame : Frame) (session : Session)
    (transcript : Transcript) :
    (ProviderRule (buildContext env frame session transcript) ∧
      KeepsTexts env (windowRows (sessionMessages transcript session.summarizedUntil))
        (buildContext env frame session transcript) ∧
      KeepsExchanges env (windowRows (sessionMessages transcript session.summarizedUntil))
        (buildContext env frame session transcript)) ↔
      ExchangesSettle
        (windowRows (sessionMessages transcript session.summarizedUntil)) := by
  rw [providerRule_iff_settles, keepsExchanges_iff, ExchangesSettle]
  have htexts := keepsTexts_buildContext env frame session transcript
  constructor
  · rintro ⟨hsettles, _, hblank⟩
    exact ⟨hsettles, hblank⟩
  · rintro ⟨hsettles, hblank⟩
    exact ⟨hsettles, htexts, hblank⟩

/-! ## An id that comes back -/

/-- A window in which `call_0` is called and answered, and then called again
by an exchange that was interrupted before its result was written. -/
def reusedIdTranscript : Transcript where
  rows :=
    [{ seq := 1, role := .user, content := "list the files" },
     { seq := 2, role := .assistant, content := "",
       toolCalls := [{ id := some "call_0", name := "bash", arguments := "{}" }] },
     { seq := 3, role := .tool, content := "a.txt", toolCallId := "call_0", toolName := "bash" },
     { seq := 4, role := .user, content := "and now remove them" },
     { seq := 5, role := .assistant, content := "",
       toolCalls := [{ id := some "call_0", name := "bash", arguments := "{}" }] },
     { seq := 6, role := .user, content := "are you there?" }]
  ordered := by decide

def plainEnv : ContextEnv where
  replayReasoning := false
  contextView := fun _ content => content
  loadImage := fun _ => none

/-- The interrupted call is sent without any result, because an earlier
exchange has a result with the same id. -/
theorem reusedId_breaks_providerRule :
    ¬ (ProviderRule (buildContext plainEnv { first := "system" } {} reusedIdTranscript) ∧
      KeepsTexts plainEnv (windowRows (sessionMessages reusedIdTranscript 0))
        (buildContext plainEnv { first := "system" } {} reusedIdTranscript) ∧
      KeepsExchanges plainEnv (windowRows (sessionMessages reusedIdTranscript 0))
        (buildContext plainEnv { first := "system" } {} reusedIdTranscript)) := by
  have hrule : ¬ ProviderRule
      (buildContext plainEnv { first := "system" } {} reusedIdTranscript) := by
    decide
  exact fun hsafe => hrule hsafe.1

end WasmAgent.Agent
