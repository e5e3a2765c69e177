import Mathlib.Data.Rat.Defs
import WasmAgent.Sync.Tables

/-!
# Forks of a session

The rows of a transcript up to a boundary are copied into a new session, unless a tool call among
them has no result.
-/

namespace WasmAgent.Sync

open List Std

/-- An entry of `tool_calls`: its id stands in one of two places. -/
structure Call where
  id : Option String
  functionId : Option String

def Call.key (call : Call) : Option String := call.id.or call.functionId

/-- A row of `messages`, with the column that is not replicated. -/
structure Stored where
  id : String
  message : Message
  reasoningItems : String

/-- Messages are in the order in which they were inserted; `search` is `messages_fts`. -/
structure Chats where
  sessions : ExtTreeMap String SessionRow
  messages : List Stored
  search : List (String × String × String)
  journal : List Change

/-- What a fork meets: a JSON reader, new ids, a clock, and how its transaction ends. -/
structure ForkEnv where
  calls : String → List Call
  sessionId : String
  messageId : ℕ → String
  now : ℕ
  ends : Except String Unit

def addCall (pending : List String) : Option String → Except String (List String)
  | none => .error "invalid_tool_history"
  | some id =>
      if id = "" || id ∈ pending then .error "invalid_tool_history" else .ok (id :: pending)

def addResult (pending : List String) (id : String) : Except String (List String) :=
  if id ∈ pending then .ok (pending.erase id) else .error "invalid_tool_history"

def Chats.upTo (chats : Chats) (sourceId : String) (seq : ℕ) : List Stored :=
  (chats.messages.filter fun row =>
    row.message.sessionId = sourceId && row.message.seq ≤ seq).mergeSort
      fun row other => row.message.seq ≤ other.message.seq

def Chats.told (chats : Chats) (sourceId : String) (seq : ℕ) : List Stored :=
  (chats.upTo sourceId seq).filter (·.message.role ≠ "summary")

/-- The boundary, of which `tonumber` makes a number or nothing. -/
def wholeSeq (boundary : Option ℚ) : Option ℕ :=
  boundary.bind fun number => if number < 1 || number.den ≠ 1 then none else some number.num.toNat

/-- Tool calls and tool results, in the order in which rows are read. -/
inductive Event where
  | call (key : Option String)
  | result (id : String)
  deriving DecidableEq

def Event.about : Event → Option String
  | call key => key
  | result id => some id

/-- Every call has an id, and the calls and the results of an id alternate, to the end; those that
are pending are answered first. -/
def Balanced (pending : List String) (events : List Event) : Prop :=
  (∀ key, .call key ∈ events → key ≠ none ∧ key ≠ some "") ∧
    ∀ id, ∃ exchanges, events.filter (·.about = some id) =
      (if id ∈ pending then [.result id] else []) ++
        (replicate exchanges [.call (some id), .result id]).flatten

def Event.track (pending : List String) : Event → Except String (List String)
  | call key => addCall pending key
  | result id => addResult pending id

namespace ForkEnv

variable (env : ForkEnv)

def settle (pending : List String) (row : Stored) : Except String (List String) := do
  let pending ← (env.calls row.message.toolCalls).foldlM (fun pending call =>
    addCall pending call.key) pending
  if row.message.role = "tool" then addResult pending row.message.toolCallId else pure pending

/-- The checks of `M.fork_session`. -/
def examine (chats : Chats) (sourceId : String) (boundary : Option ℚ) (userId : String) :
    Except String (Session × ℕ) :=
  match chats.sessions[sourceId]? with
  | none => .error "unknown_session"
  | some source =>
      if source.session.userId ≠ userId then .error "forbidden"
      else match wholeSeq boundary with
        | none => .error "invalid_boundary"
        | some seq =>
            if (chats.upTo sourceId seq).getLast?.all fun last =>
                last.message.seq ≠ seq || last.message.role = "summary" then
              .error "invalid_boundary"
            else match (chats.told sourceId seq).foldlM env.settle [] with
              | .error why => .error why
              | .ok [] => .ok (source.session, seq)
              | .ok _ => .error "incomplete_tool_exchange"

def row (source : Session) (sourceId : String) (seq : ℕ) : SessionRow where
  session :=
    { routeId := source.routeId, objective := "fork", parentSessionId := none
      startedAt := env.now, endedAt := none, userId := source.userId, nodeId := source.nodeId
      title := "Fork: " ++ source.title, mode := source.mode, summary := ""
      summarizedUntil := 0, updatedAt := env.now, worktree := "", forkParentId := some sourceId
      forkParentSeq := some seq, workspaceRequired := 1, workspaceState := "pending"
      workspaceBranch := "", workspaceBaseCommit := "", workspaceSourcePath := ""
      workspaceStartState := "\x7b\x7d", workspaceError := "" }
  changedAt := 0
  interruption := ⟨none, 0, "", 0⟩

/-- The columns of the `INSERT`, which has none for `reasoning_items`. -/
def copy (row : Stored × ℕ) : Stored :=
  ⟨env.messageId row.2, { row.1.message with sessionId := env.sessionId, seq := row.2 }, ""⟩

def insert (source : Session) (sourceId : String) (seq : ℕ) (chats : Chats) : Chats :=
  let copies := ((chats.told sourceId seq).zipIdx 1).map env.copy
  let forked := env.row source sourceId seq
  { sessions := chats.sessions.insert env.sessionId forked
    messages := chats.messages ++ copies
    search := chats.search ++ copies.map fun row => (row.message.content, env.sessionId, row.id)
    journal := chats.journal ++ copies.map (fun row => .message row.id row.message) ++
      [.session env.sessionId forked] }

/-- `M.fork_session`: a refusal or the new id, unless a statement raises and all is rolled back. -/
def forkSession (sourceId : String) (boundary : Option ℚ) (userId : String) (chats : Chats) :
    Except String (Except String String) × Chats :=
  match env.examine chats sourceId boundary userId with
  | .error why => (.ok (.error why), chats)
  | .ok (source, seq) =>
      match env.ends with
      | .error fault => (.error fault, chats)
      | .ok _ => (.ok (.ok env.sessionId), env.insert source sourceId seq chats)

def events (row : Stored) : List Event :=
  (env.calls row.message.toolCalls).map (.call ·.key) ++
    if row.message.role = "tool" then [.result row.message.toolCallId] else []

/-- The boundary is a message of a session of the user, and no summary; and the calls up to it are
answered. -/
structure Forkable (chats : Chats) (sourceId : String) (boundary : Option ℚ) (userId : String)
    (source : Session) (seq : ℕ) : Prop where
  session : (chats.sessions[sourceId]?).map (·.session) = some source
  user : source.userId = userId
  whole : wholeSeq boundary = some seq
  message : ∃ last ∈ (chats.upTo sourceId seq).getLast?,
    last.message.seq = seq ∧ last.message.role ≠ "summary"
  balanced : Balanced [] ((chats.told sourceId seq).flatMap env.events)

end ForkEnv

/-- A row, but for its identity and its number. -/
def Stored.said (row : Stored) : Stored :=
  { row with id := "", message := { row.message with sessionId := "", seq := 0 } }

def Chats.within (chats : Chats) (sessionId : String) : List Stored :=
  chats.messages.filter (·.message.sessionId = sessionId)

namespace ForkEnv

structure Forked (env : ForkEnv) (chats after : Chats) (sourceId id : String) (source : Session)
    (seq : ℕ) : Prop where
  new : chats.sessions[id]? = none ∧ after.sessions[id]? = some (env.row source sourceId seq)
  told : (after.within id).map Stored.said = (chats.told sourceId seq).map Stored.said
  numbered : (after.within id).map (·.message.seq) = range' 1 (chats.told sourceId seq).length
  others : ∀ other ≠ id, after.sessions[other]? = chats.sessions[other]? ∧
    after.within other = chats.within other

/-- What becomes of a call: it raises, refuses or forks. -/
def Forks (env : ForkEnv) (chats : Chats) (sourceId : String) (boundary : Option ℚ)
    (userId : String) : Prop :=
  match env.forkSession sourceId boundary userId chats with
  | (.error _, after) => after = chats
  | (.ok (.error _), after) => after = chats ∧
      ¬ ∃ source seq, env.Forkable chats sourceId boundary userId source seq
  | (.ok (.ok id), after) => ∃ source seq,
      env.Forkable chats sourceId boundary userId source seq ∧
        env.Forked chats after sourceId id source seq

/-- `host.uuid` gives an id that no session has. -/
def New (env : ForkEnv) (chats : Chats) : Prop :=
  chats.sessions[env.sessionId]? = none ∧ chats.within env.sessionId = []

end ForkEnv

section Balance

variable {pending : List String} {events : List Event} {id : String}

theorem balanced_nil : Balanced pending [] ↔ pending = [] := by
  constructor
  · rintro ⟨-, hpairs⟩
    refine eq_nil_iff_forall_not_mem.mpr fun id hmem => ?_
    obtain ⟨exchanges, hids⟩ := hpairs id
    simp [hmem] at hids
  · rintro rfl
    exact ⟨nofun, fun id => ⟨0, by simp⟩⟩

theorem balanced_call (hid : id ≠ "") (hnew : id ∉ pending) :
    Balanced pending (.call (some id) :: events) ↔ Balanced (id :: pending) events := by
  refine and_congr ?_ (forall_congr' fun other => ?_)
  · simp [hid]
  by_cases hsame : other = id
  · subst hsame
    simp only [Event.about, hnew, filter_cons_of_pos, decide_true, mem_cons_self, if_true,
      if_false, nil_append, cons_append]
    constructor
    · rintro ⟨_ | exchanges, hids⟩
      · simp at hids
      · exact ⟨exchanges, by simpa [replicate_succ] using hids⟩
    · rintro ⟨exchanges, hids⟩
      exact ⟨exchanges + 1, by simp [replicate_succ, hids]⟩
  · simp [Event.about, hsame, Ne.symm hsame]

theorem balanced_result (hnd : pending.Nodup) (hmem : id ∈ pending) :
    Balanced pending (.result id :: events) ↔ Balanced (pending.erase id) events := by
  refine and_congr (by simp) (forall_congr' fun other => ?_)
  by_cases hsame : other = id
  · subst hsame
    simp [Event.about, hmem, hnd.not_mem_erase]
  · simp [Event.about, Ne.symm hsame, mem_erase_of_ne hsame]

/-- What stays pending in the code is what still has to be answered. -/
theorem track_iff (hnd : pending.Nodup) :
    events.foldlM Event.track pending = .ok [] ↔ Balanced pending events := by
  induction events generalizing pending with
  | nil =>
    rw [balanced_nil]
    exact ⟨Except.ok.inj, congrArg Except.ok⟩
  | cons event events ih =>
    rw [foldlM_cons]
    rcases event with (_ | id) | id
    · exact ⟨nofun, fun hbal => absurd rfl (hbal.1 _ mem_cons_self).1⟩
    · by_cases hbad : id = "" ∨ id ∈ pending
      · rw [Event.track, addCall, if_pos (by simpa using hbad)]
        refine ⟨nofun, fun hbal => ?_⟩
        rcases hbad with rfl | hmem
        · exact absurd rfl (hbal.1 _ mem_cons_self).2
        · obtain ⟨exchanges, hids⟩ := hbal.2 id
          simp [Event.about, hmem] at hids
      · obtain ⟨hid, hnew⟩ := not_or.mp hbad
        rw [Event.track, addCall, if_neg (by simpa using hbad), balanced_call hid hnew]
        exact ih (nodup_cons.mpr ⟨hnew, hnd⟩)
    by_cases hmem : id ∈ pending
    · rw [Event.track, addResult, if_pos hmem, balanced_result hnd hmem]
      exact ih (hnd.erase id)
    rw [Event.track, addResult, if_neg hmem]
    refine ⟨nofun, fun hbal => ?_⟩
    obtain ⟨_ | exchanges, hids⟩ := hbal.2 id <;> simp [Event.about, hmem, replicate_succ] at hids

end Balance

namespace ForkEnv

variable {env : ForkEnv} {chats : Chats} {sourceId userId : String} {boundary : Option ℚ}
variable {source : Session} {seq : ℕ}

theorem settle_eq (pending : List String) (row : Stored) :
    env.settle pending row = (env.events row).foldlM Event.track pending := by
  rw [settle, events, foldlM_append, foldlM_map]
  refine bind_congr fun after => ?_
  split
  · exact (bind_pure (addResult after row.message.toolCallId)).symm
  · rfl

theorem foldlM_settle (rows : List Stored) (pending : List String) :
    rows.foldlM env.settle pending = (rows.flatMap env.events).foldlM Event.track pending := by
  induction rows generalizing pending with
  | nil => rfl
  | cons row rows ih =>
    rw [foldlM_cons, flatMap_cons, foldlM_append, settle_eq]
    exact bind_congr ih

theorem examine_iff : env.examine chats sourceId boundary userId = .ok (source, seq) ↔
    env.Forkable chats sourceId boundary userId source seq := by
  have hbal (seq : ℕ) := @track_iff _ ((chats.told sourceId seq).flatMap env.events) nodup_nil
  constructor
  · intro hadm
    rw [examine] at hadm
    split at hadm
    · cases hadm
    rename_i row hrow
    split at hadm
    · cases hadm
    rename_i huser
    split at hadm
    · cases hadm
    rename_i number hwhole
    split at hadm
    · cases hadm
    rename_i hlast
    split at hadm
    · cases hadm
    · rename_i hset
      cases hadm
      rw [foldlM_settle] at hset
      refine ⟨by rw [hrow]; rfl, not_not.mp huser, hwhole, ?_, (hbal _).mp hset⟩
      simpa [Option.all_eq_true] using hlast
    · cases hadm
  intro hfork
  obtain ⟨row, hrow, hsrc⟩ := Option.map_eq_some_iff.mp hfork.session
  have hset := (foldlM_settle _ _).trans ((hbal seq).mpr hfork.balanced)
  have hlast : ¬ (chats.upTo sourceId seq).getLast?.all (fun last =>
      last.message.seq ≠ seq || last.message.role = "summary") = true := by
    simpa [Option.all_eq_true] using hfork.message
  rw [examine, hrow]
  dsimp only
  rw [if_neg (by rw [hsrc]; exact not_not.mpr hfork.user), hfork.whole]
  dsimp only
  rw [if_neg hlast, hset, hsrc]

theorem within_insert (hnew : env.New chats) : (env.insert source sourceId seq chats).within
    env.sessionId = ((chats.told sourceId seq).zipIdx 1).map env.copy := by
  rw [Chats.within, insert, filter_append, ← Chats.within, hnew.2, nil_append, filter_eq_self]
  intro row hrow
  obtain ⟨found, -, rfl⟩ := mem_map.mp hrow
  exact decide_eq_true rfl

theorem forked_iff (hnew : env.New chats) :
    env.Forked chats (env.insert source sourceId seq chats) sourceId env.sessionId source seq ↔
      ∀ row ∈ chats.told sourceId seq, row.reasoningItems = "" := by
  have htold : ((env.insert source sourceId seq chats).within env.sessionId).map Stored.said =
      (chats.told sourceId seq).map fun row => { row.said with reasoningItems := "" } := by
    rw [within_insert hnew, map_map, ← zipIdx_map_fst 1 (chats.told sourceId seq), map_map,
      zipIdx_map_fst]
    rfl
  constructor
  · intro hforked row hrow
    have hsaid := map_inj_left.mp (htold.symm.trans hforked.told) row hrow
    exact (congrArg Stored.reasoningItems hsaid).symm
  intro hnone
  refine ⟨⟨hnew.1, ExtTreeMap.getElem?_insert_self⟩, htold.trans ?_, ?_, fun other hne => ?_⟩
  · exact map_congr_left fun row hrow => by rw [← hnone row hrow]; rfl
  · rw [within_insert hnew, map_map, ← zipIdx_map_snd 1 (chats.told sourceId seq)]
    rfl
  refine ⟨by simp [insert, ExtTreeMap.getElem?_insert, Ne.symm hne], ?_⟩
  rw [Chats.within, insert, filter_append, ← Chats.within, append_right_eq_self, filter_eq_nil_iff]
  intro row hrow
  obtain ⟨found, -, rfl⟩ := mem_map.mp hrow
  simp [copy, hne.symm]

/-- A fork keeps to the transcript just when no copied row carries reasoning items. -/
theorem forkSession_iff (env : ForkEnv) (chats : Chats) (sourceId userId : String)
    (boundary : Option ℚ) (hnew : env.New chats) : env.Forks chats sourceId boundary userId ↔
      ∀ source seq, env.Forkable chats sourceId boundary userId source seq → env.ends = .ok () →
        ∀ row ∈ chats.told sourceId seq, row.reasoningItems = "" := by
  rw [Forks, forkSession]
  cases hadm : env.examine chats sourceId boundary userId with
  | error why =>
    have hnot (source : Session) (seq : ℕ) :
        ¬ env.Forkable chats sourceId boundary userId source seq := fun hfork =>
      nomatch hadm.symm.trans (examine_iff.mpr hfork)
    exact ⟨fun _ source seq hfork => absurd hfork (hnot source seq),
      fun _ => ⟨rfl, fun ⟨source, seq, hfork⟩ => hnot source seq hfork⟩⟩
  | ok admitted =>
    obtain ⟨source, seq⟩ := admitted
    have hfork := examine_iff.mp hadm
    have honly {source' : Session} {seq' : ℕ}
        (hfork' : env.Forkable chats sourceId boundary userId source' seq') :
        source' = source ∧ seq' = seq :=
      Prod.mk.inj (Except.ok.inj ((examine_iff.mpr hfork').symm.trans hadm))
    cases hends : env.ends with
    | error fault => simp
    | ok _ =>
      constructor
      · rintro ⟨source', seq', hfork', hforked⟩ _ _ hagain - row hrow
        obtain ⟨rfl, rfl⟩ := honly hfork'
        obtain ⟨-, rfl⟩ := honly hagain
        exact (forked_iff hnew).mp hforked row hrow
      · intro hnone
        exact ⟨source, seq, hfork, (forked_iff hnew).mpr (hnone source seq hfork rfl)⟩

section Example

def plainSession : Session :=
  ⟨"", "chat", none, 0, none, "u", "", "", "default", "", 0, 0, "", none, none, 0, "unbound", "", "",
    "", "\x7b\x7d", ""⟩

/-- One answer, with its reasoning items. -/
def answered (items : String) : Chats where
  sessions := ({} : ExtTreeMap String SessionRow).insert "s" ⟨plainSession, 0, ⟨none, 0, "", 0⟩⟩
  messages := [⟨"m", ⟨"s", 1, "assistant", "yes", "[]", "", "", 0, 0, 1, 0, "[]", 0, "", "[]",
    "\x7b\x7d", ""⟩, items⟩]
  search := []
  journal := []

def forking : ForkEnv := ⟨fun _ => [], "f", fun _ => "n", 0, .ok ()⟩

theorem answered_told (items : String) : (answered items).told "s" 1 = (answered items).messages := by
  simp [Chats.told, Chats.upTo, answered]

theorem answered_new (items : String) : forking.New (answered items) := by
  simp [New, Chats.within, answered, forking]

theorem answered_forkable (items : String) :
    forking.Forkable (answered items) "s" (some 1) "u" plainSession 1 where
  session := by simp [answered]
  user := rfl
  whole := by decide
  message := by simp [Chats.upTo, answered]
  balanced := by
    rw [answered_told]
    exact balanced_nil.mpr rfl

theorem forkSession_iff_answered : forking.Forks (answered "") "s" (some 1) "u" ↔
    ∀ source seq, forking.Forkable (answered "") "s" (some 1) "u" source seq →
      forking.ends = .ok () → ∀ row ∈ (answered "").told "s" seq, row.reasoningItems = "" :=
  forkSession_iff forking (answered "") "s" "u" (some 1) (answered_new "")

/-- The column is not copied. -/
theorem forkSession_drops_reasoning : ¬ forking.Forks (answered "[1]") "s" (some 1) "u" := by
  intro hforks
  rw [Forks, forkSession, examine_iff.mpr (answered_forkable "[1]")] at hforks
  obtain ⟨source, seq, hfork, hforked⟩ := hforks
  obtain ⟨rfl, rfl⟩ := Prod.mk.inj (Except.ok.inj
    ((examine_iff.mpr hfork).symm.trans (examine_iff.mpr (answered_forkable "[1]"))))
  have hnone := (forked_iff (answered_new "[1]")).mp hforked
  rw [answered_told] at hnone
  exact absurd (hnone _ mem_cons_self) (by decide)

end Example

end ForkEnv

end WasmAgent.Sync
