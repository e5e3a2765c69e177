import Std.Data.ExtTreeMap
import Mathlib.Data.Nat.Notation

/-!
# The replicated tables

Memories, messages, sessions and runs, and what an entry of another node's journal does to them.
Times are natural numbers, in a unit that is fine enough for the clocks.
-/

namespace WasmAgent.Sync

open Std.ExtTreeMap Std

/-- A row of `memories`, under its id. -/
structure Memory where
  scope : String
  content : String
  tags : List String
  source : String
  sessionId : String
  createdAt : ℕ
  updatedAt : ℕ
  deletedAt : Option ℕ
  contentSha256 : String
  deriving DecidableEq

/-- The replicated columns of `messages`, under the id of the message. -/
structure Message where
  sessionId : String
  seq : ℕ
  role : String
  content : String
  toolCalls : String
  toolCallId : String
  toolName : String
  tokens : ℕ
  ms : ℕ
  ok : ℕ
  debug : ℕ
  trace : String
  createdAt : ℕ
  reasoning : String
  images : String
  changes : String
  phase : String
  deriving DecidableEq

/-- The replicated columns of `sessions`, but for the stamp. -/
structure Session where
  routeId : String
  objective : String
  parentSessionId : Option String
  startedAt : ℕ
  endedAt : Option ℕ
  userId : String
  nodeId : String
  title : String
  mode : String
  summary : String
  summarizedUntil : ℕ
  updatedAt : ℕ
  worktree : String
  forkParentId : Option String
  forkParentSeq : Option ℕ
  workspaceRequired : ℕ
  workspaceState : String
  workspaceBranch : String
  workspaceBaseCommit : String
  workspaceSourcePath : String
  workspaceStartState : String
  workspaceError : String
  deriving DecidableEq

/-- What is written down of an interruption, on one node. -/
structure Interruption where
  since : Option ℕ
  seq : ℕ
  reason : String
  count : ℕ
  deriving DecidableEq

/-- A row of `sessions`, under its id. -/
structure SessionRow where
  session : Session
  changedAt : ℕ
  interruption : Interruption
  deriving DecidableEq

/-- A row of `runs`, under its id. -/
structure Run where
  sessionId : String
  runId : String
  status : String
  outcome : String
  reply : String
  startedAt : ℕ
  endedAt : Option ℕ
  deriving DecidableEq

def Run.received (run : Run) : Run := { run with endedAt := some (run.endedAt.getD 0) }

/-- What is journalled of a memory that is stored or corrected. -/
structure MemoryPayload where
  scope : String
  content : String
  tags : List String
  source : String
  createdAt : ℕ
  updatedAt : ℕ
  contentSha256 : String
  deriving DecidableEq

def MemoryPayload.row (payload : MemoryPayload) : Memory where
  scope := payload.scope
  content := payload.content
  tags := payload.tags
  source := payload.source
  sessionId := ""
  createdAt := payload.createdAt
  updatedAt := payload.updatedAt
  deletedAt := none
  contentSha256 := payload.contentSha256

/-- A row after a correction: it stays in its scope. -/
def Memory.corrected (row : Memory) (payload : MemoryPayload) : Memory :=
  { row with
    content := payload.content
    tags := payload.tags
    contentSha256 := payload.contentSha256
    updatedAt := payload.updatedAt }

def Memory.deleted (row : Memory) (deletedAt updatedAt : ℕ) : Memory :=
  if row.deletedAt.isNone then { row with deletedAt := some deletedAt, updatedAt := updatedAt }
  else row

inductive Change where
  | message (id : String) (payload : Message)
  | session (id : String) (payload : SessionRow)
  | memory (id : String) (payload : MemoryPayload)
  | forgotten (id : String) (deletedAt updatedAt : ℕ)
  | run (id : String) (payload : Run)
  deriving DecidableEq

structure Entry where
  origin : String
  change : Change
  deriving DecidableEq

structure Tables where
  memories : ExtTreeMap String Memory
  messages : ExtTreeMap String Message
  sessions : ExtTreeMap String SessionRow
  runs : ExtTreeMap String Run

def Tables.empty : Tables := ⟨∅, ∅, ∅, ∅⟩

def SessionRow.stamp (row : SessionRow) : ℕ := max row.changedAt row.session.updatedAt

/-- The columns as they arrive: a NULL travels as an empty text or a zero, and only two of the
columns are turned back. -/
def Session.carried (session : Session) : Session :=
  { session with
    parentSessionId := session.parentSessionId.filter (· ≠ "")
    endedAt := session.endedAt.filter (· ≠ 0)
    forkParentId := some (session.forkParentId.getD "")
    forkParentSeq := some (session.forkParentSeq.getD 0) }

namespace Tables

def setMemory (id : String) (row : Memory) (tables : Tables) : Tables :=
  { tables with memories := tables.memories.insert id row }

def setMessage (id : String) (row : Message) (tables : Tables) : Tables :=
  { tables with messages := tables.messages.insert id row }

def setSession (id : String) (row : SessionRow) (tables : Tables) : Tables :=
  { tables with sessions := tables.sessions.insert id row }

def setRun (id : String) (row : Run) (tables : Tables) : Tables :=
  { tables with runs := tables.runs.insert id row }

/-- Another memory is live with this text in this scope. -/
def taken (tables : Tables) (id scope contentSha256 : String) : Bool :=
  tables.memories.toList.any (fun (other, row) =>
    other ≠ id && row.deletedAt.isNone && row.scope = scope && row.contentSha256 = contentSha256)

def putMemory (id : String) (payload : MemoryPayload) (tables : Tables) : Except String Tables :=
  let conflict := "UNIQUE constraint failed: memories.scope, memories.content_sha256"
  match tables.memories[id]? with
  | none =>
      if tables.taken id payload.scope payload.contentSha256 then .error conflict
      else .ok (tables.setMemory id payload.row)
  | some row =>
      if payload.updatedAt < row.updatedAt then .ok tables
      else if row.deletedAt.isNone && tables.taken id row.scope payload.contentSha256 then
        .error conflict
      else .ok (tables.setMemory id (row.corrected payload))

def deleteMemory (id : String) (deletedAt updatedAt : ℕ) (tables : Tables) : Tables :=
  match tables.memories[id]? with
  | none => tables
  | some row => tables.setMemory id (row.deleted deletedAt updatedAt)

/-- The upsert, and the trigger `sessions_changed` after an update that leaves the stamp. -/
def putSession (clock : ℕ) (id : String) (payload : SessionRow) (tables : Tables) : Tables :=
  match tables.sessions[id]? with
  | none =>
      tables.setSession id ⟨payload.session.carried, payload.stamp, ⟨none, 0, "", 0⟩⟩
  | some row =>
      if payload.stamp < row.stamp then tables
      else tables.setSession id { row with
        session := payload.session.carried
        changedAt := if payload.stamp = row.changedAt then clock else payload.stamp }

/-- `apply_entry`, at a reading of the receiver's clock. -/
def applyEntry (clock : ℕ) (entry : Entry) (tables : Tables) : Except String Tables :=
  match entry.change with
  | .message id payload => .ok (tables.setMessage id payload)
  | .session id payload => .ok (tables.putSession clock id payload)
  | .forgotten id deletedAt updatedAt => .ok (tables.deleteMemory id deletedAt updatedAt)
  | .memory id payload => tables.putMemory id payload
  | .run id payload => .ok (tables.setRun id payload.received)

/-- The transaction of `M.apply_entry`: an entry that fails leaves the tables. -/
def deliver (tables : Tables) (delivery : Entry × ℕ) : Tables :=
  match tables.applyEntry delivery.2 delivery.1 with
  | .ok after => after
  | .error _ => tables

/-- Entries, each with the clock that it finds, one after the other. -/
def deliverAll (deliveries : List (Entry × ℕ)) (tables : Tables) : Tables :=
  deliveries.foldl deliver tables

section Lookups

variable (tables : Tables) (id other origin : String) (clock : ℕ)

@[simp]
theorem setMemory_memories (row : Memory) :
    (tables.setMemory id row).memories[other]? =
      if id = other then some row else tables.memories[other]? := by
  simp [setMemory, getElem?_insert]

@[simp]
theorem setMessage_messages (row : Message) :
    (tables.setMessage id row).messages[other]? =
      if id = other then some row else tables.messages[other]? := by
  simp [setMessage, getElem?_insert]

@[simp]
theorem setSession_sessions (row : SessionRow) :
    (tables.setSession id row).sessions[other]? =
      if id = other then some row else tables.sessions[other]? := by
  simp [setSession, getElem?_insert]

@[simp]
theorem setRun_runs (row : Run) :
    (tables.setRun id row).runs[other]? =
      if id = other then some row else tables.runs[other]? := by
  simp [setRun, getElem?_insert]

theorem taken_iff {tables : Tables} {id scope contentSha256 : String} :
    tables.taken id scope contentSha256 = true ↔ ∃ (other : String) (row : Memory),
      tables.memories[other]? = some row ∧ other ≠ id ∧ row.deletedAt = none ∧
        row.scope = scope ∧ row.contentSha256 = contentSha256 := by
  simp only [taken, List.any_eq_true, Prod.exists, mem_toList_iff_getElem?_eq_some,
    Bool.and_eq_true, decide_eq_true_eq, Option.isNone_iff_eq_none, and_assoc]

theorem deliver_memory_eq (payload : MemoryPayload) :
    tables.deliver (⟨origin, .memory id payload⟩, clock) =
        match tables.memories[id]? with
        | none =>
            if tables.taken id payload.scope payload.contentSha256 then tables
            else tables.setMemory id payload.row
        | some row =>
            if payload.updatedAt < row.updatedAt then tables
            else if row.deletedAt.isNone && tables.taken id row.scope payload.contentSha256 then
              tables
            else tables.setMemory id (row.corrected payload) := by
  unfold deliver applyEntry putMemory
  dsimp only
  cases tables.memories[id]? with
  | none =>
    dsimp only
    by_cases htkn : tables.taken id payload.scope payload.contentSha256 = true
    · rw [if_pos htkn, if_pos htkn]
    · rw [if_neg htkn, if_neg htkn]
  | some row =>
    dsimp only
    by_cases hold : payload.updatedAt < row.updatedAt
    · rw [if_pos hold, if_pos hold]
    rw [if_neg hold, if_neg hold]
    by_cases htkn : (row.deletedAt.isNone && tables.taken id row.scope payload.contentSha256) = true
    · rw [if_pos htkn, if_pos htkn]
    · rw [if_neg htkn, if_neg htkn]

theorem deliver_memory (payload : MemoryPayload) :
    (tables.deliver (⟨origin, .memory id payload⟩, clock)).memories[other]? =
      if id = other then
        match tables.memories[id]? with
        | none =>
            if tables.taken id payload.scope payload.contentSha256 then none else some payload.row
        | some row =>
            if payload.updatedAt < row.updatedAt then some row
            else if row.deletedAt.isNone && tables.taken id row.scope payload.contentSha256 then
              some row
            else some (row.corrected payload)
      else tables.memories[other]? := by
  rw [deliver_memory_eq]
  by_cases hsame : id = other
  · subst hsame
    rw [if_pos rfl]
    cases hrow : tables.memories[id]? with
    | none =>
      dsimp only
      split
      · exact hrow
      · simp
    | some row =>
      dsimp only
      split
      · exact hrow
      · split
        · exact hrow
        · simp
  rw [if_neg hsame]
  cases hrow : tables.memories[id]? with
  | none =>
    dsimp only
    split
    · rfl
    · simp [hsame]
  | some row =>
    dsimp only
    split
    · rfl
    · split
      · rfl
      · simp [hsame]

theorem deliver_forgotten (deletedAt updatedAt : ℕ) :
    (tables.deliver (⟨origin, .forgotten id deletedAt updatedAt⟩, clock)).memories[other]? =
      if id = other then (tables.memories[id]?).map (·.deleted deletedAt updatedAt)
      else tables.memories[other]? := by
  unfold deliver applyEntry deleteMemory
  dsimp only
  cases hrow : tables.memories[id]? with
  | none =>
    by_cases hsame : id = other
    · subst hsame
      simp [hrow]
    · simp [hsame]
  | some row => simp

theorem deliver_session (payload : SessionRow) :
    (tables.deliver (⟨origin, .session id payload⟩, clock)).sessions[other]? =
      if id = other then
        match tables.sessions[id]? with
        | none => some ⟨payload.session.carried, payload.stamp, ⟨none, 0, "", 0⟩⟩
        | some row =>
            if payload.stamp < row.stamp then some row
            else some { row with
              session := payload.session.carried
              changedAt := if payload.stamp = row.changedAt then clock else payload.stamp }
      else tables.sessions[other]? := by
  unfold deliver applyEntry putSession
  dsimp only
  cases hrow : tables.sessions[id]? with
  | none => simp
  | some row =>
    dsimp only
    split
    · by_cases hsame : id = other
      · subst hsame
        simp [hrow]
      · simp [hsame]
    · simp

theorem deliver_rest (entry : Entry) :
    match entry.change with
    | .message _ _ => (tables.deliver (entry, clock)).memories = tables.memories ∧
        (tables.deliver (entry, clock)).sessions = tables.sessions ∧
        (tables.deliver (entry, clock)).runs = tables.runs
    | .session _ _ => (tables.deliver (entry, clock)).memories = tables.memories ∧
        (tables.deliver (entry, clock)).messages = tables.messages ∧
        (tables.deliver (entry, clock)).runs = tables.runs
    | .run _ _ => (tables.deliver (entry, clock)).memories = tables.memories ∧
        (tables.deliver (entry, clock)).messages = tables.messages ∧
        (tables.deliver (entry, clock)).sessions = tables.sessions
    | _ => (tables.deliver (entry, clock)).messages = tables.messages ∧
        (tables.deliver (entry, clock)).sessions = tables.sessions ∧
        (tables.deliver (entry, clock)).runs = tables.runs := by
  obtain ⟨origin, change⟩ := entry
  cases change with
  | message | run => exact ⟨rfl, rfl, rfl⟩
  | session id payload =>
    unfold deliver applyEntry putSession
    dsimp only
    cases tables.sessions[id]? with
    | none => exact ⟨rfl, rfl, rfl⟩
    | some row =>
      dsimp only
      split <;> exact ⟨rfl, rfl, rfl⟩
  | forgotten id deletedAt updatedAt =>
    unfold deliver applyEntry deleteMemory
    dsimp only
    cases tables.memories[id]? with
    | none | some => exact ⟨rfl, rfl, rfl⟩
  | memory id payload =>
    dsimp only
    rw [deliver_memory_eq]
    cases tables.memories[id]? with
    | none =>
      dsimp only
      split <;> exact ⟨rfl, rfl, rfl⟩
    | some row =>
      dsimp only
      split
      · exact ⟨rfl, rfl, rfl⟩
      · split <;> exact ⟨rfl, rfl, rfl⟩

end Lookups

end Tables

end WasmAgent.Sync
