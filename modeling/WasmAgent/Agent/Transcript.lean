import Mathlib.Data.List.Sort

/-!
# Transcript rows and provider messages

A session's transcript is a list of stored rows in sequence order.  A request
is a list of provider messages.  This file defines both, the query that reads
a window of the transcript, and the two translations that the agent uses for
user rows and for images returned by tools.
-/

namespace WasmAgent.Agent

/-- The roles a stored row can have.  `retry` rows are display evidence and
`summary` rows record a compaction; neither is dialogue. -/
inductive RowRole
  | user
  | assistant
  | tool
  | retry
  | summary
  deriving DecidableEq, Repr

/-- One entry of an assistant row's `tool_calls`.  The id may be absent. -/
structure ToolCall where
  id : Option String
  name : String
  arguments : String
  deriving DecidableEq, Repr

/-- A stored image reference; the bytes live in the attachment store. -/
structure ImageReference where
  name : Option String
  sha256 : Option String
  path : String
  deriving DecidableEq, Repr

/-- One row of `messages`.  `tool_call_id` is `''` when the row has none. -/
structure Row where
  seq : ℕ
  role : RowRole
  content : String
  toolCalls : List ToolCall := []
  toolCallId : String := ""
  toolName : String := ""
  images : List ImageReference := []
  reasoning : String := ""
  phase : String := ""
  deriving DecidableEq, Repr

/-- The rows of one session, in the order `ORDER BY seq ASC` returns them. -/
structure Transcript where
  rows : List Row
  ordered : rows.Pairwise fun earlier later => earlier.seq ≤ later.seq

/-- `memory.session_messages` with `all` and `exclude_summaries`: every row
after the watermark except the summary rows. -/
def sessionMessages (transcript : Transcript) (afterSeq : ℕ) : List Row :=
  transcript.rows.filter fun row => afterSeq < row.seq && row.role != .summary

inductive Role
  | system
  | user
  | assistant
  | tool
  deriving DecidableEq, Repr

inductive Part
  | text (text : String)
  | imageUrl (url : String)
  deriving DecidableEq, Repr

inductive Content
  | text (text : String)
  | parts (parts : List Part)
  deriving DecidableEq, Repr

/-- One provider message.  An absent `tool_calls` table is the empty list: the
code never sends an empty one.  `images` is the internal `_images` field. -/
structure Message where
  role : Role
  content : Content
  reasoningContent : Option String := none
  toolCalls : List ToolCall := []
  toolCallId : String := ""
  name : String := ""
  images : List ImageReference := []
  deriving DecidableEq, Repr

namespace Message

def isTool (message : Message) : Bool := message.role == .tool

def isAssistant (message : Message) : Bool := message.role == .assistant

def callIds (message : Message) : List String :=
  if message.isAssistant then message.toolCalls.filterMap ToolCall.id else []

end Message

/-- What building a request reads from outside the transcript. -/
structure ContextEnv where
  /-- Whether the provider wants earlier reasoning replayed. -/
  replayReasoning : Bool
  /-- `tool_output.context_view`: the bounded view of a stored tool result. -/
  contextView : String → String → String
  /-- `memory.load_image`: the data URL of a stored image, unless it is missing. -/
  loadImage : ImageReference → Option String

variable (env : ContextEnv)

def ImageReference.label (reference : ImageReference) : String :=
  (reference.name.or reference.sha256).getD "image"

def imageMessage (images : List ImageReference) (text missingLabel : String) : Message :=
  if images.isEmpty then { role := .user, content := .text text }
  else
    let words := if text = "" then [] else [Part.text text]
    let shown := images.filterMap fun reference =>
      (env.loadImage reference).map Part.imageUrl
    let lost := (images.filter fun reference => (env.loadImage reference).isNone).map
      ImageReference.label
    let missing := if lost.isEmpty then []
      else [Part.text ("[" ++ missingLabel ++ ": " ++ String.intercalate ", " lost ++ "]")]
    let parts := words ++ shown ++ missing
    { role := .user, content := .parts (if parts.isEmpty then [.text "(image)"] else parts) }

def userMessage (row : Row) : Message := imageMessage env row.images row.content "image unavailable"

def toolImageMessage (images : List ImageReference) : Message :=
  let names := images.map ImageReference.label
  let label := (if names.length = 1 then "Image" else "Images") ++
    " returned by the preceding tool result" ++
    (if names.isEmpty then "." else ": " ++ String.intercalate ", " names)
  imageMessage env images label "tool image unavailable"

variable (images : List ImageReference)

@[simp]
theorem imageMessage_role (text missingLabel : String) :
    (imageMessage env images text missingLabel).role = .user := by
  simp only [imageMessage]
  split <;> rfl

@[simp]
theorem imageMessage_isTool (text missingLabel : String) :
    (imageMessage env images text missingLabel).isTool = false := by
  simp [Message.isTool]

@[simp]
theorem imageMessage_callIds (text missingLabel : String) :
    (imageMessage env images text missingLabel).callIds = [] := by
  simp [Message.callIds, Message.isAssistant]

end WasmAgent.Agent
