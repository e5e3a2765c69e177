import WasmAgent.Agent.Transcript

/-!
# Building a request from the transcript

`build_context` reads the rows after the session's watermark, turns them into
provider messages and repairs the window: results that arrived late move up to
their call, calls that no result answers are dropped, and results that no call
declares are dropped.  Images returned by tools become one user message after
the block of results they came with.
-/

namespace WasmAgent.Agent

/-- The session fields that a request depends on. -/
structure Session where
  summary : String := ""
  summarizedUntil : ℕ := 0
  deriving DecidableEq, Repr

/-- `prompt_sections.section` with the single attribute `source`. -/
def promptSection (name content source : String) : String :=
  "<" ++ name ++ " source=\"" ++ source ++ "\">\n" ++ content ++ "\n</" ++ name ++ ">"

/-- What the agent puts before and after the transcript window. -/
structure Frame where
  /-- The frozen system prompt. -/
  first : String
  resumeNotice : Option String := none
  /-- Notes that `prompt_cache.notes` delivered with this request. -/
  notes : List String := []

def systemMessage (content : String) : Message := { role := .system, content := .text content }

def noteMessage (content : String) : Message := { role := .user, content := .text content }

def Frame.head (frame : Frame) (session : Session) : List Message :=
  systemMessage frame.first ::
    ((if session.summary = "" then []
      else [systemMessage (promptSection "onSessionStart_injection"
        ("Summary of earlier messages in this session:\n" ++ session.summary)
        "session.summary")]) ++
    (frame.resumeNotice.map fun notice =>
      systemMessage (promptSection "onSessionStart_injection" notice "resume_notice")).toList)

variable (env : ContextEnv)

def assistantMessage (row : Row) : Message :=
  { role := .assistant, content := .text row.content,
    reasoningContent := if env.replayReasoning then some row.reasoning else none,
    toolCalls := row.toolCalls }

def toolMessage (row : Row) : Message :=
  { role := .tool, content := .text (env.contextView row.toolName row.content),
    toolCallId := row.toolCallId, name := row.toolName, images := row.images }

/-- The first loop of `build_context`.  Tool rows before the first user or
assistant row are orphans and are skipped; retry rows are never sent. -/
def window : Bool → List Row → List Message
  | _, [] => []
  | started, row :: rows =>
      match row.role with
      | .tool => if started then toolMessage env row :: window true rows else window false rows
      | .user => userMessage env row :: window true rows
      | .assistant => assistantMessage env row :: window true rows
      | .retry | .summary => window started rows

/-- `want[id] = nil`. -/
def forget (want : List String) (id : String) : List String :=
  want.filter fun wanted => wanted != id

/-- The scan of one call: take every later result that is still wanted, in
order.  It returns the results taken and the messages left behind. -/
def collect (want : List String) : List Message → List Message × List Message
  | [] => ([], [])
  | message :: rest =>
      if message.isTool && want.contains message.toolCallId then
        let found := collect (forget want message.toolCallId) rest
        (message :: found.1, found.2)
      else
        let found := collect want rest
        (found.1, message :: found.2)

/-- The messages after one message, once its late results have been moved
behind the results that follow it directly; and how many were moved. -/
def gather (message : Message) (rest : List Message) : List Message × ℕ :=
  if message.isAssistant && !message.toolCalls.isEmpty then
    let block := rest.takeWhile Message.isTool
    let want := (block.map Message.toolCallId).foldl forget message.callIds
    let found := collect want (rest.dropWhile Message.isTool)
    (block ++ found.1 ++ found.2, found.1.length)
  else (rest, 0)

/-- `for index = 1, #messages`: the messages before the index never change
again, so the loop is a recursion over the rest. -/
def moveResults : ℕ → List Message → List Message × ℕ
  | 0, messages => (messages, 0)
  | _ + 1, [] => ([], 0)
  | count + 1, message :: rest =>
      let gathered := gather message rest
      let moved := moveResults count gathered.1
      (message :: moved.1, gathered.2 + moved.2)

/-- The nonempty ids of all results in the window. -/
def answeredIds (messages : List Message) : List String :=
  (messages.filter fun message => message.isTool && message.toolCallId != "").map Message.toolCallId

def ToolCall.isAnswered (answered : List String) (call : ToolCall) : Bool :=
  call.id.any answered.contains

def keepAnswered (answered : List String) (message : Message) : Message :=
  if message.isAssistant then
    { message with toolCalls := message.toolCalls.filter (ToolCall.isAnswered answered) }
  else message

def dropCalls (answered : List String) (messages : List Message) : List Message :=
  messages.map (keepAnswered answered)

def declaredIds (messages : List Message) : List String := messages.flatMap Message.callIds

def isDeclared (declared : List String) (message : Message) : Bool :=
  !message.isTool || declared.contains message.toolCallId

def dropResults (declared : List String) (messages : List Message) : List Message :=
  messages.filter (isDeclared declared)

structure Repaired where
  messages : List Message
  droppedCalls : ℕ
  droppedResults : ℕ
  movedResults : ℕ

def repair (messages : List Message) : Repaired :=
  let moved := moveResults messages.length messages
  let answered := answeredIds moved.1
  let kept := dropCalls answered moved.1
  let declared := declaredIds kept
  { messages := dropResults declared kept
    droppedCalls := (moved.1.flatMap fun message =>
      if message.isAssistant then
        message.toolCalls.filter fun call => !call.isAnswered answered
      else []).length
    droppedResults := (kept.filter fun message => !isDeclared declared message).length
    movedResults := moved.2 }

def Repaired.status (repaired : Repaired) : Option String :=
  if repaired.droppedCalls > 0 ∨ repaired.droppedResults > 0 ∨ repaired.movedResults > 0 then
    some ("repaired the transcript for the provider (" ++ toString repaired.droppedCalls ++
      " call(s) dropped, " ++ toString repaired.droppedResults ++ " result(s) dropped, " ++
      toString repaired.movedResults ++ " result(s) moved back to their call)")
  else none

def stripImages (message : Message) : Message := { message with images := [] }

def flushImages (pending : List ImageReference) : List Message :=
  if pending.isEmpty then [] else [toolImageMessage env pending]

/-- `materialize_tool_images`; `pending` holds the images of the block so far. -/
def materializeToolImages (pending : List ImageReference) : List Message → List Message
  | [] => flushImages env pending
  | message :: rest =>
      if message.isTool then
        stripImages message :: materializeToolImages (pending ++ message.images) rest
      else flushImages env pending ++ message :: materializeToolImages [] rest

def contextWindow (frame : Frame) (session : Session) (transcript : Transcript) : List Message :=
  frame.head session ++ window env false (sessionMessages transcript session.summarizedUntil)

/-- `M:build_context`: the message list that is sent. -/
def buildContext (frame : Frame) (session : Session) (transcript : Transcript) : List Message :=
  materializeToolImages env [] (repair (contextWindow env frame session transcript)).messages ++
    frame.notes.map noteMessage

/-- The status that `build_context` emits about its repair. -/
def repairStatus (frame : Frame) (session : Session) (transcript : Transcript) : Option String :=
  (repair (contextWindow env frame session transcript)).status

end WasmAgent.Agent
