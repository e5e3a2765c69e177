import WasmAgent.Core.Json
import WasmAgent.Core.Reading

/-!
# The relay of the rendezvous service

A node that cannot be reached polls the relay for requests and posts their results; a
sender waits for the result of its own.  One lock guards the relay's tables, and every
stretch of code that holds it is one step here.
-/

namespace WasmAgent.Rendezvous

open Function WasmAgent.Core

abbrev Bytes := List UInt8

/-- Nanoseconds of a clock that does not go back. -/
abbrev Instant := ℕ

def second : ℕ := 1000000000
def sendWait : ℕ := 45 * second
def attachHold : ℕ := 20 * second
def attachedFor : ℕ := 40 * second
/-- How long an issued id and a result are kept. -/
def retention : ℕ := 120 * second

/-- A send as it comes in: who signed it, and its body. -/
structure Call where
  fromNode : String
  body : Bytes
  deriving DecidableEq

structure Service where
  parse : Bytes → Json
  bodyHash : Bytes → String

/-- Sender, recipient and the hash of the body. -/
abbrev Owner := String × String × String

namespace Service

def recipient (service : Service) (call : Call) : String :=
  ((service.parse call.body).field "to").asStr.getD ""

/-- The id the sender chose, if it chose one. -/
def rid? (service : Service) (call : Call) : Option String :=
  ((service.parse call.body).field "rid").asStr.filter (· ≠ "")

def owner (service : Service) (call : Call) : Owner :=
  (call.fromNode, service.recipient call, service.bodyHash call.body)

end Service

structure Queued where
  id : String
  call : Call
  deriving DecidableEq

/-- What is handed to the recipient. -/
def Queued.wire (service : Service) (queued : Queued) : Json :=
  let payload := service.parse queued.call.body
  .object [
    ("body", .string ((payload.field "body").asStr.getD "")),
    ("from", .string queued.call.fromNode),
    ("headers", payload.field "headers"),
    ("id", .string queued.id),
    ("method", .string ((payload.field "method").asStr.getD "POST")),
    ("path", .string ((payload.field "path").asStr.getD "/"))]

structure Result where
  status : UInt16
  body : String
  deriving DecidableEq

/-- The tables under the lock; a waiting entry is the channel of the send it names. -/
structure RelayState (Tid : Type) where
  queue : String → List Queued
  waiting : String → Option Tid
  lastPoll : String → Option Instant
  issued : String → Option Instant
  results : String → Option (Result × Instant)
  owners : String → Option Owner
  nextId : ℕ

namespace RelayState

variable {Tid : Type}

def empty : RelayState Tid where
  queue := fun _ => []
  waiting := fun _ => none
  lastPoll := fun _ => none
  issued := fun _ => none
  results := fun _ => none
  owners := fun _ => none
  nextId := 0

def live (relay : RelayState Tid) (now : Instant) (id : String) : Bool :=
  (relay.issued id).any (now - · < retention) ||
    (relay.results id).any fun kept => now - kept.2 < retention

/-- What every send does first: drops what is too old, and what hangs on it. -/
def prune (relay : RelayState Tid) (now : Instant) : RelayState Tid :=
  { relay with
    results := fun id => (relay.results id).filter fun kept => now - kept.2 < retention
    issued := fun id => (relay.issued id).filter (now - · < retention)
    owners := fun id => if relay.live now id then relay.owners id else none
    queue := fun node => (relay.queue node).filter fun queued => relay.live now queued.id }

def attached (relay : RelayState Tid) (now : Instant) (node : String) : Bool :=
  (relay.lastPoll node).any (now - · < attachedFor)

end RelayState

inductive Outcome where
  | answered (result : Result) (replayed : Bool)
  | conflict
  | inFlight
  | noAnswer (attached : Bool) (waited : ℕ)
  deriving DecidableEq

/-- How far a send is. -/
inductive Phase where
  | numbered
  | waiting (deadline : Instant) (hold : ℕ) (inbox : Option Result)
  | collected (result : Result)
  | expired (hold : ℕ)
  | looked (attached : Bool) (hold : ℕ)
  | returned (outcome : Outcome)
  deriving DecidableEq

/-- A send, its id, and whether the relay made the id up. -/
structure Thread where
  call : Call
  id : String
  generated : Bool
  phase : Phase
  deriving DecidableEq

/-- A result that was accepted: who posted it, when, the requests under its id that the
node had been handed and had not answered, and the request the id was taken up for. -/
structure Posted where
  id : String
  node : String
  result : Result
  time : Instant
  unanswered : List Call
  holder : Option Call
  deriving DecidableEq

/-- What is written down of a run; no step reads it. -/
structure History where
  queued : List (Queued × Instant)
  handed : List (String × Queued)
  unanswered : List (String × Queued)
  answers : List Posted
  holder : String → Option Call

structure World (Tid : Type) where
  relay : RelayState Tid
  threads : Tid → Option Thread
  clock : Instant
  history : History

/-- A stretch of time, or one step of a send, a poll or a respond. -/
inductive Event (Tid : Type) where
  | pass (span : ℕ)
  | arrive (tid : Tid) (call : Call)
  | admitted (tid : Tid)
  | wake (tid : Tid)
  | look (tid : Tid)
  | clean (tid : Tid)
  | poll (node : String)
  | respond (node id : String) (result : Result)

def World.start {Tid : Type} : World Tid where
  relay := .empty
  threads := fun _ => none
  clock := 0
  history := ⟨[], [], [], [], fun _ => none⟩

section Sends

variable {Tid : Type} [DecidableEq Tid] (service : Service)

/-- A send that passed its checks gets its id. -/
def arrive (tid : Tid) (call : Call) (world : World Tid) : World Tid :=
  if (world.threads tid).isSome then
    world
  else
    match service.rid? call with
    | some id =>
        { world with
          threads := update world.threads tid (some ⟨call, id, false, .numbered⟩) }
    | none =>
        let nextId := world.relay.nextId + 1
        { world with
          relay := { world.relay with nextId := nextId }
          threads := update world.threads tid
            (some ⟨call, "r" ++ toString nextId, true, .numbered⟩) }

def issue (relay : RelayState Tid) (now : Instant) (call : Call) (id : String) : RelayState Tid :=
  { relay with
    owners := update relay.owners id (some (service.owner call))
    issued := update relay.issued id (some now)
    queue := update relay.queue (service.recipient call)
      (relay.queue (service.recipient call) ++ [⟨id, call⟩]) }

/-- The tables that a send leaves, how far it got, and whether its request was taken up. -/
def admitCall (now : Instant) (tid : Tid) (call : Call) (id : String) (relay : RelayState Tid) :
    RelayState Tid × Phase × Bool :=
  let pruned := relay.prune now
  if (pruned.owners id).any (· ≠ service.owner call) then
    (pruned, .returned .conflict, false)
  else
    match pruned.results id with
    | some kept => (pruned, .returned (.answered kept.1 true), false)
    | none =>
        if (pruned.waiting id).isSome then
          (pruned, .returned .inFlight, false)
        else
          let registered := { pruned with waiting := update pruned.waiting id (some tid) }
          let fresh := (pruned.issued id).isNone
          let taken := if fresh then issue service registered now call id else registered
          let hold := if taken.attached now (service.recipient call) then sendWait else attachHold
          (taken, .waiting (now + hold) hold none, fresh)

def admitThread (tid : Tid) (world : World Tid) : World Tid :=
  match world.threads tid with
  | some ⟨call, id, generated, .numbered⟩ =>
      let (relay, phase, fresh) := admitCall service world.clock tid call id world.relay
      { world with
        relay := relay
        threads := update world.threads tid (some ⟨call, id, generated, phase⟩)
        history := if fresh then
          { world.history with
            queued := world.history.queued ++ [(⟨id, call⟩, world.clock)]
            holder := update world.history.holder id (some call) }
          else world.history }
  | _ => world

def wakePhase (connected : Bool) (now : Instant) : Phase → Phase
  | .waiting _ _ (some result) => .collected result
  | .waiting deadline hold none =>
      if connected = false ∨ deadline ≤ now then .expired hold else .waiting deadline hold none
  | phase => phase

def wake (tid : Tid) (world : World Tid) : World Tid :=
  match world.threads tid with
  | some thread =>
      let connected := world.relay.waiting thread.id = some tid
      { world with
        threads := update world.threads tid
          (some { thread with phase := wakePhase connected world.clock thread.phase }) }
  | none => world

def look (tid : Tid) (world : World Tid) : World Tid :=
  match world.threads tid with
  | some ⟨call, id, generated, .expired hold⟩ =>
      let attached := world.relay.attached world.clock (service.recipient call)
      { world with
        threads := update world.threads tid (some ⟨call, id, generated, .looked attached hold⟩) }
  | _ => world

/-- What a send returns at its end, if it is there. -/
def ending : Phase → Option Outcome
  | .collected result => some (.answered result false)
  | .looked attached hold => some (.noAnswer attached hold)
  | _ => none

/-- A send that is done waiting takes the entry under its id away, whosever it is. -/
def clean (tid : Tid) (world : World Tid) : World Tid :=
  match world.threads tid with
  | some thread =>
      match ending thread.phase with
      | some outcome =>
          { world with
            relay := { world.relay with waiting := update world.relay.waiting thread.id none }
            threads := update world.threads tid (some { thread with phase := .returned outcome }) }
      | none => world
  | none => world

end Sends

section Recipients

variable {Tid : Type} [DecidableEq Tid]

def poll (node : String) (world : World Tid) : World Tid :=
  let polled := { world.relay with
    lastPoll := update world.relay.lastPoll node (some world.clock) }
  match world.relay.queue node with
  | [] => { world with relay := polled }
  | queued :: rest =>
      { world with
        relay := { polled with queue := update polled.queue node rest }
        history := { world.history with
          handed := world.history.handed ++ [(node, queued)]
          unanswered := world.history.unanswered ++ [(node, queued)] } }

/-- The channel of a send, with a message in it. -/
def deliver (result : Result) : Thread → Thread
  | ⟨call, id, generated, .waiting deadline hold _⟩ =>
      ⟨call, id, generated, .waiting deadline hold (some result)⟩
  | thread => thread

/-- The requests under an id that a node has been handed and has not answered. -/
def History.unansweredBy (history : History) (node id : String) : List Call :=
  (history.unanswered.filter fun entry => entry.1 = node ∧ entry.2.id = id).map (·.2.call)

def History.answered (history : History) (node id : String) : History :=
  { history with
    unanswered := history.unanswered.eraseP fun entry => entry.1 = node ∧ entry.2.id = id }

def accepts (relay : RelayState Tid) (node id : String) : Bool :=
  (relay.owners id).any (fun owner => owner.2.1 = node) && (relay.results id).isNone

def respond (node id : String) (result : Result) (world : World Tid) : World Tid :=
  if accepts world.relay node id then
    { world with
      relay := { world.relay with
        issued := update world.relay.issued id none
        results := update world.relay.results id (some (result, world.clock))
        waiting := update world.relay.waiting id none }
      threads := match world.relay.waiting id with
        | some tid => update world.threads tid ((world.threads tid).map (deliver result))
        | none => world.threads
      history := { world.history.answered node id with
        answers := world.history.answers ++ [⟨id, node, result, world.clock,
          world.history.unansweredBy node id, world.history.holder id⟩] } }
  else
    { world with history := world.history.answered node id }

end Recipients

section Runs

variable {Tid : Type} [DecidableEq Tid] (service : Service)

def step (world : World Tid) : Event Tid → World Tid
  | .pass span => { world with clock := world.clock + span }
  | .arrive tid call => arrive service tid call world
  | .admitted tid => admitThread service tid world
  | .wake tid => wake tid world
  | .look tid => look service tid world
  | .clean tid => clean tid world
  | .poll node => poll node world
  | .respond node id result => respond node id result world

def run (world : World Tid) (events : List (Event Tid)) : World Tid :=
  events.foldl (step service) world

end Runs

section Sample

def printed (value : Json) : Bytes := (value.text fun _ => []).flatMap String.utf8EncodeChar

/-- Reads the bodies at hand, and knows their hashes. -/
def knownBodies (bodies : List (Json × String)) : Service where
  parse bytes := ((bodies.find? fun body => printed body.1 = bytes).map Prod.fst).getD .null
  bodyHash bytes := ((bodies.find? fun body => printed body.1 = bytes).map Prod.snd).getD ""

end Sample

end WasmAgent.Rendezvous
