import Mathlib.Data.Nat.Notation
import WasmAgent.Core.Procedure

/-!
# Self wakes

The rows of `self_wakes`, each SQL statement that reads or changes them, and the functions of the
self loop as the statements that they execute.  What a probe, a hook, a dispatch or a model run
answers is part of the call.
-/

namespace WasmAgent.Selfloop

open WasmAgent.Core WasmAgent.Core.Procedure

inductive Status where
  | pending
  | dispatching
  | delivered
  | failed
  | cancelled
  | unknown
  deriving DecidableEq

def Status.settled : Status → Bool
  | pending | dispatching => false
  | _ => true

inductive Ending where
  | delivered
  | failed
  | cancelled
  | unknown
  deriving DecidableEq

def Ending.status : Ending → Status
  | delivered => .delivered
  | failed => .failed
  | cancelled => .cancelled
  | unknown => .unknown

/-- A row of `self_wakes`; an empty `probe` is none. -/
structure Wake where
  id : String
  owner : String
  session : String
  status : Status := .pending
  due : Option ℕ := none
  every : Option ℕ := none
  topics : List String := []
  probe : String := ""
  attempts : ℕ := 0
  updated : ℕ := 0
  deriving DecidableEq

structure Run where
  arming : ℕ
  due : ℕ
  time : ℕ
  deriving DecidableEq

/-- What is written down of a wake; no statement reads it. -/
structure Notes where
  /-- How many due times the wake was given. -/
  armings : ℕ := 0
  /-- Which of them was claimed last, and that time. -/
  claimed : ℕ := 0
  claimedDue : ℕ := 0
  /-- A run began since. -/
  started : Bool := false
  /-- A matching event was published since the last probe began. -/
  heard : Bool := false
  runs : List Run := []
  deriving DecidableEq

abbrev Entry := Wake × Notes

structure Store where
  clock : ℕ
  wakes : List Entry

/-! ## Topics -/

/-- `value:sub(1, #start + 1) == start .. "."`. -/
def below (start value : String) : Bool := (start.toList ++ ['.']).isPrefixOf value.toList

/-- What stands before a trailing `.*`. -/
def baseOf (entry : String) : Option String :=
  if ['.', '*'].isSuffixOf entry.toList then
    some (String.ofList (entry.toList.take (entry.toList.length - 2)))
  else none

/-- A job id, a topic pattern, or `message`: a user message in the session of the wake. -/
def entryMatches (entry topic : String) (messageOf : Option String) (session : String) : Bool :=
  if entry = "message" then topic = "session.message" && messageOf = some session
  else if '.' ∉ entry.toList then topic = "job." ++ entry || below ("job." ++ entry) topic
  else entry = topic || (baseOf entry).any (fun base => below base topic)

def Wake.hears (topic : String) (messageOf : Option String) (wake : Wake) : Bool :=
  wake.topics.any (fun entry => entryMatches entry topic messageOf wake.session)

/-! ## Statements -/

/-- A look at the clock, an SQL statement, or a moment that is written down. -/
inductive Statement : Type → Type where
  | now : Statement ℕ
  | insert (wake : Wake) : Statement Unit
  | arm (id : String) (due : ℕ) (every : Option ℕ) : Statement Unit
  | find (id owner session : String) : Statement (Option Wake)
  | read (id : String) : Statement (Option Wake)
  | cancel (id : String) (now : ℕ) : Statement Bool
  | subscribers (topic : String) (messageOf : Option String) : Statement (List Wake)
  | fire (id : String) (now : ℕ) : Statement Unit
  | expire (now stale : ℕ) : Statement ℕ
  | ready (now : ℕ) : Statement (List Wake)
  | readyOf (session owner : String) (now : ℕ) : Statement (Option Wake)
  | probeBegins (id : String) : Statement Unit
  | note (id : String) (now : ℕ) : Statement Unit
  | rearm (id : String) (due : Option ℕ) (now : ℕ) : Statement Unit
  | claim (id : String) (now : ℕ) : Statement Bool
  /-- `SET status='pending', due_at=?` whatever the status is. -/
  | again (id : String) (due now : ℕ) : Statement Unit
  /-- The status of an end whatever the status is; `finish` also clears `due_at`. -/
  | close (id : String) (ending : Ending) (clears : Bool) (now : ℕ) : Statement Unit
  | runBegins (id : String) : Statement Unit

namespace Entry

def isPending (id : String) (entry : Entry) : Bool := entry.1.id = id ∧ entry.1.status = .pending

/-- A due time is written; one that is a time is a new one. -/
def arm (due : Option ℕ) (entry : Entry) : Entry :=
  ({ entry.1 with due := due },
    match due with
    | none => entry.2
    | some _ => { entry.2 with armings := entry.2.armings + 1 })

def heed (heard : Bool) (entry : Entry) : Entry := (entry.1, { entry.2 with heard := heard })

/-- `due_at IS NULL AND on_topics<>'[]'` of a pending row. -/
def listens (entry : Entry) : Bool :=
  entry.1.status = .pending ∧ entry.1.due = none ∧ entry.1.topics ≠ []

/-- `status='pending' AND due_at IS NOT NULL AND due_at<=?`. -/
def isReady (now : ℕ) (entry : Entry) : Bool :=
  entry.1.status = .pending ∧ entry.1.due.any (· ≤ now)

def claim (now : ℕ) (entry : Entry) : Entry :=
  ({ entry.1 with
      status := .dispatching, attempts := entry.1.attempts + 1, updated := now },
    { entry.2 with
      claimed := entry.2.armings, claimedDue := entry.1.due.getD 0, started := false })

def again (due now : ℕ) (entry : Entry) : Entry :=
  ({ (entry.arm (some due)).1 with status := .pending, updated := now }, (entry.arm (some due)).2)

def close (ending : Ending) (clears : Bool) (now : ℕ) (entry : Entry) : Entry :=
  ({ entry.1 with
      status := ending.status, updated := now, due := if clears then none else entry.1.due },
    entry.2)

def begin (clock : ℕ) (entry : Entry) : Entry :=
  (entry.1, { entry.2 with
    started := true
    runs := entry.2.runs ++ [⟨entry.2.claimed, entry.2.claimedDue, clock⟩] })

end Entry

namespace Store

/-- An `UPDATE` of the rows that meet a condition. -/
def update (condition : Entry → Bool) (change : Entry → Entry) (store : Store) : Store :=
  { store with
    wakes := store.wakes.map (fun entry => if condition entry then change entry else entry) }

/-- `ORDER BY due_at`. -/
def byDue (wakes : List Wake) : List Wake :=
  wakes.mergeSort (fun left right => left.due.getD 0 ≤ right.due.getD 0)

def readyRows (condition : Wake → Bool) (now : ℕ) (store : Store) : List Wake :=
  byDue (((store.wakes.filter (fun entry => entry.isReady now)).map Prod.fst).filter condition)

end Store

def perform {Reply : Type} : Statement Reply → Store → Reply × Store
  | .now, store => (store.clock, store)
  | .insert wake, store =>
      ((), if store.wakes.any (fun entry => entry.1.id = wake.id) then store
        else { store with wakes := store.wakes ++ [(wake, {})] })
  | .arm id due every, store =>
      ((), store.update (fun entry => entry.1.id = id) fun entry =>
        ({ (entry.arm (some due)).1 with every := every.or entry.1.every },
          (entry.arm (some due)).2))
  | .find id owner session, store =>
      ((store.wakes.map Prod.fst).find?
        (fun wake => wake.id = id ∧ wake.owner = owner ∧ wake.session = session), store)
  | .read id, store => ((store.wakes.map Prod.fst).find? (fun wake => wake.id = id), store)
  | .cancel id now, store =>
      (store.wakes.any (Entry.isPending id), store.update (Entry.isPending id) fun entry =>
        ({ entry.1 with status := .cancelled, updated := now }, entry.2))
  | .subscribers topic messageOf, store =>
      ((store.wakes.filter Entry.listens).map Prod.fst,
        store.update (fun entry => !entry.listens && entry.1.hears topic messageOf)
          (Entry.heed true))
  | .fire id now, store =>
      ((), store.update (fun entry => entry.1.id = id) fun entry =>
        Entry.heed true
          (if entry.1.status = .pending then
            ({ (entry.arm (some now)).1 with updated := now }, (entry.arm (some now)).2)
          else entry))
  | .expire now stale, store =>
      let condition := fun (entry : Entry) =>
        decide (entry.1.status = .dispatching ∧ entry.1.updated + stale < now)
      ((store.wakes.filter condition).length, store.update condition fun entry =>
        ({ entry.1 with status := .unknown, updated := now }, entry.2))
  | .ready now, store => ((store.readyRows (fun _ => true) now).take 8, store)
  | .readyOf session owner now, store =>
      ((store.readyRows (fun wake => wake.session = session ∧ wake.owner = owner) now).head?, store)
  | .probeBegins id, store =>
      ((), store.update (fun entry => entry.1.id = id) (Entry.heed false))
  | .note id now, store =>
      ((), store.update (fun entry => entry.1.id = id) fun entry =>
        ({ entry.1 with updated := now }, entry.2))
  | .rearm id due now, store =>
      ((), store.update (Entry.isPending id) fun entry =>
        ({ (entry.arm due).1 with updated := now }, (entry.arm due).2))
  | .claim id now, store =>
      (store.wakes.any (Entry.isPending id), store.update (Entry.isPending id) (Entry.claim now))
  | .again id due now, store =>
      ((), store.update (fun entry => entry.1.id = id) (Entry.again due now))
  | .close id ending clears now, store =>
      ((), store.update (fun entry => entry.1.id = id) (Entry.close ending clears now))
  | .runBegins id, store =>
      ((), store.update (fun entry => entry.1.id = id) (Entry.begin store.clock))

/-- Time passes by itself. -/
def engine : Engine Statement Store ℕ where
  run := perform
  shift := fun span store => { store with clock := store.clock + span }

/-! ## Functions -/

structure Settings where
  minSeconds : ℕ := 5
  stale : ℕ := 1800

def Settings.minRepeatSeconds (settings : Settings) : ℕ := max 1 settings.minSeconds

def Settings.staleSeconds (settings : Settings) : ℕ := max 60 settings.stale

/-- The arguments of `schedule`: its topics are trimmed, `id` is the fresh one, and `refusal` is what
the session says to its owner. -/
structure Ask where
  id : String
  owner : String
  session : String
  refusal : Option String := none
  inSeconds : Option ℕ := none
  instant : Option ℕ := none
  every : Option ℕ := none
  topics : Option (List String) := none
  probe : String := ""

inductive Outcome where
  | refused (error : String)
  | scheduled (wake : Option Wake)
  | cancelled (id : String)
  | published (ids : List String)
  | claimed (wake : Option Wake)
  | deferred (due : ℕ)
  | finished (error : Option String)
  | ticked (dispatched skipped deferred unknown reconciled : ℕ)
  deriving DecidableEq

def topicsProblem (seen : List String) : List String → Option String
  | [] => none
  | value :: rest =>
      if value = "" ∨ 256 < value.utf8ByteSize then some "wake_on_entry_too_long_or_empty"
      else if value ∈ seen then some ("wake_on_duplicate:" ++ value)
      else topicsProblem (value :: seen) rest

def topicsValid (topics : List String) : Option String :=
  if topics = [] then some "wake_on_requires_topics"
  else if 16 < topics.length then some "wake_on_too_many"
  else topicsProblem [] topics

def dueOf (settings : Settings) (now : ℕ) (ask : Ask) : Except String ℕ := do
  let due ← match ask.inSeconds, ask.instant with
    | some _, some _ => throw "wake_in_seconds_and_at_are_exclusive"
    | some seconds, none => pure (now + seconds)
    | none, some instant =>
        if instant ≤ now then throw "wake_at_is_in_the_past" else pure instant
    | none, none => throw "wake_needs_in_seconds_at_or_on"
  if ask.every.any (· < settings.minRepeatSeconds) then throw "wake_every_seconds_too_small"
  else if ask.probe ≠ "" ∧ ask.every = none then throw "wake_probe_needs_every_seconds"
  else pure due

abbrev Call := Procedure Statement

section Calls

variable (settings : Settings)

/-- A row is inserted, and its due time written after it. -/
def insertWake (ask : Ask) (topics : List String) (due : Option ℕ) (now : ℕ) : Call Outcome := do
  execute (.insert
    { id := ask.id, owner := ask.owner, session := ask.session, topics := topics,
      probe := ask.probe, updated := now })
  match due with
  | some due => execute (.arm ask.id due ask.every)
  | none => pure ()
  let wake ← execute (.read ask.id)
  pure (.scheduled wake)

def schedule (ask : Ask) : Call Outcome :=
  match ask.refusal with
  | some error => pure (.refused error)
  | none =>
      match ask.inSeconds.isSome || ask.instant.isSome, ask.topics with
      | true, some _ => pure (.refused "wake_time_and_event_are_exclusive")
      | false, none => pure (.refused "wake_needs_in_seconds_at_or_on")
      | false, some topics => do
          let now ← execute .now
          if ask.every.isSome then pure (.refused "wake_event_takes_no_time_arguments")
          else match topicsValid topics with
            | some error => pure (.refused error)
            | none => insertWake ask topics none now
      | true, none => do
          let now ← execute .now
          match dueOf settings now ask with
          | .error error => pure (.refused error)
          | .ok due => insertWake ask [] (some due) now

def cancel (id owner session : String) : Call Outcome := do
  if id = "" then pure (.refused "wake_id_required")
  else match ← execute (.find id owner session) with
  | none => pure (.refused "unknown_wake")
  | some wake =>
      if wake.status = .dispatching then pure (.refused "wake_already_dispatching")
      else if wake.status ≠ .pending then pure (.refused "wake_not_pending")
      else do
        let now ← execute .now
        let changed ← execute (.cancel id now)
        pure (if changed then .cancelled id else .refused "wake_not_pending")

def fireAll (now : ℕ) : List Wake → Call Unit
  | [] => pure ()
  | wake :: wakes => do
      execute (.fire wake.id now)
      fireAll now wakes

/-- `messageOf` is the session that the payload names. -/
def publish (topic : String) (messageOf : Option String) : Call Outcome :=
  if topic = "" then pure (.refused "publish_topic_required")
  else do
    let now ← execute .now
    let rows ← execute (.subscribers topic messageOf)
    let matched := rows.filter (Wake.hears topic messageOf)
    fireAll now matched
    pure (.published (matched.map Wake.id))

def claimDue (session owner : String) : Call Outcome := do
  let now ← execute .now
  match ← execute (.readyOf session owner now) with
  | none => pure (.claimed none)
  | some wake => do
      let changed ← execute (.claim wake.id now)
      if changed then do
        let row ← execute (.read wake.id)
        pure (.claimed row)
      else pure (.claimed none)

def backoff (attempts : ℕ) : ℕ := min 60 (5 * max 1 attempts)

/-- A repeating wake is due again; another one is over. -/
def finish (wake : Wake) (ok : Bool) (now : ℕ) : Call Unit :=
  match wake.every.filter (0 < ·) with
  | some every => execute (.again wake.id (now + every) now)
  | none => execute (.close wake.id (if ok then .delivered else .failed) true now)

/-- What a call of `run_wake` is told: its arguments, whether session and user may still be woken,
the verdict of the hook with the seconds it defers by, and the error that the run ends with. -/
structure Wakeup where
  id : String
  owner : String
  session : String
  cancelled : Bool := false
  allowed : Bool := true
  veto : Option (Option ℕ) := none
  error : Option String := none

def runWake (wakeup : Wakeup) : Call Outcome := do
  match ← execute (.find wakeup.id wakeup.owner wakeup.session) with
  | none => pure (.refused "self_wake_not_admitted")
  | some wake =>
      if wake.status ≠ .dispatching then pure (.refused "self_wake_not_dispatching")
      else do
        let now ← execute .now
        if wakeup.cancelled then do
          execute (.close wake.id .cancelled false now)
          pure (.cancelled wake.id)
        else if !wakeup.allowed then do
          finish wake false now
          pure (.refused "self_wake_forbidden")
        else match wakeup.veto with
          | some (some (seconds + 1)) => do
              execute (.again wake.id (now + (seconds + 1)) now)
              pure (.deferred (now + (seconds + 1)))
          | some _ => do
              finish wake false now
              pure (.refused "self_wake_vetoed")
          | none => do
              execute (.runBegins wake.id)
              let now ← execute .now
              finish wake wakeup.error.isNone now
              pure (.finished wakeup.error)

/-- What a probe says. -/
inductive Answer where
  | failed
  | changed
  | same

/-- What a dispatch says. -/
inductive Receipt where
  | accepted
  | notStarted
  | ambiguous

structure Ticked where
  dispatched : ℕ := 0
  skipped : ℕ := 0
  deferred : ℕ := 0
  unknown : ℕ := 0

def probeWake (now : ℕ) (probe : String → Answer) (wake : Wake) : Call Bool :=
  if wake.probe = "" then pure false
  else do
    execute (.probeBegins wake.id)
    match probe wake.id with
    | .same => do
        execute (.rearm wake.id (wake.every.map (now + ·)) now)
        pure true
    | _ => do
        execute (.note wake.id now)
        pure false

def dispatchWake (now : ℕ) (dispatch : String → Receipt) (wake : Wake) (ticked : Ticked) :
    Call Ticked := do
  let claimed ← execute (.claim wake.id now)
  if claimed then
    match dispatch wake.id with
    | .accepted => pure { ticked with dispatched := ticked.dispatched + 1 }
    | .notStarted => do
        execute (.again wake.id (now + backoff wake.attempts) now)
        pure { ticked with deferred := ticked.deferred + 1 }
    | .ambiguous => do
        execute (.close wake.id .unknown false now)
        pure { ticked with unknown := ticked.unknown + 1 }
  else pure ticked

/-- The rows that were ready, in their order. -/
def tickRows (now : ℕ) (probe : String → Answer) (dispatch : String → Receipt) :
    List Wake → Ticked → Call Ticked
  | [], ticked => pure ticked
  | wake :: wakes, ticked => do
      let skip ← probeWake now probe wake
      let ticked ← if skip then pure { ticked with skipped := ticked.skipped + 1 }
        else dispatchWake now dispatch wake ticked
      tickRows now probe dispatch wakes ticked

def tick (probe : String → Answer) (dispatch : String → Receipt) : Call Outcome := do
  let now ← execute .now
  let reconciled ← execute (.expire now settings.staleSeconds)
  let rows ← execute (.ready now)
  let ticked ← tickRows now probe dispatch rows {}
  pure (.ticked ticked.dispatched ticked.skipped ticked.deferred ticked.unknown reconciled)

/-- A call of a process. -/
inductive Request where
  | schedule (ask : Ask)
  | cancel (id owner session : String)
  | publish (topic : String) (messageOf : Option String)
  | claimDue (session owner : String)
  | runWake (wakeup : Wakeup)
  | tick (probe : String → Answer) (dispatch : String → Receipt)

def route : Request → Call Outcome
  | .schedule ask => schedule settings ask
  | .cancel id owner session => cancel id owner session
  | .publish topic messageOf => publish topic messageOf
  | .claimDue session owner => claimDue session owner
  | .runWake wakeup => runWake wakeup
  | .tick probe dispatch => tick settings probe dispatch

end Calls

end WasmAgent.Selfloop
