import Std.Data.ExtTreeMap
import WasmAgent.Core.Server
import WasmAgent.Jobs.Definition

/-!
# The store of jobs

Durable definitions and deliveries.  Every transaction, and every statement outside of one, is one
operation on the tables; a call asks for one after the other.
-/

namespace WasmAgent.Jobs

open Std WasmAgent.Core

/-- A row of `jobs`, under its id. -/
structure JobRow where
  revision : ℤ
  enabled : Bool
  definition : String
  nextAt : ℤ
  sourceStatus : String
  deriving DecidableEq

/-- What a delivery ends with. -/
inductive Outcome where
  | completed
  | failed
  | cancelled
  | unknown
  deriving DecidableEq

inductive DeliveryState where
  | queued
  | running
  | settled (outcome : Outcome)
  deriving DecidableEq

/-- A row of `deliveries`. -/
structure Delivery where
  id : ℕ
  jobId : String
  revision : ℤ
  eventId : String
  payload : String
  actionKind : String
  state : DeliveryState
  createdAt : ℤ
  startedAt : Option ℤ
  endedAt : Option ℤ
  detail : Option String
  deriving DecidableEq

/-- The tables; deliveries are in the order of their ids, and no id is given twice. -/
structure Store where
  jobs : ExtTreeMap String JobRow
  deliveries : List Delivery
  lastDelivery : ℕ

structure Claim where
  id : ℕ
  jobId : String
  revision : ℤ
  eventId : String
  event : Json
  action : Json
  controls : Json

/-- What `list` says of a job. -/
structure Listed where
  id : String
  revision : ℤ
  enabled : Bool
  definition : Json
  sourceStatus : String
  queued : ℕ
  last : Option (DeliveryState × Option String)

def outcome? : String → Option Outcome
  | "completed" => some .completed
  | "failed" => some .failed
  | "cancelled" => some .cancelled
  | "unknown" => some .unknown
  | _ => none

/-- `from_str`. -/
def readJson (serde : Serde) (text : String) : Checked Json := serde.parse text.toUTF8.toList

/-- `chars().take(2000)`. -/
def shorten (detail : String) : String := String.ofList (detail.toList.take 2000)

namespace Store

def empty : Store := ⟨∅, [], 0⟩

/-- `UPDATE deliveries`. -/
def update (change : Delivery → Delivery) (store : Store) : Store :=
  { store with deliveries := store.deliveries.map change }

def cancelIf (stale : Delivery → Bool) (why : String) (row : Delivery) : Delivery :=
  if row.state = .queued ∧ stale row then
    { row with state := .settled .cancelled, detail := some why }
  else row

/-- The deliveries of a job that wait are for a revision that is no more. -/
def cancelQueued (id why : String) (store : Store) : Store :=
  store.update (cancelIf (fun row => row.jobId = id) why)

/-- `INSERT OR REPLACE INTO jobs`. -/
def setJob (id : String) (job : JobRow) (store : Store) : Store :=
  { store with jobs := store.jobs.insert id job }

def install (id prepared : String) (revision : ℤ) (store : Store) : Store :=
  (store.setJob id ⟨revision, false, prepared, 0, "not observed"⟩).cancelQueued id
    "definition changed"

/-- The transaction of `replace`. -/
def replace (id prepared : String) (store : Store) : Checked Unit × Store :=
  match store.jobs[id]? with
  | none => (.ok (), store.install id prepared 1)
  | some job =>
      if job.definition = prepared then (.ok (), store)
      else (.ok (), store.install id prepared (job.revision + 1))

def definition (id : String) (store : Store) : Checked String :=
  match store.jobs[id]? with
  | none => fail "job_not_found"
  | some job => .ok job.definition

def listRow (serde : Serde) (store : Store) (entry : String × JobRow) : Checked Listed := do
  let definition ← readJson serde entry.2.definition
  let own := store.deliveries.filter (·.jobId = entry.1)
  pure ⟨entry.1, entry.2.revision, entry.2.enabled, definition, entry.2.sourceStatus,
    own.countP (·.state = .queued), own.getLast?.map (fun row => (row.state, row.detail))⟩

def list (serde : Serde) (store : Store) : Checked (List Listed) :=
  store.jobs.toList.mapM (listRow serde store)

def enable (id : String) (enabled : Bool) (store : Store) : Checked Unit × Store :=
  match store.jobs[id]? with
  | none => (fail "job_not_found", store)
  | some job =>
      let switched := { job with
        revision := job.revision + 1
        enabled := enabled
        nextAt := 0
        sourceStatus := "not observed" }
      (.ok (), (store.setJob id switched).cancelQueued id "enable state changed")

def isActive (row : Delivery) : Bool := row.state = .queued || row.state = .running

def forget (id : String) (store : Store) : Checked Unit × Store :=
  if store.deliveries.any (fun row => row.jobId = id && isActive row) then
    (fail "job_has_active_delivery", store)
  else match store.jobs[id]? with
    | none => (fail "job_not_found", store)
    | some _ =>
        (.ok (), { store with
          jobs := store.jobs.erase id
          deliveries := store.deliveries.filter (·.jobId ≠ id) })

/-- `json_extract(definition, '$.action.kind')`, which may not be null. -/
def actionKind (serde : Serde) (definition : String) : Checked String :=
  match readJson serde definition with
  | .error error => .error error
  | .ok job =>
      match ((job.field "action").field "kind").asStr with
      | none => fail "NOT NULL constraint failed: deliveries.action_kind"
      | some kind => .ok kind

/-- The transaction of `enqueue`. -/
def enqueue (serde : Serde) (id : String) (revision : ℤ) (eventId payload : String) (now : ℤ)
    (store : Store) : Checked Bool × Store :=
  match store.jobs[id]? with
  | none => (.ok false, store)
  | some job =>
      if !(job.enabled && job.revision = revision) then (.ok false, store)
      else if store.deliveries.any (fun row =>
          row.jobId = id && row.revision = revision && row.eventId = eventId) then
        (.ok false, store)
      else if 128 ≤ store.deliveries.countP (·.state = .queued) ∨
          8 ≤ store.deliveries.countP (fun row => row.jobId = id && row.state = .queued) then
        (fail "job_queue_full; event not acknowledged", store)
      else match actionKind serde job.definition with
        | .error error => (.error error, store)
        | .ok kind =>
            (.ok true, { store with
              deliveries := store.deliveries ++
                [⟨store.lastDelivery + 1, id, revision, eventId, payload, kind, .queued, now, none,
                  none, none⟩]
              lastDelivery := store.lastDelivery + 1 })

def nextAt (id : String) (store : Store) : Checked ℤ :=
  match store.jobs[id]? with
  | none => fail "Query returned no rows"
  | some job => .ok job.nextAt

def touch (id : String) (revision : ℤ) (change : JobRow → JobRow) (store : Store) : Store :=
  match store.jobs[id]? with
  | none => store
  | some job =>
      if job.revision = revision then store.setJob id (change job) else store

def isCurrent (store : Store) (row : Delivery) : Bool :=
  match store.jobs[row.jobId]? with
  | none => false
  | some job => job.enabled && job.revision = row.revision

def waiting (store : Store) : List (Delivery × String) :=
  store.deliveries.filterMap (fun row =>
    match store.jobs[row.jobId]? with
    | none => none
    | some job =>
        if row.state = .queued && !store.deliveries.any (fun active =>
            active.jobId = row.jobId && active.state = .running) then
          some (row, job.definition)
        else none)

def wanted (kinds : Option (List String)) (action : Json) : Bool :=
  match kinds with
  | none => true
  | some kinds =>
      if actionIsInference action then kinds.any (fun kind => kind = "wake" || kind = "subagent")
      else kinds.contains "run"

def wakesUsed (now : ℤ) (store : Store) : ℕ :=
  store.deliveries.countP (fun row =>
    row.startedAt.any (fun started => now - 3600 ≤ started) && row.actionKind = "wake")

/-- The first that is for the lane and within the allowance. -/
def choose (serde : Serde) (now wakeBudget : ℤ) (kinds : Option (List String)) (store : Store) :
    List (Delivery × String) → Checked (Option (Delivery × Json))
  | [] => .ok none
  | (row, definition) :: rest =>
      match readJson serde definition with
      | .error error => .error error
      | .ok job =>
          let action := job.field "action"
          if !wanted kinds action then store.choose serde now wakeBudget kinds rest
          else if (action.field "kind").asStr = some "wake" ∧ wakeBudget ≤ store.wakesUsed now then
            store.choose serde now wakeBudget kinds rest
          else .ok (some (row, job))

def startIf (id : ℕ) (now : ℤ) (row : Delivery) : Delivery :=
  if row.id = id ∧ row.state = .queued then { row with state := .running, startedAt := some now }
  else row

def claimed (serde : Serde) (row : Delivery) (job : Json) : Checked Claim := do
  let event ← readJson serde row.payload
  pure ⟨row.id, row.jobId, row.revision, row.eventId, event, job.field "action",
    job.field "controls"⟩

/-- `claim_kinds`. -/
def claim (serde : Serde) (now wakeBudget : ℤ) (kinds : Option (List String)) (store : Store) :
    Checked (Option Claim) × Store :=
  let current := store.update (cancelIf (fun row => !store.isCurrent row) "disabled or superseded")
  match current.choose serde now wakeBudget kinds current.waiting with
  | .error error => (.error error, store)
  | .ok none => (.ok none, current)
  | .ok (some (row, job)) =>
      ((claimed serde row job).map some, current.update (startIf row.id now))

def settle (id : ℕ) (change : Delivery → Delivery) (why : String) (store : Store) :
    Checked Unit × Store :=
  if store.deliveries.any (fun row => row.id = id && row.state = .running) then
    (.ok (), store.update (fun row =>
      if row.id = id ∧ row.state = .running then change row else row))
  else (fail why, store)

def finish (id : ℕ) (outcome : Outcome) (detail : String) (now : ℤ) (store : Store) :
    Checked Unit × Store :=
  store.settle id (fun row => { row with
    state := .settled outcome
    detail := some (shorten detail)
    endedAt := some now }) "delivery_already_settled"

def interrupted (now : ℤ) (row : Delivery) : Delivery :=
  if row.state = .running then
    { row with
      state := .settled .unknown
      detail := some "sentinel restarted; reconcile external effects before retry"
      endedAt := some now }
  else row

def recover (now : ℤ) (store : Store) : Checked ℕ × Store :=
  (.ok (store.deliveries.countP (·.state = .running)), store.update (interrupted now))

def defer (id : ℕ) (detail : String) (store : Store) : Checked Unit × Store :=
  store.settle id (fun row => { row with
    state := .queued
    startedAt := none
    detail := some (shorten detail) }) "delivery_not_running"

end Store

/-- The transactions and single statements. -/
inductive Op where
  | replace (id prepared : String)
  | definition (id : String)
  | list
  | enable (id : String) (enabled : Bool)
  | forget (id : String)
  | enqueue (id : String) (revision : ℤ) (eventId payload : String) (now : ℤ)
  | nextAt (id : String)
  | setNextAt (id : String) (revision next : ℤ)
  | sourceStatus (id : String) (revision : ℤ) (status : String)
  | claim (now wakeBudget : ℤ) (kinds : Option (List String))
  | finish (id : ℕ) (outcome : Outcome) (detail : String) (now : ℤ)
  | recover (now : ℤ)
  | defer (id : ℕ) (detail : String)

@[reducible] def Op.Reply : Op → Type
  | .definition _ => String
  | .list => List Listed
  | .enqueue _ _ _ _ _ => Bool
  | .nextAt _ => ℤ
  | .claim _ _ _ => Option Claim
  | .recover _ => ℕ
  | _ => Unit

/-- What an operation answers, and what it leaves. -/
def Op.run (serde : Serde) : (op : Op) → Store → Checked op.Reply × Store
  | .replace id prepared, store => store.replace id prepared
  | .definition id, store => (store.definition id, store)
  | .list, store => (store.list serde, store)
  | .enable id enabled, store => store.enable id enabled
  | .forget id, store => store.forget id
  | .enqueue id revision eventId payload now, store =>
      store.enqueue serde id revision eventId payload now
  | .nextAt id, store => (store.nextAt id, store)
  | .setNextAt id revision next, store =>
      (.ok (), store.touch id revision (fun job => { job with nextAt := next }))
  | .sourceStatus id revision status, store =>
      (.ok (), store.touch id revision (fun job => { job with sourceStatus := status }))
  | .claim now wakeBudget kinds, store => store.claim serde now wakeBudget kinds
  | .finish id outcome detail now, store => store.finish id outcome detail now
  | .recover now, store => store.recover now
  | .defer id detail, store => store.defer id detail

/-- A call asks for operations one at a time, and any of them may fail. -/
abbrev Call (Value : Type) : Type := ExceptT String (Script Op (fun op => Checked op.Reply)) Value

end WasmAgent.Jobs
