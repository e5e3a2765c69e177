import WasmAgent.Core.Callers
import WasmAgent.Jobs.Store

/-!
# The calls of the store of jobs

What programs ask of the store, as the transactions and statements that each call makes.
-/

namespace WasmAgent.Jobs

open WasmAgent.Core

/-- One operation. -/
def ask (op : Op) : Call op.Reply := ExceptT.mk (Script.call op)

/-- Without an operation: a check that fails ends the call. -/
def check {Value : Type} (checked : Checked Value) : Call Value := ExceptT.mk (pure checked)

section Calls

variable (serde : Serde)

def list : Call (List Listed) := ask .list

def get (id : String) : Call Listed := do
  let jobs ← list
  match jobs.find? (·.id = id) with
  | some job => pure job
  | none => check (fail "job_not_found")

/-- A definition that has passed `validate`. -/
def replace (definition : Json) : Call Listed := do
  let id := textOf (definition.field "id")
  ask (.replace id (serde.print definition))
  get id

def put (definition : Json) : Call Listed := do
  check (validate serde definition)
  replace serde definition

def definition (id : String) : Call Json := do
  let raw ← ask (.definition id)
  check (readJson serde raw)

def setField (name : String) (value : Json) : Json → Json
  | .object fields =>
      .object (fields.filter (·.1 < name) ++ (name, value) :: fields.filter (name < ·.1))
  | other => other

def setControls (id : String) (controls : Json) : Call Listed := do
  let stored ← definition serde id
  if (stored.field? "controls").any (·.same controls) then
    get id
  else
    let changed := setField "controls" controls stored
    check (validate serde changed)
    replace serde changed

def enable (id : String) (enabled : Bool) : Call Listed := do
  ask (.enable id enabled)
  get id

def forget (id : String) : Call Unit := ask (.forget id)

def enqueue (id : String) (revision : ℤ) (eventId : String) (payload : Json) (now : ℤ) :
    Call Bool := do
  let text := serde.print payload
  if eventId = "" ∨ 256 < eventId.utf8ByteSize ∨ 16384 < text.utf8ByteSize then
    check (fail "invalid_event_size_or_id")
  else
    ask (.enqueue id revision eventId text now)

def listens (topic : String) (job : Listed) : Bool :=
  let trigger := job.definition.field "trigger"
  job.enabled && (trigger.field "kind").asStr = some "event" &&
    (trigger.field "topic").asStr = some topic

def emitTo (topic eventId : String) (payload : Json) (now : ℤ) : List Listed → ℕ → Call ℕ
  | [], count => pure count
  | job :: jobs, count =>
      if listens topic job then do
        let added ← enqueue serde job.id job.revision eventId payload now
        emitTo topic eventId payload now jobs (if added then count + 1 else count)
      else emitTo topic eventId payload now jobs count

def emit (topic eventId : String) (payload : Json) (now : ℤ) : Call ℕ :=
  if !ident topic then check (fail "invalid_event_topic")
  else do
    let jobs ← list
    emitTo serde topic eventId payload now jobs 0

/-- `json!({"scheduled_at": next})`. -/
def scheduledAt (next : ℤ) : Json :=
  .object [("scheduled_at", .number
    (if next < 0 then .negative (Int64.ofInt next) else .unsigned (UInt64.ofInt next)))]

/-- A tick is the store's own event: a full queue skips one interval. -/
def fire (id : String) (revision next now : ℤ) : Call Bool := do
  let fired ← ExceptT.lift
    (enqueue serde id revision ("schedule:" ++ toString next) (scheduledAt next) now).run
  match fired with
  | .ok added => pure added
  | .error error =>
      if error.startsWith "job_queue_full" then
        let _ ← ExceptT.lift
          (ask (.sourceStatus id revision
            "backpressure: delivery queue full; skipped this interval")).run
        pure false
      else check (.error error)

def scheduleJob (job : Listed) (every now : ℤ) : Call Bool := do
  let next ← ask (.nextAt job.id)
  if next = 0 then
    ask (.setNextAt job.id job.revision (now + every))
    pure false
  else if next ≤ now then
    let fired ← fire serde job.id job.revision next now
    ask (.setNextAt job.id job.revision (now + every))
    pure fired
  else pure false

def scheduleEach (now : ℤ) : List Listed → ℕ → Call ℕ
  | [], count => pure count
  | job :: jobs, count =>
      let trigger := job.definition.field "trigger"
      if job.enabled && (trigger.field "kind").asStr = some "schedule" then do
        let every ← check ((asI64 (trigger.field "every_seconds")).elim
          (fail "called `Option::unwrap()` on a `None` value") .ok)
        let fired ← scheduleJob serde job every now
        scheduleEach now jobs (if fired then count + 1 else count)
      else scheduleEach now jobs count

def schedule (now : ℤ) : Call ℕ := do
  let jobs ← list
  scheduleEach serde now jobs 0

def claimNext (now wakeBudget : ℤ) (allowInference : Bool) : Call (Option Claim) :=
  ask (.claim now wakeBudget (if allowInference then none else some ["run"]))

def claimInference (now wakeBudget : ℤ) : Call (Option Claim) :=
  ask (.claim now wakeBudget (some ["wake", "subagent"]))

def finish (id : ℕ) (state detail : String) (now : ℤ) : Call Unit :=
  match outcome? state with
  | none => check (fail "invalid_delivery_outcome")
  | some outcome => ask (.finish id outcome detail now)

def recover (now : ℤ) : Call ℕ := ask (.recover now)

def defer (id : ℕ) (detail : String) : Call Unit := ask (.defer id detail)

/-- The reading of an artifact, with bindings, an approval and the importer's role. -/
abbrev Importer : Type := Json → Json → Bool → String → Checked Json

def putArtifact (importArtifact : Importer) (artifact bindings : Json) (approved : Bool)
    (importerRole : String) : Call Listed := do
  let imported ← check (importArtifact artifact bindings approved importerRole)
  put serde imported

end Calls

end WasmAgent.Jobs
