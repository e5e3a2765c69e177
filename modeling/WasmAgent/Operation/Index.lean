import Std.Data.ExtTreeMap
import WasmAgent.Core.Json
import WasmAgent.Core.Reading
import WasmAgent.Core.Transaction
import WasmAgent.Queue.Types

/-!
# The operation index

The database of admitted operations: what is recorded and imported, what is reconciled or
quarantined by evidence, and which operations are listed as unresolved.
-/

namespace WasmAgent.Operation

open Std WasmAgent.Core

/-- An admitted operation. -/
structure Row where
  cwd : String
  blocked : Bool
  state : String
  originals : String
  deriving DecidableEq

structure Reconciliation where
  expected : String
  evidence : String
  deriving DecidableEq

/-- A row that was set aside, with the arguments that have to stay valid. -/
structure Quarantine where
  expected : String
  args : String
  receipt : String
  deriving DecidableEq

structure HistoryEntry where
  action : String
  id : String
  evidence : String
  deriving DecidableEq

/-- The tables of `index.sqlite`. -/
structure Index where
  complete : Option String
  operations : ExtTreeMap String Row
  reconciliations : ExtTreeMap String Reconciliation
  legacyQuarantine : ExtTreeMap String Quarantine
  riskQuarantine : ExtTreeMap String Quarantine
  history : List HistoryEntry

/-- Statements, and whether the database carries them out. -/
inductive Statement where
  | begin
  | select (table : String)
  | insert (table : String)
  | commit
  deriving DecidableEq

/-- An owner's lease, as another process finds it. -/
inductive Lease where
  | missing
  | broken (detail : String)
  | held
  | free
  deriving DecidableEq

structure OperationFile where
  name : String
  path : String
  contents : Except String (List UInt8)

structure Entry where
  name : String
  isDir : Bool
  state : Except String (List UInt8)
  files : Except String (List OperationFile)

/-- What a call finds outside the index: the files of the store, the leases, the evidence
that quarantine rests on, and the database's answers to statements. -/
structure World where
  fold : String → String
  database : Statement → Except String Unit
  entries : Except String (List Entry)
  state : String → Except String (List UInt8)
  again : String → Except String (List UInt8)
  lease : String → Lease
  legacy : Json → Except String Json
  risk : Json → Except String Json
  owner : Json → String → Except String Unit

/-- Drops `//?/` and the slashes at the end; `fold` folds the case where paths are folded. -/
def pathKey (world : World) (path : String) : String :=
  let slashes := path.toList.map fun c => if c = '\\' then '/' else c
  let plain := if "//?/".toList.isPrefixOf slashes then slashes.drop 4 else slashes
  world.fold (String.ofList (plain.reverse.dropWhile (· = '/')).reverse)

def validateId (id : String) : Except String Unit :=
  if !"op-".toList.isPrefixOf id.toList || 100 < (utf8 id).length ||
      id.toList.any fun c => !c.isAlphanum && c ≠ '-' then
    .error "invalid_operation_id"
  else .ok ()

def isBlank (text : String) : Bool := text.toList.all Queue.isWhitespace

def isTrue : Json → Bool
  | .bool true => true
  | _ => false

/-- The outcome of the operation is not known. -/
def unresolved (state : Json) : Bool :=
  !isTrue (state.field "settled") || (state.field "cleanup").asStr = some "unknown" ||
    !(state.field "persistence_error").isNull

/-- Where the operation ran. -/
def cwdOf (world : World) (state : Json) : String :=
  pathKey world (((state.field "effective_cwd").asStr.orElse fun _ =>
    (state.field "cwd").asStr).getD "")

namespace Index

def anew : Index := ⟨some "new-store", ∅, ∅, ∅, ∅, []⟩

def note (action id evidence : String) (index : Index) : Index :=
  { index with history := index.history ++ [⟨action, id, evidence⟩] }

/-- Records a state: a new row, or the row's place, outcome and state. -/
def record (serde : Serde) (world : World) (state : Json) : Session Index String Unit :=
  match (state.field "operation_id").asStr with
  | none => .lift (.error "operation_id_required")
  | some id =>
      .execute (world.database (.insert "operations")) fun index =>
        { index with
          operations := index.operations.insert id
            ⟨cwdOf world state, unresolved state, serde.print state,
              (index.operations[id]?).elim "[]" (·.originals)⟩ }

/-- What an import makes of an operation's files. -/
structure Imported where
  cwd : String
  blocked : Bool
  attributed : Bool
  originals : List Json

def importFile (serde : Serde) (world : World) (imported : Imported) (file : OperationFile) :
    Except String Imported := do
  if !"state.json.before-reconcile-".toList.isPrefixOf file.name.toList then .ok imported
  else
    let old ← serde.parse (← file.contents)
    let originals := imported.originals ++ [.object [("path", .string file.path), ("state", old)]]
    if unresolved old then
      let oldCwd := cwdOf world old
      .ok
        { cwd := if imported.attributed then if imported.cwd ≠ oldCwd then "" else imported.cwd
            else oldCwd
          blocked := true
          attributed := true
          originals := originals }
    else .ok { imported with originals := originals }

def importEntry (serde : Serde) (world : World) (rows : List (String × Row)) (entry : Entry) :
    Except String (List (String × Row)) := do
  if !entry.isDir then .ok rows
  else
    validateId entry.name
    let state ← serde.parse (← entry.state)
    let start : Imported := ⟨cwdOf world state, unresolved state, unresolved state, []⟩
    let imported ← (← entry.files).foldlM (importFile serde world) start
    .ok (rows ++ [(entry.name, ⟨imported.cwd, imported.blocked, serde.print state,
      serde.print (.array imported.originals)⟩)])

def keepRow (operations : ExtTreeMap String Row) (row : String × Row) : ExtTreeMap String Row :=
  operations.insertIfNew row.1 row.2

/-- `import`: the states of a store that is older than the index. -/
def importStates (serde : Serde) (world : World) (evidence : String) : Session Index String ℕ := do
  if isBlank evidence then .lift (.error "legacy_writer_quiescence_evidence_required")
  else
    .start (world.database .begin)
    let rows ← .lift do
      (← world.entries).foldlM (importEntry serde world) []
    .write (world.database (.insert "operations")) fun index =>
      { index with operations := rows.foldl keepRow index.operations }
    .write (world.database (.insert "meta")) fun index => { index with complete := some evidence }
    .write (world.database (.insert "history")) (note "import" "*" evidence)
    .commit (world.database .commit)
    pure rows.length

def found (row : Option Row) : Except String Row :=
  match row with
  | some row => .ok row
  | none => .error "Query returned no rows"

def orError {Value : Type} (value : Option Value) (fault : String) : Except String Value :=
  value.elim (.error fault) .ok

/-- Sets an operation aside by signed observations. -/
def adjudicateLegacy (serde : Serde) (world : World) (args : Json) :
    Session Index String Json := do
  let receipt ← .lift (world.legacy args)
  let id ← .lift (orError (args.field "id").asStr "legacy_id_required")
  .start (world.database .begin)
  .lift (world.database (.select "operations"))
  let index ← .tables
  let row ← .lift (found index.operations[id]?)
  if row.state ≠ serde.print (args.field "expected_state") then
    .lift (.error "legacy_index_state_moved")
  else
    match index.legacyQuarantine[id]? with
    | some previous =>
        let bundle ← .lift (serde.parse (utf8 previous.args))
        if !bundle.same args then .lift (.error "legacy_adjudication_bundle_moved")
        else .lift (world.legacy args)
    | none =>
        let _ ← .lift (world.legacy args)
        .write (world.database (.insert "legacy_quarantine")) fun index =>
          { index with
            legacyQuarantine := index.legacyQuarantine.insertIfNew id
              ⟨row.state, serde.print args, serde.print receipt⟩ }
        .write (world.database (.insert "history"))
          (note "legacy_allocation_safety" id (serde.print receipt))
        .commit (world.database .commit)
        pure receipt

/-- Sets an operation aside by an operator's acceptance of the risk. -/
def quarantineRetire (serde : Serde) (world : World) (args : Json) :
    Session Index String Json := do
  let receipt ← .lift (world.risk args)
  let id ← .lift (orError (args.field "id").asStr "operation_id_required")
  let _ ← .lift (world.owner (receipt.field "expected") id)
  .start (world.database .begin)
  .lift (world.database (.select "operations"))
  let index ← .tables
  let row ← .lift (found index.operations[id]?)
  let state ← .lift (serde.parse (utf8 row.state))
  if !state.same (receipt.field "expected") then
    .lift (.error "quarantine_index_identity_moved")
  else
    match index.riskQuarantine[id]? with
    | some previous =>
        let old ← .lift (serde.parse (utf8 previous.args))
        if !old.same args then .lift (.error "quarantine_existing_disposition_moved")
        else pure receipt
    | none =>
        let _ ← .lift (world.risk args)
        .write (world.database (.insert "risk_quarantine")) fun index =>
          { index with
            riskQuarantine := index.riskQuarantine.insert id
              ⟨row.state, serde.print args, serde.print receipt⟩ }
        .write (world.database (.insert "history"))
          (note "operator_risk_quarantine" id (serde.print receipt))
        .commit (world.database .commit)
        pure receipt

def required (args : Json) (name : String) : Except String String :=
  orError ((args.field name).asStr.filter fun text => !isBlank text) s!"{name}_required"

def expectedState (serde : Serde) (args : Json) : Except String (List (String × Json)) := do
  if (args.field? "expected_state_json").isSome then
    if (args.field? "expected_state").isSome then .error "expected_state_forms_exclusive"
    else
      let text ← required args "expected_state_json"
      match serde.parse (utf8 text) with
      | .error _ => .error "expected_state_json_invalid"
      | .ok raw => orError raw.asObject "expected_state_json_object_required"
  else orError (args.field "expected_state").asObject "expected_state_required"

def sameState (state : Json) (expected : List (String × Json)) : Bool :=
  match state with
  | .object fields => Json.sameFields fields expected
  | _ => false

def ownerBoot (state : Json) : Except String String :=
  orError ((state.field "owner_boot").asStr.filter fun boot => boot ≠ "")
    "legacy_operation_owner_identity_unknown"

def validateBoot (boot : String) : Except String Unit :=
  if !"boot-".toList.isPrefixOf boot.toList || 100 < (utf8 boot).length ||
      boot.toList.any fun c => !c.isAlphanum && c ≠ '-' then
    .error "invalid_owner_boot"
  else .ok ()

def takeLease : Lease → Except String Unit
  | .missing => .error "operation_owner_lease_missing"
  | .broken detail => .error detail
  | .held => .error "operation_owner_live_or_unverifiable"
  | .free => .ok ()

/-- What a reconciliation is checked against before the transaction: the operation's id, and the
bytes of its state and the state they are. -/
structure Settled where
  id : String
  raw : List UInt8
  current : Json

/-- The checks of a reconciliation before its transaction. -/
def settle (serde : Serde) (world : World) (args : Json) : Except String Settled := do
  let id ← required args "id"
  validateId id
  let expected ← expectedState serde args
  let _ ← required args "evidence"
  let _ ← required args "drain_evidence"
  let _ ← required args "effect_evidence"
  let raw ← world.state id
  let current ← serde.parse raw
  if !sameState current expected then .error "operation_state_moved"
  else
    let boot ← ownerBoot current
    let owner ← required args "owner_boot"
    if owner ≠ boot then .error "operation_owner_mismatch"
    else
      validateBoot boot
      takeLease (world.lease boot)
      .ok ⟨id, raw, current⟩

/-- Records a reconciliation of the state that is on disk; an earlier one stays. -/
def reconcile (serde : Serde) (world : World) (args : Json) : Session Index String String := do
  let settled ← .lift (settle serde world args)
  .start (world.database .begin)
  let again ← .lift (world.again settled.id)
  if again ≠ settled.raw then .lift (.error "operation_state_moved")
  else
    .lift (world.database (.select "operations"))
    let index ← .tables
    if !index.operations.contains settled.id then .lift (.error "operation_not_indexed")
    else
      .write (world.database (.insert "reconciliation")) fun index =>
        { index with
          reconciliations := index.reconciliations.insertIfNew settled.id
            ⟨serde.print settled.current, serde.print args⟩ }
      .write (world.database (.insert "history")) (note "reconcile" settled.id (serde.print args))
      .commit (world.database .commit)
      pure settled.id

def isReconciled (index : Index) (id : String) (row : Row) : Bool :=
  (index.reconciliations[id]?).any fun reconciliation => reconciliation.expected = row.state

/-- The condition of the listing's query. -/
def selects (index : Index) (target after : String) (entry : String × Row) : Bool :=
  entry.2.blocked && after < entry.1 &&
    (target = "*" || entry.2.cwd = "" || entry.2.cwd = target ||
      (target ++ "/" ≤ entry.2.cwd && entry.2.cwd < target ++ "0")) &&
    !index.isReconciled entry.1 entry.2

structure Listed where
  id : String
  state : Json
  originals : Json

structure Listing where
  operations : List Listed
  next : Option String
  truncated : Bool
  quarantined : ℕ

structure Listed.Progress where
  operations : List Listed
  last : String
  quarantined : ℕ

def isQuarantined (serde : Serde) (world : World) (index : Index) (id : String) (row : Row) :
    Except String Bool := do
  let accepted ←
    match (index.riskQuarantine[id]?).filter fun quarantine => quarantine.expected = row.state with
    | none => .ok false
    | some quarantine =>
        let args ← serde.parse (utf8 quarantine.args)
        match world.risk args with
        | .error _ => .ok false
        | .ok receipt => .ok (world.owner (receipt.field "expected") id).toBool
  if accepted then .ok true
  else
    match (index.legacyQuarantine[id]?).filter
      fun quarantine => quarantine.expected = row.state with
    | none => .ok false
    | some quarantine =>
        let bundle ← serde.parse (utf8 quarantine.args)
        .ok (world.legacy bundle).toBool

def listRow (serde : Serde) (world : World) (index : Index) (progress : Listed.Progress)
    (entry : String × Row) : Except String Listed.Progress := do
  let quarantined ← isQuarantined serde world index entry.1 entry.2
  if quarantined then
    .ok ⟨progress.operations, entry.1, progress.quarantined + 1⟩
  else
    let state ← serde.parse (utf8 entry.2.state)
    let originals ← serde.parse (utf8 entry.2.originals)
    .ok ⟨progress.operations ++ [⟨entry.1, state, originals⟩], entry.1, progress.quarantined⟩

/-- The unresolved operations under a directory, after an id. -/
def relevant (serde : Serde) (world : World) (index : Index) (cwd after : String) (limit : ℕ) :
    Except String Listing := do
  if cwd = "" then .error "effective_cwd_required"
  else
    world.database (.select "meta")
    if index.complete = none then
      .error "operation_index_import_required: quiesce legacy writers and import originals"
    else
      let limit := min (max limit 1) 256
      world.database (.select "operations")
      let rows := (index.operations.toList.filter (index.selects (pathKey world cwd) after)).take 257
      let progress ← rows.foldlM (listRow serde world index) ⟨[], "", 0⟩
      let truncated := limit < progress.operations.length || 256 < rows.length
      let operations := progress.operations.take limit
      .ok ⟨operations, if truncated then some ((operations.getLast?).elim progress.last (·.id))
        else none, truncated, progress.quarantined⟩

end Index

/-- A call that may write to the index, with what it finds outside of it. -/
inductive Write where
  | record (world : World) (state : Json)
  | importStates (world : World) (evidence : String)
  | adjudicateLegacy (world : World) (args : Json)
  | quarantineRetire (world : World) (args : Json)
  | reconcile (world : World) (args : Json)

namespace Index

def step (serde : Serde) (index : Index) : Write → Index
  | .record world state => ((record serde world state).run index).2
  | .importStates world evidence => ((importStates serde world evidence).run index).2
  | .adjudicateLegacy world args => ((adjudicateLegacy serde world args).run index).2
  | .quarantineRetire world args => ((quarantineRetire serde world args).run index).2
  | .reconcile world args => ((reconcile serde world args).run index).2

def run (serde : Serde) (index : Index) (writes : List Write) : Index :=
  writes.foldl (step serde) index

end Index

end WasmAgent.Operation
