import WasmAgent.Core.Procedure
import WasmAgent.Jobs.Definition
import WasmAgent.Rendezvous.Relay

/-!
# The registry of the rendezvous service

Nodes register under the role that `network_roles` has for them, ask to be bound, and are
accepted, revoked and given roles by the administrators.  Every route works on its own
connection: a query, a write or a transaction is one statement, and any statement of
another connection may come between two of them.
-/

namespace WasmAgent.Rendezvous

open WasmAgent.Core WasmAgent.Core.Procedure
open Jobs (asI64 asArray textOf)

/-- What the registry has from libraries, keys and signatures as their texts. -/
structure Library extends Service where
  unhex : String → Bytes
  verify : String → String → String → Bool
  print : Json → String

def announcement (library : Library) (node : String) (ts : ℤ) (name : String) (endpoints : Json) :
    String :=
  "v2|" ++ node ++ "|" ++ toString ts ++ "|" ++ name ++ "|" ++ library.print endpoints

/-- The headers of a signed request, the time zero for what is no number. -/
structure Headers where
  node : String
  pub : String
  ts : ℤ
  sig : String

inductive BindingState where
  | pending
  | accepted
  | revoked
  | expired
  deriving DecidableEq

namespace BindingState

def text : BindingState → String
  | pending => "pending"
  | accepted => "accepted"
  | revoked => "revoked"
  | expired => "expired"

/-- What the index `binding_live_node` is about. -/
def live : BindingState → Bool
  | pending | accepted => true
  | revoked | expired => false

end BindingState

/-- A row of `bindings`, with the bytes of the request. -/
structure Binding where
  id : String
  nodeId : String
  publicKey : String
  code : String
  digest : String
  request : Bytes
  state : BindingState
  revision : ℤ
  actor : String
  pairingExpires : ℤ
  consentExpires : ℤ
  time : ℤ
  deriving DecidableEq

/-- A row of `nodes`. -/
structure Node where
  nodeId : String
  publicKey : String
  role : String
  lastSeen : ℤ
  deriving DecidableEq

/-- What is written down of a run; no statement reads it. -/
inductive Entry where
  | requested (node : String)
  | accepted (admin : String) (payload : Json) (id : String)
  | granted (admin node role : String)

structure Registry where
  clock : ℤ
  nodes : List Node
  networkRoles : String → Option String
  bindings : List Binding
  roleRequests : List (String × ℤ)
  lastPrune : ℤ
  log : List Entry

def Registry.empty (clock : ℤ) : Registry where
  clock := clock
  nodes := []
  networkRoles := fun _ => none
  bindings := []
  roleRequests := []
  lastPrune := 0
  log := []

inductive Action where
  | accept
  | revoke
  deriving DecidableEq

def Action.next : Action → BindingState
  | accept => .accepted
  | revoke => .revoked

def Action.text : Action → String
  | accept => "accept"
  | revoke => "revoke"

/-- A look at the clock, a query, a write, or a transaction, which says whether it committed. -/
inductive Statement : Type → Type where
  | now : Statement ℤ
  | lookup (node : String) : Statement (Option Node)
  | networkRole (node : String) : Statement (Option String)
  | latest (node : String) : Statement (Option Binding)
  | view (id : String) : Statement (Option Binding)
  | unseen (cutoff : ℤ) : Statement (List String)
  | lastPrune : Statement ℤ
  | setLastPrune (time : ℤ) : Statement Unit
  | saveNode (node : Node) : Statement Unit
  | deleteNode (node : String) : Statement Unit
  | deleteRole (node : String) : Statement Unit
  | request (row : Binding) : Statement Bool
  | transition (action : Action) (admin : String) (payload : Json) (old : Binding) : Statement Bool
  | grant (payload : Json) (admin node role signature : String) : Statement Bool

namespace Registry

def lookup (registry : Registry) (node : String) : Option Node :=
  registry.nodes.find? fun row => row.nodeId = node

def view (registry : Registry) (id : String) : Option Binding :=
  registry.bindings.find? fun row => row.id = id

/-- `ORDER BY at DESC, rowid DESC LIMIT 1`. -/
def latestOf (rows : List Binding) : Option Binding :=
  rows.foldl (fun best row => match best with
    | some first => if first.time ≤ row.time then some row else some first
    | none => some row) none

def latest (registry : Registry) (node : String) : Option Binding :=
  latestOf (registry.bindings.filter fun row => row.nodeId = node)

def setRole (registry : Registry) (node role : String) : List Node :=
  registry.nodes.map fun row => if row.nodeId = node then { row with role := role } else row

/-- `INSERT` with `ON CONFLICT(node_id)`; the change is made to a row that is there. -/
def upsert (nodes : List Node) (node : Node) (change : Node → Node) : List Node :=
  if nodes.any (·.nodeId = node.nodeId) then
    nodes.map fun row => if row.nodeId = node.nodeId then change row else row
  else
    nodes ++ [node]

end Registry

/-- A node without a request is permitted, any other by its latest one. -/
def permitted (now : ℤ) : Option Binding → Bool
  | none => true
  | some row => row.state = .accepted ∧ now < row.consentExpires

def integer (value : ℤ) : Json :=
  .number (if value < 0 then .negative (Int64.ofInt value) else .unsigned (UInt64.ofInt value))

section Transactions

variable (library : Library)

def Binding.payload (row : Binding) : Json := library.parse row.request

def grantNames (payload : Json) (row : Binding) (node : Option Node) : Bool :=
  (payload.field "binding_id").same ((row.payload library).field "id") &&
    (payload.field "binding_digest").same (.string row.digest) &&
    (payload.field "binding_revision").same (integer row.revision) &&
    (payload.field "public_key").same ((row.payload library).field "public_key") &&
    (payload.field "expected_role").same (node.elim .null (.string ·.role))

def expired (row other : Binding) : Binding :=
  if other.nodeId = row.nodeId ∧ ((other.state = .pending ∧ other.pairingExpires ≤ row.time) ∨
      other.consentExpires ≤ row.time) then
    { other with state := .expired }
  else other

/-- A request takes its node's role away; the keys and the live index of `bindings` hold. -/
def commitRequest (row : Binding) (registry : Registry) : Bool × Registry :=
  let rows := registry.bindings.map (expired row)
  if rows.any fun other => other.id = row.id ∨ other.code = row.code ∨
      (other.nodeId = row.nodeId ∧ other.state.live) then
    (false, registry)
  else
    let guest : Node := ⟨row.nodeId, row.publicKey, "guest", row.time⟩
    (true, { registry with
      nodes := Registry.upsert registry.nodes guest fun node => { node with role := "guest" }
      networkRoles := Function.update registry.networkRoles row.nodeId none
      bindings := rows ++ [row]
      log := registry.log ++ [.requested row.nodeId] })

/-- The rows that a transition changes: the one that was seen, as it was seen. -/
def transits (action : Action) (old : Binding) (now : ℤ) (row : Binding) : Bool :=
  row.id = old.id ∧ row.revision = old.revision ∧ row.state = old.state ∧
    (action = .accept → now < row.consentExpires ∧ now < row.pairingExpires)

def transited (action : Action) (admin : String) (old : Binding) (now : ℤ) (row : Binding) :
    Binding :=
  if transits action old now row then
    { row with state := action.next, revision := row.revision + 1, actor := admin }
  else row

def commitTransition (action : Action) (admin : String) (payload : Json) (old : Binding)
    (registry : Registry) : Bool × Registry :=
  if (registry.bindings.filter (transits action old registry.clock)).length ≠ 1 then
    (false, registry)
  else
    let bindings := registry.bindings.map (transited action admin old registry.clock)
    match action with
    | .accept =>
        (true, { registry with
          bindings := bindings
          log := registry.log ++ [.accepted admin payload old.id] })
    | .revoke =>
        let node := textOf (payload.field "node_id")
        (true, { registry with
          bindings := bindings
          nodes := registry.setRole node "guest"
          networkRoles := Function.update registry.networkRoles node none })

def commitGrant (payload : Json) (admin node role signature : String) (registry : Registry) :
    Bool × Registry :=
  let requests := registry.roleRequests.filter fun request => ¬request.2 < registry.clock - 240
  if permitted registry.clock (registry.latest node) = false ∨
      (registry.latest node).any (fun row =>
        !grantNames library payload row (registry.lookup node)) = true ∨
      requests.any (·.1 = signature) then
    (false, registry)
  else
    (true, { registry with
      roleRequests := requests ++ [(signature, registry.clock)]
      networkRoles := Function.update registry.networkRoles node (some role)
      nodes := registry.setRole node role
      log := registry.log ++ [.granted admin node role] })

def perform {Reply : Type} : Statement Reply → Registry → Reply × Registry
  | .now, registry => (registry.clock, registry)
  | .lookup node, registry => (registry.lookup node, registry)
  | .networkRole node, registry => (registry.networkRoles node, registry)
  | .latest node, registry => (registry.latest node, registry)
  | .view id, registry => (registry.view id, registry)
  | .unseen cutoff, registry =>
      ((registry.nodes.filter (·.lastSeen < cutoff)).map (·.nodeId), registry)
  | .lastPrune, registry => (registry.lastPrune, registry)
  | .setLastPrune time, registry => ((), { registry with lastPrune := time })
  | .saveNode node, registry =>
      ((), { registry with nodes := Registry.upsert registry.nodes node fun _ => node })
  | .deleteNode node, registry =>
      ((), { registry with nodes := registry.nodes.filter (·.nodeId ≠ node) })
  | .deleteRole node, registry =>
      ((), { registry with networkRoles := Function.update registry.networkRoles node none })
  | .request row, registry => commitRequest row registry
  | .transition action admin payload old, registry =>
      commitTransition action admin payload old registry
  | .grant payload admin node role signature, registry =>
      commitGrant library payload admin node role signature registry

/-- Time passes by itself. -/
def engine : Engine Statement Registry ℕ where
  run := perform library
  shift span registry := { registry with clock := registry.clock + span }

end Transactions

end WasmAgent.Rendezvous
