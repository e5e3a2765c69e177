import WasmAgent.Rendezvous.Registry

/-!
# The routes of the registry

Each route as the statements it executes, with the checks between them.  A refusal carries
the status and the error of its reply; what a reply says beyond that is left out.
-/

namespace WasmAgent.Rendezvous

open WasmAgent.Core WasmAgent.Core.Procedure
open Jobs (asI64 asArray textOf)

inductive Answer where
  | ok
  | refused (status : ℕ) (error : String)
  deriving DecidableEq

abbrev Route := Procedure Statement

/-- The service: its libraries, the administrators, and how long an unseen node is kept. -/
structure Setting where
  library : Library
  admins : List String
  retention : ℤ

def standardConsentSeconds : ℤ := 24 * 60 * 60
def permanentConsentSeconds : ℤ := 100 * 365 * 24 * 60 * 60

def isHex (text : String) (length : ℕ) : Bool :=
  text.utf8ByteSize = length ∧ text.toList.all fun char =>
    ('0' ≤ char ∧ char ≤ '9') ∨ ('a' ≤ char ∧ char ≤ 'f')

/-- `char::is_control`. -/
def isControl (char : Char) : Bool := char.toNat < 0x20 ∨ (0x7f ≤ char.toNat ∧ char.toNat ≤ 0x9f)

def idOfKey (library : Library) (key : Bytes) : String :=
  String.ofList ((library.bodyHash key).toList.take 32)

section Routes

variable (setting : Setting)

def publicKeyOf (node : String) : Route (Option String) := do
  let row ← execute (.lookup node)
  pure (row.map (·.publicKey))

def permits (node : String) : Route Bool := do
  let row ← execute (.latest node)
  let now ← execute .now
  pure (permitted now row)

/-- `current` looks for the latest row and then reads it by its id. -/
def current (node : String) : Route (Option Binding) := do
  match ← execute (.latest node) with
  | none => pure none
  | some row => execute (.view row.id)

def verify (headers : Headers) (node action : String) (body : Option Bytes) :
    Route (Option Answer) := do
  if node = "" then
    pure (some (.refused 400 "node_id_required"))
  else
    match ← publicKeyOf node with
    | none => pure (some (.refused 401 "unknown_node"))
    | some stored =>
        if stored ≠ headers.pub then
          pure (some (.refused 401 "bad_signature"))
        else
          let now ← execute .now
          if (now - headers.ts).natAbs > 120 then
            pure (some (.refused 401 "stale_request"))
          else
            let message := action ++ "|" ++ node ++ "|" ++ toString headers.ts ++
              body.elim "" (fun bytes => "|" ++ setting.library.bodyHash bytes)
            if setting.library.verify stored message headers.sig then
              pure none
            else
              pure (some (.refused 401 "bad_signature"))

/-- Administrators are never pruned. -/
def deleteUnseen : List String → Route Unit
  | [] => pure ()
  | node :: nodes => do
      if node ∈ setting.admins then
        deleteUnseen nodes
      else
        execute (.deleteNode node)
        deleteUnseen nodes

def prune : Route Unit := do
  if setting.retention = 0 then
    pure ()
  else
    let now ← execute .now
    let stale ← execute (.unseen (now - setting.retention))
    deleteUnseen setting stale

def registeredRole (node : String) : Route String := do
  if node ∈ setting.admins then
    pure "master"
  else
    let role ← execute (.networkRole node)
    pure (role.getD "guest")

/-- `/register` and `/heartbeat`. -/
def register (body : Bytes) : Route Answer := do
  let payload := setting.library.parse body
  let node := textOf (payload.field "node_id")
  let key := textOf (payload.field "public_key")
  let ts := (asI64 (payload.field "ts")).getD 0
  let endpoints :=
    if (asArray (payload.field "endpoints")).isSome then payload.field "endpoints" else .array []
  if node = "" ∨ key = "" then
    pure (.refused 400 "node_id_and_public_key_required")
  else if (setting.library.unhex key).length ≠ 32 ∨
      idOfKey setting.library (setting.library.unhex key) ≠ node then
    pure (.refused 401 "node_id_key_mismatch")
  else
    let start ← execute .now
    if (start - ts).natAbs > 120 then
      pure (.refused 401 "stale_request")
    else
      let old ← publicKeyOf node
      if old.any (· ≠ key) then
        pure (.refused 409 "identity_conflict")
      else if setting.library.verify key
          (announcement setting.library node ts (textOf (payload.field "name")) endpoints)
          (textOf (payload.field "signature")) = false then
        pure (.refused 401 "bad_signature")
      else
        let now ← execute .now
        let role ← registeredRole setting node
        execute (.saveNode ⟨node, key, role, now⟩)
        let last ← execute .lastPrune
        if now - last > 3600 then
          execute (.setLastPrune now)
          prune setting
          pure .ok
        else
          pure .ok

/-- What a binding request must look like at the time it comes in. -/
def requestValid (payload : Json) (now : ℤ) : Bool :=
  let lifetime := (payload.field? "lifetime").elim "standard" textOf
  let declared := if (payload.field? "lifetime").isSome then 1 else 0
  let floor := if lifetime = "permanent" then standardConsentSeconds else 0
  let ceiling := if lifetime = "permanent" then permanentConsentSeconds else standardConsentSeconds
  let expires := (asI64 (payload.field "expires_at")).getD 0
  let pairing := (asI64 (payload.field "pairing_expires_at")).getD 0
  payload.asObject.any (·.length = 11 + declared) &&
    asI64 (payload.field "schema") = some 1 &&
    isHex (textOf (payload.field "id")) 32 && isHex (textOf (payload.field "node_id")) 32 &&
    isHex (textOf (payload.field "public_key")) 64 && isHex (textOf (payload.field "code")) 12 &&
    (payload.field "name").asStr.any (fun name =>
      name ≠ "" ∧ name.utf8ByteSize ≤ 100 ∧ ¬name.toList.any isControl) &&
    (payload.field "scope").asStr = some "user-account-tools" &&
    (lifetime = "standard" ∨ lifetime = "permanent") &&
    now + floor < expires && expires ≤ now + ceiling && now < pairing && pairing ≤ now + 600 &&
    pairing ≤ expires &&
    (payload.field "service").asStr.any (fun service => service.utf8ByteSize ≤ 2048 ∧
      (service.startsWith "https://" ∨ service.startsWith "http://127.0.0.1:"))

def pinsChanged (pins : List Json) : List String → Route Bool
  | [] => pure false
  | admin :: admins => do
      match pins.filter fun pin => (pin.field "node_id").asStr = some admin with
      | [pin] =>
          let row ← execute (.lookup admin)
          if row.all fun row => (pin.field "public_key").asStr ≠ some row.publicKey then
            pure true
          else
            pinsChanged pins admins
      | _ => pure true

def requestedBinding (body : Bytes) (now : ℤ) : Binding :=
  let payload := setting.library.parse body
  { id := textOf (payload.field "id")
    nodeId := textOf (payload.field "node_id")
    publicKey := textOf (payload.field "public_key")
    code := textOf (payload.field "code")
    digest := setting.library.bodyHash body
    request := body
    state := .pending
    revision := 1
    actor := ""
    pairingExpires := (asI64 (payload.field "pairing_expires_at")).getD 0
    consentExpires := (asI64 (payload.field "expires_at")).getD 0
    time := now }

/-- `/bindings/request`. -/
def requestBinding (headers : Headers) (body : Bytes) : Route Answer := do
  let payload := setting.library.parse body
  let node := textOf (payload.field "node_id")
  let key := textOf (payload.field "public_key")
  let keyBytes := setting.library.unhex key
  if setting.admins = [] then
    pure (.refused 403 "managed_service_required")
  else
    let now ← execute .now
    if requestValid payload now = false then
      pure (.refused 400 "binding_request_invalid")
    else if keyBytes.length ≠ 32 ∨ idOfKey setting.library keyBytes ≠ node ∨
        headers.node ≠ node ∨ headers.pub ≠ key ∨ (now - headers.ts).natAbs > 120 ∨
        setting.library.verify key ("bind-request|" ++ node ++ "|" ++ toString headers.ts ++ "|" ++
          setting.library.bodyHash body) headers.sig = false then
      pure (.refused 401 "binding_signature_invalid")
    else
      match asArray (payload.field "operators") with
      | none => pure (.refused 400 "binding_pins_invalid")
      | some pins =>
          if node ∈ setting.admins then
            pure (.refused 403 "binding_administrator_identity_forbidden")
          else if pins = [] ∨ pins.length > 32 ∨ pins.length ≠ setting.admins.length then
            pure (.refused 409 "binding_operator_pins_changed")
          else
            let changed ← pinsChanged pins setting.admins
            if changed then
              pure (.refused 409 "binding_operator_pins_changed")
            else
              match ← execute (.view (textOf (payload.field "id"))) with
              | some row =>
                  if row.digest = setting.library.bodyHash body then
                    pure .ok
                  else
                    pure (.refused 409 "binding_request_changed")
              | none =>
                  let old ← publicKeyOf node
                  if old.any (· ≠ key) then
                    pure (.refused 409 "identity_conflict")
                  else
                    let committed ← execute (.request (requestedBinding setting body now))
                    pure (if committed then .ok else .refused 409 "binding_request_conflict")

def transitionNames (payload : Json) (action : Action) (old : Binding) : Bool :=
  let request := old.payload setting.library
  (payload.field "node_id").same (request.field "node_id") &&
    (payload.field "public_key").same (request.field "public_key") &&
    (payload.field "digest").same (.string old.digest) &&
    (payload.field "revision").same (integer old.revision) &&
    (action ≠ .accept || (payload.field "code").same (request.field "code"))

def lifetimeRefusal (payload : Json) (old : Binding) : Option Answer :=
  let asked := ((old.payload setting.library).field "lifetime").asStr.getD "standard"
  let affirmed := textOf (payload.field "authorize_lifetime")
  if asked = "permanent" ∧ affirmed ≠ "permanent" then
    some (.refused 403 "binding_lifetime_authorization_required")
  else if asked ≠ "permanent" ∧ affirmed ≠ "" then
    some (.refused 409 "binding_lifetime_not_requested")
  else
    none

def pendingInTime (old : Binding) (now : ℤ) : Bool :=
  let request := old.payload setting.library
  old.state = .pending ∧ now < (asI64 (request.field "pairing_expires_at")).getD 0 ∧
    now < (asI64 (request.field "expires_at")).getD 0

def commitRoute (action : Action) (admin : String) (payload : Json) (old : Binding) :
    Route Answer := do
  let committed ← execute (.transition action admin payload old)
  pure (if committed then .ok else .refused 409 "binding_state_moved")

/-- `/bindings/accept` and `/bindings/revoke`. -/
def transition (action : Action) (headers : Headers) (body : Bytes) : Route Answer := do
  let payload := setting.library.parse body
  if setting.admins = [] then
    pure (.refused 403 "managed_service_required")
  else
    match ← verify setting headers headers.node ("bind-" ++ action.text) (some body) with
    | some refusal => pure refusal
    | none =>
        match ← execute (.view (textOf (payload.field "id"))) with
        | none => pure (.refused 404 "binding_unknown")
        | some old =>
            if headers.node ∉ setting.admins ∧ (action ≠ .revoke ∨
                ((old.payload setting.library).field "node_id").asStr ≠ some headers.node) then
              pure (.refused 403 "administrator_required")
            else if transitionNames setting payload action old = false then
              pure (.refused 409 "binding_generation_changed")
            else
              match action with
              | .accept =>
                  match lifetimeRefusal setting payload old with
                  | some refusal => pure refusal
                  | none =>
                      let now ← execute .now
                      if pendingInTime setting old now = false then
                        pure (.refused 409 "binding_not_pending_or_expired")
                      else
                        commitRoute .accept headers.node payload old
              | .revoke =>
                  if old.state.live = false then
                    pure (.refused 409 "binding_not_active")
                  else
                    commitRoute .revoke headers.node payload old

def namesCurrent (payload : Json) (node : String) : Route Bool := do
  match ← current node with
  | none => pure true
  | some row =>
      let found ← execute (.lookup node)
      pure (grantNames setting.library payload row found)

/-- `/role`. -/
def grantRole (headers : Headers) (body : Bytes) : Route Answer := do
  let payload := setting.library.parse body
  let node := textOf (payload.field "node_id")
  let role := textOf (payload.field "role")
  if setting.admins = [] then
    pure (.refused 403 "managed_service_required")
  else
    match ← verify setting headers headers.node "grant-role" (some body) with
    | some refusal => pure refusal
    | none =>
        if headers.node ∉ setting.admins then
          pure (.refused 403 "administrator_required")
        else if (role ≠ "master" ∧ role ≠ "guest") ∨ node ∈ setting.admins then
          pure (.refused 400 "invalid_role_target")
        else
          match ← execute (.lookup node) with
          | none => pure (.refused 404 "unknown_node")
          | some _ =>
              let allowed ← permits node
              if allowed = false then
                pure (.refused 403 "binding_not_accepted")
              else
                let named ← namesCurrent setting payload node
                if named = false then
                  pure (.refused 409 "binding_generation_changed")
                else
                  let committed ← execute (.grant payload headers.node node role headers.sig)
                  pure (if committed then .ok else .refused 409 "role_change_failed")

/-- `/forget`, of another node by an administrator or of itself by a node. -/
def forget (headers : Headers) (body : Bytes) : Route Answer := do
  let payload := setting.library.parse body
  let node := textOf (payload.field "node_id")
  if headers.node ≠ "" ∧ headers.node ≠ node then
    if setting.admins = [] then
      pure (.refused 403 "managed_service_required")
    else
      match ← verify setting headers headers.node "forget-node" (some body) with
      | some refusal => pure refusal
      | none =>
          if headers.node ∉ setting.admins then
            pure (.refused 403 "administrator_required")
          else if node ∈ setting.admins then
            pure (.refused 400 "admin_not_forgettable")
          else
            match ← publicKeyOf node with
            | none => pure (.refused 404 "unknown_node")
            | some _ =>
                execute (.deleteNode node)
                execute (.deleteRole node)
                pure .ok
  else
    let ts := (asI64 (payload.field "ts")).getD 0
    let now ← execute .now
    if (now - ts).natAbs > 120 then
      pure (.refused 401 "stale_request")
    else
      match ← publicKeyOf node with
      | none => pure (.refused 404 "unknown_node")
      | some key =>
          if setting.library.verify key ("forget|" ++ node ++ "|" ++ toString ts)
              (textOf (payload.field "signature")) = false then
            pure (.refused 401 "bad_signature")
          else
            execute (.deleteNode node)
            pure .ok

/-- What comes in; a prune comes with the start of the service. -/
inductive Incoming where
  | register (body : Bytes)
  | request (headers : Headers) (body : Bytes)
  | transition (action : Action) (headers : Headers) (body : Bytes)
  | grantRole (headers : Headers) (body : Bytes)
  | forget (headers : Headers) (body : Bytes)
  | prune

def route : Incoming → Route Answer
  | .register body => register setting body
  | .request headers body => requestBinding setting headers body
  | .transition action headers body => transition setting action headers body
  | .grantRole headers body => grantRole setting headers body
  | .forget headers body => forget setting headers body
  | .prune => do
      prune setting
      pure .ok

end Routes

end WasmAgent.Rendezvous
