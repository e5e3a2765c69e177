import WasmAgent.Mesh.Replay

/-!
# Execution of an admitted call

What a node does with a relayed call that its roster admitted: the inner request, which the
caller built and signed on its own, is handed to the node's ordinary path under the pending
admission.
-/

namespace WasmAgent.Mesh

open Option WasmAgent.Core

/-- A caller as the node's own path knows it. -/
structure Caller where
  nodeId : String
  publicKey : String
  role : String
  name : String
  deriving DecidableEq

/-- The decision that is in force for one call. -/
structure Pending where
  nodeId : String
  publicKey : String
  capability : String
  requestId : String
  name : String
  level : UInt8
  deriving DecidableEq

/-- The node that executes, with what its path reads elsewhere: the clock, the pins and the
directory of the path without a roster, the requests that are recorded, and the authors. -/
structure Node where
  nodeId : String
  now : Int
  managed : Bool
  bound : Bool
  decode : String → Option Json
  stamp : String → Int
  pinned : String → String → Option Caller
  recorded : String → Bool
  authored : Caller → Bool

inductive PeerAnswer where
  | refused (error : String)
  | ran (capability : Json) (args : Json) (caller : Caller)

def PeerAnswer.capability? : PeerAnswer → Option Json
  | .refused _ => none
  | .ran capability _ _ => some capability

namespace Node

variable (node : Node)

/-- `wa_mesh_admit`: the decision is pending for a caller with an id and a key. -/
def meshPending (allowed : Allowed) : Option Pending :=
  if (utf8 allowed.caller.nodeId).length = 32 && (utf8 allowed.caller.publicKey).length = 64 then
    some ⟨allowed.caller.nodeId, allowed.caller.publicKey, allowed.capability, allowed.requestId,
      allowed.caller.name, allowed.caller.level⟩
  else none

def meshTake (pending : Option Pending) (id key : String) : Option Pending :=
  pending.filter fun pending => pending.nodeId = id && pending.publicKey = key

/-- The roster first, then the pins. -/
def authorizeCaller (pending : Option Pending) (id key : String) : Option Caller :=
  match meshTake pending id key with
  | some pending =>
      some ⟨id, key, "master", if pending.name = "" then id else pending.name⟩
  | none => node.pinned id key

def verifyCaller (pending : Option Pending) (id key : String) : Option Caller :=
  if node.managed && node.bound then node.authorizeCaller pending id key else node.pinned id key

def verifyPeer (signatures : Signatures) (pending : Option Pending)
    (fromId publicKey ts signature action body : String) : Except String Caller :=
  if fromId = "" then .error "bad_request"
  else
    let stamp := node.stamp ts
    let message := action ++ "|" ++ fromId ++ "|" ++ toString stamp ++ "|" ++ sha256Hex body
    if !signatures.verify publicKey message signature then .error "bad_signature"
    else if 120 < (node.now - stamp).natAbs then .error "stale_request"
    else
      match node.verifyCaller pending fromId publicKey with
      | none => .error "unknown_caller"
      | some caller =>
          if caller.role ≠ "master" then .error "forbidden_role"
          else if node.recorded
              (fromId ++ "|" ++ action ++ "|" ++ toString stamp ++ "|" ++ signature) then
            .error "replayed_request"
          else .ok caller

/-- `request.capability or ""`. -/
def capabilityOf (request : Json) : Json :=
  match request.field "capability" with
  | .null => .string ""
  | .bool false => .string ""
  | value => value

def isText (text : String) : Json → Bool
  | .string found => found = text
  | _ => false

def managedCapabilities : List String :=
  ["status", "set_role", "read", "write", "edit", "ls", "grep", "bash", "shell", "client", "stt"]

def isTable : Json → Bool
  | .array _ => true
  | .object _ => true
  | _ => false

/-- `wa_node_call`, without an attestation. -/
def nodeCall (signatures : Signatures) (pending : Option Pending)
    (payload fromId publicKey ts signature : String) : PeerAnswer :=
  match (node.decode payload).filter isTable with
  | none => .refused "bad_request"
  | some request =>
      let capability := capabilityOf request
      if isText "" capability then .refused "bad_request"
      else if isText "remote" capability then .refused "remote_cannot_recurse"
      else
        match node.verifyPeer signatures pending fromId publicKey ts signature "call" payload with
        | .error problem => .refused problem
        | .ok caller =>
            if !isText node.nodeId (request.field "to_node_id") then .refused "wrong_target"
            else if node.managed && !managedCapabilities.any (isText · capability) then
              .refused "capability_not_granted"
            else if !node.authored caller then .refused "forbidden_role"
            else .ran capability (request.field "args") caller

def innerHeader (headers : Headers) (name : String) : String :=
  ((headers.reverse.find? fun header => Roster.sameLetters header.1 name).map Prod.snd).getD ""

def relayedCall (signatures : Signatures) (allowed : Allowed) : PeerAnswer :=
  node.nodeCall signatures (meshPending allowed) allowed.innerBody
    (innerHeader allowed.innerHeaders "x-wa-node") (innerHeader allowed.innerHeaders "x-wa-pub")
    (innerHeader allowed.innerHeaders "x-wa-ts") (innerHeader allowed.innerHeaders "x-wa-sig")

end Node

section Capabilities

variable {node : Node} {signatures : Signatures} {pending : Option Pending}

theorem Node.nodeCall_ran {payload fromId publicKey ts signature : String} {capability : Json}
    (hran : (node.nodeCall signatures pending payload fromId publicKey ts signature).capability? =
      some capability) :
    ∃ request, node.decode payload = some request ∧ capability = capabilityOf request := by
  rw [Node.nodeCall] at hran
  split at hran
  · cases hran
  rename_i request hreq
  dsimp only at hran
  have hdec := (filter_eq_some_iff.mp hreq).1
  split at hran
  · cases hran
  split at hran
  · cases hran
  split at hran
  · cases hran
  split at hran
  · cases hran
  split at hran
  · cases hran
  · split at hran
    · cases hran
    · exact ⟨request, hdec, (Option.some.inj hran).symm⟩

theorem conclude_allow {arrival : Arrival} {authentic : Authentic} {allowed : Allowed}
    (hcon : conclude arrival authentic = .allow allowed) :
    (authorize authentic.policy allowed.caller allowed.target
      (Verb.fromCapability allowed.capability) arrival.now).allow = true := by
  rw [conclude] at hcon
  dsimp only at hcon
  split at hcon
  · cases hcon
  split at hcon
  · cases hcon
  split at hcon
  · cases hcon
  · next hall =>
    cases hcon
    rwa [Bool.not_eq_true', Bool.not_eq_false] at hall

theorem decide_allow {crates : Crates} {arrival : Arrival} {seen : Seen} {allowed : Allowed}
    (hdec : (decide crates arrival seen).1 = .allow allowed) :
    ∃ roster policy, arrival.files = .ok (roster, policy) ∧
      (authorize policy allowed.caller allowed.target
        (Verb.fromCapability allowed.capability) arrival.now).allow = true := by
  rw [decide] at hdec
  split at hdec
  · next answer hans =>
    have hnone := authenticate_error hans
    dsimp only at hdec
    rw [hdec] at hnone
    cases hnone
  rename_i authentic hok
  split at hdec
  · cases hdec
  dsimp only at hdec
  split at hdec
  · cases hdec
  · exact ⟨authentic.roster, authentic.policy, authenticate_files hok, conclude_allow hdec⟩

def Node.names (node : Node) (allowed : Allowed) : Bool :=
  (node.decode allowed.innerBody).any fun request =>
    isText allowed.capability (capabilityOf request)

theorem isText_iff {text : String} {value : Json} :
    Node.isText text value = true ↔ value = .string text := by
  cases value with
  | string found =>
    apply Iff.intro
    · intro htext
      rw [of_decide_eq_true htext]
    · intro heq
      cases heq
      exact decide_eq_true rfl
  | null | bool | number | array | object => exact iff_of_false (nofun) (nofun)

end Capabilities

/-- When an admitted call runs a capability, it is the envelope's, which `authorize` allowed,
exactly when the inner request names that one. -/
theorem executes_authorized_iff (crates : Crates) (arrival : Arrival) (seen : Seen)
    (allowed : Allowed) (node : Node) (capability : Json)
    (hdecide : (decide crates arrival seen).1 = .allow allowed)
    (hran : (node.relayedCall crates.signatures allowed).capability? = some capability) :
    (capability = .string allowed.capability ↔ node.names allowed = true) ∧
      ∃ roster policy, arrival.files = .ok (roster, policy) ∧
        (authorize policy allowed.caller allowed.target
          (Verb.fromCapability allowed.capability) arrival.now).allow = true := by
  refine ⟨?_, decide_allow hdecide⟩
  obtain ⟨request, hrequest, hcapability⟩ := Node.nodeCall_ran hran
  rw [Node.names, hrequest, any_some, isText_iff, hcapability]

section Smuggled

def guest : RosterNode := { laptop with name := "guest", level := 2 }

def guestRoster : Roster := ⟨1, "home", 0, 0, [guest, oracle], "f5f5f5f5f5f5f5f5"⟩

def readOnly : MeshPolicy :=
  ⟨fleetKey, [⟨⟨guest.nodeId, .exact guest.nodeId⟩, ⟨oracle.nodeId, .exact oracle.nodeId⟩,
    ⟨"read", .exact "read"⟩, .allow, none⟩]⟩

def runsShell : String :=
  "\x7b\"capability\":\"bash\",\"to_node_id\":\"9f72ea0cf49536e3c66c787f705186df\"\x7d"

def runsShellSignature : String := "cdcdcdcdcdcdcdcd"

def smuggles : MeshCall :=
  ⟨1, "r1", guest.nodeId, oracle.nodeId, "read", .null, runsShell,
    [("X-WA-Node", guest.nodeId), ("X-WA-Pub", guest.publicKey), ("X-WA-Ts", "1000"),
      ("X-WA-Sig", runsShellSignature)]⟩

def smugglesText : String :=
  "\x7b\"schema\":1,\"request_id\":\"r1\"," ++
    "\"from_node_id\":\"02d449a31fbb267c8f352e9968a79e3e\"," ++
    "\"to_node_id\":\"9f72ea0cf49536e3c66c787f705186df\",\"capability\":\"read\"," ++
    "\"inner_body\":\"\x7b\\\"capability\\\":\\\"bash\\\"," ++
    "\\\"to_node_id\\\":\\\"9f72ea0cf49536e3c66c787f705186df\\\"\x7d\",\"inner_headers\":[" ++
    "[\"X-WA-Node\",\"02d449a31fbb267c8f352e9968a79e3e\"]," ++
    "[\"X-WA-Pub\",\"1111111111111111111111111111111111111111111111111111111111111111\"]," ++
    "[\"X-WA-Ts\",\"1000\"],[\"X-WA-Sig\",\"cdcdcdcdcdcdcdcd\"]]\x7d"

/-- The roster was signed, and the guest signed the envelope and the request in it. -/
def guestCrates : Crates where
  signatures := ⟨fun message =>
    if message = utf8 guestRoster.canonical then
      some (List.replicate 32 0xf1, List.replicate 8 0xf5)
    else if message = utf8 (MeshCall.callMessage guest.nodeId 1000 smugglesText) then
      some (List.replicate 32 0x11, List.replicate 8 0xab)
    else if message = utf8 ("call|" ++ guest.nodeId ++ "|1000|" ++ sha256Hex runsShell) then
      some (List.replicate 32 0x11, List.replicate 8 0xcd)
    else none⟩
  readCall text := if text = smugglesText then some smuggles else none

def smuggled : Arrival where
  inbound := ⟨[("x-wa-mesh", "1"), ("x-wa-node", guest.nodeId), ("x-wa-pub", guest.publicKey),
    ("x-wa-ts", "1000"), ("x-wa-sig", lowerCase)], smugglesText, .relay⟩
  now := 1000
  files := .ok (guestRoster, readOnly)
  nodeId := oracle.nodeId

def managedNode : Node where
  nodeId := oracle.nodeId
  now := 1000
  managed := true
  bound := true
  decode text :=
    if text = runsShell then
      some (.object [("capability", .string "bash"), ("to_node_id", .string oracle.nodeId)])
    else none
  stamp text := if text = "1000" then 1000 else 0
  pinned _ _ := none
  recorded _ := false
  authored _ := true

theorem smuggled_decided :
    ((decide guestCrates smuggled ∅).1.allowed?.map fun allowed =>
      (allowed.capability,
        ((managedNode.relayedCall guestCrates.signatures allowed).capability?).map
          (Node.isText "bash"),
        (authorize readOnly allowed.caller allowed.target (Verb.fromCapability "bash") 1000).allow)) =
      some ("read", some true, false) := by
  decide +kernel

theorem smuggled_runs :
    ∃ allowed, (decide guestCrates smuggled ∅).1 = .allow allowed ∧ allowed.capability = "read" ∧
      (managedNode.relayedCall guestCrates.signatures allowed).capability? = some (.string "bash") ∧
      (authorize readOnly allowed.caller allowed.target (Verb.fromCapability "bash") 1000).allow =
        false := by
  have hdecid := smuggled_decided
  cases hdec : (decide guestCrates smuggled ∅).1 with
  | allow allowed =>
    rw [hdec] at hdecid
    have hparts := Option.some.inj hdecid
    obtain ⟨capability, hcap, htext⟩ := map_eq_some_iff.mp (congrArg (·.2.1) hparts)
    refine ⟨allowed, rfl, congrArg Prod.fst hparts, ?_, congrArg (·.2.2) hparts⟩
    rw [hcap, isText_iff.mp htext]
  | refuse status code =>
    rw [hdec] at hdecid
    cases hdecid
  | denied requestId verdict verb =>
    rw [hdec] at hdecid
    cases hdecid
  | legacy body headers why =>
    rw [hdec] at hdecid
    cases hdecid

theorem executes_authorized_smuggled :
    ∃ allowed, (decide guestCrates smuggled ∅).1 = .allow allowed ∧
      (Json.string "bash" = .string allowed.capability ↔ managedNode.names allowed = true) := by
  obtain ⟨allowed, hdecide, -, hran, -⟩ := smuggled_runs
  exact ⟨allowed, hdecide, (executes_authorized_iff guestCrates smuggled ∅ allowed managedNode
    (.string "bash") hdecide hran).1⟩

/-- The envelope is admitted to read, and the node runs a shell, which the caller may not. -/
theorem read_call_runs_shell :
    ∃ allowed, (decide guestCrates smuggled ∅).1 = .allow allowed ∧
      (managedNode.relayedCall guestCrates.signatures allowed).capability? =
        some (.string "bash") ∧
      Json.string "bash" ≠ .string allowed.capability ∧
      (authorize readOnly allowed.caller allowed.target (Verb.fromCapability "bash") 1000).allow =
        false := by
  obtain ⟨allowed, hdecide, hcapability, hran, hdenied⟩ := smuggled_runs
  refine ⟨allowed, hdecide, hran, ?_, hdenied⟩
  rw [hcapability]
  exact fun heq => absurd (Json.string.inj heq) (by decide)

end Smuggled

end WasmAgent.Mesh
