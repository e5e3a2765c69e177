import Mathlib.Data.List.DropRight
import Mathlib.Data.List.Sort
import WasmAgent.Core.Fallback
import WasmAgent.Mesh.Admission

/-!
# Calling a node

A call goes out in a new envelope to each address of its target in turn, and then to the relay,
until a carrier brings an answer that ends it.  An exchange can fail after the request has
arrived, so a carrier that ran the capability may be followed by another.
-/

namespace WasmAgent.Mesh

open WasmAgent.Core

/-- `mesh-reply-v1`, as far as a caller reads it. -/
structure MeshReply where
  requestId : String
  ok : Bool
  status : Option UInt16
  body : Option String
  error : Option String
  reason : Option String
  detail : Option String

/-- A reply that travelled without headers. -/
structure RelayAnswer where
  schema : UInt32
  ts : UInt64
  fromNodeId : String
  reply : String
  signature : String

structure Response where
  status : UInt16
  headers : Headers
  body : String

/-- What the network does with one request, when it is sent, and whether its target, if the
request gets there, runs the capability. -/
structure Exchange where
  millis : UInt64
  seconds : UInt64
  counter : UInt64
  opened : UInt64
  resolved : Except String (List (Except String Unit))
  configured : Except String Unit
  sent : Except String Unit
  reply : Except String Response
  ran : Bool

structure CallerCrates where
  signatures : Signatures
  sign : String → String
  writeCall : MeshCall → String
  writeJson : Json → String
  readJson : String → Option Json
  readReply : String → Option MeshReply
  readAnswer : String → Option RelayAnswer

structure Attempt where
  address : String
  addrClass : String
  status : Option UInt16
  error : String

inductive Outcome where
  | ok (node : RosterNode) (verdict : Verdict) (verb : Verb) (address addrClass transport : String)
      (status : UInt16) (body : String)
  | denied (node : RosterNode) (verdict : Verdict) (verb : Verb)
  | refused (node : RosterNode) (code : String) (verified : Bool) (status : UInt16)
      (detail : String)
  | unreachable (node : RosterNode) (attempts : List Attempt) (reason : String)
  | relayFailed (node : RosterNode) (attempts : List Attempt) (reason : String)
  | unknown (selector : String)
  | unavailable (reason detail : String)

/-- The ordinary request that is carried along. -/
structure Inner where
  body : String
  headers : Headers

structure Client where
  nodeId : String
  publicKey : String
  roster : Roster
  policy : MeshPolicy
  cached : String → List String
  relay : Option String
  maxBody : ℕ
  process : UInt32

section Addresses

def isBracket (letter : Char) : Bool := letter = '[' || letter = ']'

/-- `rsplit_once(':')`, without its second half. -/
def hostOf (address : String) : String :=
  if ':' ∈ address.toList then
    String.ofList ((address.toList.reverse.dropWhile (· ≠ ':')).drop 1).reverse
  else address

/-- How cheap an address is to try: the private ones come first. -/
def addressRank (address : String) : ℕ :=
  let trimmed := ((hostOf address).toList.dropWhile isBracket).rdropWhile isBracket
  let host := String.ofList (trimmed.map Char.toLower)
  if host = "localhost" || Verb.startsWith "127." host || Verb.startsWith "10." host ||
      Verb.startsWith "192.168." host || Verb.startsWith "169.254." host ||
      Verb.startsWith "fe80:" host || host = "::1" then 0
  else
    let second := (State.parseU64 (String.ofList
      ((host.toList.drop 4).takeWhile (· ≠ '.')))).filter (fun part => 16 ≤ part && part ≤ 31)
    if Verb.startsWith "172." host && second.isSome then 0
    else if Verb.startsWith "fc" host || Verb.startsWith "fd" host then 0
    else 1

def addressClass (address : String) : String :=
  if addressRank address = 0 then "private" else "public"

def maxCachedAddresses : ℕ := 8

def byRank (addresses : List String) : List String :=
  addresses.insertionSort (fun left right => addressRank left ≤ addressRank right)

def Client.addresses (client : Client) (node : RosterNode) : List String :=
  let ordered := (byRank node.addresses).foldl
    (fun ordered address => if address ∈ ordered then ordered else ordered ++ [address]) []
  let cached := (client.cached node.nodeId).filter (· ∉ ordered)
  (ordered ++ byRank cached).take maxCachedAddresses

end Addresses

section Requests

/-- Connects to the first of the resolved addresses that can be connected to. -/
def connect : List (Except String Unit) → String → Except String Unit
  | [], lastError => .error lastError
  | .ok () :: _, _ => .ok ()
  | .error why :: targets, _ => connect targets ("connect_failed:" ++ why)

/-- `http::request`: one request, one connection. -/
def request (exchange : Exchange) (body : String) (maxBody : ℕ) : Except String Response :=
  if maxBody < (utf8 body).length then .error "too_large"
  else do
    let targets ← exchange.resolved.mapError ("resolve_failed:" ++ ·)
    if targets.isEmpty then
      .error "resolve_failed:no_address"
    else
      connect targets "connect_failed"
      exchange.configured.mapError ("timeout_failed:" ++ ·)
      exchange.sent.mapError ("write_failed:" ++ ·)
      exchange.reply

/-- There is a connection that the request is written to. -/
def leaves (exchange : Exchange) (body : String) (maxBody : ℕ) : Bool :=
  (utf8 body).length ≤ maxBody &&
    match exchange.resolved with
    | .ok targets => targets.any Except.isOk && exchange.configured.isOk
    | .error _ => false

/-- The request gets to its target, which runs the capability. -/
def runs (exchange : Exchange) (body : String) (maxBody : ℕ) : Bool :=
  leaves exchange body maxBody && exchange.ran

end Requests

section Envelopes

/-- A number in hexadecimal. -/
def hexText (value : ℕ) : String := String.ofList (Nat.toDigits 16 value)

def nextRequestId (client : Client) (exchange : Exchange) : String :=
  hexText exchange.millis.toNat ++ "-" ++ hexText client.process.toNat ++ "-" ++
    hexText exchange.counter.toNat

variable (crates : CallerCrates) (client : Client) (caller target : RosterNode)
variable (capability : String) (args : Json) (inner : Inner) (exchange : Exchange)

def envelope : MeshCall :=
  ⟨1, nextRequestId client exchange, caller.nodeId, target.nodeId, capability, args, inner.body,
    inner.headers⟩

def callBody : String :=
  crates.writeCall (envelope client caller target capability args inner exchange)

def callSignature : String :=
  crates.sign (MeshCall.callMessage caller.nodeId exchange.seconds
    (callBody crates client caller target capability args inner exchange))

def relayBody : String :=
  crates.writeJson (.object [
    ("body", .string (callBody crates client caller target capability args inner exchange)),
    ("headers", .object [("content-type", .string "application/json"), ("x-wa-mesh", .string "1"),
      ("x-wa-mesh-carrier", .string "relay"), ("x-wa-node", .string caller.nodeId),
      ("x-wa-pub", .string client.publicKey),
      ("x-wa-sig", .string
        (callSignature crates client caller target capability args inner exchange)),
      ("x-wa-ts", .string (toString exchange.seconds.toNat))]),
    ("method", .string "POST"),
    ("path", .string "/node/call"),
    ("rid", .string (nextRequestId client exchange)),
    ("to", .string target.nodeId)])

end Envelopes

section Answers

variable (crates : CallerCrates) (caller target : RosterNode) (verb : Verb) (verdict : Verdict)

def replyMessage (targetNodeId callerNodeId : String) (ts : UInt64) (body : String) : String :=
  "mesh-reply-v1|" ++ targetNodeId ++ "|" ++ callerNodeId ++ "|" ++ toString ts.toNat ++ "|" ++
    sha256Hex body

def preAuthRefusals : List String :=
  ["bad_request", "bad_signature", "stale_request", "replayed_request", "unknown_caller",
    "wrong_target", "too_large", "not_mesh", "not_found", "roster_unverified",
    "handler_unavailable", "internal_error"]

def preAuthCode (body : String) : Option String := do
  let value ← crates.readJson body
  let error ← value.field? "error"
  let code ← error.asStr
  preAuthRefusals.find? (· = code)

def Response.header (response : Response) (name : String) : Option String :=
  (response.headers.find? (fun header => header.1 = name)).map Prod.snd

def isVerified (response : Response) : Bool :=
  match response.header "x-wa-sig", (response.header "x-wa-ts").bind State.parseU64 with
  | some signature, some ts => crates.signatures.verify target.publicKey
      (replyMessage target.nodeId caller.nodeId ts response.body) signature
  | _, _ => false

/-- The codes after which another address is tried. -/
def isElsewhere (code : String) : Bool :=
  code = "not_found" || code = "not_mesh" || code = "too_large"

def concluded (address addrClass transport : String) (status : UInt16) (reply : MeshReply) :
    Outcome :=
  if reply.ok then
    .ok target verdict verb address addrClass transport (reply.status.getD 200) (reply.body.getD "")
  else
    .refused target (reply.error.getD "mesh_refused") true status
      ((reply.detail.or reply.reason).getD "")

def believe (address requestId : String) (response : Response) : Attempt ⊕ Outcome :=
  let believed := response.status = 200 && isVerified crates caller target response
  let reply := (crates.readReply response.body).filter (fun reply =>
    believed && reply.requestId = requestId)
  match reply with
  | some reply => .inr (concluded target verb verdict address (addressClass address) "direct"
      response.status reply)
  | none =>
      let code := (preAuthCode crates response.body).getD "unverified_reply"
      if isElsewhere code then
        .inl ⟨address, addressClass address, some response.status, code⟩
      else .inr (.refused target code false response.status "")

def relayAnswerSchema : UInt32 := 1

def openAnswer (text : String) (now : UInt64) : Option MeshReply := do
  let answer ← crates.readAnswer text
  if answer.schema ≠ relayAnswerSchema || answer.fromNodeId ≠ target.nodeId then none
  else if !crates.signatures.verify target.publicKey
      (replyMessage target.nodeId caller.nodeId answer.ts answer.reply) answer.signature then none
  else if !isFresh answer.ts now then none
  else crates.readReply answer.reply

inductive RelayOutcome where
  | answered (status : UInt16) (body : String)
  | refused (status : UInt16) (code : String)
  | unavailable (reason : String)

/-- `as_u64`, as a status. -/
def asStatus : Json → Option UInt16
  | .number (.unsigned value) => some value.toUInt16
  | _ => none

def relayOutcome (response : Except String Response) : RelayOutcome :=
  match response with
  | .error why => .unavailable why
  | .ok response =>
      match crates.readJson response.body with
      | none => .unavailable ("relay_unreadable:" ++ toString response.status.toNat)
      | some decoded =>
          let answered := ((decoded.field? "status").bind asStatus).filter
            (fun _ => response.status = 200)
          match answered, (decoded.field? "error").bind Json.asStr with
          | some status, _ => .answered status (((decoded.field? "body").bind Json.asStr).getD "")
          | none, some code => .refused response.status code
          | none, none => .unavailable ("relay_http_" ++ toString response.status.toNat)

def believeRelay (relay requestId : String) (now : UInt64) : RelayOutcome → Outcome
  | .answered _ text =>
      match (openAnswer crates caller target text now).filter (·.requestId = requestId) with
      | some reply => concluded target verb verdict relay "relay" "relay" 200 reply
      | none =>
          .refused target ((preAuthCode crates text).getD "unverified_reply") false 200 ""
  | .refused status code => .refused target ("relay_" ++ code) false status ""
  | .unavailable reason => .relayFailed target [⟨relay, "relay", none, reason⟩] reason

end Answers

section Calls

variable (crates : CallerCrates) (client : Client) (capability : String) (args : Json)
variable (inner : Inner) (now : UInt64) (network : ℕ → Exchange)

def directAttempt (caller target : RosterNode) (verb : Verb) (verdict : Verdict) (index : ℕ)
    (address : String) : Attempt ⊕ Outcome :=
  match request (network index)
      (callBody crates client caller target capability args inner (network index))
      client.maxBody with
  | .error error => .inl ⟨address, addressClass address, none, error⟩
  | .ok response =>
      believe crates caller target verb verdict address (nextRequestId client (network index))
        response

def maxRelayBody : ℕ := 4 * 1024 * 1024

def relayAttempt (caller target : RosterNode) (verb : Verb) (verdict : Verdict) (index : ℕ)
    (relay : String) : Outcome :=
  believeRelay crates caller target verb verdict relay (nextRequestId client (network index))
    (network index).opened (relayOutcome crates (request (network index)
      (relayBody crates client caller target capability args inner (network index)) maxRelayBody))

def carry (caller target : RosterNode) (verb : Verb) (verdict : Verdict) : Outcome × ℕ :=
  match Fallback.tryInOrder
      (directAttempt crates client capability args inner network caller target verb verdict)
      (client.addresses target) 0 [] with
  | (.inr outcome, made) => (outcome, made)
  | (.inl attempts, made) =>
      match client.relay with
      | some relay =>
          (relayAttempt crates client capability args inner network caller target verb verdict
            made relay, made + 1)
      | none =>
          (.unreachable target attempts
            ((attempts.getLast?.map Attempt.error).getD "no_address"), made)

/-- The target, the caller's own entry and the decision, or why there is no call. -/
def dial (selector : String) : Except Outcome (RosterNode × RosterNode × Verb × Verdict) :=
  match client.roster.node selector with
  | none => .error (.unknown selector)
  | some target =>
      match client.roster.node client.nodeId with
      | none => .error (.unavailable "self_not_in_roster"
          ("this node (" ++ String.ofList (client.nodeId.toList.take 8) ++
            "…) is not in the fleet roster"))
      | some caller =>
          let verb := Verb.fromCapability capability
          let verdict := authorize client.policy caller target verb now
          if verdict.allow then .ok (caller, target, verb, verdict)
          else .error (.denied target verdict verb)

/-- `Client::call`, with the number of attempts it made. -/
def call (selector : String) : Outcome × ℕ :=
  match dial client capability now selector with
  | .error outcome => (outcome, 0)
  | .ok (caller, target, verb, verdict) =>
      carry crates client capability args inner network caller target verb verdict

section Running

variable (caller target : RosterNode) (verb : Verb) (verdict : Verdict)

def attemptRuns (index : ℕ) : Bool :=
  if index < (client.addresses target).length then
    runs (network index)
      (callBody crates client caller target capability args inner (network index)) client.maxBody
  else
    runs (network index)
      (relayBody crates client caller target capability args inner (network index)) maxRelayBody

/-- There is a carrier for the attempt, and no address before it brought an answer that ended
the call. -/
def Reaches (index : ℕ) : Prop :=
  (index < (client.addresses target).length ∨
      index = (client.addresses target).length ∧ client.relay.isSome) ∧
    ∀ earlier < index, ¬ Fallback.Settles
      (directAttempt crates client capability args inner network caller target verb verdict)
      (client.addresses target) 0 earlier

def capabilityRuns (selector : String) : ℕ :=
  match dial client capability now selector with
  | .error _ => 0
  | .ok (caller, target, _) =>
      (List.range (call crates client capability args inner now network selector).2).countP
        (attemptRuns crates client capability args inner network caller target)

variable {crates client capability args inner network caller target verb verdict}

theorem lt_made_carry_iff {index : ℕ} :
    index < (carry crates client capability args inner network caller target verb verdict).2 ↔
      Reaches crates client capability args inner network caller target verb verdict index := by
  have hmade := @Fallback.lt_made_iff _ _ _
    (directAttempt crates client capability args inner network caller target verb verdict)
    (client.addresses target) 0 [] index (Nat.zero_le index)
  have hopen := Fallback.open_iff
    (directAttempt crates client capability args inner network caller target verb verdict)
    (client.addresses target) 0 []
  have hall := @Fallback.made_of_open _ _ _
    (directAttempt crates client capability args inner network caller target verb verdict)
    (client.addresses target)
  rw [carry, Reaches]
  generalize directAttempt crates client capability args inner network caller target verb verdict =
    attempt at hmade hopen hall ⊢
  cases htry : Fallback.tryInOrder attempt (client.addresses target) 0 [] with
  | mk left made =>
    rw [htry] at hmade hopen
    rw [Nat.zero_add] at hmade hopen
    cases left with
    | inr outcome =>
      -- an address settled it, so the relay's turn does not come
      have hsetd : ∃ settling < (client.addresses target).length,
          Fallback.Settles attempt (client.addresses target) 0 settling := by
        by_contra hnone
        push Not at hnone
        cases (hopen.mpr (fun settling _ hlt => hnone settling hlt)).choose_spec
      obtain ⟨settling, hlt, hsets⟩ := hsetd
      change index < made ↔ _
      rw [hmade]
      constructor
      · intro hboth
        exact ⟨Or.inl hboth.1, fun earlier hearl => hboth.2 earlier (Nat.zero_le _) hearl⟩
      intro hboth
      refine ⟨?_, fun earlier _ hearl => hboth.2 earlier hearl⟩
      cases hboth.1 with
      | inl hdir => exact hdir
      | inr hrelay => exact absurd hsets (hboth.2 settling (hrelay.1 ▸ hlt))
    | inl attempts =>
      have hcnt : made = (client.addresses target).length := by
        have hlen := @hall attempts 0 []
        rw [htry, Nat.zero_add] at hlen
        exact hlen rfl
      have hnone : ∀ earlier, ¬ Fallback.Settles attempt (client.addresses target) 0 earlier := by
        intro earlier hsets
        have hitem : earlier < (client.addresses target).length := by
          obtain ⟨item, answer, hitem, -⟩ := hsets
          exact (List.getElem?_eq_some_iff.mp hitem).choose
        exact hopen.mp ⟨attempts, rfl⟩ earlier (Nat.zero_le _) hitem hsets
      cases hrelay : client.relay with
      | none =>
        change index < made ↔ _
        rw [hcnt]
        constructor
        · intro hlt
          exact ⟨Or.inl hlt, fun earlier _ => hnone earlier⟩
        intro hboth
        cases hboth.1 with
        | inl hdir => exact hdir
        | inr hoth => cases hoth.2
      | some relay =>
        change index < made + 1 ↔ _
        rw [hcnt, Nat.lt_succ_iff_lt_or_eq]
        constructor
        · intro hlt
          exact ⟨hlt.imp_right (fun hsame => ⟨hsame, rfl⟩), fun earlier _ => hnone earlier⟩
        · intro hboth
          exact hboth.1.imp_right And.left

end Running

end Calls

section Repeating

/-- A caller, and a target with two addresses. -/
def laptopNode : RosterNode := ⟨"aa", "11", "laptop", 0, [], 0⟩

def serverNode : RosterNode := ⟨"bb", "22", "server", 1, ["10.0.0.2:8891", "147.15.64.233:8891"], 0⟩

def laptopClient : Client :=
  ⟨"aa", "11", ⟨1, "home", 0, 0, [laptopNode, serverNode], ""⟩, ⟨"", []⟩, fun _ => [], none,
    4194304, 1⟩

/-- Nothing is signed, and nothing is read. -/
def silentCrates : CallerCrates :=
  ⟨⟨fun _ => none⟩, fun _ => "", fun _ => "", fun _ => "", fun _ => none, fun _ => none,
    fun _ => none⟩

/-- Each request arrives and is run, and the answer to it does not come in time. -/
def slowAnswers (_ : ℕ) : Exchange :=
  ⟨0, 0, 0, 0, .ok [.ok ()], .ok (), .ok (), .error "read_failed:timed out", true⟩

end Repeating

end WasmAgent.Mesh
