import WasmAgent.Mesh.Roster

/-!
# Admission

The decision on one inbound envelope: who signed it, whether it is fresh and not a replay, and
whether the roster lets the caller command this node.
-/

namespace WasmAgent.Mesh

open Std WasmAgent.Core

abbrev Headers := List (String × String)

structure MeshCall where
  schema : UInt32
  requestId : String
  fromNodeId : String
  toNodeId : String
  capability : String
  args : Json
  innerBody : String
  innerHeaders : Headers

structure Crates where
  signatures : Signatures
  readCall : String → Option MeshCall

namespace MeshCall

/-- The envelope of a body, if it is well formed. -/
def parse (crates : Crates) (text : String) : Option MeshCall :=
  (crates.readCall text).filter fun call =>
    call.schema = 1 && call.requestId ≠ "" && (utf8 call.requestId).length ≤ 128 &&
      call.capability ≠ "" && (utf8 call.capability).length ≤ 128 &&
      call.toNodeId ≠ "" && call.fromNodeId ≠ ""

def callDomain : String := "mesh-call-v1"

def callMessage (fromNodeId : String) (ts : UInt64) (body : String) : String :=
  callDomain ++ "|" ++ fromNodeId ++ "|" ++ toString ts.toNat ++ "|" ++ sha256Hex body

end MeshCall

inductive Transport where
  | direct
  | relay
  deriving DecidableEq

/-- One request as it arrived. -/
structure Inbound where
  headers : Headers
  body : String
  transport : Transport

def Inbound.header (inbound : Inbound) (name : String) : Option String :=
  (inbound.headers.find? fun header => Roster.sameLetters header.1 name).map Prod.snd

def isMesh (headers : Headers) : Bool :=
  headers.any fun header =>
    Roster.sameLetters header.1 "x-wa-mesh" && Queue.trim header.2.toList = ['1']

structure Arrival where
  inbound : Inbound
  now : UInt64
  files : Except String (Roster × MeshPolicy)
  nodeId : String

/-- A call that is authenticated and authorized. -/
structure Allowed where
  caller : RosterNode
  target : RosterNode
  verb : Verb
  verdict : Verdict
  capability : String
  args : Json
  requestId : String
  innerBody : String
  innerHeaders : Headers
  transport : Transport

inductive Admission where
  | allow (allowed : Allowed)
  | refuse (status : UInt16) (code : String)
  | denied (requestId : String) (verdict : Verdict) (verb : Verb)
  | legacy (body : String) (headers : Headers) (why : String)

def Admission.allowed? : Admission → Option Allowed
  | .allow allowed => some allowed
  | _ => none

def freshSeconds : ℕ := 120

def replayWindowSeconds : ℕ := 2 * freshSeconds

/-- The distance of the two times is within the freshness window. -/
def isFresh (ts now : UInt64) : Bool :=
  (max now.toNat ts.toNat - min now.toNat ts.toNat) ≤ freshSeconds

/-- The replay window: the requests that were recorded, and when. -/
abbrev Seen := ExtTreeMap String UInt64

def replayKey (nodeId : String) (ts : UInt64) (signature : String) : String :=
  nodeId ++ "|" ++ toString ts.toNat ++ "|" ++ signature

def retained (now : UInt64) (seen : Seen) : Seen :=
  seen.filter fun _ recorded => now.toNat - recorded.toNat < replayWindowSeconds

/-- Records a request, unless it is recorded. -/
def isReplayed (seen : Seen) (key : String) (now : UInt64) : Bool × Seen :=
  let kept := retained now seen
  if kept.contains key then (true, kept) else (false, kept.insert key now)

/-- The path for a node without a verified roster, with the inner request if there is one. -/
def legacy (crates : Crates) (inbound : Inbound) (why : String) : Admission :=
  match MeshCall.parse crates inbound.body with
  | some call => .legacy call.innerBody call.innerHeaders (why ++ ":legacy_pins")
  | none => .legacy inbound.body inbound.headers why

structure Authentic where
  call : MeshCall
  caller : RosterNode
  ts : UInt64
  signature : String
  roster : Roster
  policy : MeshPolicy

def orAnswer {Value : Type} (value : Option Value) (answer : Admission) : Except Admission Value :=
  value.elim (.error answer) .ok

/-- The checks up to the signature, in their order. -/
def authenticate (crates : Crates) (arrival : Arrival) : Except Admission Authentic :=
  let inbound := arrival.inbound
  if !isMesh inbound.headers then .error (.legacy inbound.body inbound.headers "not_mesh")
  else
    match arrival.files with
    | .error fault => .error (legacy crates inbound ("roster_unreadable:" ++ fault))
    | .ok (roster, policy) =>
        match roster.verify crates.signatures policy.rosterKey arrival.now with
        | .error fault => .error (legacy crates inbound ("roster_unverified:" ++ fault))
        | .ok () => do
            let call ← orAnswer (MeshCall.parse crates inbound.body) (.refuse 400 "bad_request")
            if (inbound.header "x-wa-node").getD "" ≠ call.fromNodeId then
              .error (.refuse 400 "bad_request")
            else
              let caller ← orAnswer (roster.node call.fromNodeId) (.refuse 403 "unknown_caller")
              if (inbound.header "x-wa-pub").getD "" ≠ caller.publicKey then
                .error (.refuse 401 "bad_signature")
              else
                let ts ← orAnswer ((inbound.header "x-wa-ts").bind State.parseU64)
                  (.refuse 400 "bad_request")
                let signature := (inbound.header "x-wa-sig").getD ""
                if !crates.signatures.verify caller.publicKey
                    (MeshCall.callMessage call.fromNodeId ts inbound.body) signature then
                  .error (.refuse 401 "bad_signature")
                else .ok ⟨call, caller, ts, signature, roster, policy⟩

/-- The checks after the replay window. -/
def conclude (arrival : Arrival) (authentic : Authentic) : Admission :=
  let call := authentic.call
  if call.toNodeId ≠ arrival.nodeId then .refuse 403 "wrong_target"
  else
    match authentic.roster.node arrival.nodeId with
    | none => .refuse 503 "handler_unavailable"
    | some target =>
        let verb := Verb.fromCapability call.capability
        let verdict := authorize authentic.policy authentic.caller target verb arrival.now
        if !verdict.allow then .denied call.requestId verdict verb
        else
          .allow ⟨authentic.caller, target, verb, verdict, call.capability, call.args,
            call.requestId, call.innerBody, call.innerHeaders, arrival.inbound.transport⟩

def decide (crates : Crates) (arrival : Arrival) (seen : Seen) : Admission × Seen :=
  match authenticate crates arrival with
  | .error answer => (answer, seen)
  | .ok authentic =>
      if !isFresh authentic.ts arrival.now then (.refuse 408 "stale_request", seen)
      else
        let replayed := isReplayed seen
          (replayKey authentic.caller.nodeId authentic.ts authentic.signature) arrival.now
        if replayed.1 then (.refuse 409 "replayed_request", replayed.2)
        else (conclude arrival authentic, replayed.2)

/-- The decisions on requests that arrive one after another in one process. -/
def decideAll (crates : Crates) : List Arrival → Seen → List Admission
  | [], _ => []
  | arrival :: arrivals, seen =>
      (decide crates arrival seen).1 :: decideAll crates arrivals (decide crates arrival seen).2

end WasmAgent.Mesh
