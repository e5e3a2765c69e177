import WasmAgent.Core.Json
import WasmAgent.Core.Sha256
import WasmAgent.Grant.Policy
import WasmAgent.Queue.Types
import WasmAgent.State.Meta

/-!
# The roster

The operator's signed list of nodes and their levels, the grants of a node's own policy, and the
rule of who may command whom.
-/

namespace WasmAgent.Mesh

open WasmAgent.Core

/-! ## Node identities

Keys and signatures travel as hex text; a node's id is derived from its key.  Signatures are
ideal: a message has at most one, made with one key.
-/

def hexDigits (byte : UInt8) : List Char :=
  [Nat.digitChar (byte.toNat / 16), Nat.digitChar (byte.toNat % 16)]

def hex (bytes : List UInt8) : String := String.ofList (bytes.flatMap hexDigits)

/-- `u8::from_str_radix` of two characters: a plus sign may stand before one digit. -/
def hexPair (high low : Char) : Option UInt8 :=
  if high = '+' then (hexDigit low).map UInt8.ofNat
  else do
    let first ← hexDigit high
    let second ← hexDigit low
    some (UInt8.ofNat (first * 16 + second))

def unhexPairs : List Char → Option (List UInt8)
  | [] => some []
  | [_] => none
  | high :: low :: rest => do
      let byte ← hexPair high low
      let bytes ← unhexPairs rest
      some (byte :: bytes)

/-- The bytes of a hex text, in either case and between blanks. -/
def unhex (text : String) : Option (List UInt8) :=
  let trimmed := Queue.trim text.toList
  if trimmed.any fun char => 0x80 ≤ char.toNat then none else unhexPairs trimmed

def sha256Hex (text : String) : String := hex (Sha256.digest (utf8 text))

def deriveNodeId (publicKey : String) : Option String :=
  (unhex publicKey).map fun key => String.ofList ((hex (Sha256.digest key)).toList.take 32)

structure Signatures where
  signed : List UInt8 → Option (List UInt8 × List UInt8)

def Signatures.verify (signatures : Signatures) (publicKey message signature : String) : Bool :=
  match unhex publicKey, unhex signature with
  | some key, some bytes => signatures.signed (utf8 message) = some (key, bytes)
  | _, _ => false

theorem Signatures.verify_unhex {signatures : Signatures} {message : String}
    {firstKey secondKey firstSignature secondSignature : String}
    (hfst : signatures.verify firstKey message firstSignature = true)
    (hsnd : signatures.verify secondKey message secondSignature = true) :
    unhex firstKey = unhex secondKey ∧ unhex firstSignature = unhex secondSignature := by
  rw [verify] at hfst hsnd
  split at hfst
  · next key bytes hkey hbs =>
    split at hsnd
    · next other more hoth hmore =>
      have hsame := (of_decide_eq_true hfst).symm.trans (of_decide_eq_true hsnd)
      cases hsame
      exact ⟨hkey.trans hoth.symm, hbs.trans hmore.symm⟩
    · cases hsnd
  · cases hfst

def maxLevel : UInt8 := 9

def maxAddresses : ℕ := 8

def futureSkewSeconds : ℕ := 300

structure RosterNode where
  nodeId : String
  publicKey : String
  name : String
  level : UInt8
  addresses : List String
  revokedAt : UInt64
  deriving DecidableEq

def RosterNode.isRevoked (node : RosterNode) (now : UInt64) : Bool :=
  node.revokedAt ≠ 0 && node.revokedAt ≤ now

structure Roster where
  version : UInt32
  fleet : String
  issuedAt : UInt64
  expiresAt : UInt64
  nodes : List RosterNode
  signature : String
  deriving DecidableEq

def checkHex (place text : String) (length : ℕ) : Except String Unit :=
  if (utf8 text).length ≠ length then
    .error (place ++ ":expected_" ++ toString length ++ "_hex_characters")
  else if text.toList.any (fun char => (hexDigit char).isNone) || (unhex text).isNone then
    .error (place ++ ":not_hex")
  else .ok ()

def checkAddress (address : String) : Except String Unit :=
  let trimmed := Queue.trim address.toList
  let port := (trimmed.reverse.takeWhile (· ≠ ':')).reverse
  let host := trimmed.take (trimmed.length - port.length - 1)
  if trimmed.isEmpty || 253 < (utf8 (String.ofList trimmed)).length ||
      trimmed.any (fun char => Queue.isWhitespace char || Queue.isControl char) then
    .error ("bad_address:" ++ address)
  else if !trimmed.contains ':' || host.isEmpty || port.isEmpty then
    .error ("bad_address:" ++ address ++ " (expected host:port)")
  else
    match State.parseU64 (String.ofList port) with
    | some number =>
        if number = 0 || 65535 < number then
          .error ("bad_address:" ++ address ++ " (port must be 1..=65535)")
        else .ok ()
    | none => .error ("bad_address:" ++ address ++ " (port must be 1..=65535)")

def checkNode (seen : List String) (node : RosterNode) : Except String (List String) := do
  checkHex "nodes.node_id" node.nodeId 32
  checkHex "nodes.public_key" node.publicKey 64
  if deriveNodeId node.publicKey ≠ some node.nodeId then .error ("node_id_mismatch:" ++ node.name)
  else if (Queue.trim node.name.toList).isEmpty || 64 < (utf8 node.name).length then
    .error "nodes.name must be 1..=64 bytes"
  else if node.name.toList.any Queue.isControl then
    .error "nodes.name must not contain control characters"
  else if maxLevel < node.level then
    .error ("level_out_of_range:" ++ node.name ++ " (0..=9)")
  else if maxAddresses < node.addresses.length then .error ("too_many_addresses:" ++ node.name)
  else
    node.addresses.forM checkAddress
    if node.nodeId ∈ seen then .error ("duplicate_node:" ++ node.nodeId)
    else .ok (node.nodeId :: seen)

/-- Texts between brackets, with commas between them. -/
def listText (items : List (List Char)) : List Char := '[' :: List.intercalate [','] items ++ [']']

def nodeText (node : RosterNode) : List Char :=
  printField '\x7b' "node_id" (printString node.nodeId) <|
    printField ',' "public_key" (printString node.publicKey) <|
    printField ',' "name" (printString node.name) <|
    printField ',' "level" (printNumber node.level.toNat) <|
    printField ',' "addresses" (listText (node.addresses.map printString)) <|
    printField ',' "revoked_at" (printNumber node.revokedAt.toNat) ['\x7d']

namespace Roster

def validate (roster : Roster) : Except String Unit :=
  if roster.version ≠ 1 then
    .error ("version " ++ toString roster.version ++ " (this build speaks 1)")
  else if (Queue.trim roster.fleet.toList).isEmpty then .error "fleet must not be empty"
  else if roster.fleet.toList.any Queue.isControl || 64 < (utf8 roster.fleet).length then
    .error "fleet must be short text without control characters"
  else (roster.nodes.foldlM checkNode []).map fun _ => ()

/-- The bytes the operator signs. -/
def canonical (roster : Roster) : String :=
  "mesh-roster-v1|" ++ roster.fleet ++ "|" ++ toString roster.issuedAt.toNat ++ "|" ++
    toString roster.expiresAt.toNat ++ "|" ++
    String.ofList (printField '\x7b' "nodes" (listText (roster.nodes.map nodeText)) ['\x7d'])

def verify (signatures : Signatures) (roster : Roster) (fleetKey : String) (now : UInt64) :
    Except String Unit := do
  if (Queue.trim fleetKey.toList).isEmpty then .error "roster_key_missing"
  else
    checkHex "mesh.roster_key" fleetKey 64
    if !signatures.verify fleetKey roster.canonical roster.signature then
      .error "roster_unverified:bad_signature"
    else if min (now.toNat + futureSkewSeconds) 0xFFFFFFFFFFFFFFFF < roster.issuedAt.toNat then
      .error "roster_not_yet_valid"
    else if roster.expiresAt ≠ 0 && roster.expiresAt ≤ now then .error "roster_expired"
    else roster.validate

/-- `eq_ignore_ascii_case`. -/
def sameLetters (left right : String) : Bool :=
  left.toList.map Char.toLower = right.toList.map Char.toLower

def node (roster : Roster) (selector : String) : Option RosterNode :=
  (roster.nodes.find? fun node => node.nodeId = selector).orElse fun _ =>
    roster.nodes.find? fun node => sameLetters node.name selector

end Roster

structure MeshGrant where
  caller : Grant.Pattern
  target : Grant.Pattern
  verb : Grant.Pattern
  effect : Grant.Effect
  note : Option String

structure MeshPolicy where
  rosterKey : String
  grants : List MeshGrant

/-- How much authority a capability needs. -/
inductive Verb where
  | read
  | call
  | control
  deriving DecidableEq

namespace Verb

def readCapabilities : List String :=
  ["read", "read_many", "ls", "grep", "sessions", "session", "search_messages", "recall", "status",
    "health", "capabilities", "list_dir"]

def controlCapabilities : List String :=
  ["bash", "shell", "write", "edit", "client", "chat", "set_role", "set_model", "set_provider",
    "subagent", "spell_save", "spell_run", "access", "federation", "service", "operation"]

def startsWith (start text : String) : Bool := start.toList.isPrefixOf text.toList

def endsWith (ending text : String) : Bool := ending.toList.isSuffixOf text.toList

def fromCapability (capability : String) : Verb :=
  if capability ∈ readCapabilities then read
  else if capability ∈ controlCapabilities then control
  else if startsWith "read" capability || startsWith "grep" capability ||
      endsWith "_status" capability then read
  else if startsWith "write" capability || startsWith "set_" capability ||
      endsWith "_send" capability then control
  else call

def asStr : Verb → String
  | read => "read"
  | call => "call"
  | control => "control"

end Verb

namespace MeshPolicy

def hits (grant : MeshGrant) (caller target verb : String) : Bool :=
  grant.caller.hits caller && grant.target.hits target && grant.verb.hits verb

def grantFor (policy : MeshPolicy) (caller target verb : String) : Option MeshGrant :=
  (policy.grants.find? fun grant => grant.effect = .deny && hits grant caller target verb).orElse
    fun _ => policy.grants.find? fun grant =>
      grant.effect = .allow && hits grant caller target verb

end MeshPolicy

structure Verdict where
  allow : Bool
  reason : String
  detail : String
  deriving DecidableEq

def authorize (policy : MeshPolicy) (caller target : RosterNode) (verb : Verb) (now : UInt64) :
    Verdict :=
  if caller.isRevoked now then ⟨false, "revoked", "caller " ++ caller.name ++ " is revoked"⟩
  else if target.isRevoked now then ⟨false, "revoked", "target " ++ target.name ++ " is revoked"⟩
  else if caller.nodeId = target.nodeId then
    ⟨false, "self_call", "a node does not mesh-call itself"⟩
  else
    match policy.grantFor caller.nodeId target.nodeId verb.asStr with
    | some grant =>
        if grant.effect = .deny then
          ⟨false, "grant_denied", "a deny grant matches caller " ++ caller.name ++ " to target " ++
            target.name ++ " for " ++ verb.asStr⟩
        else
          ⟨true, "grant_allowed",
            if grant.note.getD "" = "" then "granted: " ++ caller.name ++ " -> " ++ target.name ++
              " (" ++ verb.asStr ++ ")"
            else "granted: " ++ grant.note.getD ""⟩
    | none =>
        let callerLevel := caller.name ++ " (level " ++ toString caller.level.toNat ++ ")"
        let targetLevel := target.name ++ " (level " ++ toString target.level.toNat ++ ")"
        if caller.level ≤ target.level then
          ⟨true, "hierarchy_allowed", callerLevel ++ " may call " ++ targetLevel⟩
        else
          ⟨false, "hierarchy_denied",
            callerLevel ++ " may not call upward to " ++ targetLevel ++ " without a grant"⟩

end WasmAgent.Mesh
