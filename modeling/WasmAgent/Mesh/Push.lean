import WasmAgent.Core.Effect
import WasmAgent.Mesh.Admission

/-!
# Pushing a roster

A push verifies a signed roster, pins its key in the node's policy and then puts the roster
beside it: two files, written one after the other, that the node's admission reads together.
-/

namespace WasmAgent.Mesh

open List WasmAgent.Core

/-- The `mesh` section of a policy, with the roster file it points at. -/
structure MeshSection where
  policy : MeshPolicy
  roster : Option String

/-- `policy.json`: a document, or what it could not be read for. -/
inductive PolicyFile where
  | absent
  | unreadable (why : String)
  | document (value : Json)

/-- The files that a push writes, and other files by their paths. -/
structure NodeDisk where
  policy : PolicyFile
  backup : Option Json
  roster : Option String
  env : Option String
  elsewhere : String → Option String

structure PushRequest where
  config : String
  roster : String
  rosterKey : String
  targetNodeId : String
  replaceKeySignature : Option String

structure Refusal where
  code : String
  detail : String

structure PushCrates where
  signatures : Signatures
  readRoster : String → Except String Roster

def rosterFile : String := "mesh-roster.json"

/-- `trim`. -/
def trimmed (text : String) : String := String.ofList (Queue.trim text.toList)

/-- `to_ascii_lowercase`. -/
def lowered (text : String) : String := String.ofList (text.toList.map Char.toLower)

section Fields

def insertField (name : String) (value : Json) : List (String × Json) → List (String × Json)
  | [] => [(name, value)]
  | (other, old) :: fields =>
      if name = other then (name, value) :: fields
      else if name < other then (name, value) :: (other, old) :: fields
      else (other, old) :: insertField name value fields

theorem field?_insertField (name other : String) (value : Json) (fields : List (String × Json)) :
    (Json.object (insertField name value fields)).field? other =
      if other = name then some value else (Json.object fields).field? other := by
  have hcons : ∀ (found : String) (old : Json) (rest : List (String × Json)),
      (Json.object ((found, old) :: rest)).field? other =
        if other = found then some old else (Json.object rest).field? other := by
    intro found old rest
    rw [Json.field?, Json.field?, find?_cons]
    by_cases hfnd : other = found
    · rw [if_pos hfnd, decide_eq_true hfnd.symm]
      rfl
    · rw [if_neg hfnd, decide_eq_false (Ne.symm hfnd)]
  induction fields with
  | nil => exact hcons name value []
  | cons field fields ih =>
    obtain ⟨found, old⟩ := field
    rw [insertField]
    by_cases hsame : name = found
    · rw [if_pos hsame, hcons, hcons, hsame]
      split <;> rfl
    rw [if_neg hsame]
    by_cases hlt : name < found
    · rw [if_pos hlt, hcons]
    rw [if_neg hlt, hcons, hcons, ih]
    by_cases hfnd : other = found
    · rw [if_pos hfnd, if_pos hfnd, if_neg (fun hname => hsame (hname.symm.trans hfnd))]
    · rw [if_neg hfnd, if_neg hfnd]

theorem all_insertField {known : String → Bool} {name : String} (hname : known name = true)
    (value : Json) (fields : List (String × Json)) :
    (insertField name value fields).all (fun field => known field.1) =
      fields.all (fun field => known field.1) := by
  induction fields with
  | nil =>
    rw [insertField, all_cons, hname]
    rfl
  | cons field fields ih =>
    obtain ⟨found, old⟩ := field
    rw [insertField]
    by_cases hsame : name = found
    · rw [if_pos hsame, all_cons, all_cons, hsame]
    rw [if_neg hsame]
    by_cases hlt : name < found
    · rw [if_pos hlt, all_cons, hname, Bool.true_and]
    · rw [if_neg hlt, all_cons, all_cons, ih]

end Fields

section Policies

def optionalText : Option Json → Option (Option String)
  | none => some none
  | some .null => some none
  | some (.string text) => some (some text)
  | some _ => none

def readPattern (value : Option Json) : Option Grant.Pattern :=
  (value.bind Json.asStr).bind (fun raw => (Grant.Pattern.parse raw).toOption)

def readEffect : Option Json → Option Grant.Effect
  | none => some .allow
  | some (.string text) =>
      if text = "allow" then some .allow else if text = "deny" then some .deny else none
  | some _ => none

def grantFields : List String := ["caller", "target", "verb", "effect", "note"]

def readGrant : Json → Option MeshGrant
  | .object fields =>
      if fields.all (fun field => field.1 ∈ grantFields) then do
        let caller ← readPattern ((Json.object fields).field? "caller")
        let target ← readPattern ((Json.object fields).field? "target")
        let verb ← readPattern ((Json.object fields).field? "verb")
        let effect ← readEffect ((Json.object fields).field? "effect")
        let note ← optionalText ((Json.object fields).field? "note")
        if (note.getD "").toList.any Queue.isControl || 240 < (utf8 (note.getD "")).length then none
        else some ⟨caller, target, verb, effect, note⟩
      else none
  | _ => none

def readGrants : Option Json → Option (List MeshGrant)
  | none => some []
  | some (.array items) => items.mapM readGrant
  | some _ => none

def sectionFields : List String := ["version", "roster_key", "roster", "enabled", "grants"]

def grantsOf (fields : List (String × Json)) : Option (List MeshGrant) :=
  if fields.all (fun field => field.1 ∈ sectionFields) then
    readGrants ((Json.object fields).field? "grants")
  else none

def readVersion : Option Json → Option UInt64
  | some (.number (.unsigned value)) => if value.toNat < 0x100000000 then some value else none
  | _ => none

def readKey : Option Json → Option String
  | none => some ""
  | some (.string text) => some text
  | some _ => none

def readFlag : Option Json → Option Bool
  | none => some false
  | some (.bool flag) => some flag
  | some _ => none

def keyOk (key : String) : Bool :=
  key.isEmpty || ((utf8 key).length = 64 && key.toList.all (fun char => (hexDigit char).isSome))

/-- `MeshPolicy`, read from the section and checked. -/
def readSection : Json → Option MeshSection
  | .object fields => do
      let grants ← grantsOf fields
      let version ← readVersion ((Json.object fields).field? "version")
      let key ← readKey ((Json.object fields).field? "roster_key")
      let roster ← optionalText ((Json.object fields).field? "roster")
      let _ ← readFlag ((Json.object fields).field? "enabled")
      if version = 1 && keyOk key then some ⟨⟨key, grants⟩, roster⟩ else none
  | _ => none

/-- `MeshPolicy::from_policy_text`: without a section, there is no key and no grant. -/
def readPolicyText (value : Json) : Option MeshSection :=
  match value.field? "mesh" with
  | none => some ⟨⟨"", []⟩, none⟩
  | some .null => some ⟨⟨"", []⟩, none⟩
  | some found => readSection found

end Policies

section Admissions

variable (crates : PushCrates) (fallback : String)

/-- `Roster::parse`. -/
def parseRoster (text : String) : Except String Roster := do
  let roster ← (crates.readRoster text).mapError ("not a valid roster: " ++ ·)
  roster.validate
  return roster

/-- The file at a path: a push writes the one in the config directory. -/
def fileAt (disk : NodeDisk) (path : String) : Option String :=
  if path = rosterFile then disk.roster else disk.elsewhere path

def rosterPath (configured : Option String) : String :=
  match configured with
  | none => fallback
  | some path => if trimmed path = "" then fallback else trimmed path

/-- `NodeFiles::load`, without the words of what went wrong. -/
def load (disk : NodeDisk) : Option (Roster × MeshPolicy) :=
  match disk.policy with
  | .document value => do
      let found ← readPolicyText value
      let text ← fileAt disk (rosterPath fallback found.roster)
      let roster ← (parseRoster crates text).toOption
      return (roster, found.policy)
  | _ => none

/-- What decides at a time: a verified roster with the node's grants, or the pins. -/
def ruling (files : Option (Roster × MeshPolicy)) (now : UInt64) :
    Option (Roster × List MeshGrant) :=
  match files with
  | some (roster, policy) =>
      match roster.verify crates.signatures policy.rosterKey now with
      | .ok () => some (roster, policy.grants)
      | .error _ => none
  | none => none

def admission (disk : NodeDisk) (now : UInt64) : Option (Roster × List MeshGrant) :=
  ruling crates (load crates fallback disk) now

end Admissions

section Installing

variable (crates : PushCrates)

def pinnedKey (policy : Json) : Option String :=
  ((((policy.field? "mesh").bind (·.field? "roster_key")).bind Json.asStr).map
    (fun key => lowered (trimmed key))).filter (· ≠ "")

def readPolicy : PolicyFile → Except String (Json × Option Json)
  | .absent => .ok (.object [], none)
  | .unreadable why => .error why
  | .document (.object fields) => .ok (.object fields, some (.object fields))
  | .document _ => .error "policy.json is not a JSON object"

def mergeSection (fields : List (String × Json)) (key : String) : List (String × Json) :=
  insertField "roster" (.string rosterFile) (insertField "enabled" (.bool true)
    (insertField "roster_key" (.string key) (insertField "version" (.number (.unsigned 1)) fields)))

def mergePolicy (policy : Json) (key : String) : Except String Json :=
  match policy with
  | .object fields =>
      match ((Json.object fields).field? "mesh").getD (.object []) with
      | .object found => .ok (.object (insertField "mesh" (.object (mergeSection found key)) fields))
      | _ => .error "the mesh section of policy.json is not an object"
  | _ => .error "policy.json is not a JSON object"

def fingerprint (roster : Roster) : String :=
  String.ofList ((sha256Hex roster.canonical).toList.take 16)

def anchorMessage (key : String) (roster : Roster) : String :=
  "mesh-anchor-v1|" ++ key ++ "|" ++ fingerprint roster

/-- What a push that passed its checks is about to write. -/
structure PushPlan where
  key : String
  roster : Roster
  text : String
  previous : Option String
  merged : Json
  backup : Option Json

/-- A key other than the pinned one needs a signature made with the pinned one. -/
def checkAnchor (request : PushRequest) (key : String) (roster : Roster) :
    Option String → Except Refusal Unit
  | none => .ok ()
  | some previous =>
      if previous = key then .ok ()
      else if request.replaceKeySignature.getD "" = "" then
        .error ⟨"roster_pins_different_key", "this node already pins another fleet key; pass " ++
          "--replace-key with the old key's signature to re-anchor it"⟩
      else if !crates.signatures.verify previous (anchorMessage key roster)
          (request.replaceKeySignature.getD "") then
        .error ⟨"roster_replace_key_unverified", "the re-anchoring signature does not verify " ++
          "against the key this node pins now"⟩
      else .ok ()

/-- The checks of a push, before it writes. -/
def planPush (request : PushRequest) (now : UInt64) (disk : NodeDisk) : Except Refusal PushPlan :=
  if trimmed request.config = "" then
    .error ⟨"config_required", "no target config directory"⟩
  else if lowered (trimmed request.rosterKey) = "" then
    .error ⟨"roster_key_missing", "the fleet public key is required"⟩
  else do
    let key := lowered (trimmed request.rosterKey)
    let roster ← (parseRoster crates request.roster).mapError (⟨"roster_unverified", ·⟩)
    (roster.verify crates.signatures key now).mapError (⟨"roster_unverified", ·⟩)
    if (roster.node request.targetNodeId).isNone then
      .error ⟨"roster_missing_target",
        "the roster does not contain the node it is being installed on"⟩
    else
      let (policy, backup) ← (readPolicy disk.policy).mapError (⟨"policy_unreadable", ·⟩)
      checkAnchor crates request key roster (pinnedKey policy)
      let merged ← (mergePolicy policy key).mapError (⟨"policy_unreadable", ·⟩)
      return ⟨key, roster, request.roster, pinnedKey policy, merged, backup⟩

def linesOf (text : String) : List (List Char) := text.toList.splitBy (fun left _ => left ≠ '\n')

/-- The line sets the flag, to whatever value. -/
def mentionsMesh (line : List Char) : Bool :=
  let line := Queue.trim line
  line.head? ≠ some '#' && String.ofList (Queue.trim (line.takeWhile (· ≠ '='))) = "WA_MESH"

/-- The env file with the flag, unless it is set already. -/
def enabledEnv (env : Option String) : Option String :=
  let text := env.getD ""
  if (linesOf text).any mentionsMesh then none
  else if text = "" || text.toList.getLast? = some '\n' then some (text ++ "WA_MESH=1\n")
  else some (text ++ "\n" ++ "WA_MESH=1\n")

structure PushWrites where
  backup : Except String Unit
  policy : Except String Unit
  roster : Except String Unit
  env : Except String Unit

structure Installed where
  fleet : String
  fingerprint : String
  nodes : ℕ
  rosterKey : String
  previousKey : Option String
  env : String
  rosterEntries : List String
  written : List String

def writeAtomic (answer : Except String Unit) (code : String) (change : NodeDisk → NodeDisk) :
    Effect NodeDisk Refusal Unit := do
  Effect.lift (answer.mapError (⟨code, ·⟩))
  Effect.write change

/-- The policy as it was, kept beside the one that is about to be written. -/
def backUp (plan : PushPlan) (disk : NodeDisk) : NodeDisk :=
  match plan.backup with
  | some document => { disk with backup := some document }
  | none => disk

def pin (plan : PushPlan) (disk : NodeDisk) : NodeDisk :=
  { disk with policy := .document plan.merged }

def place (plan : PushPlan) (disk : NodeDisk) : NodeDisk := { disk with roster := some plan.text }

def enable (disk : NodeDisk) : NodeDisk := { disk with env := (enabledEnv disk.env).or disk.env }

def envAnswer (writes : PushWrites) (disk : NodeDisk) : String × Bool :=
  match enabledEnv disk.env, writes.env with
  | none, _ => ("kept: the env file already names WA_MESH", false)
  | some _, .ok () => ("appended WA_MESH=1", true)
  | some _, .error why => ("not written: " ++ why, false)

def enableEnv (writes : PushWrites) : Effect NodeDisk Refusal (String × Bool) := do
  let disk ← Effect.read
  Effect.write (fun disk => if (envAnswer writes disk).2 then enable disk else disk)
  return envAnswer writes disk

def answerOf (plan : PushPlan) (env : String × Bool) : Installed where
  fleet := plan.roster.fleet
  fingerprint := fingerprint plan.roster
  nodes := plan.roster.nodes.length
  rosterKey := plan.key
  previousKey := plan.previous.filter (· ≠ plan.key)
  env := env.1
  rosterEntries := plan.roster.nodes.map (fun node =>
    node.name ++ ":" ++ toString node.level.toNat)
  written := (if plan.backup.isSome then ["policy.prev.json"] else []) ++
    ["policy.json", rosterFile] ++ if env.2 then ["env"] else []

def carryOut (writes : PushWrites) (plan : PushPlan) : Effect NodeDisk Refusal Installed := do
  if plan.backup.isSome then
    writeAtomic writes.backup "policy_backup_failed" (backUp plan)
  else pure ()
  writeAtomic writes.policy "policy_write_failed" (pin plan)
  writeAtomic writes.roster "roster_write_failed" (place plan)
  let env ← enableEnv writes
  return answerOf plan env

/-- `PushRequest::install`. -/
def install (request : PushRequest) (now : UInt64) (writes : PushWrites) :
    Effect NodeDisk Refusal Installed := do
  let disk ← Effect.read
  let plan ← Effect.lift (planPush crates request now disk)
  carryOut writes plan

end Installing

end WasmAgent.Mesh
