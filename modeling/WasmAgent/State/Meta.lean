import WasmAgent.State.Batch

/-!
# The reserved meta keys

The identity of a component, the metadata of its namespace as decimal and plain
text under the reserved keys, and the writes that set it.
-/

namespace WasmAgent.State

open Std WasmAgent.Core

/-- `to_string` of a number, as bytes. -/
def decimal (number : ℕ) : Bytes := utf8 (toString number)

/-- A number may start with a plus sign. -/
def dropPlus : List Char → List Char
  | '+' :: rest => rest
  | all => all

/-- `str::parse::<u64>`. -/
def parseU64 (text : String) : Option UInt64 :=
  let digits := dropPlus text.toList
  if digits ≠ [] ∧ digits.all Char.isDigit ∧
      Nat.ofDigitChars 10 digits 0 < 0x10000000000000000 then
    some (UInt64.ofNat (Nat.ofDigitChars 10 digits 0))
  else
    none

def isAsciiDigit (byte : UInt8) : Bool := 0x30 ≤ byte && byte ≤ 0x39

def isAsciiAlphanumeric (byte : UInt8) : Bool :=
  isAsciiDigit byte || (0x41 ≤ byte && byte ≤ 0x5a) || (0x61 ≤ byte && byte ≤ 0x7a)

/-- A plain name: letters, digits, `-`, `_` and `.`. -/
def ident (text : String) : Bool :=
  let bytes := utf8 text
  !bytes.isEmpty && bytes.length ≤ 100 &&
    bytes.all (fun byte =>
      isAsciiAlphanumeric byte || byte == 0x2d || byte == 0x5f || byte == 0x2e)

/-- `major.minor.patch` with an optional suffix after `-` or `+`. -/
def isSemver (text : String) : Bool :=
  let bytes := utf8 text
  let numbers := (bytes.takeWhile (fun byte => byte != 0x2d && byte != 0x2b)).splitOn 0x2e
  numbers.length == 3 &&
    numbers.all (fun number => !number.isEmpty && number.all isAsciiDigit) &&
    match bytes.dropWhile (fun byte => byte != 0x2d && byte != 0x2b) with
    | [] => true
    | _ :: suffix =>
        !suffix.isEmpty && suffix.all (fun byte =>
          isAsciiAlphanumeric byte || byte == 0x2e || byte == 0x2d)

/-- A lowercase hex digest of 32 bytes. -/
def isSha256 (text : String) : Bool :=
  let bytes := utf8 text
  bytes.length == 64 && bytes.all (fun byte => isAsciiDigit byte || (0x61 ≤ byte && byte ≤ 0x66))

/-- Who is asking. -/
structure ComponentInfo where
  id : String
  version : String
  sha256 : String
  deriving DecidableEq

def ComponentInfo.validate (info : ComponentInfo) : Except Error Unit :=
  if !ident info.id then
    .error (.corrupt ("component id " ++ info.id.quote ++ " is not a plain name"))
  else if !isSemver info.version then
    .error (.corrupt ("component version " ++ info.version.quote ++ " is not semver"))
  else if !isSha256 info.sha256 then
    .error (.corrupt "component pin is not a lowercase sha256 hex digest")
  else
    .ok ()

/-- The metadata of one namespace. -/
structure Meta where
  schemaVersion : UInt32
  component : String
  componentVersion : String
  lastMigratedBy : String
  createdAtMs : UInt64
  lastMigratedAtMs : UInt64
  deriving DecidableEq

namespace Meta

/-- The name of a meta key in an error. -/
def textKey (key : Bytes) : String :=
  if key = Key.schemaVersion then "schema"
  else if key = Key.component then "component"
  else if key = Key.componentVersion then "component-version"
  else if key = Key.lastMigratedBy then "last-migrated-by"
  else if key = Key.lastMigratedAt then "last-migrated-at"
  else if key = Key.createdAt then "created-at"
  else if key = Key.updatedAt then "updated-at"
  else "key"

def text (store : Namespace) (key : Bytes) : Except Error String :=
  match store.get key with
  | some bytes =>
      match String.fromUTF8? ⟨bytes.toArray⟩ with
      | some text => .ok text
      | none => .error (.corrupt ("meta " ++ textKey key ++ " is not utf-8"))
  | none => .error (.corrupt ("meta " ++ textKey key ++ " is missing"))

def number (store : Namespace) (key : Bytes) : Except Error UInt64 := do
  let raw ← text store key
  match parseU64 raw with
  | some value => .ok value
  | none => .error (.corrupt ("meta " ++ textKey key ++ " is not a number"))

/-- `u64` to `u32`, for the schema version. -/
def narrow (value : UInt64) : Except Error UInt32 :=
  if value.toNat < 0x100000000 then .ok (UInt32.ofNat value.toNat)
  else .error (.corrupt "schema version does not fit u32")

/-- The metadata, or `none` where the namespace was never initialised. -/
def read (store : Namespace) : Except Error (Option Meta) :=
  if store.get Key.schemaVersion = none then
    if store.get Key.component ≠ none then
      .error (.corrupt "meta has a component but no schema version")
    else
      .ok none
  else do
    let schema ← number store Key.schemaVersion
    let schemaVersion ← narrow schema
    let component ← text store Key.component
    let componentVersion ← text store Key.componentVersion
    let lastMigratedBy ← text store Key.lastMigratedBy
    let createdAtMs ← number store Key.createdAt
    let lastMigratedAtMs ← number store Key.lastMigratedAt
    if !ident component || !isSha256 lastMigratedBy then
      .error (.corrupt "meta component or pin is malformed")
    else if !isSemver componentVersion then
      .error (.corrupt "meta component version is not semver")
    else
      .ok (some ⟨schemaVersion, component, componentVersion, lastMigratedBy, createdAtMs,
        lastMigratedAtMs⟩)

def writes (info : Meta) (now : UInt64) : List Change :=
  [.put Key.schemaVersion (decimal info.schemaVersion.toNat),
    .put Key.component (utf8 info.component),
    .put Key.componentVersion (utf8 info.componentVersion),
    .put Key.lastMigratedBy (utf8 info.lastMigratedBy),
    .put Key.lastMigratedAt (decimal info.lastMigratedAtMs.toNat),
    .put Key.createdAt (decimal info.createdAtMs.toNat),
    .put Key.updatedAt (decimal now.toNat)]

/-- The commit of a step. -/
def schemaWrites (version : UInt32) (now : UInt64) : List Change :=
  [.put Key.schemaVersion (decimal version.toNat), .put Key.updatedAt (decimal now.toNat)]

end Meta

def writeAll : List Change → Call Unit
  | [] => return ()
  | change :: changes => do
      Fallible.write change
      writeAll changes

def Meta.write (info : Meta) (now : UInt64) : Call Unit := writeAll (info.writes now)

def Meta.setSchemaVersion (version : UInt32) (now : UInt64) : Call Unit :=
  writeAll (Meta.schemaWrites version now)

def userKeys (store : Namespace) : List Bytes :=
  (store.toList.map Prod.fst).filter (fun key => !isReserved key)

section Texts

theorem parseU64_toString (value : UInt64) : parseU64 (toString value.toNat) = some value := by
  have hlist : (toString value.toNat).toList = Nat.toDigits 10 value.toNat := by
    rw [Nat.toString_eq_repr, Nat.toList_repr]
  have hdig : ∀ char ∈ Nat.toDigits 10 value.toNat, char.isDigit := by
    intro char hchar
    exact Nat.isDigit_of_mem_toDigits (by decide) (by decide) hchar
  have hpln : dropPlus (Nat.toDigits 10 value.toNat) = Nat.toDigits 10 value.toNat := by
    unfold dropPlus
    split
    · next rest heq =>
      have hplus := hdig '+' (by rw [heq]; exact List.mem_cons_self)
      exact absurd hplus (by decide)
    · rfl
  have hval : Nat.ofDigitChars 10 (Nat.toDigits 10 value.toNat) 0 = value.toNat :=
    Nat.ofDigitChars_ten_toDigits
  unfold parseU64
  rw [hlist]
  dsimp only
  rw [hpln, hval, if_pos, UInt64.ofNat_toNat]
  exact ⟨Nat.toDigits_ne_nil, List.all_eq_true.mpr hdig, value.toNat_lt⟩

theorem text_of_get {store : Namespace} {key : Bytes} {content : String}
    (hget : store.get key = some (utf8 content)) : Meta.text store key = .ok content := by
  rw [Meta.text, hget]
  dsimp only
  rw [fromUTF8_utf8]

theorem number_of_get {store : Namespace} {key : Bytes} {value : UInt64}
    (hget : store.get key = some (decimal value.toNat)) : Meta.number store key = .ok value := by
  rw [Meta.number, text_of_get hget]
  change (match parseU64 (toString value.toNat) with | some value => _ | none => _) = _
  rw [parseU64_toString]

end Texts

end WasmAgent.State
