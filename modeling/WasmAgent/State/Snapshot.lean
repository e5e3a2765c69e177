import WasmAgent.State.Crates

/-!
# Snapshots

A copy of one namespace: taken entry by entry before a migration writes, and read
back, checked from magic to digest, before an import writes.
-/

namespace WasmAgent.State

open Std WasmAgent.Core

def snapshotMagic : Bytes := utf8 "WASTATE1"
def snapshotFormat : UInt32 := 1
def footerTag : Bytes := utf8 "WST1"
def footerLen : ℕ := 52

/-- What a reader learns about a snapshot. -/
structure SnapshotHeader where
  format : UInt32
  schemaVersion : UInt32
  component : String
  componentVersion : String
  componentSha256 : String
  createdAtMs : UInt64
  entries : ℕ
  bytes : ℕ
  sha256 : String
  deriving DecidableEq

structure Snapshot where
  header : SnapshotHeader
  entries : List (Bytes × Bytes)
  deriving DecidableEq

def scanPage (store : Namespace) (cursor : Option Bytes) (limit : ℕ) : List (Bytes × Bytes) :=
  (store.toList.filter (fun entry => cursor.all (fun key => (compare key entry.1).isLT))).take limit

/-- The loop over pages, each after the last key of the one before. -/
def scanPages (store : Namespace) (limit : ℕ) : ℕ → Option Bytes → List (Bytes × Bytes)
  | 0, _ => []
  | pages + 1, cursor =>
      let page := scanPage store cursor limit
      if page = [] then []
      else page ++ scanPages store limit pages (page.getLast?.map Prod.fst)

def hex (bytes : Bytes) : String :=
  String.ofList (bytes.flatMap (fun byte =>
    [Nat.digitChar (byte.toNat / 16), Nat.digitChar (byte.toNat % 16)]))

def Head.new (schemaVersion : UInt32) (component componentVersion componentSha256 : String)
    (createdAtMs : UInt64) : Except Error Head :=
  if schemaVersion = 0 then
    .error (.corrupt "schema versions start at 1")
  else
    match (⟨component, componentVersion, componentSha256⟩ : ComponentInfo).validate with
    | .error fault => .error fault
    | .ok () =>
        .ok ⟨snapshotFormat, schemaVersion, component, componentVersion, componentSha256,
          createdAtMs⟩

/-- The payload so far, and what its footer will say. -/
structure Payload where
  hashed : Bytes
  entries : ℕ
  bytes : ℕ

namespace Payload

def begin (crates : Crates) (head : Head) : Payload :=
  let json := crates.printHead head
  ⟨littleEndian 4 json.length ++ json, 0, 0⟩

def entry (payload : Payload) (key value : Bytes) (maxBytes : ℕ) : Except Error Payload :=
  if isReserved key then
    .error (.corrupt "a snapshot entry addresses a reserved meta key")
  else
    match checkSize key (some value) with
    | .error fault => .error fault
    | .ok () =>
        let added := key.length + value.length
        if maxBytes < payload.bytes + added then
          .error (.limit "snapshot" maxBytes (payload.bytes + added))
        else
          .ok ⟨payload.hashed ++ littleEndian 4 key.length ++ key ++
            littleEndian 4 value.length ++ value, payload.entries + 1, payload.bytes + added⟩

/-- The loop of `take` over the entries read, reserved keys left out. -/
def collect (maxBytes : ℕ) : List (Bytes × Bytes) → Payload → Except Error Payload
  | [], payload => .ok payload
  | (key, value) :: entries, payload =>
      if isReserved key then
        collect maxBytes entries payload
      else
        match payload.entry key value maxBytes with
        | .error fault => .error fault
        | .ok payload => collect maxBytes entries payload

end Payload

namespace Snapshot

/-- The whole namespace, under the identity that `info` gives. -/
def take (crates : Crates) (info : Meta) (now : UInt64) (maxBytes : ℕ) (store : Namespace) :
    Except Error Snapshot := do
  let head ← Head.new info.schemaVersion info.component info.componentVersion
    info.lastMigratedBy now
  let entries := scanPages store 512 (store.size + 1) none
  let payload ← Payload.collect maxBytes entries (Payload.begin crates head)
  return {
    header := {
      format := snapshotFormat
      schemaVersion := head.schemaVersion
      component := head.component
      componentVersion := head.componentVersion
      componentSha256 := head.componentSha256
      createdAtMs := head.createdAtMs
      entries := payload.entries
      bytes := payload.bytes
      sha256 := hex (crates.sha256 payload.hashed) }
    entries := entries.filter (fun entry => !isReserved entry.1) }

def batch (snapshot : Snapshot) : Except Error Batch := Batch.fromEntries snapshot.entries

end Snapshot

structure ReadSnapshot where
  head : Head
  entries : List (Bytes × Bytes)
  header : SnapshotHeader
  deriving DecidableEq

def streamTake (count : ℕ) : Reading Error Bytes :=
  Reader.takeOr (.format "snapshot entry is truncated") (.format "snapshot entry is truncated")
    count

def streamLength : Reading Error ℕ := do
  let bytes ← streamTake 4
  let bytes ← (Reader.array 4 bytes : Except (Stop Error) Bytes)
  return fromLittleEndian bytes

def readEntry : Reading Error (Bytes × Bytes) := do
  let keyLen ← streamLength
  let key ← streamTake keyLen
  let valueLen ← streamLength
  let value ← streamTake valueLen
  if isReserved key then
    throw (.error (.corrupt "snapshot carries a reserved meta key"))
  else do
    let _ ← ((checkSize key (some value)).mapError Stop.error : Except (Stop Error) Unit)
    return (key, value)

/-- The loop over the entries, up to the footer; an entry takes at least eight bytes. -/
def readEntries : ℕ → Reading Error (List (Bytes × Bytes))
  | 0 => return []
  | steps + 1 => do
      let reader ← get
      if reader.offset < reader.buf.length then do
        let entry ← readEntry
        let entries ← readEntries steps
        return entry :: entries
      else
        return []

def readBody (headEnd : ℕ) : Reading Error (List (Bytes × Bytes)) := do
  let _ ← streamTake headEnd
  let reader ← get
  readEntries reader.buf.length

/-- Read and verify a snapshot; nothing is written here. -/
def readSnapshot (crates : Crates) (maxBytes : ℕ) (input : Bytes) :
    Except Error ReadSnapshot := do
  if input.length < 8 then
    throw (.format "snapshot header: failed to fill whole buffer")
  if input.take 8 ≠ snapshotMagic then
    throw (.format "not a wasm-agent state snapshot (bad magic)")
  let payload ← (crates.decompress (input.drop 8) (maxBytes + 1)).mapError Error.format
  if maxBytes < payload.length then
    throw (.limit "snapshot payload" maxBytes payload.length)
  if payload.length < footerLen then
    throw (.format "snapshot is too short for its footer")
  let footStart := payload.length - footerLen
  let headEnd := 4 + fromLittleEndian (payload.take 4)
  if footStart < headEnd then
    throw (.format "snapshot header length runs past the payload")
  let head ← (crates.parseHead ((payload.take headEnd).drop 4)).mapError
    (fun why => Error.format ("snapshot header does not parse: " ++ why))
  if head.format ≠ snapshotFormat then
    throw (.format s!"snapshot format {head.format} is not supported by this build (v1)")
  ComponentInfo.validate ⟨head.component, head.componentVersion, head.componentSha256⟩
  if head.schemaVersion = 0 then
    throw (.format "snapshot schema version is 0")
  let entries ← (readWhole (readBody headEnd) (payload.take footStart)).mapError Error.ofStop
  let bytes := (entries.map (fun entry => entry.1.length + entry.2.length)).sum
  let footer := payload.drop footStart
  if footer.take 4 ≠ footerTag then
    throw (.format "snapshot has no footer")
  let footerEntries := fromLittleEndian ((footer.drop 4).take 8)
  let footerBytes := fromLittleEndian ((footer.drop 12).take 8)
  let recorded := footer.drop 20
  let computed := crates.sha256 (payload.take footStart)
  if computed ≠ recorded then
    throw (.checksumMismatch (hex recorded) (hex computed))
  if footerEntries ≠ entries.length ∨ footerBytes ≠ bytes then
    throw (.format "snapshot footer counts do not match its entries")
  return {
    head := head
    entries := entries
    header := {
      format := head.format
      schemaVersion := head.schemaVersion
      component := head.component
      componentVersion := head.componentVersion
      componentSha256 := head.componentSha256
      createdAtMs := head.createdAtMs
      entries := footerEntries
      bytes := footerBytes
      sha256 := hex recorded } }

structure ImportOptions where
  expectComponent : Option String
  replace : Bool
  expectVersion : Option UInt32
  expectSha256 : Option String
  maxBytes : ℕ

/-- What a caller may require of a snapshot. -/
def ImportOptions.accept (options : ImportOptions) (header : SnapshotHeader) :
    Except Error Unit := do
  match options.expectComponent with
  | some expected =>
      if header.component ≠ expected then
        throw (.ownerMismatch expected header.component)
  | none => pure ()
  match options.expectVersion with
  | some expected =>
      if header.schemaVersion ≠ expected then
        throw (.schemaVersionMismatch expected header.schemaVersion)
  | none => pure ()
  match options.expectSha256 with
  | some expected =>
      if header.componentSha256 ≠ expected then
        throw (.componentMismatch expected header.componentSha256)
  | none => pure ()

def ReadSnapshot.meta (snapshot : ReadSnapshot) (now : UInt64) : Meta where
  schemaVersion := snapshot.head.schemaVersion
  component := snapshot.head.component
  componentVersion := snapshot.head.componentVersion
  lastMigratedBy := snapshot.head.componentSha256
  createdAtMs := snapshot.head.createdAtMs
  lastMigratedAtMs := now

/-- Empty the namespace for an import, which `replace` must allow.  An unfinished
migration of the data that goes is not work on the data that comes. -/
def makeRoom (options : ImportOptions) (existing : List Bytes) : Call Unit :=
  if existing ≠ [] then
    if !options.replace then
      throw (.notEmpty existing.length)
    else do
      writeAll (existing.map Core.Change.del)
      writeAll [.del Key.journal, .del Key.pending]
  else
    return ()

/-- `import`: into an empty namespace or, with `replace`, over the current data. -/
def importSnapshot (crates : Crates) (options : ImportOptions) (now : UInt64) (input : Bytes) :
    Call SnapshotHeader := do
  let snapshot ← Fallible.check (readSnapshot crates options.maxBytes input)
  Fallible.check (options.accept snapshot.header)
  let existing ← Fallible.ask userKeys
  makeRoom options existing
  writeAll (snapshot.entries.map (fun entry => .put entry.1 entry.2))
  (snapshot.meta now).write now
  return snapshot.header

end WasmAgent.State
