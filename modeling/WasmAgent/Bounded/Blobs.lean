import WasmAgent.Core.Effect
import WasmAgent.Core.Sha256
import WasmAgent.Core.Tally
import Mathlib.Data.List.Dedup

/-!
# Content-addressed blobs

Payloads under their SHA-256, stored once and counted by those that point at them.  The
index file that repeats the counts on disk is left out: only whether writing it succeeds
matters to a store that stays open.
-/

namespace WasmAgent.Bounded

open WasmAgent.Core

abbrev Bytes := List UInt8

/-- `SystemTime`, in nanoseconds since the epoch. -/
abbrev Instant := Int

/-- `later.duration_since(earlier).unwrap_or_default()`, in nanoseconds. -/
def since (later earlier : Instant) : ℕ := (later - earlier).toNat

def u64Max : ℕ := 0xFFFFFFFFFFFFFFFF

def u32Max : ℕ := 0xFFFFFFFF

/-- `u64::saturating_add`. -/
def saturating (left right : ℕ) : ℕ := min (left + right) u64Max

abbrev Digest := { bytes : Bytes // bytes.length = 32 }

def sha256 (bytes : Bytes) : Digest := ⟨Sha256.digest bytes, Sha256.digest_length bytes⟩

structure BlobKey where
  digest : Digest
  deriving DecidableEq

def hexDigit (value : ℕ) : Char := Char.ofNat (if value < 10 then 48 + value else 87 + value)

def hex (bytes : Bytes) : String :=
  String.ofList (bytes.flatMap (fun byte =>
    [hexDigit (byte.toNat / 16), hexDigit (byte.toNat % 16)]))

namespace BlobKey

def of (bytes : Bytes) : BlobKey := ⟨sha256 bytes⟩

/-- Hexadecimal without the last three quarters. -/
def short (key : BlobKey) : String := hex (key.digest.val.take 8)

/-- Keys are ordered as their bytes are. -/
def le (left right : BlobKey) : Bool := (compare left.digest.val right.digest.val).isLE

end BlobKey

/-- What an operation of the file system failed with. -/
structure IoError where
  why : String
  deriving DecidableEq

inductive Error where
  | io (error : IoError)
  | badName (name : String)
  | badField (field : String)
  | quotaExceeded (needed used quota : ℕ)
  | notFound (name : String)
  | blobMissing (key : BlobKey)
  | corrupt (why : String)
  | unsupportedVersion (version : UInt16)
  deriving DecidableEq

/-- How an operation of the file system goes. -/
abbrev Answer := Except IoError Unit

/-- An operation of the file system that the model keeps nothing else of. -/
def perform {State : Type} (answer : Answer) : Effect State Error Unit :=
  Effect.lift (answer.mapError Error.io)

structure BlobRef where
  key : BlobKey
  len : UInt64
  deriving DecidableEq

structure BlobFile where
  key : BlobKey
  bytes : Bytes
  modified : Instant

structure BlobStore where
  files : List BlobFile
  pins : List BlobKey
  refs : Tally BlobKey u32Max

structure GcReport where
  scanned : ℕ
  removed : List BlobKey
  bytesFreed : ℕ
  kept : ℕ
  unreadable : ℕ

namespace BlobStore

def file? (store : BlobStore) (key : BlobKey) : Option BlobFile :=
  store.files.find? (fun file => file.key = key)

def has (store : BlobStore) (key : BlobKey) : Bool := (store.file? key).isSome

def put (answer : Answer) (clock : Instant) (bytes : Bytes) : Effect BlobStore Error BlobRef := do
  let store ← Effect.read
  let key := BlobKey.of bytes
  if store.has key then
    return ⟨key, UInt64.ofNat bytes.length⟩
  else
    perform answer
    Effect.write (fun store => { store with files := store.files ++ [⟨key, bytes, clock⟩] })
    return ⟨key, UInt64.ofNat bytes.length⟩

/-- The count goes up before the index is written. -/
def addRef (index : Answer) (key : BlobKey) : Effect BlobStore Error ℕ := do
  let store ← Effect.read
  if store.has key then
    Effect.write (fun store => { store with refs := store.refs.raise key })
    perform index
    return (store.refs.raise key).count key
  else
    Effect.lift (.error (.blobMissing key))

/-- The count goes down before the index is written. -/
def release (index : Answer) (key : BlobKey) : Effect BlobStore Error ℕ := do
  let store ← Effect.read
  Effect.write (fun store => { store with refs := store.refs.lower key })
  perform index
  return (store.refs.lower key).count key

def refcount (store : BlobStore) (key : BlobKey) : ℕ := store.refs.count key

def isPinned (store : BlobStore) (key : BlobKey) : Bool := key ∈ store.pins

def keys (store : BlobStore) : List BlobKey := (store.files.map BlobFile.key).mergeSort BlobKey.le

def erase (store : BlobStore) (key : BlobKey) : BlobStore :=
  { store with files := store.files.filter (fun file => file.key ≠ key) }

/-- How a collection's operations on the file system go. -/
structure GcDisk where
  list : Answer
  aged : BlobKey → Bool
  remove : BlobKey → Answer
  index : Answer

/-- One key of a collection: what is referenced, pinned, young or of unknown age stays. -/
def collect (disk : GcDisk) (now : Instant) (ttl : ℕ) (report : GcReport) (key : BlobKey) :
    Effect BlobStore Error GcReport := do
  let store ← Effect.read
  let report := { report with scanned := report.scanned + 1 }
  if store.isPinned key || 0 < store.refcount key then
    return { report with kept := report.kept + 1 }
  else
    match store.file? key with
    | none => return { report with unreadable := report.unreadable + 1 }
    | some file =>
        if !disk.aged key then
          return { report with unreadable := report.unreadable + 1 }
        else if since now file.modified < ttl then
          return { report with kept := report.kept + 1 }
        else
          perform (disk.remove key)
          Effect.write (fun store => store.erase key)
          return { report with
            removed := report.removed ++ [key]
            bytesFreed := saturating report.bytesFreed file.bytes.length }

/-- Old blobs that nobody references go, and then the counts of blobs that are not there. -/
def gc (disk : GcDisk) (now : Instant) (ttl : ℕ) : Effect BlobStore Error GcReport := do
  perform disk.list
  let store ← Effect.read
  let report ← store.keys.foldlM (collect disk now ttl) ⟨0, [], 0, 0, 0⟩
  Effect.write (fun store => { store with refs := store.refs.keep store.has })
  perform disk.index
  return report

section Storing

variable {store : BlobStore} {key : BlobKey}

def stored (clock : Instant) (bytes : Bytes) (store : BlobStore) : BlobStore :=
  if store.has (BlobKey.of bytes) then store
  else { store with files := store.files ++ [⟨BlobKey.of bytes, bytes, clock⟩] }

def Unstored (answer : Answer) (store : BlobStore) (bytes : Bytes) : Prop :=
  store.has (BlobKey.of bytes) = false ∧ answer ≠ .ok ()

theorem has_stored (clock : Instant) (bytes : Bytes) :
    (store.stored clock bytes).has key = (store.has key || key = BlobKey.of bytes) := by
  rw [stored]
  split
  · next hhas =>
    by_cases hkey : key = BlobKey.of bytes
    · rw [hkey, hhas, Bool.true_or]
    · rw [decide_eq_false hkey, Bool.or_false]
  rw [has, file?, List.find?_append, Option.isSome_or]
  congr 1
  rw [List.find?_singleton]
  by_cases hkey : key = BlobKey.of bytes
  · rw [decide_eq_true hkey, if_pos (decide_eq_true hkey.symm)]
    rfl
  · rw [decide_eq_false hkey, if_neg (by simpa only [decide_eq_true_eq] using Ne.symm hkey)]
    rfl

@[simp]
theorem refs_stored (clock : Instant) (bytes : Bytes) :
    (store.stored clock bytes).refs = store.refs := by
  rw [stored]
  split <;> rfl

theorem has_of_files {left right : BlobStore} (hfs : left.files = right.files) (key : BlobKey) :
    left.has key = right.has key := by
  rw [has, has, file?, file?, hfs]

theorem put_of_ok {answer : Answer} (clock : Instant) {bytes : Bytes}
    (hsto : ¬ Unstored answer store bytes) :
    put answer clock bytes store =
      (.ok ⟨BlobKey.of bytes, UInt64.ofNat bytes.length⟩, store.stored clock bytes) := by
  change (if store.has (BlobKey.of bytes) then _ else _ : Effect BlobStore Error BlobRef) store = _
  rw [stored]
  split
  · rfl
  rename_i hhas
  have hans : answer = .ok () := by_contra fun hfls => hsto ⟨Bool.eq_false_iff.mpr hhas, hfls⟩
  rw [hans]
  rfl

theorem put_of_error {answer : Answer} (clock : Instant) {bytes : Bytes}
    (huns : Unstored answer store bytes) :
    ∃ fault, put answer clock bytes store = (.error fault, store) := by
  change ∃ fault, (if store.has (BlobKey.of bytes) then _ else _ : Effect BlobStore Error BlobRef)
    store = _
  rw [if_neg (Bool.eq_false_iff.mp huns.1)]
  cases answer with
  | ok _ => exact absurd rfl huns.2
  | error why => exact ⟨.io why, rfl⟩

theorem addRef_run (index : Answer) (hhas : store.has key = true) :
    addRef index key store = ((index.mapError Error.io).map (fun _ =>
      (store.refs.raise key).count key), { store with refs := store.refs.raise key }) := by
  change (if store.has key then _ else _ : Effect BlobStore Error ℕ) store = _
  rw [if_pos hhas]
  cases index <;> rfl

theorem release_run (index : Answer) (key : BlobKey) (store : BlobStore) :
    (release index key store).2 = { store with refs := store.refs.lower key } := by
  cases index <;> rfl

end Storing

end BlobStore

end WasmAgent.Bounded
