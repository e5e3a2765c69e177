import WasmAgent.Core.Reading
import WasmAgent.Core.Redo
import WasmAgent.Core.Survival

/-!
# A component's namespace

The keys and values of one namespace, as `wa-state` sees them through its `Kv`
trait, with the reserved keys that belong to the engine and everything the crate
refuses.
-/

namespace WasmAgent.State

open Std.ExtTreeMap Std WasmAgent.Core

abbrev Bytes := List UInt8

/-- Keys in byte order, with their values. -/
abbrev Table := ExtTreeMap Bytes Bytes compare

abbrev Namespace := Table

abbrev Change := Core.Change Bytes Bytes

inductive Direction where
  | up
  | down
  deriving DecidableEq, Repr

/-- Everything the crate refuses.  The store of the model does not fail on its
own; `panic` stands for a slice out of range. -/
inductive Error where
  | kv (why : String)
  | format (why : String)
  | corrupt (why : String)
  | checksumMismatch (expected found : String)
  | schemaVersionMismatch (expected found : UInt32)
  | ownerMismatch (expected found : String)
  | componentMismatch (expected found : String)
  | downgradeRefused (fromVersion toVersion : UInt32)
  | noMigrationPath (fromVersion toVersion missing : UInt32) (direction : Direction)
  | reserved
  | uninitialised (keys : ℕ)
  | notEmpty (keys : ℕ)
  | limit (what : String) (limit found : ℕ)
  | journalInconsistent (why : String)
  | panic
  deriving DecidableEq

/-- A failure of a reader, as an error of the crate. -/
def Error.ofStop : Stop Error → Error
  | .error fault => fault
  | .panic => .panic

def maxKeyBytes : ℕ := 4096
def maxValueBytes : ℕ := 0x1000000

def checkSize (key : Bytes) (value : Option Bytes) : Except Error Unit :=
  if maxKeyBytes < key.length then
    .error (.limit "key" maxKeyBytes key.length)
  else
    match value with
    | some value =>
        if maxValueBytes < value.length then
          .error (.limit "value" maxValueBytes value.length)
        else
          .ok ()
    | none => .ok ()

def Sized (key value : Bytes) : Prop := key.length ≤ maxKeyBytes ∧ value.length ≤ maxValueBytes

theorem checkSize_ok_iff (key value : Bytes) :
    checkSize key (some value) = .ok () ↔ Sized key value := by
  unfold checkSize Sized
  rw [← Nat.not_lt, ← Nat.not_lt]
  split
  · next hlong =>
    constructor
    · intro herr
      cases herr
    · intro hszd
      exact absurd hlong hszd.1
  rename_i hshrt
  dsimp only
  split
  · next hlong =>
    constructor
    · intro herr
      cases herr
    · intro hszd
      exact absurd hlong hszd.2
  · next hfits =>
    exact ⟨fun _ => ⟨hshrt, hfits⟩, fun _ => rfl⟩

/-- Anything under this prefix belongs to the crate and the host. -/
def reservedPrefix : Bytes := utf8 "__wa/"

def isReserved (key : Bytes) : Bool := reservedPrefix.isPrefixOf key

namespace Key

def schemaVersion : Bytes := utf8 "__wa/meta/schema"
def component : Bytes := utf8 "__wa/meta/component"
def componentVersion : Bytes := utf8 "__wa/meta/component-version"
def lastMigratedBy : Bytes := utf8 "__wa/meta/last-migrated-by"
def lastMigratedAt : Bytes := utf8 "__wa/meta/last-migrated-at"
def createdAt : Bytes := utf8 "__wa/meta/created-at"
def updatedAt : Bytes := utf8 "__wa/meta/updated-at"
def journal : Bytes := utf8 "__wa/meta/migration/journal"
def pending : Bytes := utf8 "__wa/meta/migration/pending"

end Key

namespace Namespace

def get (store : Namespace) (key : Bytes) : Option Bytes := store[key]?

/-- The component's own entries. -/
def user (store : Namespace) : Table := store.filter (fun key _ => !isReserved key)

end Namespace

section Lookup

theorem Namespace.get_apply (change : Change) (store : Namespace) (key : Bytes) :
    Namespace.get (change.apply store) key =
      if change.key = key then change.value else store.get key :=
  Core.Change.getElem?_apply change store key

theorem Namespace.getElem?_user (store : Namespace) (key : Bytes) :
    store.user[key]? = if isReserved key then none else store.get key := by
  unfold Namespace.user Namespace.get
  rw [getElem?_filter']
  cases store[key]? with
  | none =>
    split <;> rfl
  | some value =>
    cases isReserved key <;> rfl

theorem Namespace.user_apply_reserved {change : Change} (store : Namespace)
    (hrsv : isReserved change.key = true) : Namespace.user (change.apply store) = store.user := by
  apply ext_getElem?
  intro key
  rw [Namespace.getElem?_user, Namespace.getElem?_user, Namespace.get_apply]
  split
  · rfl
  rename_i hpln
  rw [if_neg]
  intro hkey
  rw [hkey] at hrsv
  exact hpln hrsv

theorem Namespace.user_apply {change : Change} (store : Namespace)
    (hpln : isReserved change.key = false) :
    Namespace.user (change.apply store) = change.apply store.user := by
  apply ext_getElem?
  intro key
  rw [Namespace.getElem?_user, Core.Change.getElem?_apply, Namespace.getElem?_user,
    Namespace.get_apply]
  by_cases hkey : change.key = key
  · rw [if_pos hkey, if_pos hkey, ← hkey, hpln]
    rfl
  · rw [if_neg hkey, if_neg hkey]

end Lookup

/-- No entry of the table belongs to the engine. -/
def Plain (table : Table) : Prop := ∀ key value, table[key]? = some value → isReserved key = false

theorem Namespace.plain_user (store : Namespace) : Plain store.user := by
  intro key value hent
  rw [Namespace.getElem?_user] at hent
  split at hent
  · cases hent
  · next hpln =>
    exact Bool.eq_false_iff.mpr hpln

abbrev Query (Reply : Type) := Namespace → Reply

/-- The store as a machine: puts and deletes, one at a time. -/
def kv : Machine Query Change Namespace where
  answer := fun question state => question state
  apply := Core.Change.apply

abbrev Call := Fallible Query Change Error

end WasmAgent.State
