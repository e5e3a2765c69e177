import WasmAgent.State.Types

/-!
# Batches, and what a step changes

A step sees the namespace as a batch, an ordered map of the component's own keys.
The engine takes the difference of two batches as a list of full-value changes,
and writes that list down as bytes.
-/

namespace WasmAgent.State

open Std WasmAgent.Core

/-- The keys a step works on.  Every entry has a size the host allows: each
operation that adds one checks it. -/
structure Batch where
  entries : Table
  sized : ∀ key value, entries[key]? = some value → Sized key value

namespace Batch

@[ext]
theorem ext {left right : Batch} (hents : left.entries = right.entries) : left = right := by
  cases left
  cases right
  congr

def new : Batch where
  entries := ∅
  sized := by
    intro key value hentry
    simp at hentry

/-- Put an entry of allowed size. -/
def store (batch : Batch) (key value : Bytes) (hsized : Sized key value) : Batch where
  entries := batch.entries.insert key value
  sized := by
    intro other found hentry
    rw [ExtTreeMap.getElem?_insert] at hentry
    split at hentry
    · next hkey =>
      cases hentry
      rwa [← LawfulEqCmp.eq_of_compare hkey]
    · exact batch.sized other found hentry

def drop (batch : Batch) (key : Bytes) : Batch where
  entries := batch.entries.erase key
  sized := by
    intro other found hentry
    rw [ExtTreeMap.getElem?_erase] at hentry
    split at hentry
    · cases hentry
    · exact batch.sized other found hentry

def get (batch : Batch) (key : Bytes) : Option Bytes := batch.entries[key]?

/-- Insert or replace; the previous value comes back. -/
def insert (batch : Batch) (key value : Bytes) : Batch × Except Error (Option Bytes) :=
  if isReserved key then
    (batch, .error .reserved)
  else
    match hsize : checkSize key (some value) with
    | .error fault => (batch, .error fault)
    | .ok () =>
        (batch.store key value ((checkSize_ok_iff key value).mp hsize), .ok (batch.get key))

def remove (batch : Batch) (key : Bytes) : Batch × Option Bytes := (batch.drop key, batch.get key)

def iter (batch : Batch) : List (Bytes × Bytes) := batch.entries.toList

def withPrefix (batch : Batch) (start : Bytes) : List (Bytes × Bytes) :=
  (batch.iter.dropWhile (fun entry => (compare entry.1 start).isLT)).takeWhile
    (fun entry => start.isPrefixOf entry.1)

/-- The loop of `rename_prefix`: each move drops the old key before it checks the new one. -/
def moveAll : List (Bytes × Bytes × Bytes) → Batch → Batch × Except Error Unit
  | [], batch => (batch, .ok ())
  | (old, new, value) :: moves, batch =>
      match hsize : checkSize new (some value) with
      | .error fault => (batch.drop old, .error fault)
      | .ok () =>
          moveAll moves ((batch.drop old).store new value ((checkSize_ok_iff new value).mp hsize))

def renamePrefix (batch : Batch) (source target : Bytes) : Batch × Except Error ℕ :=
  if isReserved source || isReserved target then
    (batch, .error .reserved)
  else
    let moves := (batch.withPrefix source).map (fun entry =>
      (entry.1, target ++ entry.1.drop source.length, entry.2))
    let (moved, outcome) := batch.moveAll moves
    (moved, outcome.map (fun _ => moves.length))

def insertAll : List (Bytes × Bytes) → Batch → Except Error Batch
  | [], batch => .ok batch
  | (key, value) :: entries, batch =>
      match batch.insert key value with
      | (inserted, .ok _) => insertAll entries inserted
      | (_, .error fault) => .error fault

def fromEntries (entries : List (Bytes × Bytes)) : Except Error Batch := insertAll entries new

/-- The loop of `load` over all keys, with the bytes counted so far. -/
def loadFrom (maxBytes : ℕ) : List (Bytes × Bytes) → ℕ → Batch → Except Error Batch
  | [], _, batch => .ok batch
  | (key, value) :: entries, total, batch =>
      if isReserved key then
        loadFrom maxBytes entries total batch
      else if maxBytes < total + key.length + value.length then
        .error (.limit "migration batch" maxBytes (total + key.length + value.length))
      else
        match batch.insert key value with
        | (inserted, .ok _) =>
            loadFrom maxBytes entries (total + key.length + value.length) inserted
        | (_, .error fault) => .error fault

def load (maxBytes : ℕ) (store : Namespace) : Except Error Batch :=
  loadFrom maxBytes store.toList 0 new

end Batch

structure ChangeCounts where
  added : ℕ
  removed : ℕ
  changed : ℕ
  unchanged : ℕ
  deriving DecidableEq, Repr

namespace ChangeCounts

def zero : ChangeCounts := ⟨0, 0, 0, 0⟩

def add (left right : ChangeCounts) : ChangeCounts :=
  ⟨left.added + right.added, left.removed + right.removed, left.changed + right.changed,
    left.unchanged + right.unchanged⟩

end ChangeCounts

/-- The pass of `diff` over the entries afterwards. -/
def diffPuts (before : Batch) (entries : List (Bytes × Bytes)) (counts : ChangeCounts) :
    ChangeCounts :=
  entries.foldl (fun counts entry =>
    match before.get entry.1 with
    | none => { counts with added := counts.added + 1 }
    | some old =>
        if old ≠ entry.2 then { counts with changed := counts.changed + 1 }
        else { counts with unchanged := counts.unchanged + 1 }) counts

/-- The pass of `diff` over the entries before. -/
def diffDels (after : Batch) (entries : List (Bytes × Bytes)) (counts : ChangeCounts) :
    ChangeCounts :=
  entries.foldl (fun counts entry =>
    if after.entries.contains entry.1 then counts
    else { counts with removed := counts.removed + 1 }) counts

def diff (before after : Batch) : ChangeCounts × List Change :=
  (diffDels after before.iter (diffPuts before after.iter .zero),
    Change.difference before.entries after.entries)

def journalMagic : Bytes := [0x57, 0x43, 0x31, 0]

/-- A bound on the pending list the engine reads back. -/
def maxJournalBytes : ℕ := 0x20000000

def encodeChange : Change → Bytes
  | .put key value =>
      1 :: (littleEndian 4 key.length ++ (key ++ (littleEndian 4 value.length ++ value)))
  | .del key => 2 :: (littleEndian 4 key.length ++ key)

def encodeChanges (changes : List Change) : Bytes :=
  journalMagic ++ littleEndian 4 changes.length ++ changes.flatMap encodeChange

def journalTake (count : ℕ) : Reading Error Bytes :=
  Reader.takeOr (.corrupt "migration journal is truncated")
    (.corrupt "migration journal is truncated") count

def journalArray (count : ℕ) : Reading Error Bytes := do
  let bytes ← journalTake count
  (Reader.array count bytes : Except (Stop Error) Bytes)

def journalLength : Reading Error ℕ := fromLittleEndian <$> journalArray 4

def checkJournalKey (seen : List Bytes) (key : Bytes) : Except (Stop Error) Unit :=
  if maxKeyBytes < key.length then
    .error (.error (.limit "journal key" maxKeyBytes key.length))
  else if isReserved key then
    .error (.error (.corrupt "migration journal addresses a reserved meta key"))
  else if key ∈ seen then
    .error (.error (.corrupt "migration journal repeats a key"))
  else
    .ok ()

def checkJournalValue (value : Bytes) : Except (Stop Error) Unit :=
  if maxValueBytes < value.length then
    .error (.error (.limit "journal value" maxValueBytes value.length))
  else
    .ok ()

def readChange (seen : List Bytes) : Reading Error Change := do
  let tag ← (fun bytes => UInt8.ofNat (fromLittleEndian bytes)) <$> journalArray 1
  let keyLen ← journalLength
  let key ← journalTake keyLen
  let _ ← (checkJournalKey seen key : Except (Stop Error) Unit)
  if tag = 1 then do
    let valueLen ← journalLength
    let value ← journalTake valueLen
    let _ ← (checkJournalValue value : Except (Stop Error) Unit)
    return .put key value
  else if tag = 2 then
    return .del key
  else
    throw (.error (.corrupt s!"migration journal has unknown change tag {tag}"))

/-- The loop of `decode_changes`, over the changes left. -/
def readChanges : ℕ → List Bytes → Reading Error (List Change)
  | 0, _ => return []
  | count + 1, seen => do
      let change ← readChange seen
      let changes ← readChanges count (change.key :: seen)
      return change :: changes

def journalFinished : Reading Error Unit := do
  let reader ← get
  if reader.offset = reader.buf.length then
    return ()
  else
    throw (.error (.corrupt "migration journal has trailing bytes"))

def readJournalBody (count : ℕ) : Reading Error (List Change) := do
  let _ ← journalTake 8
  let changes ← readChanges count []
  journalFinished
  return changes

def decodeChanges (bytes : Bytes) : Except Error (List Change) :=
  if maxJournalBytes < bytes.length then
    .error (.limit "migration journal" maxJournalBytes bytes.length)
  else if bytes.length < 8 ∨ bytes.take 4 ≠ journalMagic then
    .error (.corrupt "migration journal has no magic")
  else
    let count := fromLittleEndian ((bytes.drop 4).take 4)
    if (bytes.length - 8) / 5 < count then
      .error (.corrupt "migration journal count exceeds its length")
    else
      (readWhole (readJournalBody count) bytes).mapError Error.ofStop

/-- Refuse a change list the host would refuse. -/
def validateChanges : List Change → Except Error Unit
  | [] => .ok ()
  | .put key value :: changes =>
      match checkSize key (some value) with
      | .ok () => validateChanges changes
      | .error fault => .error fault
  | .del key :: changes =>
      match checkSize key none with
      | .ok () => validateChanges changes
      | .error fault => .error fault

def applyToBatch : List Change → Batch → ChangeCounts → Except Error (Batch × ChangeCounts)
  | [], batch, counts => .ok (batch, counts)
  | .put key value :: changes, batch, counts =>
      match batch.get key with
      | none =>
          match batch.insert key value with
          | (inserted, .ok _) =>
              applyToBatch changes inserted { counts with added := counts.added + 1 }
          | (_, .error fault) => .error fault
      | some old =>
          if old ≠ value then
            match batch.insert key value with
            | (inserted, .ok _) =>
                applyToBatch changes inserted { counts with changed := counts.changed + 1 }
            | (_, .error fault) => .error fault
          else
            applyToBatch changes batch { counts with unchanged := counts.unchanged + 1 }
  | .del key :: changes, batch, counts =>
      match batch.get key with
      | some _ =>
          applyToBatch changes (batch.drop key) { counts with removed := counts.removed + 1 }
      | none => applyToBatch changes batch counts

end WasmAgent.State
