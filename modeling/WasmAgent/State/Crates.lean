import WasmAgent.State.Registry

/-!
# Journals and snapshot heads

The records the engine hands to `serde_json`, and what it asks of the crates that
are not its own: texts for records, digests, and decompression.
-/

namespace WasmAgent.State

open WasmAgent.Core

/-- The step a journal is about, and how many of its changes are known to be applied. -/
structure PendingStep where
  fromVersion : UInt32
  toVersion : UInt32
  name : String
  direction : Direction
  applied : ℕ
  deriving DecidableEq

/-- The record of an unfinished migration. -/
structure Journal where
  fromVersion : UInt32
  target : UInt32
  doneUpto : UInt32
  startedAtMs : UInt64
  attempts : UInt32
  component : String
  pendingStep : Option PendingStep
  deriving DecidableEq

/-- The head of a snapshot's payload. -/
structure Head where
  format : UInt32
  schemaVersion : UInt32
  component : String
  componentVersion : String
  componentSha256 : String
  createdAtMs : UInt64
  deriving DecidableEq

/-- `serde_json`, `sha2` and `zstd`, as far as the engine uses them.  A journal is
read back from its own text. -/
structure Crates where
  printJournal : Journal → Bytes
  parseJournal : Bytes → Except String Journal
  printHead : Head → Bytes
  parseHead : Bytes → Except String Head
  sha256 : Bytes → Bytes
  decompress : Bytes → ℕ → Except String Bytes
  parse_printJournal : ∀ journal, parseJournal (printJournal journal) = .ok journal

/-- The same crates as an export uses them.  A head is read back from its own text and
from no shorter one, and what was compressed comes back. -/
structure Archive extends Crates where
  compress : Int32 → Bytes → Bytes
  parse_printHead : ∀ head, parseHead (printHead head) = .ok head
  parse_cut : ∀ head count, count < (printHead head).length →
    ∃ why, parseHead ((printHead head).take count) = .error why
  sha256_length : ∀ bytes, (sha256 bytes).length = 32
  decompress_compress : ∀ level bytes limit,
    decompress (compress level bytes) limit = .ok (bytes.take limit)

/-- A higher bound than any journal the engine writes. -/
def maxJournalJson : ℕ := 0x400000

theorem Crates.printJournal_inj (crates : Crates) {left right : Journal}
    (hsame : crates.printJournal left = crates.printJournal right) : left = right := by
  have hlt := crates.parse_printJournal left
  rw [hsame, crates.parse_printJournal right] at hlt
  cases hlt
  rfl

section Journals

variable (crates : Crates)

def readJournal (store : Namespace) : Except Error (Option Journal) :=
  match store.get Key.journal with
  | none => .ok none
  | some raw =>
      if maxJournalJson < raw.length then
        .error (.limit "migration journal" maxJournalJson raw.length)
      else
        match crates.parseJournal raw with
        | .ok journal => .ok (some journal)
        | .error why => .error (.corrupt ("migration journal does not parse: " ++ why))

def writeJournal (journal : Journal) : Call Unit :=
  Fallible.write (.put Key.journal (crates.printJournal journal))

/-- The journal goes before the list it names. -/
def clearJournal : Call Unit := writeAll [.del Key.journal, .del Key.pending]

end Journals

end WasmAgent.State
