import WasmAgent.State.Export
import WasmAgent.State.Opening
import WasmAgent.State.Retries

/-!
# Installing a component over its state

The directories that hold a component's namespaces, and the install that takes a
snapshot of the live one, migrates a copy, and swaps the copy in.  Every file
operation and every write to a store is a step of its own; the file system itself
does not fail here.
-/

namespace WasmAgent.Host

open Std WasmAgent.Core WasmAgent.State

/-- The directories of one component: `<name>.state`, `.state.next` and `.state.prev`. -/
inductive Place where
  | live
  | next
  | previous
  deriving DecidableEq

structure Files where
  database : Place → Option Namespace
  snapshots : Table

/-- One step on the files: a store is created when it is first used. -/
inductive FileOp where
  | create (place : Place)
  | write (place : Place) (change : State.Change)
  | removeDir (place : Place)
  | rename (source target : Place)
  | save (name content : Bytes)
  | unlink (name : Bytes)
  deriving DecidableEq

namespace Files

/-- What a store at this place reads; one that is not there is empty. -/
def contents (files : Files) (place : Place) : Namespace := (files.database place).getD ∅

def put (files : Files) (place : Place) (database : Option Namespace) : Files :=
  { files with database := fun other => if other = place then database else files.database other }

end Files

def FileOp.apply : FileOp → Files → Files
  | .create place, files => files.put place (some (files.contents place))
  | .write place change, files => files.put place (some (change.apply (files.contents place)))
  | .removeDir place, files => files.put place none
  | .rename source target, files =>
      (files.put target (files.database source)).put source none
  | .save name content, files => { files with snapshots := files.snapshots.insert name content }
  | .unlink name, files => { files with snapshots := files.snapshots.erase name }

abbrev FileQuery (Reply : Type) := Files → Reply

def disk : Machine FileQuery FileOp Files where
  answer := fun question files => question files
  apply := FileOp.apply

inductive InstallError where
  | infoInvalid (why : Error)
  | unreadable (why : Error)
  | openFailed (why : Error)
  | ownerMismatch (expected found : String)
  | journalUnreadable (why : Error)
  | migrationUnavailable (component : String) (fromVersion toVersion : UInt32)
  | noMigrationPath (fromVersion toVersion : UInt32) (why : Error)
  | snapshotFailed (why : Error)
  | importFailed (why : Error)
  | copyOpen (why : Error)
  | migrationFailed (why : Error)
  | swapFailed
  deriving DecidableEq

abbrev Install := Fallible FileQuery FileOp InstallError

/-- A call whose failures are told as the host tells them. -/
def reporting {Result : Type} (tell : Error → InstallError) (call : Call Result) :
    Fallible Query State.Change InstallError Result :=
  ExceptT.mk ((call : Program Query State.Change (Except Error Result)) >>= fun outcome =>
    Program.done (outcome.mapError tell))

def within {Result : Type} (place : Place)
    (calls : Fallible Query State.Change InstallError Result) : Install Result :=
  ExceptT.mk (Program.relabel (fun question files => question (files.contents place))
    (FileOp.write place) calls)

structure StateDeclaration where
  component : String
  version : UInt32
  semver : String
  nonzero : version ≠ 0

inductive StateOutcome where
  | untracked
  | fresh (schema : UInt32)
  | upToDate (schema : UInt32)
  | migrated (fromVersion toVersion : UInt32) (steps changes : ℕ) (snapshot : Bytes)
  deriving DecidableEq

/-- The times an install reads off the clock, in their order. -/
structure Clock where
  opened : UInt64
  named : UInt64
  exported : UInt64
  imported : UInt64
  reopened : UInt64
  migrated : UInt64

/-- The crates of the host, and the steps it can run for each component. -/
structure Kernel where
  archive : Archive
  registryFor : String → Option Registry

/-- How many snapshots a component's directory keeps. -/
def snapshotsKept : ℕ := 3

def maxStateBytes : ℕ := 0x20000000

/-- `ExportOptions::default`. -/
def exportDefault : ExportOptions := ⟨3, 512, 0x20000000⟩

/-- `SnapshotFile`: the name a snapshot is kept under. -/
def snapshotName (clock : Clock) : Bytes := decimal clock.named.toNat

section Installing

variable (kernel : Kernel) (declared : StateDeclaration) (info : ComponentInfo) (clock : Clock)

/-- What an install finds: an outcome right away, or the metadata to migrate from. -/
def inspect : Install (StateOutcome ⊕ Meta) := do
  Fallible.write (.create .live)
  let read ← within .live (reporting .unreadable (Fallible.tryAsk Meta.read))
  match read with
  | none => do
      let opened ← within .live (reporting .openFailed (openMeta info declared.version clock.opened))
      return .inl (.fresh opened.schemaVersion)
  | some current =>
      if current.component ≠ declared.component then
        throw (.ownerMismatch declared.component current.component)
      else do
        let pending ← within .live
          (reporting .journalUnreadable (Fallible.tryAsk (readJournal kernel.archive.toCrates)))
        if current.schemaVersion = declared.version ∧ pending = none then do
          let _ ← within .live (reporting .openFailed (openMeta info declared.version clock.opened))
          return .inl (.upToDate current.schemaVersion)
        else
          return .inr current

/-- The migrator of a copy; the snapshot is on disk already, and its sink writes none. -/
def copyMigrator (registry : Registry) : Migrator :=
  ⟨kernel.archive.toCrates, registry, info, .default, fun _ _ => .ok ()⟩

def migrateCopy (registry : Registry) (current : Meta) (file : Bytes) :
    Fallible Query State.Change InstallError MigrationReport := do
  let _ ← reporting .importFailed (importSnapshot kernel.archive.toCrates
    ⟨some current.component, true, some current.schemaVersion, none, maxStateBytes⟩
    clock.imported file)
  let _ ← reporting .copyOpen (openMeta info current.schemaVersion clock.reopened)
  reporting .migrationFailed
    ((copyMigrator kernel info registry).migrate declared.version clock.migrated)

/-- The previous generation goes first. -/
def removePrevious : Install Unit := do
  let previous ← Fallible.ask (fun files : Files => (files.database .previous).isSome)
  if previous then
    Fallible.write (.removeDir .previous)

def setAside : Install Unit := do
  let live ← Fallible.ask (fun files : Files => (files.database .live).isSome)
  if live then
    Fallible.write (.rename .live .previous)

def putInPlace : Install Unit := do
  let next ← Fallible.ask (fun files : Files => (files.database .next).isSome)
  if next then
    Fallible.write (.rename .next .live)
  else do
    Fallible.write (.rename .previous .live)
    throw .swapFailed

/-- `swap_in`: the old directory goes aside, and the copy takes its place. -/
def swapIn : Install Unit := do
  removePrevious
  setAside
  putInPlace

def unlinkAll : List Bytes → Install Unit
  | [] => return ()
  | name :: names => do
      Fallible.write (.unlink name)
      unlinkAll names

def pruneSnapshots : Install Unit := do
  let names ← Fallible.ask (fun files : Files => files.snapshots.toList.map Prod.fst)
  unlinkAll (names.take (names.length - snapshotsKept))

/-- The copy is swapped in, or goes; the live namespace was never touched. -/
def conclude : Except InstallError MigrationReport → Install StateOutcome
  | .error why => do
      Fallible.write (.removeDir .next)
      throw why
  | .ok report => do
      swapIn
      pruneSnapshots
      return .migrated report.fromVersion report.finalVersion report.steps.length
        (report.totals.added + report.totals.removed + report.totals.changed)
        (snapshotName clock)

def migrateExport (registry : Registry) (current : Meta) :
    Except Error (SnapshotHeader × Bytes) → Install StateOutcome
  | .error why => do
      Fallible.write (.unlink (snapshotName clock))
      throw (.snapshotFailed why)
  | .ok (_, file) => do
      Fallible.write (.save (snapshotName clock) file)
      Fallible.write (.removeDir .next)
      Fallible.write (.create .next)
      let migrated ← (ExceptT.mk ((within .next
        (migrateCopy kernel declared info clock registry current file) :
          Program FileQuery FileOp (Except InstallError MigrationReport)) >>= fun outcome =>
            Program.done (.ok outcome)) : Install (Except InstallError MigrationReport))
      conclude clock migrated

/-- The steps this host can run for the component. -/
def Kernel.offer (current : Meta) : Except InstallError Registry :=
  match kernel.registryFor declared.component with
  | some registry => .ok registry
  | none => .error (.migrationUnavailable declared.component current.schemaVersion declared.version)

def upgrade (current : Meta) : Install StateOutcome := do
  let registry ← Fallible.check (kernel.offer declared current)
  let _ ← Fallible.check ((registry.plan current.schemaVersion declared.version false).mapError
    (InstallError.noMigrationPath current.schemaVersion declared.version))
  Fallible.write (.save (snapshotName clock) [])
  let exported ← Fallible.ask (fun files : Files =>
    exportSnapshot kernel.archive exportDefault current clock.exported (files.contents .live))
  migrateExport kernel declared info clock registry current exported

end Installing

/-- `prepare_install`: an error means that nothing has started. -/
def prepareInstall (kernel : Kernel) (declaration : Option StateDeclaration) (sha256 : String)
    (clock : Clock) : Install StateOutcome :=
  match declaration with
  | none => return .untracked
  | some declared => do
      let info : ComponentInfo := ⟨declared.component, declared.semver, sha256⟩
      let _ ← Fallible.check (info.validate.mapError InstallError.infoInvalid)
      let found ← inspect kernel declared info clock
      match found with
      | .inl outcome => return outcome
      | .inr current => upgrade kernel declared info clock current

end WasmAgent.Host
