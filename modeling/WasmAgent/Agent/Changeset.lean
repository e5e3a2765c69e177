import WasmAgent.Core.Rollback

/-!
# The file changes of a run, and the way back

A run records each file it changed with the addresses of the text before and after it.
The texts lie in a store of files named by their digests.  Undo and redo read both texts,
compare each file with what the run or the undo left, and write all files or none.
-/

namespace WasmAgent.Agent.Changeset

open List WasmAgent.Core

/-- The texts of the files under their paths; a missing file has none. -/
abbrev Files := Rollback.Contents String String

structure FileChange where
  path : String
  before : Option String
  after : Option String
  recorded : Bool
  deriving DecidableEq, Repr

structure Entry where
  files : List FileChange
  distinct : (files.map FileChange.path).Nodup

/-- A later write to a file: the first text before it, the last text after it. -/
def FileChange.merge (seen file : FileChange) : FileChange :=
  { seen with after := file.after, recorded := seen.recorded && file.recorded }

def mergeInto : List FileChange → FileChange → List FileChange
  | [], file => [file]
  | seen :: files, file =>
      if seen.path = file.path then
        seen.merge file :: files
      else
        seen :: mergeInto files file

variable {files : List FileChange}

theorem mem_paths_mergeInto {file : FileChange} {path : String} :
    path ∈ (mergeInto files file).map FileChange.path ↔
      path ∈ files.map FileChange.path ∨ path = file.path := by
  induction files with
  | nil => simp [mergeInto]
  | cons seen files ih =>
    rw [mergeInto]
    split
    · next hsame =>
      simp only [map_cons, mem_cons, FileChange.merge, hsame]
      tauto
    · simp only [map_cons, mem_cons, ih]
      tauto

theorem mergeInto_distinct (file : FileChange) (hdist : (files.map FileChange.path).Nodup) :
    ((mergeInto files file).map FileChange.path).Nodup := by
  induction files with
  | nil => exact nodup_singleton _
  | cons seen files ih =>
    rw [map_cons, nodup_cons] at hdist
    rw [mergeInto]
    split
    · exact nodup_cons.mpr hdist
    rename_i hoth
    rw [map_cons, nodup_cons, mem_paths_mergeInto]
    refine ⟨?_, ih hdist.2⟩
    intro hseen
    rcases hseen with hseen | hseen
    · exact hdist.1 hseen
    · exact hoth hseen

theorem foldl_mergeInto_distinct (changes : List FileChange)
    (hdist : (files.map FileChange.path).Nodup) :
    ((changes.foldl mergeInto files).map FileChange.path).Nodup := by
  induction changes generalizing files with
  | nil => exact hdist
  | cons change changes ih => exact ih (mergeInto_distinct change hdist)

def normalize (changes : List FileChange) : Entry where
  files := changes.foldl mergeInto []
  distinct := foldl_mergeInto_distinct changes List.nodup_nil

/-- What the module asks of its host besides the files: where the data directory is, and
digests. -/
structure Host where
  data : String
  sha256 : String → String

section Operations

variable (host : Host) (files : Files)

def blobPath (digest : String) : String :=
  host.data ++ "/changes" ++ "/" ++ String.ofList (digest.toList.take 2) ++ "/" ++ digest

def load : Option String → Option String
  | none => none
  | some digest =>
      if digest = "" then
        none
      else
        match files (blobPath host digest) with
        | none => none
        | some text => if host.sha256 text = digest then some text else none

def unrecorded (why : String) (file : FileChange) : Option String :=
  if file.recorded then none else some (why ++ file.path)

def changedSinceTurn (file : FileChange) : Option String :=
  match load host files file.before with
  | none => some ("previous_text_missing:" ++ file.path)
  | some _ =>
      match load host files file.after with
      | none => some ("recorded_text_missing:" ++ file.path)
      | some left =>
          match files file.path with
          | some now => if now = left then none else some ("changed_since_turn:" ++ file.path)
          | none => if left = "" then none else some ("missing_since_turn:" ++ file.path)

/-- Can this entry be undone right now? -/
def check (entry : Entry) : Except String Unit :=
  if entry.files.isEmpty then
    .error "nothing_to_undo"
  else
    match (entry.files.findSome? (unrecorded "too_large_to_undo:")).or
        (entry.files.findSome? (changedSinceTurn host files)) with
    | some why => .error why
    | none => .ok ()

def unloaded (why : String) (address : FileChange → Option String) (file : FileChange) :
    Option String :=
  match load host files (address file) with
  | none => some (why ++ file.path)
  | some _ => none

def changedSinceUndo (file : FileChange) : Option String :=
  match files file.path with
  | none => none
  | some now =>
      if some now = load host files file.before then none
      else some ("changed_since_undo:" ++ file.path)

/-- What `redo` looks at before its first write. -/
def redoGuards (entry : Entry) : Except String Unit :=
  if entry.files.isEmpty then
    .error "nothing_to_redo"
  else
    match (((entry.files.findSome? (unrecorded "too_large_to_redo:")).or
          (entry.files.findSome?
            (unloaded host files "recorded_text_missing:" FileChange.after))).or
          (entry.files.findSome?
            (unloaded host files "previous_text_missing:" FileChange.before))).or
        (entry.files.findSome? (changedSinceUndo host files)) with
    | some why => .error why
    | none => .ok ()

/-- The writes of a pass, each with what its file holds now.  A host that is given no text
writes an empty one. -/
def writesOf (wanted : FileChange → Option String) (entry : Entry) :
    List (Rollback.Write String String) :=
  entry.files.map (fun file => ⟨file.path, (wanted file).getD "", files file.path⟩)

/-- Write every file or none; `refused` says which files cannot be written. -/
def applyAll (refused : String → Bool) (wanted : FileChange → Option String) (done : String)
    (entry : Entry) : Files × Except String String :=
  match Rollback.writeAll refused (writesOf files wanted entry) [] files with
  | (written, none) => (written, .ok done)
  | (written, some path) => (written, .error ("write_failed:" ++ path))

def undo (refused : String → Bool) (entry : Entry) : Files × Except String String :=
  match check host files entry with
  | .error why => (files, .error why)
  | .ok () =>
      applyAll files refused (fun file => load host files file.before) "undone" entry

def redo (refused : String → Bool) (entry : Entry) : Files × Except String String :=
  match redoGuards host files entry with
  | .error why => (files, .error why)
  | .ok () =>
      applyAll files refused (fun file => load host files file.after) "redone" entry

end Operations

section Guards

variable {host : Host} {files : Files} {entry : Entry} {file : FileChange}

theorem unrecorded_eq_none {why : String} : unrecorded why file = none ↔ file.recorded = true := by
  rw [unrecorded]
  cases file.recorded <;> simp

theorem unloaded_eq_none {why : String} {address : FileChange → Option String} :
    unloaded host files why address file = none ↔ load host files (address file) ≠ none := by
  rw [unloaded]
  cases load host files (address file) <;> simp

theorem changedSinceTurn_eq_none :
    changedSinceTurn host files file = none ↔
      load host files file.before ≠ none ∧ load host files file.after ≠ none ∧
        (files file.path = load host files file.after ∨
          files file.path = none ∧ load host files file.after = some "") := by
  rw [changedSinceTurn]
  cases load host files file.before with
  | none => simp
  | some text =>
    cases load host files file.after with
    | none => simp
    | some left => cases files file.path <;> simp

theorem changedSinceUndo_eq_none :
    changedSinceUndo host files file = none ↔
      files file.path = none ∨ files file.path = load host files file.before := by
  rw [changedSinceUndo]
  cases files file.path <;> simp

structure Stored (host : Host) (files : Files) (entry : Entry) : Prop where
  nonempty : entry.files ≠ []
  recorded : ∀ file ∈ entry.files, file.recorded = true
  before : ∀ file ∈ entry.files, load host files file.before ≠ none
  after : ∀ file ∈ entry.files, load host files file.after ≠ none

theorem check_ok_iff :
    check host files entry = .ok () ↔
      Stored host files entry ∧ ∀ file ∈ entry.files,
        files file.path = load host files file.after ∨
          files file.path = none ∧ load host files file.after = some "" := by
  have hguards : check host files entry = .ok () ↔ entry.files ≠ [] ∧
      (∀ file ∈ entry.files, file.recorded = true) ∧
        ∀ file ∈ entry.files, changedSinceTurn host files file = none := by
    rw [check]
    split
    · next hemp => simp [List.isEmpty_iff.mp hemp]
    rename_i hsome
    rw [List.isEmpty_iff] at hsome
    rw [and_iff_right hsome]
    split
    · next hwhy =>
      apply iff_of_false (by nofun)
      intro hall
      rw [List.findSome?_eq_none_iff.mpr (fun file hfile =>
        unrecorded_eq_none.mpr (hall.1 file hfile)), Option.none_or,
        List.findSome?_eq_none_iff.mpr hall.2] at hwhy
      cases hwhy
    · next hnone =>
      rw [Option.or_eq_none_iff, List.findSome?_eq_none_iff, List.findSome?_eq_none_iff] at hnone
      exact iff_of_true rfl ⟨fun file hfile => unrecorded_eq_none.mp (hnone.1 file hfile), hnone.2⟩
  rw [hguards]
  simp only [changedSinceTurn_eq_none]
  constructor
  · intro hall
    exact ⟨⟨hall.1, hall.2.1, fun file hfile => (hall.2.2 file hfile).1,
      fun file hfile => (hall.2.2 file hfile).2.1⟩, fun file hfile => (hall.2.2 file hfile).2.2⟩
  · intro hsto
    exact ⟨hsto.1.nonempty, hsto.1.recorded, fun file hfile =>
      ⟨hsto.1.before file hfile, hsto.1.after file hfile, hsto.2 file hfile⟩⟩

theorem redoGuards_ok_iff :
    redoGuards host files entry = .ok () ↔
      Stored host files entry ∧ ∀ file ∈ entry.files,
        files file.path = none ∨ files file.path = load host files file.before := by
  rw [redoGuards]
  split
  · next hemp =>
    apply iff_of_false (by nofun)
    intro hsto
    exact hsto.1.nonempty (List.isEmpty_iff.mp hemp)
  rename_i hsome
  rw [List.isEmpty_iff] at hsome
  split
  · next hwhy =>
    apply iff_of_false (by nofun)
    intro hall
    rw [List.findSome?_eq_none_iff.mpr (fun file hfile =>
        unrecorded_eq_none.mpr (hall.1.recorded file hfile)),
      List.findSome?_eq_none_iff.mpr (fun file hfile =>
        unloaded_eq_none.mpr (hall.1.after file hfile)),
      List.findSome?_eq_none_iff.mpr (fun file hfile =>
        unloaded_eq_none.mpr (hall.1.before file hfile)),
      List.findSome?_eq_none_iff.mpr (fun file hfile =>
        changedSinceUndo_eq_none.mpr (hall.2 file hfile))] at hwhy
    cases hwhy
  rename_i hnone
  simp only [Option.or_eq_none_iff, List.findSome?_eq_none_iff, unrecorded_eq_none,
    unloaded_eq_none, changedSinceUndo_eq_none] at hnone
  exact iff_of_true rfl ⟨⟨hsome, hnone.1.1.1, hnone.1.2, hnone.1.1.2⟩, hnone.2⟩

end Guards

end WasmAgent.Agent.Changeset
