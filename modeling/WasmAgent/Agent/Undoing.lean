import Mathlib.Data.List.TakeWhile
import WasmAgent.Agent.Changeset

/-!
# Undo and redo, all or nothing

What undo and redo promise: either an error with every file as before, or every file of
the entry with the text it should get, and no file touched that is not what the run or
the undo left.  The guards let a missing file pass where the text it should have is
empty, and redo lets every missing file pass.  Such a file is created, and the host cannot
remove it again where a later write fails.
-/

namespace WasmAgent.Agent.Changeset

open List Option WasmAgent.Core

structure Restores (wanted left : FileChange → Option String) (files : Files) (entry : Entry)
    (result : Files × Except String String) : Prop where
  refused : ∀ why, result.2 = .error why → result.1 = files
  done : ∀ answer, result.2 = .ok answer →
    (∀ file ∈ entry.files, result.1 file.path = wanted file) ∧
      ∀ path ∉ entry.files.map FileChange.path, result.1 path = files path
  kept : ∀ file ∈ entry.files, result.1 file.path ≠ files file.path → files file.path = left file

section Passes

variable {host : Host} {files : Files} {entry : Entry} {refused : String → Bool}
variable {wanted left : FileChange → Option String} {done : String}

theorem restores_of_error (why : String) : Restores wanted left files entry (files, .error why) where
  refused := fun _ _ => rfl
  done := fun answer hok => by cases hok
  kept := fun file _ hchan => absurd rfl hchan

theorem writesOf_snapshot (files : Files) (wanted : FileChange → Option String) (entry : Entry) :
    Rollback.Snapshot (writesOf files wanted entry) files where
  nodup := by
    rw [writesOf, List.map_map]
    exact entry.distinct
  previous := by
    intro write hwr
    obtain ⟨file, _, rfl⟩ := List.mem_map.mp hwr
    rfl

/-- The files that a pass writes before the first refusal. -/
def written (refused : String → Bool) (entry : Entry) : List FileChange :=
  entry.files.takeWhile (fun file => !refused file.path)

theorem reached_writesOf :
    Rollback.reached refused (writesOf files wanted entry) =
      (written refused entry).map
        (fun file => ⟨file.path, (wanted file).getD "", files file.path⟩) := by
  rw [Rollback.reached, writesOf, takeWhile_map]
  rfl

theorem written_of_accepted (haccd : ∀ file ∈ entry.files, refused file.path = false) :
    written refused entry = entry.files := by
  apply takeWhile_eq_self_iff.mpr
  intro file hfile
  rw [haccd file hfile, Bool.not_false]

theorem stored_writesOf (hwan : ∀ file ∈ entry.files, wanted file ≠ none) :
    ∀ file ∈ entry.files,
      Rollback.stored (writesOf files wanted entry) files file.path = wanted file := by
  intro file hfile
  have hval : Rollback.stored (writesOf files wanted entry) files file.path =
      some ((wanted file).getD "") :=
    Rollback.stored_of_mem (writesOf_snapshot files wanted entry).nodup _
      (List.mem_map_of_mem hfile)
  obtain ⟨text, htext⟩ := ne_none_iff_exists'.mp (hwan file hfile)
  rw [hval, htext]
  rfl

theorem applyAll_of_accepted (haccd : ∀ file ∈ entry.files, refused file.path = false) :
    applyAll files refused wanted done entry =
      (Rollback.stored (writesOf files wanted entry) files, .ok done) := by
  rw [applyAll, Rollback.writeAll_of_accepted]
  intro write hwr
  obtain ⟨file, hfile, rfl⟩ := List.mem_map.mp hwr
  exact haccd file hfile

theorem applyAll_of_refused {file : FileChange} (hfile : file ∈ entry.files)
    (href : refused file.path = true) :
    ∃ why, applyAll files refused wanted done entry =
      (Rollback.putBack (Rollback.reached refused (writesOf files wanted entry)).reverse
        (Rollback.stored (Rollback.reached refused (writesOf files wanted entry)) files),
        .error why) := by
  rw [applyAll, Rollback.writeAll_eq_reached]
  split
  · next hnone =>
    split at hnone
    · next hall =>
      have haccd := dropWhile_eq_nil_iff.mp hall _ (List.mem_map_of_mem hfile)
      change (!refused file.path) = true at haccd
      rw [href] at haccd
      cases haccd
    · cases hnone
  rename_i path hsome
  split at hsome
  · cases hsome
  · cases hsome
    rw [append_nil]
    exact ⟨_, rfl⟩

theorem applyAll_restores_iff (hwan : ∀ file ∈ entry.files, wanted file ≠ none)
    (hlt : ∀ file ∈ entry.files, left file ≠ none)
    (hguard : ∀ file ∈ entry.files, files file.path = none ∨ files file.path = left file) :
    Restores wanted left files entry (applyAll files refused wanted done entry) ↔
      ∀ file ∈ written refused entry, files file.path ≠ none := by
  by_cases haccd : ∀ file ∈ entry.files, refused file.path = false
  · rw [applyAll_of_accepted haccd, written_of_accepted haccd]
    constructor
    · intro hres file hfile hmis
      apply hlt file hfile
      rw [← hres.kept file hfile, hmis]
      change Rollback.stored (writesOf files wanted entry) files file.path ≠ files file.path
      rw [stored_writesOf hwan file hfile, hmis]
      exact hwan file hfile
    intro hpres
    refine ⟨by nofun, ?_, ?_⟩
    · intro answer _
      refine ⟨stored_writesOf hwan, ?_⟩
      intro path hpath
      apply Rollback.stored_of_notMem
      intro write hwr hkey
      obtain ⟨file, hfile, rfl⟩ := List.mem_map.mp hwr
      exact hpath (hkey ▸ List.mem_map_of_mem hfile)
    · intro file hfile _
      exact (hguard file hfile).resolve_left (hpres file hfile)
  obtain ⟨file, hfile, href⟩ : ∃ file ∈ entry.files, refused file.path = true := by
    by_contra hnone
    apply haccd
    intro file hfile
    exact eq_false_of_ne_true (fun href => hnone ⟨file, hfile, href⟩)
  obtain ⟨why, heq⟩ := @applyAll_of_refused files entry refused wanted done file hfile href
  have hback := @Rollback.putBack_reached_iff _ _ _ refused _ _
    (writesOf_snapshot files wanted entry)
  have hrch : (∀ write ∈ Rollback.reached refused (writesOf files wanted entry),
      files write.key ≠ none) ↔ ∀ file ∈ written refused entry, files file.path ≠ none := by
    rw [reached_writesOf, List.forall_mem_map]
  rw [heq, ← hrch, ← hback]
  constructor
  · intro hres
    exact hres.refused why rfl
  · intro hsame
    rw [hsame]
    exact restores_of_error why

theorem undo_restores_iff :
    Restores (fun file => load host files file.before) (fun file => load host files file.after)
        files entry (undo host files refused entry) ↔
      (check host files entry = .ok () →
        ∀ file ∈ written refused entry, files file.path ≠ none) := by
  rw [undo]
  split
  · next why hchk =>
    apply iff_of_true (restores_of_error why)
    intro hok
    rw [hchk] at hok
    cases hok
  rename_i hchk
  obtain ⟨hsto, hguard⟩ := check_ok_iff.mp hchk
  rw [imp_iff_right hchk]
  apply applyAll_restores_iff hsto.before hsto.after
  intro file hfile
  rcases hguard file hfile with hlt | hmis
  · exact .inr hlt
  · exact .inl hmis.1

theorem redo_restores_iff :
    Restores (fun file => load host files file.after) (fun file => load host files file.before)
        files entry (redo host files refused entry) ↔
      (redoGuards host files entry = .ok () →
        ∀ file ∈ written refused entry, files file.path ≠ none) := by
  rw [redo]
  split
  · next why hguar =>
    apply iff_of_true (restores_of_error why)
    intro hok
    rw [hguar] at hok
    cases hok
  rename_i hguar
  obtain ⟨hsto, hguard⟩ := redoGuards_ok_iff.mp hguar
  rw [imp_iff_right hguar]
  exact applyAll_restores_iff hsto.after hsto.before hguard

end Passes

section Again

variable {host : Host} {files undone : Files} {entry : Entry} {refused : String → Bool}

def Detached (host : Host) (entry : Entry) : Prop :=
  ∀ file ∈ entry.files, ∀ other ∈ entry.files, ∀ digest,
    other.before = some digest ∨ other.after = some digest →
      file.path = blobPath host digest → file.before = file.after

theorem load_eq_some_iff {digest text : String} :
    load host files (some digest) = some text ↔
      digest ≠ "" ∧ files (blobPath host digest) = some text ∧ host.sha256 text = digest := by
  rw [load]
  split
  · next hemp => simp [hemp]
  rename_i hsome
  rw [and_iff_right hsome]
  cases files (blobPath host digest) with
  | none => simp
  | some found =>
    dsimp only
    split
    · next hdig =>
      constructor
      · intro hsame
        cases hsame
        exact ⟨rfl, hdig⟩
      · intro hsame
        exact hsame.1
    rename_i hoth
    apply iff_of_false (by nofun)
    intro hsame
    cases hsame.1
    exact hoth hsame.2

variable {address : Option String}

theorem address_of_load {text : String}
    (hload : load host files address = some text) : address = some (host.sha256 text) := by
  cases address with
  | none => cases hload
  | some digest => rw [(load_eq_some_iff.mp hload).2.2]

structure Undone (host : Host) (files undone : Files) (entry : Entry) : Prop where
  stored : Stored host files entry
  left : ∀ file ∈ entry.files, files file.path = load host files file.after ∨
    files file.path = none ∧ load host files file.after = some ""
  before : ∀ file ∈ entry.files, undone file.path = load host files file.before
  others : ∀ path ∉ entry.files.map FileChange.path, undone path = files path

theorem undone_of_undo {answer : String}
    (hundo : undo host files refused entry = (undone, .ok answer)) :
    Undone host files undone entry ∧ check host files entry = .ok () ∧
      ∀ file ∈ entry.files, refused file.path = false := by
  rw [undo] at hundo
  split at hundo
  · cases hundo
  rename_i hchk
  obtain ⟨hsto, hguard⟩ := check_ok_iff.mp hchk
  have haccd : ∀ file ∈ entry.files, refused file.path = false := by
    intro file hfile
    cases href : refused file.path with
    | false => rfl
    | true =>
      obtain ⟨why, heq⟩ := @applyAll_of_refused files entry refused
        (fun file => load host files file.before) "undone" file hfile href
      rw [heq] at hundo
      cases hundo
  rw [applyAll_of_accepted haccd] at hundo
  cases hundo
  refine ⟨⟨hsto, hguard, stored_writesOf hsto.before, ?_⟩, hchk, haccd⟩
  intro path hpath
  apply Rollback.stored_of_notMem
  intro write hwr hkey
  obtain ⟨file, hfile, rfl⟩ := List.mem_map.mp hwr
  exact hpath (hkey ▸ List.mem_map_of_mem hfile)

variable (hudn : Undone host files undone entry)
include hudn

theorem load_after_undo (hdet : Detached host entry) {other : FileChange}
    (hoth : other ∈ entry.files) (hadd : other.before = address ∨ other.after = address) :
    load host undone address = load host files address := by
  cases address with
  | none => rfl
  | some digest =>
    by_cases hpath : blobPath host digest ∈ entry.files.map FileChange.path
    · obtain ⟨file, hfile, hsame⟩ := List.mem_map.mp hpath
      have hunc : file.before = file.after := hdet file hfile other hoth digest hadd hsame
      have hpres : load host files (some digest) ≠ none := by
        rcases hadd with hbef | haft
        · rw [← hbef]
          exact hudn.stored.before other hoth
        · rw [← haft]
          exact hudn.stored.after other hoth
      obtain ⟨text, htext⟩ := ne_none_iff_exists'.mp hpres
      have hnow := (load_eq_some_iff.mp htext).2.1
      have hfs : undone (blobPath host digest) = files (blobPath host digest) := by
        rw [← hsame, hudn.before file hfile, hunc]
        rcases hudn.left file hfile with hlt | hmis
        · exact hlt.symm
        · rw [← hsame, hmis.1] at hnow
          cases hnow
      rw [load, load, hfs]
    · rw [load, load, hudn.others _ hpath]

def RedoneAfterUndo (host : Host) (files : Files) (entry : Entry) (refused : String → Bool) :
    Prop :=
  ∀ undone answer, undo host files refused entry = (undone, .ok answer) →
    ∃ restored, redo host undone (fun _ => false) entry = (restored, .ok "redone") ∧
      ∀ file ∈ entry.files, restored file.path = load host files file.after

theorem Undone.stored_of_detached (hdet : Detached host entry) : Stored host undone entry where
  nonempty := hudn.stored.nonempty
  recorded := hudn.stored.recorded
  before := by
    intro file hfile
    rw [load_after_undo hudn hdet hfile (.inl rfl)]
    exact hudn.stored.before file hfile
  after := by
    intro file hfile
    rw [load_after_undo hudn hdet hfile (.inr rfl)]
    exact hudn.stored.after file hfile

theorem Undone.detached_of_stored (hsto : Stored host undone entry) : Detached host entry := by
  intro file hfile other hoth digest hadd hpath
  have hloads : load host files (some digest) ≠ none ∧ load host undone (some digest) ≠ none := by
    rcases hadd with hbef | haft
    · rw [← hbef]
      exact ⟨hudn.stored.before other hoth, hsto.before other hoth⟩
    · rw [← haft]
      exact ⟨hudn.stored.after other hoth, hsto.after other hoth⟩
  obtain ⟨text, htext⟩ := ne_none_iff_exists'.mp hloads.1
  obtain ⟨found, hfnd⟩ := ne_none_iff_exists'.mp hloads.2
  have hthere := load_eq_some_iff.mp htext
  have hltr := load_eq_some_iff.mp hfnd
  rw [← hpath] at hthere hltr
  have hbef : file.before = some digest := by
    have hload := hltr.2.1
    rw [hudn.before file hfile] at hload
    rw [address_of_load hload, hltr.2.2]
  have haft : file.after = some digest := by
    rcases hudn.left file hfile with hlt | hmis
    · rw [hthere.2.1] at hlt
      rw [address_of_load hlt.symm, hthere.2.2]
    · rw [hthere.2.1] at hmis
      cases hmis.1
  rw [hbef, haft]

omit hudn

theorem redoneAfterUndo_iff :
    RedoneAfterUndo host files entry refused ↔
      (check host files entry = .ok () → (∀ file ∈ entry.files, refused file.path = false) →
        Detached host entry) := by
  constructor
  · intro hred hchk haccd
    have hundo : undo host files refused entry = (Rollback.stored
        (writesOf files (fun file => load host files file.before) entry) files, .ok "undone") := by
      rw [undo, hchk]
      exact applyAll_of_accepted haccd
    obtain ⟨restored, hredo, _⟩ := hred _ _ hundo
    rw [redo] at hredo
    split at hredo
    · cases hredo
    · next hguar =>
      exact (undone_of_undo hundo).1.detached_of_stored (redoGuards_ok_iff.mp hguar).1
  intro hdet undone answer hundo
  obtain ⟨hudn, hchk, haccd⟩ := undone_of_undo hundo
  have hapart := hdet hchk haccd
  have hguar : redoGuards host undone entry = .ok () := by
    rw [redoGuards_ok_iff]
    refine ⟨hudn.stored_of_detached hapart, ?_⟩
    intro file hfile
    rw [load_after_undo hudn hapart hfile (.inl rfl)]
    exact .inr (hudn.before file hfile)
  refine ⟨Rollback.stored
    (writesOf undone (fun file => load host undone file.after) entry) undone, ?_, ?_⟩
  · rw [redo, hguar]
    exact applyAll_of_accepted (fun _ _ => rfl)
  · intro file hfile
    rw [stored_writesOf (hudn.stored_of_detached hapart).after file hfile]
    exact load_after_undo hudn hapart hfile (.inr rfl)

structure Reversible (host : Host) (files : Files) (entry : Entry) (refused : String → Bool) :
    Prop where
  undone : Restores (fun file => load host files file.before)
    (fun file => load host files file.after) files entry (undo host files refused entry)
  redone : Restores (fun file => load host files file.after)
    (fun file => load host files file.before) files entry (redo host files refused entry)
  again : RedoneAfterUndo host files entry refused

/-- Undo and redo keep their promises exactly where, past the guards, no file that is
written before the first refusal is missing, and no changed file is a stored text of the
entry itself. -/
theorem reversible_iff (host : Host) (files : Files) (entry : Entry) (refused : String → Bool) :
    Reversible host files entry refused ↔
      (check host files entry = .ok () ∨ redoGuards host files entry = .ok () →
        ∀ file ∈ written refused entry, files file.path ≠ none) ∧
      (check host files entry = .ok () → (∀ file ∈ entry.files, refused file.path = false) →
        Detached host entry) := by
  rw [or_imp]
  constructor
  · intro hreversible
    exact ⟨⟨undo_restores_iff.mp hreversible.undone, redo_restores_iff.mp hreversible.redone⟩,
      redoneAfterUndo_iff.mp hreversible.again⟩
  · intro hcondition
    exact ⟨undo_restores_iff.mpr hcondition.1.1, redo_restores_iff.mpr hcondition.1.2,
      redoneAfterUndo_iff.mpr hcondition.2⟩

def twoDigests : Host where
  data := "data"
  sha256 := fun text =>
    if text = "old" then "cba06b5736faf67e54b07b561eae94395e774c517a7d910a54369e1263ccfbd4"
    else if text = "new" then "11507a0e2f5e69d5dfa40a62a1bd7b6ee57e6bcd85c67c9b8431b36fff21c437"
    else ""

/-- A run that wrote over `notes.txt`. -/
def rewritten : Entry where
  files := [⟨"notes.txt", some (twoDigests.sha256 "old"), some (twoDigests.sha256 "new"), true⟩]
  distinct := List.nodup_singleton _

/-- Both texts are in the store, and the file itself is gone. -/
def notesGone : Files := fun path =>
  if path = blobPath twoDigests (twoDigests.sha256 "old") then some "old"
  else if path = blobPath twoDigests (twoDigests.sha256 "new") then some "new"
  else none

/-- Someone removed the file after the undo, and the redo brings it back. -/
theorem redo_recreates_missing_file :
    notesGone "notes.txt" = none ∧
      (redo twoDigests notesGone (fun _ => false) rewritten).1 "notes.txt" = some "new" ∧
      ¬ ∀ (host : Host) (files : Files) (entry : Entry) (refused : String → Bool),
        Reversible host files entry refused := by
  have hgone : notesGone "notes.txt" = none := by decide +kernel
  have hback : (redo twoDigests notesGone (fun _ => false) rewritten).1 "notes.txt" =
      some "new" := by decide +kernel
  have hleft : load twoDigests notesGone (some (twoDigests.sha256 "old")) = some "old" := by
    decide +kernel
  refine ⟨hgone, hback, ?_⟩
  intro hall
  have hkept := (hall twoDigests notesGone rewritten (fun _ => false)).redone.kept _
    mem_cons_self
  change (redo twoDigests notesGone (fun _ => false) rewritten).1 "notes.txt" ≠
    notesGone "notes.txt" → notesGone "notes.txt" =
      load twoDigests notesGone (some (twoDigests.sha256 "old")) at hkept
  rw [hback, hgone, hleft] at hkept
  cases hkept (by nofun)

end Again

end WasmAgent.Agent.Changeset
