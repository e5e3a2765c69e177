import WasmAgent.Bounded.Replay

/-!
# What a failed write leaves

A push or a save counts its blobs one by one before the step that can fail, and no error
path gives the counts back.
-/

namespace WasmAgent.Bounded

open List Option WasmAgent.Core

def RecordRing.SameRecords (before after : RecordRing) : Prop :=
  after = { before with blobs := after.blobs }

def PushUndone (disk : PushDisk) (call : NewRecord) (ring : RecordRing) : Prop :=
  ∀ fault after, RecordRing.push disk call ring = (.error fault, after) →
    ring.SameRecords after ∧ after.refs = ring.refs

def SaveUndone (zstd : Zstd) (disk : SaveDisk) (opts : SaveOptions) (now : Instant)
    (node : Node) : Prop :=
  ∀ fault after, save zstd disk opts now node = (.error fault, after) →
    node.ring.SameRecords after.ring ∧ after.ring.refs = node.ring.refs ∧
      after.dir.files = node.dir.files

def Saturated (ring : RecordRing) (keys : List BlobKey) : Prop :=
  ∀ key ∈ keys, ring.refs.count key = u32Max

def SaveSucceeds (zstd : Zstd) (disk : SaveDisk) (opts : SaveOptions) (now : Instant)
    (node : Node) : Prop :=
  ¬ SaveBlocked disk opts node ∧ (opts.pin = true → disk.pin = .ok ()) ∧
    disk.write.observe = .ok () ∧ ∃ file, savedFile zstd opts now node.ring = .ok file ∧
      BoundedDir.Placed disk.write node.dir (fileName node.dir opts (millis now)) file.length

def SaveHalts (zstd : Zstd) (disk : SaveDisk) (opts : SaveOptions) (now : Instant)
    (node : Node) : Prop :=
  SaveBlocked disk opts node ∨ ∃ file, savedFile zstd opts now node.ring = .ok file ∧
    ¬ BoundedDir.Placed disk.write node.dir (fileName node.dir opts (millis now)) file.length ∧
    BoundedDir.Spared disk.write node.dir (fileName node.dir opts (millis now)) file.length

section Pushing

variable {disk : PushDisk} {call : NewRecord} {ring : RecordRing}

theorem pushUndone_iff (disk : PushDisk) (call : NewRecord) (ring : RecordRing) :
    PushUndone disk call ring ↔
      (RecordRing.PushFails disk call ring →
        Saturated ring (RecordRing.pushTakes disk call ring)) := by
  have hrun := RecordRing.push_run disk call ring
  constructor
  · intro hudn hfls
    obtain ⟨fault, hflt⟩ := hrun.failed.mpr hfls
    have hsame := (hudn fault _ (Prod.ext hflt rfl)).2
    apply Tally.raiseAll_eq_self_iff.mp
    rw [← (hrun.undone hfls).2]
    exact hsame
  intro hsat fault after hpush
  rw [hpush] at hrun
  have hfls : RecordRing.PushFails disk call ring := hrun.failed.mp ⟨fault, rfl⟩
  obtain ⟨hsame, hrefs⟩ := hrun.undone hfls
  refine ⟨hsame, ?_⟩
  exact hrefs.trans (Tally.raiseAll_eq_self_iff.mpr (hsat hfls))

end Pushing

section Saving

variable {zstd : Zstd} {disk : SaveDisk} {opts : SaveOptions} {now : Instant} {node : Node}

theorem eq_nil_of_files_eraseAll {dir : BoundedDir} {gone : List StoredFile}
    (hgone : ∀ file ∈ gone, file ∈ dir.files) (hsame : (dir.eraseAll gone).files = dir.files) :
    gone = [] := by
  apply eq_nil_iff_forall_not_mem.mpr
  intro file hfile
  rw [BoundedDir.files_eraseAll, filter_eq_self] at hsame
  exact of_decide_eq_true (hsame file (hgone file hfile)) (List.mem_map_of_mem hfile)

theorem files_place_ne {dir : BoundedDir} {gone : List StoredFile} {file : StoredFile}
    (hnew : dir.exists file.name = false) (hvld : validName file.name = true) :
    ((dir.eraseAll gone).place file).files ≠ dir.files := by
  intro hsame
  have hfile : file ∈ dir.files := by
    rw [← hsame]
    exact mem_append_right _ (mem_singleton_self file)
  rw [BoundedDir.exists, hvld, Bool.true_and, BoundedDir.isFile, BoundedDir.file?,
    isSome_eq_false_iff, isNone_iff_eq_none, find?_eq_none] at hnew
  exact hnew file hfile (decide_eq_true rfl)

theorem saveUndone_iff (zstd : Zstd) (disk : SaveDisk) (opts : SaveOptions) (now : Instant)
    (node : Node) : SaveUndone zstd disk opts now node ↔
      SaveSucceeds zstd disk opts now node ∨
        (SaveHalts zstd disk opts now node ∧ Saturated node.ring (saveCounts disk node)) := by
  have hrun := save_run zstd disk opts now node
  have hrefs : ∀ {fault after}, save zstd disk opts now node = (.error fault, after) →
      (after.ring.refs = node.ring.refs ↔ Saturated node.ring (saveCounts disk node)) := by
    intro fault after hsave
    rw [hsave] at hrun
    rw [hrun.refs]
    exact Tally.raiseAll_eq_self_iff
  cases hsave : save zstd disk opts now node with
  | mk answer after =>
    rw [hsave] at hrun
    by_cases hblk : SaveBlocked disk opts node
    · obtain ⟨⟨fault, rfl⟩, hdir⟩ := hrun.blocked hblk
      constructor
      · intro hudn
        exact .inr ⟨.inl hblk, (hrefs hsave).mp (hudn fault after hsave).2.1⟩
      intro hcases fault after' hsave'
      cases hsave.symm.trans hsave'
      cases hcases with
      | inl hsuc => exact absurd hblk hsuc.1
      | inr hhalts => exact ⟨hrun.same, (hrefs hsave).mpr hhalts.2, congrArg _ hdir⟩
    obtain ⟨file, hfile, hwrote⟩ := hrun.written hblk
    have honly : ∀ {other}, savedFile zstd opts now node.ring = .ok other → other = file := by
      intro other hoth
      cases hoth.symm.trans hfile
      rfl
    by_cases hplcd : BoundedDir.Placed disk.write node.dir
        (fileName node.dir opts (millis now)) file.length
    · obtain ⟨hfs, hflt, -⟩ := hwrote.placed hplcd
      constructor
      · intro hudn
        left
        by_contra hfls
        have hobs : disk.write.observe ≠ .ok () ∨ opts.pin = true ∧ disk.pin ≠ .ok () := by
          by_contra hnone
          push Not at hnone
          exact hfls ⟨hblk, hnone.2, hnone.1, file, hfile, hplcd⟩
        obtain ⟨fault, herr⟩ := hflt.mpr hobs
        cases answer with
        | ok saved => cases herr
        | error fault =>
          have hsame := (hudn fault after hsave).2.2
          rw [hfs] at hsame
          refine files_place_ne ?_ ?_ hsame
          · exact not_exists_fileName node.dir opts (millis now)
          · exact hplcd.valid
      intro hcases fault after' hsave'
      cases hsave.symm.trans hsave'
      obtain hobs := hflt.mp ⟨fault, rfl⟩
      cases hcases with
      | inl hsuc =>
        cases hobs with
        | inl hobs => exact absurd hsuc.2.2.1 hobs
        | inr hpin => exact absurd (hsuc.2.1 hpin.1) hpin.2
      | inr hhalts =>
        cases hhalts.1 with
        | inl hoth => exact absurd hoth hblk
        | inr hoth =>
          obtain ⟨other, hoth, hunp, -⟩ := hoth
          cases honly hoth
          exact absurd hplcd hunp
    obtain ⟨herr, gone, hgone, hdir, hspa⟩ := hwrote.unplaced hplcd
    obtain ⟨fault, herr⟩ := herr
    cases answer with
    | ok saved => cases herr
    | error fault =>
      constructor
      · intro hudn
        obtain ⟨-, hcoun, hfs⟩ := hudn fault after hsave
        rw [hdir] at hfs
        have hnone : gone = [] := eq_nil_of_files_eraseAll
          (fun file hfile => (BoundedDir.mem_of_mem_planned (hgone.subset hfile)).1) hfs
        exact .inr ⟨.inr ⟨file, hfile, hplcd, hspa.mp hnone⟩, (hrefs hsave).mp hcoun⟩
      intro hcases fault' after' hsave'
      cases hsave.symm.trans hsave'
      cases hcases with
      | inl hsuc =>
        obtain ⟨other, hoth, hotherPlaced⟩ := hsuc.2.2.2
        cases honly hoth
        exact absurd hotherPlaced hplcd
      | inr hhalts =>
        refine ⟨hrun.same, (hrefs hsave).mpr hhalts.2, ?_⟩
        cases hhalts.1 with
        | inl hoth => exact absurd hoth hblk
        | inr hoth =>
          obtain ⟨other, hoth, -, hotherSpared⟩ := hoth
          cases honly hoth
          rw [hdir, hspa.mpr hotherSpared]
          rfl

/-- A failed push or save leaves no trace exactly if the counts it raised could not move, and
nothing was written or removed. -/
theorem failed_write_traceless_iff (spill : PushDisk) (call : NewRecord) (zstd : Zstd)
    (disk : SaveDisk) (opts : SaveOptions) (now : Instant) (node : Node) :
    (PushUndone spill call node.ring ↔ (RecordRing.PushFails spill call node.ring →
        Saturated node.ring (RecordRing.pushTakes spill call node.ring))) ∧
      (SaveUndone zstd disk opts now node ↔ SaveSucceeds zstd disk opts now node ∨
        (SaveHalts zstd disk opts now node ∧ Saturated node.ring (saveCounts disk node))) :=
  ⟨pushUndone_iff spill call node.ring, saveUndone_iff zstd disk opts now node⟩

/-- One record, with its one blob, and a directory with room for nothing. -/
def crampedNode : Node where
  ring := ⟨⟨0, 0, 0, true⟩, [⟨0, 0, "i", "f", .blob ⟨BlobKey.of [], 0⟩, .empty, 0⟩], 130, 1,
    some ⟨[⟨BlobKey.of [], [], 0⟩], [], Tally.zero.raise (BlobKey.of [])⟩⟩
  dir := ⟨[], [], 0, List.nodup_nil⟩

/-- A disk on which everything goes well. -/
def soundDisk : SaveDisk :=
  ⟨fun _ => .ok (), .ok (), ⟨.ok (), fun _ => .ok (), .ok (), .ok ()⟩, .ok ()⟩

/-- The quota refuses the file, and its blob stays counted for it. -/
theorem refused_save_counts_its_blob :
    ¬ SaveUndone Zstd.rawFrames soundDisk ⟨.manual, "", false⟩ 0 crampedNode := by
  intro hundone
  have hcount : ((save Zstd.rawFrames soundDisk ⟨.manual, "", false⟩ 0 crampedNode).1.isOk = false ∧
      (save Zstd.rawFrames soundDisk ⟨.manual, "", false⟩ 0 crampedNode).2.ring.refs.count
        (BlobKey.of []) = 2) := by
    decide +kernel
  cases hsave : save Zstd.rawFrames soundDisk ⟨.manual, "", false⟩ 0 crampedNode with
  | mk answer after =>
    rw [hsave] at hcount
    cases answer with
    | ok saved => cases hcount.1
    | error fault =>
      have hsame := (hundone fault after hsave).2.1
      rw [hsame] at hcount
      exact absurd hcount.2 (by decide +kernel)

end Saving

end WasmAgent.Bounded
