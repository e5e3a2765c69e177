import WasmAgent.Bounded.Directory

/-!
# What a write keeps of a directory

Without a fault of the file system, and where the sizes add up below the end of `u64`, a write is
let through exactly if the pinned files leave room for it, and the files that go for it are no more
than it needs.
-/

namespace WasmAgent.Bounded

open List WasmAgent.Core

/-- Every operation on the file system succeeds. -/
def WriteDisk.sound : WriteDisk := ⟨.ok (), fun _ => .ok (), .ok (), .ok ()⟩

namespace BoundedDir

/-- What the other files weigh, pinned or not. -/
def beside (dir : BoundedDir) (name : String) : ℕ :=
  heft (dir.entries.filter (fun file => !decide (file.name = name)))

def pinnedHeft (dir : BoundedDir) : ℕ :=
  heft (dir.entries.filter (fun file => file.name ∈ dir.pins))

def MakesRoom (dir : BoundedDir) (name : String) (size : ℕ) (gone : List StoredFile) : Prop :=
  dir.beside name - heft gone + size ≤ dir.quota

structure Settled (dir : BoundedDir) (name : String) (bytes : Bytes) (ts : Instant)
    (answer : Except Error Unit) (after : BoundedDir) : Prop where
  succeeds : answer = .ok () ↔ dir.pinnedHeft + bytes.length ≤ dir.quota
  fits : answer = .ok () → heft after.files ≤ dir.quota
  evicts : answer = .ok () → ∃ gone, gone <+: dir.victims name ∧
    MakesRoom dir name bytes.length gone ∧
    (∀ shorter, shorter <+: dir.victims name → MakesRoom dir name bytes.length shorter →
      gone.length ≤ shorter.length) ∧
    after = (dir.eraseAll gone).place ⟨name, bytes, ts⟩
  spares : ∀ file ∈ dir.files, file.name ∈ dir.pins → file ∈ after.files ∧ file.name ∈ after.pins
  refused : answer ≠ .ok () → after = dir

section Weights

variable {dir : BoundedDir} {name : String} {size used quota : ℕ} {gone : List StoredFile}

theorem nodup_entries (dir : BoundedDir) : (dir.entries.map StoredFile.name).Nodup :=
  ((mergeSort_perm dir.files StoredFile.le).map _).nodup_iff.mpr dir.distinct

theorem heft_perm {left right : List StoredFile} (hperm : left.Perm right) :
    heft left = heft right :=
  (hperm.map _).sum_nat

theorem heft_entries (dir : BoundedDir) : heft dir.entries = heft dir.files :=
  heft_perm (mergeSort_perm _ _)

theorem heft_filter_le (test : StoredFile → Bool) (files : List StoredFile) :
    heft (files.filter test) ≤ heft files :=
  heft_filter_add test files ▸ Nat.le_add_right _ _

theorem usedBeside_eq (hsmall : heft dir.files ≤ u64Max) :
    dir.usedBeside name = dir.beside name := by
  have hbs : (dir.usageOf dir.entries).bytes = heft dir.entries := by
    change weigh _ = _
    rw [weigh_eq, heft_entries]
    exact Nat.min_eq_left hsmall
  have hspl := heft_filter_add (fun file => decide (file.name = name)) dir.entries
  rw [heft_named dir.nodup_entries] at hspl
  rw [usedBeside, hbs, beside]
  omega

theorem evictions_shortest {victims : List StoredFile} (hsmall : used + size ≤ u64Max)
    (henough : used - heft victims + size ≤ quota) :
    evictions quota size victims used <+: victims ∧
      used - heft (evictions quota size victims used) + size ≤ quota ∧
      ∀ shorter, shorter <+: victims → used - heft shorter + size ≤ quota →
        (evictions quota size victims used).length ≤ shorter.length := by
  induction victims generalizing used with
  | nil => exact ⟨prefix_rfl, henough, fun _ _ _ => Nat.zero_le _⟩
  | cons victim victims ih =>
    rw [evictions, saturating, Nat.min_eq_left hsmall]
    split
    · next hfits => exact ⟨ nil_prefix, hfits, fun _ _ _ => Nat.zero_le _⟩
    rename_i hover
    have hcons (files : List StoredFile) :
        used - heft (victim :: files) = used - victim.bytes.length - heft files := by
      rw [heft, map_cons, sum_cons, Nat.sub_add_eq]
      rfl
    rw [hcons] at henough
    obtain ⟨hgone, hroom, hshort⟩ := ih (by omega) henough
    refine ⟨prefix_cons_inj victim |>.mpr hgone, ?_, ?_⟩
    · rw [hcons]
      exact hroom
    intro shorter hshor hfits
    cases shorter with
    | nil => exact absurd hfits hover
    | cons first shorter =>
      obtain ⟨rfl, hrest⟩ := cons_prefix_cons.mp hshor
      rw [hcons] at hfits
      exact Nat.succ_le_succ (hshort shorter hrest hfits)

theorem heft_gone {files : List StoredFile} (hdist : (files.map StoredFile.name).Nodup)
    (hgone : gone.Sublist files) :
    heft (files.filter (fun file => file.name ∈ gone.map StoredFile.name)) = heft gone := by
  apply heft_perm
  apply (perm_ext_iff_of_nodup (hdist.of_map.filter _) (hdist.of_map.sublist hgone)).mpr
  intro file
  rw [mem_filter, decide_eq_true_iff, mem_map]
  constructor
  · rintro ⟨hfile, other, hoth, hname⟩
    rw [← inj_on_of_nodup_map hdist (hgone.subset hoth) hfile hname]
    exact hoth
  · intro hfile
    exact ⟨hgone.subset hfile, file, hfile, rfl⟩

theorem mem_pins_eraseAll (hname : name ∉ gone.map StoredFile.name) :
    name ∈ (dir.eraseAll gone).pins ↔ name ∈ dir.pins := by
  induction gone generalizing dir with
  | nil => rfl
  | cons file gone ih =>
    rw [map_cons, mem_cons, not_or] at hname
    change name ∈ ((dir.erase file.name).eraseAll gone).pins ↔ _
    rw [ih hname.2, erase, mem_filter, decide_eq_true_iff]
    exact and_iff_left hname.1

theorem heft_place {bytes : Bytes} {ts : Instant} (hgone : gone.Sublist (dir.victims name)) :
    heft ((dir.eraseAll gone).place ⟨name, bytes, ts⟩).files =
      dir.beside name - heft gone + bytes.length := by
  have hoths : (dir.entries.filter (fun file => !decide (file.name = name))).map
      StoredFile.name |>.Nodup := dir.nodup_entries.sublist (filter_sublist.map _)
  have hsub : gone.Sublist (dir.entries.filter (fun file => !decide (file.name = name))) := by
    apply hgone.trans
    rw [victims]
    apply monotone_filter_right
    intro file hfile
    simp only [Bool.and_eq_true, decide_eq_true_iff] at hfile
    simp [hfile.2]
  have hspl := heft_filter_add
    (fun file => decide (file.name ∈ gone.map StoredFile.name))
    (dir.entries.filter (fun file => !decide (file.name = name)))
  rw [heft_gone hoths hsub] at hspl
  have hlt : heft ((dir.eraseAll gone).files.filter (fun other => other.name ≠ name)) =
      heft ((dir.entries.filter (fun file => !decide (file.name = name))).filter
        (fun file => !decide (file.name ∈ gone.map StoredFile.name))) := by
    apply heft_perm
    rw [files_eraseAll, filter_filter, filter_filter]
    apply ((mergeSort_perm dir.files StoredFile.le).symm.filter _).trans
    apply List.Perm.of_eq
    apply filter_congr
    intro file _
    rw [Bool.and_comm, decide_not, decide_not]
  change heft (_ ++ [_]) = _
  rw [heft, map_append, sum_append, map_singleton, sum_singleton]
  change heft _ + bytes.length = _
  rw [hlt, beside]
  omega

variable (hpins : name ∉ dir.pins)
include hpins

theorem pinnedHeft_le : dir.pinnedHeft ≤ dir.beside name := by
  have hsame : dir.entries.filter (fun file => file.name ∈ dir.pins) =
      (dir.entries.filter (fun file => !decide (file.name = name))).filter
        (fun file => file.name ∈ dir.pins) := by
    rw [filter_filter]
    apply filter_congr
    intro file _
    by_cases hname : file.name = name
    · simp [hname, hpins]
    · simp [hname]
  rw [pinnedHeft, hsame]
  exact heft_filter_le _ _

theorem over_iff (hsmall : heft dir.files + size ≤ u64Max) :
    Over dir name size ↔ dir.quota < dir.beside name + size := by
  have hbes : dir.beside name ≤ heft dir.files := heft_entries dir ▸ heft_filter_le _ _
  rw [Over, isPinned, decide_eq_false hpins, Bool.and_false, Bool.not_false, Bool.true_and,
    decide_eq_true_iff, usedBeside_eq (Nat.le_of_add_right_le hsmall), saturating]
  omega

theorem refused_iff (hsmall : heft dir.files + size ≤ u64Max) :
    Refused dir name size ↔ dir.quota < dir.pinnedHeft + size := by
  have hbes : dir.beside name ≤ heft dir.files := heft_entries dir ▸ heft_filter_le _ _
  have hpin := pinnedHeft_le hpins
  have hbs : (dir.usageOf dir.entries).pinnedBytes = dir.pinnedHeft := by
    change weigh _ = _
    rw [weigh_eq]
    apply Nat.min_eq_left
    exact Nat.le_trans hpin (Nat.le_trans hbes (Nat.le_of_add_right_le hsmall))
  rw [Refused, over_iff hpins hsmall, hbs, saturating]
  omega

omit hpins

/-- A write without faults settles a directory whose sizes add up below the end of `u64`. -/
theorem write_settled {bytes : Bytes} (ts : Instant) (hvalid : validName name = true)
    (hpins : name ∉ dir.pins) (hsmall : heft dir.files + bytes.length ≤ u64Max) :
    Settled dir name bytes ts (writeStamped .sound name bytes ts dir).1
      (writeStamped .sound name bytes ts dir).2 := by
  have hwritten := writeStamped_run .sound name bytes ts dir
  have hrefused := refused_iff hpins hsmall
  have hused := @usedBeside_eq dir name (Nat.le_of_add_right_le hsmall)
  have hbeside : dir.beside name ≤ heft dir.files := heft_entries dir ▸ heft_filter_le _ _
  have hplaced : Placed .sound dir name bytes.length ↔
      dir.pinnedHeft + bytes.length ≤ dir.quota := by
    rw [← Nat.not_lt, ← hrefused]
    exact ⟨Placed.room, fun hroom => ⟨hvalid, rfl, hroom, fun _ _ => rfl, rfl⟩⟩
  have hsucceeds := hwritten.succeeded.trans (and_iff_left rfl)
  have hplan : Placed .sound dir name bytes.length →
      planned dir name bytes.length <+: dir.victims name ∧
        MakesRoom dir name bytes.length (planned dir name bytes.length) ∧
        ∀ shorter, shorter <+: dir.victims name → MakesRoom dir name bytes.length shorter →
          (planned dir name bytes.length).length ≤ shorter.length := by
    intro hroom
    rw [planned]
    split
    · next hover =>
      have henough := victims_enough hvalid hover (fun hfull => hroom.room ⟨hover, hfull⟩)
      rw [hused] at henough ⊢
      rw [saturating, Nat.min_eq_left (by omega)] at henough
      exact evictions_shortest (by omega) henough
    rename_i hfits
    refine ⟨ nil_prefix, ?_, fun _ _ _ => Nat.zero_le _⟩
    rw [over_iff hpins hsmall, Nat.not_lt] at hfits
    exact hfits
  have hspares : ∀ gone, gone <+: dir.victims name → ∀ file ∈ dir.files, file.name ∈ dir.pins →
      file ∈ (dir.eraseAll gone).files ∧ file.name ∈ (dir.eraseAll gone).pins := by
    intro gone hgone file hfile hpinned
    have hstays : file.name ∉ gone.map StoredFile.name := by
      intro hname
      obtain ⟨victim, hvictim, hsame⟩ := mem_map.mp hname
      have hunpinned := (mem_filter.mp (hgone.subset hvictim)).2
      simp [hsame, hpinned] at hunpinned
    refine ⟨?_, (mem_pins_eraseAll hstays).mpr hpinned⟩
    rw [files_eraseAll, mem_filter]
    exact ⟨hfile, decide_eq_true hstays⟩
  by_cases hroom : Placed .sound dir name bytes.length
  · obtain ⟨hgone, hfits, hshortest⟩ := hplan hroom
    rw [hwritten.placed hroom]
    refine ⟨hsucceeds.trans hplaced, ?_, fun _ => ⟨_, hgone, hfits, hshortest, rfl⟩, ?_, ?_⟩
    · intro _
      rw [heft_place hgone.sublist]
      exact hfits
    · intro file hfile hpinned
      obtain ⟨hstays, hpin⟩ := hspares _ hgone file hfile hpinned
      refine ⟨mem_append_left _ (mem_filter.mpr ⟨hstays, ?_⟩), hpin⟩
      apply decide_eq_true
      rintro rfl
      exact hpins hpinned
    · exact fun hfault => absurd (hsucceeds.mpr hroom) hfault
  have hspared : Spared .sound dir name bytes.length := by
    refine .inr (.inr (.inl (hrefused.mpr ?_)))
    rwa [hplaced, Nat.not_le] at hroom
  obtain ⟨gone, -, hafter, hnone⟩ := hwritten.unplaced hroom
  rw [hnone.mpr hspared] at hafter
  have hfault : (writeStamped .sound name bytes ts dir).1 ≠ .ok () := mt hsucceeds.mp hroom
  rw [hafter]
  exact ⟨hsucceeds.trans hplaced, fun h => absurd h hfault, fun h => absurd h hfault,
    fun _ hfile hpinned => ⟨hfile, hpinned⟩, fun _ => rfl⟩

end Weights

section Sparse

def oneFile : BoundedDir := ⟨[⟨"a", [1, 2], 0⟩], [], 2, by decide⟩

/-- The older file goes for the new one. -/
theorem write_settled_one : Settled oneFile "b" [3] 1 (writeStamped .sound "b" [3] 1 oneFile).1
    (writeStamped .sound "b" [3] 1 oneFile).2 :=
  write_settled 1 (by decide +kernel) (by decide) (by decide)

/-- The size of the largest file that a file system offers. -/
def huge : Bytes := List.replicate 0x7FFFFFFFFFFFFFFF 0

/-- Three files without content, the sizes of which add up past the end of `u64`. -/
def sparse : BoundedDir :=
  ⟨[⟨"a", huge, 0⟩, ⟨"b", huge, 1⟩, ⟨"c", huge, 2⟩], [], 0x8000000000000000,
    by simp [List.nodup_cons]⟩

/-- One file goes, and the other two are over the quota. -/
theorem sparse_over_quota :
    ¬ Settled sparse "d" [] 3 (writeStamped .sound "d" [] 3 sparse).1
      (writeStamped .sound "d" [] 3 sparse).2 := by
  intro hsettled
  have hlen : huge.length = 0x7FFFFFFFFFFFFFFF := length_replicate
  have hentries : sparse.entries = sparse.files := mergeSort_of_pairwise (by decide)
  have hused : sparse.usedBeside "d" = u64Max := by
    change weigh sparse.entries - _ = _
    rw [weigh_eq, hentries]
    simp [sparse, heft, hlen, u64Max]
  have hbeside : sparse.beside "d" = 3 * 0x7FFFFFFFFFFFFFFF := by
    rw [beside, hentries]
    simp [sparse, heft, hlen]
  have hplanned : planned sparse "d" 0 = [⟨"a", huge, 0⟩] := by
    have hvictims : sparse.victims "d" = sparse.files := by
      rw [victims, hentries]
      simp [sparse]
    have hover : Over sparse "d" 0 := by
      rw [Over, hused]
      decide
    rw [planned, if_pos hover, hused, hvictims]
    simp [sparse, evictions, saturating, u64Max, hlen]
  have hplaced : Placed .sound sparse "d" 0 := by
    refine ⟨by decide +kernel, rfl, ?_, fun _ _ => rfl, rfl⟩
    rintro ⟨-, hfull⟩
    rw [usageOf, hentries] at hfull
    simp [sparse, weigh, saturating] at hfull
  have hwritten := writeStamped_run .sound "d" [] 3 sparse
  have hfits := hsettled.fits (hwritten.succeeded.mpr ⟨hplaced, rfl⟩)
  rw [hwritten.placed hplaced, heft_place, hbeside] at hfits
  · change _ - heft (planned sparse "d" 0) + 0 ≤ 0x8000000000000000 at hfits
    rw [hplanned] at hfits
    simp [heft, hlen] at hfits
  change (planned sparse "d" 0).Sublist _
  rw [planned]
  split
  · exact evictions_sublist _ _ _ _
  · exact nil_sublist _

end Sparse

end BoundedDir

end WasmAgent.Bounded
