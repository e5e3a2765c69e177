import WasmAgent.Bounded.Blobs
import Mathlib.Data.List.Sort

/-!
# A directory with a quota

Files under flat names.  A write drops the oldest files that are not pinned until the new
one fits, and is refused before it drops any when that would not be enough.
-/

namespace WasmAgent.Bounded

open List WasmAgent.Core

structure StoredFile where
  name : String
  bytes : Bytes
  ts : Instant

structure BoundedDir where
  files : List StoredFile
  pins : List String
  quota : ℕ
  distinct : (files.map StoredFile.name).Nodup

structure Usage where
  bytes : ℕ
  pinnedBytes : ℕ

def maxName : ℕ := 200

def isNameByte (byte : UInt8) : Bool :=
  (0x30 ≤ byte && byte ≤ 0x39) || (0x41 ≤ byte && byte ≤ 0x5a) || (0x61 ≤ byte && byte ≤ 0x7a) ||
    byte = 0x2d || byte = 0x5f || byte = 0x2e

/-- Flat, without `..`, and neither like a staging file nor like a marker. -/
def validName (name : String) : Bool :=
  !name.isEmpty && (utf8 name).length ≤ maxName && !(utf8 ".").isPrefixOf (utf8 name) &&
    !(utf8 name).tails.any (fun rest => (utf8 "..").isPrefixOf rest) &&
    !(utf8 ".pin").isSuffixOf (utf8 name) && !(utf8 ".tmp").isSuffixOf (utf8 name) &&
    (utf8 name).all isNameByte

/-- How a write's operations on the file system go. -/
structure WriteDisk where
  list : Answer
  evict : String → Answer
  write : Answer
  observe : Answer

/-- How a removal's operations on the file system go. -/
structure RemoveDisk where
  remove : Answer
  observe : Answer

/-- How an expiry's operations on the file system go. -/
structure ExpireDisk where
  list : Answer
  remove : String → Answer
  observe : Answer

namespace StoredFile

def le (left right : StoredFile) : Bool :=
  left.ts < right.ts || (left.ts = right.ts && (compare left.name right.name).isLE)

end StoredFile

namespace BoundedDir

def file? (dir : BoundedDir) (name : String) : Option StoredFile :=
  dir.files.find? (fun file => file.name = name)

def isFile (dir : BoundedDir) (name : String) : Bool := (dir.file? name).isSome

def «exists» (dir : BoundedDir) (name : String) : Bool := validName name && dir.isFile name

def isPinned (dir : BoundedDir) (name : String) : Bool := validName name && name ∈ dir.pins

def entries (dir : BoundedDir) : List StoredFile := dir.files.mergeSort StoredFile.le

def weigh (files : List StoredFile) : ℕ :=
  files.foldl (fun total file => saturating total file.bytes.length) 0

def usageOf (dir : BoundedDir) (entries : List StoredFile) : Usage :=
  ⟨weigh entries, weigh (entries.filter (fun file => file.name ∈ dir.pins))⟩

def erase (name : String) (dir : BoundedDir) : BoundedDir :=
  { dir with
    files := dir.files.filter (fun file => file.name ≠ name)
    pins := dir.pins.filter (· ≠ name)
    distinct := dir.distinct.sublist (List.Sublist.map _ List.filter_sublist) }

def place (file : StoredFile) (dir : BoundedDir) : BoundedDir :=
  { dir with
    files := dir.files.filter (fun other => other.name ≠ file.name) ++ [file]
    distinct := by
      rw [List.map_append, List.nodup_append]
      refine ⟨dir.distinct.sublist (List.Sublist.map _ List.filter_sublist),
        List.nodup_singleton _, ?_⟩
      intro name hname other hother hsame
      obtain ⟨kept, hkept, rfl⟩ := List.mem_map.mp hname
      rw [List.mem_filter, decide_eq_true_iff] at hkept
      exact hkept.2 (hsame.trans (List.mem_singleton.mp hother)) }

def usedBeside (dir : BoundedDir) (name : String) : ℕ :=
  (dir.usageOf dir.entries).bytes - ((dir.entries.find? (fun file => file.name = name)).map
    (fun file => file.bytes.length)).getD 0

/-- What may go for a write, oldest first. -/
def victims (dir : BoundedDir) (name : String) : List StoredFile :=
  dir.entries.filter (fun file => file.name ∉ dir.pins && file.name ≠ name)

/-- The oldest victims go until the new file fits. -/
def evict (disk : WriteDisk) (size : ℕ) : List StoredFile → ℕ → Effect BoundedDir Error ℕ
  | [], used => return used
  | victim :: victims, used => do
      let dir ← Effect.read
      if saturating used size ≤ dir.quota then
        return used
      else
        perform (disk.evict victim.name)
        Effect.write (erase victim.name)
        evict disk size victims (used - victim.bytes.length)

def makeRoom (disk : WriteDisk) (name : String) (size : ℕ) : Effect BoundedDir Error Unit := do
  let dir ← Effect.read
  let used := dir.usedBeside name
  if !dir.isPinned name && dir.quota < saturating used size then
    if dir.quota < saturating (dir.usageOf dir.entries).pinnedBytes size then
      Effect.lift (.error (.quotaExceeded size used dir.quota))
    else
      let left ← evict disk size (dir.victims name) used
      if dir.quota < saturating left size then
        Effect.lift (.error (.quotaExceeded size left dir.quota))
      else
        return ()
  else
    return ()

def writeStamped (disk : WriteDisk) (name : String) (bytes : Bytes) (ts : Instant) :
    Effect BoundedDir Error Unit := do
  if !validName name then
    Effect.lift (.error (.badName name))
  else
    perform disk.list
    makeRoom disk name bytes.length
    perform disk.write
    Effect.write (place ⟨name, bytes, ts⟩)
    perform disk.observe

def read (dir : BoundedDir) (name : String) : Except Error Bytes :=
  if !validName name then
    .error (.badName name)
  else
    match dir.file? name with
    | some file => .ok file.bytes
    | none => .error (.notFound name)

/-- The marker goes first. -/
def remove (disk : RemoveDisk) (name : String) : Effect BoundedDir Error Bool := do
  if !validName name then
    Effect.lift (.error (.badName name))
  else
    Effect.write (fun dir => { dir with pins := dir.pins.filter (· ≠ name) })
    let dir ← Effect.read
    if dir.isFile name then
      perform disk.remove
      Effect.write (erase name)
      perform disk.observe
      return true
    else
      perform disk.observe
      return false

def pin (answer : Answer) (name : String) : Effect BoundedDir Error Unit := do
  let dir ← Effect.read
  if !validName name then
    Effect.lift (.error (.badName name))
  else if !dir.exists name then
    Effect.lift (.error (.notFound name))
  else
    perform answer
    Effect.write (fun dir => { dir with pins := name :: dir.pins })

def expireAll (disk : ExpireDisk) : List StoredFile → Effect BoundedDir Error Unit
  | [] => return ()
  | file :: files => do
      perform (disk.remove file.name)
      Effect.write (fun dir => { dir with
        files := dir.files.filter (fun other => other.name ≠ file.name)
        distinct := dir.distinct.sublist (List.Sublist.map _ List.filter_sublist) })
      expireAll disk files

def expired (dir : BoundedDir) (maxAge : ℕ) (now : Instant) : List StoredFile :=
  dir.entries.filter (fun file => file.name ∉ dir.pins && maxAge ≤ since now file.ts)

def expire (disk : ExpireDisk) (maxAge : ℕ) (now : Instant) :
    Effect BoundedDir Error (List String) := do
  perform disk.list
  let dir ← Effect.read
  expireAll disk (dir.expired maxAge now)
  if dir.expired maxAge now = [] then
    return []
  else
    perform disk.observe
    return (dir.expired maxAge now).map StoredFile.name

section Weighing

def heft (files : List StoredFile) : ℕ := (files.map (fun file => file.bytes.length)).sum

theorem weigh_eq (files : List StoredFile) : weigh files = min (heft files) u64Max := by
  have hfold : ∀ (files : List StoredFile) (total : ℕ), total ≤ u64Max →
      files.foldl (fun total file => saturating total file.bytes.length) total =
        min (total + heft files) u64Max := by
    intro files
    induction files with
    | nil =>
      intro total htotal
      exact (Nat.min_eq_left htotal).symm
    | cons file files ih =>
      intro total htotal
      change files.foldl _ (min (total + file.bytes.length) u64Max) = _
      rw [ih _ (Nat.min_le_right _ _), heft, heft, map_cons, sum_cons]
      omega
  rw [weigh, hfold files 0 (Nat.zero_le _), Nat.zero_add]

theorem heft_filter_add (test : StoredFile → Bool) (files : List StoredFile) :
    heft (files.filter test) + heft (files.filter (fun file => !test file)) = heft files := by
  induction files with
  | nil => rfl
  | cons file files ih =>
    cases htest : test file with
    | true =>
      rw [filter_cons_of_pos htest, filter_cons_of_neg (by rw [htest]; nofun), heft,
        map_cons, sum_cons, Nat.add_assoc]
      exact congrArg (file.bytes.length + ·) ih
    | false =>
      rw [filter_cons_of_neg (by rw [htest]; nofun), filter_cons_of_pos (by rw [htest]; rfl),
        Nat.add_comm, heft, map_cons, sum_cons, Nat.add_assoc, Nat.add_comm (sum _)]
      exact congrArg (file.bytes.length + ·) ih

theorem heft_named {files : List StoredFile} (hdist : (files.map StoredFile.name).Nodup)
    (name : String) : heft (files.filter (fun file => file.name = name)) =
      ((files.find? (fun file => file.name = name)).map (fun file => file.bytes.length)).getD 0 := by
  induction files with
  | nil => rfl
  | cons file files ih =>
    rw [map_cons, nodup_cons] at hdist
    by_cases hname : file.name = name
    · have hrest : files.filter (fun file => file.name = name) = [] := by
        rw [filter_eq_nil_iff]
        intro other hother hsame
        apply hdist.1
        rw [hname, ← of_decide_eq_true hsame]
        exact mem_map_of_mem hother
      rw [filter_cons, if_pos (decide_eq_true hname), hrest, find?_cons, decide_eq_true hname]
      exact Nat.add_zero _
    · rw [filter_cons, decide_eq_false hname, if_neg Bool.noConfusion, find?_cons,
        decide_eq_false hname]
      exact ih hdist.2

end Weighing

section Evicting

/-- The victims that go until the new file fits. -/
def evictions (quota size : ℕ) : List StoredFile → ℕ → List StoredFile
  | [], _ => []
  | victim :: victims, used =>
      if saturating used size ≤ quota then []
      else victim :: evictions quota size victims (used - victim.bytes.length)

def usedAfter (quota size : ℕ) : List StoredFile → ℕ → ℕ
  | [], used => used
  | victim :: victims, used =>
      if saturating used size ≤ quota then used
      else usedAfter quota size victims (used - victim.bytes.length)

def eraseAll (files : List StoredFile) (dir : BoundedDir) : BoundedDir :=
  files.foldl (fun dir file => dir.erase file.name) dir

theorem evictions_sublist (quota size : ℕ) (victims : List StoredFile) (used : ℕ) :
    (evictions quota size victims used).Sublist victims := by
  induction victims generalizing used with
  | nil => exact List.Sublist.refl _
  | cons victim victims ih =>
    rw [evictions]
    split
    · exact nil_sublist _
    · exact (ih _).cons_cons victim

theorem usedAfter_fits {quota size : ℕ} {victims : List StoredFile} {used : ℕ}
    (henough : saturating (used - heft victims) size ≤ quota) :
    saturating (usedAfter quota size victims used) size ≤ quota := by
  induction victims generalizing used with
  | nil => exact henough
  | cons victim victims ih =>
    rw [usedAfter]
    split
    · next hfits => exact hfits
    · apply ih
      rw [heft, map_cons, sum_cons, ← Nat.sub_sub] at henough
      exact henough

theorem files_eraseAll (files : List StoredFile) (dir : BoundedDir) :
    (dir.eraseAll files).files =
      dir.files.filter (fun file => file.name ∉ files.map StoredFile.name) := by
  induction files generalizing dir with
  | nil => exact (filter_eq_self.mpr (fun _ _ => decide_eq_true not_mem_nil)).symm
  | cons file files ih =>
    change ((dir.erase file.name).eraseAll files).files = _
    rw [ih, erase, filter_filter]
    apply filter_congr
    intro other _
    rw [map_cons, ← Bool.decide_and, decide_eq_decide, mem_cons, not_or]
    exact and_comm

theorem evict_run (disk : WriteDisk) (size : ℕ) (victims : List StoredFile) (used : ℕ)
    (dir : BoundedDir) :
    (∀ victim ∈ evictions dir.quota size victims used, disk.evict victim.name = .ok ()) ∧
        evict disk size victims used dir = (.ok (usedAfter dir.quota size victims used),
          dir.eraseAll (evictions dir.quota size victims used)) ∨
      ∃ gone victim rest fault, evictions dir.quota size victims used = gone ++ victim :: rest ∧
        (∀ other ∈ gone, disk.evict other.name = .ok ()) ∧ disk.evict victim.name ≠ .ok () ∧
        evict disk size victims used dir = (.error fault, dir.eraseAll gone) := by
  induction victims generalizing used dir with
  | nil => exact .inl ⟨nofun, rfl⟩
  | cons victim victims ih =>
    have hevict : evict disk size (victim :: victims) used dir =
        (if saturating used size ≤ dir.quota then return used else do
          perform (disk.evict victim.name)
          Effect.write (erase victim.name)
          evict disk size victims (used - victim.bytes.length) : Effect BoundedDir Error ℕ) dir :=
      rfl
    rw [hevict, evictions, usedAfter]
    by_cases hfits : saturating used size ≤ dir.quota
    · rw [if_pos hfits, if_pos hfits, if_pos hfits]
      exact .inl ⟨nofun, rfl⟩
    rw [if_neg hfits, if_neg hfits, if_neg hfits]
    cases hans : disk.evict victim.name with
    | error why =>
      refine .inr ⟨[], victim, _, .io why, rfl, nofun, ?_, rfl⟩
      rw [hans]
      nofun
    | ok _ =>
      cases ih (used - victim.bytes.length) (dir.erase victim.name) with
      | inl hdone =>
        refine .inl ⟨?_, hdone.2⟩
        intro other hother
        cases mem_cons.mp hother with
        | inl hsame => rw [hsame, hans]
        | inr hother => exact hdone.1 other hother
      | inr hfail =>
        obtain ⟨gone, stuck, rest, fault, hplnd, hgone, hstuck, hevict⟩ := hfail
        refine .inr ⟨victim :: gone, stuck, rest, fault, ?_, ?_, hstuck, hevict⟩
        · exact congrArg (victim :: ·) hplnd
        intro other hother
        cases mem_cons.mp hother with
        | inl hsame => rw [hsame, hans]
        | inr hother => exact hgone other hother

end Evicting

section Writing

variable {disk : WriteDisk} {dir : BoundedDir} {name : String} {size : ℕ}

/-- A write that does not fit as things are. -/
def Over (dir : BoundedDir) (name : String) (size : ℕ) : Prop :=
  (!dir.isPinned name && decide (dir.quota < saturating (dir.usedBeside name) size)) = true

/-- A write that would not fit after every victim is gone. -/
def Refused (dir : BoundedDir) (name : String) (size : ℕ) : Prop :=
  Over dir name size ∧ dir.quota < saturating (dir.usageOf dir.entries).pinnedBytes size

instance : Decidable (Over dir name size) := inferInstanceAs (Decidable (_ = true))

instance : Decidable (Refused dir name size) := inferInstanceAs (Decidable (_ ∧ _))

def planned (dir : BoundedDir) (name : String) (size : ℕ) : List StoredFile :=
  if Over dir name size then
    evictions dir.quota size (dir.victims name) (dir.usedBeside name)
  else []

theorem mem_of_mem_planned {file : StoredFile} (hfile : file ∈ planned dir name size) :
    file ∈ dir.files ∧ file.name ≠ name := by
  rw [planned] at hfile
  split at hfile
  · have hvic := (evictions_sublist _ _ _ _).subset hfile
    rw [victims, mem_filter, Bool.and_eq_true, decide_eq_true_iff, decide_eq_true_iff] at hvic
    exact ⟨mem_mergeSort.mp hvic.1, hvic.2.2⟩
  · cases hfile

theorem victims_enough (hvld : validName name = true) (hover : Over dir name size)
    (hfloor : ¬ dir.quota < saturating (dir.usageOf dir.entries).pinnedBytes size) :
    saturating (dir.usedBeside name - heft (dir.victims name)) size ≤ dir.quota := by
  have hpinn : name ∉ dir.pins := by
    intro hpin
    rw [Over, isPinned, hvld, decide_eq_true hpin] at hover
    cases hover
  have hdist : (dir.entries.map StoredFile.name).Nodup :=
    ((mergeSort_perm dir.files StoredFile.le).map _).nodup_iff.mpr dir.distinct
  have hspl := heft_filter_add (fun file => decide (file.name ∈ dir.pins)) dir.entries
  have hrest := heft_filter_add (fun file => decide (file.name = name))
    (dir.entries.filter (fun file => !decide (file.name ∈ dir.pins)))
  have hnmd : (dir.entries.filter (fun file => !decide (file.name ∈ dir.pins))).filter
      (fun file => file.name = name) = dir.entries.filter (fun file => file.name = name) := by
    rw [filter_filter]
    apply filter_congr
    intro file _
    by_cases hname : file.name = name
    · rw [hname, decide_eq_false hpinn, decide_eq_true rfl]
      rfl
    · rw [decide_eq_false hname, Bool.false_and]
  have hvic : (dir.entries.filter (fun file => !decide (file.name ∈ dir.pins))).filter
      (fun file => !decide (file.name = name)) = dir.victims name := by
    rw [filter_filter, victims]
    apply filter_congr
    intro file _
    rw [Bool.and_comm, decide_not, decide_not]
  rw [hnmd, heft_named hdist, hvic] at hrest
  have hbs : (dir.usageOf dir.entries).bytes ≤ heft dir.entries := by
    change weigh dir.entries ≤ _
    rw [weigh_eq]
    exact Nat.min_le_left _ _
  have hpinnedBytes : (dir.usageOf dir.entries).pinnedBytes =
      min (heft (dir.entries.filter (fun file => decide (file.name ∈ dir.pins)))) u64Max :=
    weigh_eq _
  rw [hpinnedBytes, saturating] at hfloor
  rw [usedBeside, saturating]
  omega

theorem makeRoom_run (disk : WriteDisk) (hvld : validName name = true) (size : ℕ)
    (dir : BoundedDir) :
    Refused dir name size ∧ (∃ fault, makeRoom disk name size dir = (.error fault, dir)) ∨
      ¬ Refused dir name size ∧
        ((∀ victim ∈ planned dir name size, disk.evict victim.name = .ok ()) ∧
            makeRoom disk name size dir = (.ok (), dir.eraseAll (planned dir name size)) ∨
          ∃ gone victim rest fault, planned dir name size = gone ++ victim :: rest ∧
            (∀ other ∈ gone, disk.evict other.name = .ok ()) ∧ disk.evict victim.name ≠ .ok () ∧
            makeRoom disk name size dir = (.error fault, dir.eraseAll gone)) := by
  by_cases hover : Over dir name size
  · have hroom : makeRoom disk name size dir =
        (if dir.quota < saturating (dir.usageOf dir.entries).pinnedBytes size then
          Effect.lift (.error (.quotaExceeded size (dir.usedBeside name) dir.quota))
        else do
          let left ← evict disk size (dir.victims name) (dir.usedBeside name)
          if dir.quota < saturating left size then
            Effect.lift (.error (.quotaExceeded size left dir.quota))
          else
            return () : Effect BoundedDir Error Unit) dir := by
      rw [Over] at hover
      change (if _ then _ else _ : Effect BoundedDir Error Unit) dir = _
      rw [if_pos hover]
    have hplnd : planned dir name size =
        evictions dir.quota size (dir.victims name) (dir.usedBeside name) := if_pos hover
    rw [hroom]
    by_cases hfloor : dir.quota < saturating (dir.usageOf dir.entries).pinnedBytes size
    · rw [if_pos hfloor]
      exact .inl ⟨⟨hover, hfloor⟩, _, rfl⟩
    rw [if_neg hfloor, hplnd]
    refine .inr ⟨fun href => hfloor href.2, ?_⟩
    cases evict_run disk size (dir.victims name) (dir.usedBeside name) dir with
    | inl hdone =>
      refine .inl ⟨hdone.1, ?_⟩
      have hfits := usedAfter_fits (victims_enough hvld hover hfloor)
      rw [Effect.bind_of_ok hdone.2, if_neg (Nat.not_lt.mpr hfits)]
      rfl
    | inr hfail =>
      obtain ⟨gone, victim, rest, fault, hplan, hgone, hvic, hevict⟩ := hfail
      exact .inr ⟨gone, victim, rest, fault, hplan, hgone, hvic, Effect.bind_of_error hevict⟩
  have hplnd : planned dir name size = [] := if_neg hover
  rw [hplnd]
  refine .inr ⟨fun href => hover href.1, .inl ⟨nofun, ?_⟩⟩
  rw [Over] at hover
  change (if _ then _ else _ : Effect BoundedDir Error Unit) dir = _
  rw [if_neg hover]
  rfl

/-- A write that gets as far as its file. -/
structure Placed (disk : WriteDisk) (dir : BoundedDir) (name : String) (size : ℕ) : Prop where
  valid : validName name = true
  list : disk.list = .ok ()
  room : ¬ Refused dir name size
  evicted : ∀ victim ∈ planned dir name size, disk.evict victim.name = .ok ()
  write : disk.write = .ok ()

/-- A write that fails before it removes a file. -/
def Spared (disk : WriteDisk) (dir : BoundedDir) (name : String) (size : ℕ) : Prop :=
  validName name = false ∨ disk.list ≠ .ok () ∨ Refused dir name size ∨
    (∃ first ∈ (planned dir name size).head?, disk.evict first.name ≠ .ok ()) ∨
    (planned dir name size = [] ∧ disk.write ≠ .ok ())

structure Written (disk : WriteDisk) (name : String) (bytes : Bytes) (ts : Instant)
    (before : BoundedDir) (answer : Except Error Unit) (after : BoundedDir) : Prop where
  succeeded : answer = .ok () ↔ Placed disk before name bytes.length ∧ disk.observe = .ok ()
  placed : Placed disk before name bytes.length →
    after = (before.eraseAll (planned before name bytes.length)).place ⟨name, bytes, ts⟩
  unplaced : ¬ Placed disk before name bytes.length → ∃ gone,
    gone <+: planned before name bytes.length ∧ after = before.eraseAll gone ∧
      (gone = [] ↔ Spared disk before name bytes.length)

theorem Written.of_unplaced {bytes : Bytes} {ts : Instant} {fault : Error} {after : BoundedDir}
    {gone : List StoredFile} (hplcd : ¬ Placed disk dir name bytes.length)
    (hgone : gone <+: planned dir name bytes.length) (haft : after = dir.eraseAll gone)
    (hspa : gone = [] ↔ Spared disk dir name bytes.length) :
    Written disk name bytes ts dir (.error fault) after where
  succeeded := ⟨nofun, fun hother => absurd hother.1 hplcd⟩
  placed := fun hother => absurd hother hplcd
  unplaced _ := ⟨gone, hgone, haft, hspa⟩

theorem spared_iff (hvld : validName name = true) {answer : Unit}
    (hlist : disk.list = .ok answer) (href : ¬ Refused dir name size) :
    Spared disk dir name size ↔
      (∃ first ∈ (planned dir name size).head?, disk.evict first.name ≠ .ok ()) ∨
        (planned dir name size = [] ∧ disk.write ≠ .ok ()) := by
  rw [Spared, hvld, hlist, or_iff_right Bool.noConfusion, or_iff_right (fun hother => hother rfl),
    or_iff_right href]

theorem writeStamped_run (disk : WriteDisk) (name : String) (bytes : Bytes) (ts : Instant)
    (dir : BoundedDir) :
    Written disk name bytes ts dir (writeStamped disk name bytes ts dir).1
      (writeStamped disk name bytes ts dir).2 := by
  have hspar : ∀ {fault : Error}, Spared disk dir name bytes.length →
      ¬ Placed disk dir name bytes.length → Written disk name bytes ts dir (.error fault) dir := by
    intro fault hspa hplcd
    apply Written.of_unplaced hplcd ( nil_prefix) rfl
    exact ⟨fun _ => hspa, fun _ => rfl⟩
  cases hvld : validName name with
  | false =>
    have hwr : writeStamped disk name bytes ts dir = (.error (.badName name), dir) := by
      rw [writeStamped, hvld]
      rfl
    rw [hwr]
    apply hspar (.inl hvld)
    intro hplcd
    rw [hplcd.valid] at hvld
    cases hvld
  | true =>
    rw [writeStamped, hvld]
    change Written disk name bytes ts dir ((perform disk.list >>= _) dir).1
      ((perform disk.list >>= _) dir).2
    cases hlist : disk.list with
    | error why =>
      apply hspar (.inr (.inl (by rw [hlist]; nofun)))
      intro hplcd
      cases hlist.symm.trans hplcd.list
    | ok _ =>
      rw [Effect.bind_of_ok (rfl : perform (.ok _) dir = (.ok (), dir))]
      cases makeRoom_run disk hvld bytes.length dir with
      | inl href =>
        obtain ⟨href, fault, hroom⟩ := href
        rw [Effect.bind_of_error hroom]
        apply hspar (.inr (.inr (.inl href)))
        intro hplcd
        exact hplcd.room href
      | inr hadm =>
        obtain ⟨href, hroom⟩ := hadm
        cases hroom with
        | inr hstuck =>
          obtain ⟨gone, victim, rest, fault, hplnd, hgone, hvic, hroom⟩ := hstuck
          rw [Effect.bind_of_error hroom]
          apply Written.of_unplaced _ ⟨victim :: rest, hplnd.symm⟩ rfl
          · rw [spared_iff hvld hlist href, hplnd]
            constructor
            · intro hnone
              rw [hnone]
              exact .inl ⟨victim, rfl, hvic⟩
            intro hspa
            cases gone with
            | nil => rfl
            | cons first gone =>
              cases hspa with
              | inl hfst =>
                obtain ⟨found, hfnd, hfls⟩ := hfst
                cases hfnd
                exact absurd (hgone first mem_cons_self) hfls
              | inr hnone => cases hnone.1
          intro hplcd
          apply hvic
          apply hplcd.evicted
          rw [hplnd]
          exact mem_append_right _ mem_cons_self
        | inl hdone =>
          obtain ⟨hevic, hroom⟩ := hdone
          rw [Effect.bind_of_ok hroom]
          cases hwrn : disk.write with
          | error why =>
            apply Written.of_unplaced _ (prefix_refl _) rfl
            · rw [spared_iff hvld hlist href]
              constructor
              · intro hnone
                exact .inr ⟨hnone, by rw [hwrn]; nofun⟩
              intro hspa
              cases hspa with
              | inl hfst =>
                obtain ⟨first, hfnd, hfls⟩ := hfst
                exact absurd (hevic first (mem_of_mem_head? hfnd)) hfls
              | inr hnone => exact hnone.1
            · intro hplcd
              cases hwrn.symm.trans hplcd.write
          | ok _ =>
            have hplcd : Placed disk dir name bytes.length := ⟨hvld, hlist, href, hevic, hwrn⟩
            constructor
            · rw [and_iff_right hplcd]
              cases disk.observe with
              | ok _ => exact ⟨fun _ => rfl, fun _ => rfl⟩
              | error why => exact ⟨nofun, nofun⟩
            · intro _
              cases disk.observe <;> rfl
            · exact fun hother => absurd hplcd hother

end Writing

end BoundedDir

end WasmAgent.Bounded
