import Mathlib.Data.List.Nodup

/-!
# Writing all or putting back

A list of values is written one key at a time.  At the first refusal the keys written so
far get back what was under them.  A store without removal cannot put an absence back, so
the pass is all or nothing exactly where no key it reached was absent.
-/

namespace WasmAgent.Core.Rollback

open List Option Function

/-- What is under each key, if anything. -/
abbrev Contents (κ υ : Type*) := κ → Option υ

structure Write (κ υ : Type*) where
  key : κ
  value : υ
  previous : Option υ

section Passes

variable {κ υ : Type*} [DecidableEq κ]

def Write.back (write : Write κ υ) (contents : Contents κ υ) : Contents κ υ :=
  match write.previous with
  | some value => Function.update contents write.key (some value)
  | none => contents

def putBack : List (Write κ υ) → Contents κ υ → Contents κ υ
  | [], contents => contents
  | write :: written, contents => putBack written (write.back contents)

/-- Write one key after the other, with the writes done so far, newest first.  The first
key that refuses ends the pass and is its answer. -/
def writeAll (refused : κ → Bool) :
    List (Write κ υ) → List (Write κ υ) → Contents κ υ → Contents κ υ × Option κ
  | [], _, contents => (contents, none)
  | write :: writes, written, contents =>
      if refused write.key then
        (putBack written contents, some write.key)
      else
        writeAll refused writes (write :: written)
          (Function.update contents write.key (some write.value))

def stored : List (Write κ υ) → Contents κ υ → Contents κ υ
  | [], contents => contents
  | write :: writes, contents =>
      stored writes (Function.update contents write.key (some write.value))

/-- The writes before the first refusal. -/
def reached (refused : κ → Bool) (writes : List (Write κ υ)) : List (Write κ υ) :=
  writes.takeWhile (fun write => !refused write.key)

variable {refused : κ → Bool} {writes written : List (Write κ υ)} {contents : Contents κ υ}

theorem stored_of_notMem {key : κ} (hoth : ∀ write ∈ writes, write.key ≠ key) :
    stored writes contents key = contents key := by
  induction writes generalizing contents with
  | nil => rfl
  | cons write writes ih =>
    rw [forall_mem_cons] at hoth
    rw [stored, ih hoth.2, update_of_ne hoth.1.symm]

theorem stored_of_mem (hndp : (writes.map Write.key).Nodup) :
    ∀ write ∈ writes, stored writes contents write.key = some write.value := by
  induction writes generalizing contents with
  | nil => nofun
  | cons write writes ih =>
    rw [map_cons, nodup_cons] at hndp
    rw [forall_mem_cons]
    constructor
    · rw [stored, stored_of_notMem, update_self]
      intro other hoth hkey
      apply hndp.1
      rw [← hkey]
      exact List.mem_map_of_mem hoth
    · exact ih hndp.2

theorem Write.back_of_ne {write : Write κ υ} {key : κ} (hoth : write.key ≠ key) :
    write.back contents key = contents key := by
  unfold Write.back
  cases write.previous with
  | some value => exact update_of_ne hoth.symm _ _
  | none => rfl

theorem Write.back_self (write : Write κ υ) :
    write.back contents write.key = write.previous.or (contents write.key) := by
  unfold Write.back
  cases write.previous with
  | some value => exact update_self _ _ _
  | none => rfl

theorem putBack_of_notMem {key : κ} (hoth : ∀ write ∈ written, write.key ≠ key) :
    putBack written contents key = contents key := by
  induction written generalizing contents with
  | nil => rfl
  | cons write written ih =>
    rw [forall_mem_cons] at hoth
    rw [putBack, ih hoth.2, Write.back_of_ne hoth.1]

theorem putBack_of_mem (hndp : (written.map Write.key).Nodup) :
    ∀ write ∈ written,
      putBack written contents write.key = write.previous.or (contents write.key) := by
  induction written generalizing contents with
  | nil => nofun
  | cons write written ih =>
    rw [map_cons, nodup_cons] at hndp
    have hapart : ∀ other ∈ written, other.key ≠ write.key := by
      intro other hoth hkey
      apply hndp.1
      rw [← hkey]
      exact List.mem_map_of_mem hoth
    rw [forall_mem_cons]
    constructor
    · rw [putBack, putBack_of_notMem hapart, Write.back_self]
    · intro other hoth
      rw [putBack, ih hndp.2 other hoth, Write.back_of_ne (hapart other hoth).symm]

theorem writeAll_eq_reached :
    writeAll refused writes written contents =
      match writes.dropWhile (fun write => !refused write.key) with
      | [] => (stored (reached refused writes) contents, none)
      | failed :: _ =>
          (putBack ((reached refused writes).reverse ++ written)
            (stored (reached refused writes) contents), some failed.key) := by
  induction writes generalizing written contents with
  | nil => rfl
  | cons write writes ih =>
    rw [writeAll, reached, dropWhile_cons, takeWhile_cons]
    cases href : refused write.key with
    | true => rfl
    | false =>
      rw [if_neg Bool.false_ne_true, ih, Bool.not_false, if_pos rfl, if_pos rfl,
        reverse_cons, append_assoc]
      rfl

theorem writeAll_of_accepted (haccd : ∀ write ∈ writes, refused write.key = false) :
    writeAll refused writes written contents = (stored writes contents, none) := by
  induction writes generalizing written contents with
  | nil => rfl
  | cons write writes ih =>
    rw [forall_mem_cons] at haccd
    rw [writeAll, haccd.1, if_neg Bool.false_ne_true, ih haccd.2]
    rfl

/-- A pass over contents it took its previous values from. -/
structure Snapshot (writes : List (Write κ υ)) (contents : Contents κ υ) : Prop where
  nodup : (writes.map Write.key).Nodup
  previous : ∀ write ∈ writes, write.previous = contents write.key

omit [DecidableEq κ] in
theorem reached_subset {write : Write κ υ} (hwr : write ∈ reached refused writes) :
    write ∈ writes :=
  ( takeWhile_prefix _).subset hwr

theorem putBack_reached_iff (hsnap : Snapshot writes contents) :
    putBack (reached refused writes).reverse (stored (reached refused writes) contents) =
        contents ↔
      ∀ write ∈ reached refused writes, contents write.key ≠ none := by
  have hndp : ((reached refused writes).map Write.key).Nodup :=
    hsnap.nodup.sublist ((takeWhile_sublist _).map _)
  have hback : ∀ write ∈ reached refused writes,
      putBack (reached refused writes).reverse (stored (reached refused writes) contents)
          write.key = (contents write.key).or (some write.value) := by
    intro write hwr
    rw [putBack_of_mem _ write (mem_reverse.mpr hwr), stored_of_mem hndp write hwr,
      hsnap.previous write (reached_subset hwr)]
    rw [map_reverse]
    exact nodup_reverse.mpr hndp
  constructor
  · intro hsame write hwr hnone
    have hval := hback write hwr
    rw [hsame, hnone, none_or] at hval
    cases hval
  intro hpres
  funext key
  by_cases hkey : ∃ write ∈ reached refused writes, write.key = key
  · obtain ⟨write, hwr, rfl⟩ := hkey
    obtain ⟨value, hval⟩ := ne_none_iff_exists'.mp (hpres write hwr)
    rw [hback write hwr, hval, some_or]
  have hoth : ∀ write ∈ reached refused writes, write.key ≠ key :=
    fun write hwr hsame => hkey ⟨write, hwr, hsame⟩
  rw [putBack_of_notMem, stored_of_notMem hoth]
  intro write hwr
  exact hoth write (mem_reverse.mp hwr)

end Passes

end WasmAgent.Core.Rollback
