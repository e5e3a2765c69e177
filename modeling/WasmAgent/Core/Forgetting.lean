import Mathlib.Data.List.MinMax
import Mathlib.Data.List.Perm.Subperm
import WasmAgent.Core.Maps

/-!
# A bounded memory of timed keys

Keys are remembered with a time.  To make room, the oldest is dropped, one after the other, until
fewer than a bound are left.
-/

namespace WasmAgent.Core

open List Option Std.ExtTreeMap Std

variable {Key Stamp : Type} [Ord Key] [TransOrd Key] [LawfulEqOrd Key]
variable {time : Stamp → ℤ} {seen : ExtTreeMap Key Stamp} {room rounds : ℕ}

/-- The first key among those remembered with the least time. -/
def oldestKey? (time : Stamp → ℤ) (seen : ExtTreeMap Key Stamp) : Option Key :=
  (@argmin _ ℤ Int.instLinearOrder.toPreorder _ (fun entry => time entry.2) seen.toList).map
    Prod.fst

def makeRoom (time : Stamp → ℤ) (room : ℕ) : ℕ → ExtTreeMap Key Stamp → ExtTreeMap Key Stamp
  | 0, seen => seen
  | rounds + 1, seen =>
    if room ≤ seen.size then
      match oldestKey? time seen with
      | some key => makeRoom time room rounds (seen.erase key)
      | none => seen
    else
      seen

theorem size_le_of_subset {other : ExtTreeMap Key Stamp}
    (hsub : ∀ (key : Key) (stamp : Stamp), seen[key]? = some stamp → other[key]? = some stamp) :
    seen.size ≤ other.size := by
  rw [← length_keys, ← length_keys]
  apply List.Subperm.length_le
  apply subperm_of_subset nodup_keys
  intro key hkey
  rw [ExtTreeMap.mem_keys] at hkey ⊢
  rw [mem_iff_isSome_getElem?] at hkey ⊢
  obtain ⟨stamp, hstamp⟩ := isSome_iff_exists.mp hkey
  rw [hsub key stamp hstamp]
  rfl

omit [LawfulEqOrd Key] in
theorem getElem?_of_erase {key other : Key} {stamp : Stamp}
    (hkey : (seen.erase other)[key]? = some stamp) : seen[key]? = some stamp := by
  rw [getElem?_erase] at hkey
  split at hkey
  · cases hkey
  · exact hkey

variable {key : Key}

theorem oldestKey?_eq_some (hold : oldestKey? time seen = some key) :
    ∃ stamp, seen[key]? = some stamp ∧
      ∀ (other : Key) (later : Stamp), seen[other]? = some later → time stamp ≤ time later := by
  obtain ⟨⟨found, stamp⟩, hfnd, rfl⟩ := map_eq_some_iff.mp hold
  have hmem := argmin_mem hfnd
  refine ⟨stamp, mem_toList_iff_getElem?_eq_some.mp hmem, ?_⟩
  intro other later hoth
  have hlist := mem_toList_iff_getElem?_eq_some.mpr hoth
  exact le_of_mem_argmin (f := fun entry => time entry.2) hlist hfnd

omit [LawfulEqOrd Key] in
theorem oldestKey?_eq_none (hnone : oldestKey? time seen = none) : seen.size = 0 := by
  rw [oldestKey?, Option.map_eq_none_iff, List.argmin_eq_none] at hnone
  rw [← ExtTreeMap.length_toList, hnone, List.length_nil]

theorem size_erase_oldest (hold : oldestKey? time seen = some key) :
    (seen.erase key).size = seen.size - 1 := by
  obtain ⟨stamp, hstamp, -⟩ := oldestKey?_eq_some hold
  rw [size_erase, if_pos]
  rw [contains_eq_isSome_getElem?, hstamp]
  rfl

omit [LawfulEqOrd Key] in
theorem getElem?_of_makeRoom {stamp : Stamp}
    (hkey : (makeRoom time room rounds seen)[key]? = some stamp) : seen[key]? = some stamp := by
  induction rounds generalizing seen with
  | zero => exact hkey
  | succ rounds ih =>
    rw [makeRoom] at hkey
    split at hkey
    · split at hkey
      · exact getElem?_of_erase (ih hkey)
      · exact hkey
    · exact hkey

theorem size_makeRoom (hroom : 0 < room) (hroun : seen.size ≤ rounds) :
    (makeRoom time room rounds seen).size < room := by
  induction rounds generalizing seen with
  | zero => exact Nat.lt_of_le_of_lt hroun hroom
  | succ rounds ih =>
    rw [makeRoom]
    split
    case isFalse hsmall => exact Nat.not_le.mp hsmall
    case isTrue hfull =>
      cases hold : oldestKey? time seen with
      | none => exact (oldestKey?_eq_none hold).trans_lt hroom
      | some key =>
        apply ih
        rw [size_erase_oldest hold]
        exact Nat.sub_le_of_le_add hroun

theorem room_le_of_dropped {stamp : Stamp} (hkey : seen[key]? = some stamp)
    (hdrp : (makeRoom time room rounds seen)[key]? = none) :
    room ≤ (seen.filter fun _ later => time stamp ≤ time later).size := by
  induction rounds generalizing seen with
  | zero =>
    rw [makeRoom, hkey] at hdrp
    cases hdrp
  | succ rounds ih =>
    rw [makeRoom] at hdrp
    split at hdrp
    case isFalse hsmall =>
      rw [hkey] at hdrp
      cases hdrp
    case isTrue hfull =>
      cases hold : oldestKey? time seen with
      | none =>
        rw [hold, hkey] at hdrp
        cases hdrp
      | some oldest =>
        rw [hold] at hdrp
        obtain ⟨least, hleast, hoths⟩ := oldestKey?_eq_some hold
        by_cases hsame : oldest = key
        · rw [hsame] at hleast
          cases hkey.symm.trans hleast
          apply hfull.trans
          apply size_le_of_subset
          intro other later hoth
          rw [getElem?_filter', hoth, filter_some, if_pos]
          exact decide_eq_true (hoths other later hoth)
        have hstays : (seen.erase oldest)[key]? = some stamp := by
          rw [getElem?_erase_of_ne hsame, hkey]
        apply (ih hstays hdrp).trans
        apply size_le_of_subset
        intro other later hoth
        rw [getElem?_filter', filter_eq_some_iff] at hoth ⊢
        exact ⟨getElem?_of_erase hoth.1, hoth.2⟩

end WasmAgent.Core
