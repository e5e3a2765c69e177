import Mathlib.Data.List.Count

/-!
# Tallies

Counts that stop at a ceiling going up and at zero going down.  Below the ceiling a tally
that is raised and lowered once for each holder counts the holders.
-/

namespace WasmAgent.Core

open List

@[ext]
structure Tally (Key : Type) (ceiling : ℕ) where
  count : Key → ℕ
  bounded : ∀ key, count key ≤ ceiling

namespace Tally

variable {Key : Type} {ceiling : ℕ}

def zero : Tally Key ceiling := ⟨fun _ => 0, fun _ => Nat.zero_le _⟩

def keep (wanted : Key → Bool) (tally : Tally Key ceiling) : Tally Key ceiling where
  count key := if wanted key then tally.count key else 0
  bounded key := by
    split
    · exact tally.bounded key
    · exact Nat.zero_le _

variable [DecidableEq Key]

def raise (key : Key) (tally : Tally Key ceiling) : Tally Key ceiling where
  count other := if other = key then min (tally.count other + 1) ceiling else tally.count other
  bounded other := by
    split
    · exact Nat.min_le_right _ _
    · exact tally.bounded other

def lower (key : Key) (tally : Tally Key ceiling) : Tally Key ceiling where
  count other := if other = key then tally.count other - 1 else tally.count other
  bounded other := by
    split
    · exact Nat.le_trans (Nat.sub_le _ _) (tally.bounded other)
    · exact tally.bounded other

def raiseAll (keys : List Key) (tally : Tally Key ceiling) : Tally Key ceiling :=
  keys.foldl (fun tally key => tally.raise key) tally

def lowerAll (keys : List Key) (tally : Tally Key ceiling) : Tally Key ceiling :=
  keys.foldl (fun tally key => tally.lower key) tally

theorem count_raiseAll (keys : List Key) (tally : Tally Key ceiling) (key : Key) :
    (tally.raiseAll keys).count key = min (tally.count key + keys.count key) ceiling := by
  induction keys generalizing tally with
  | nil => exact (Nat.min_eq_left (tally.bounded key)).symm
  | cons first keys ih =>
    change ((tally.raise first).raiseAll keys).count key = _
    rw [ih, count_cons]
    change min ((if key = first then _ else _) + _) ceiling = _
    by_cases hkey : key = first
    · rw [if_pos hkey, if_pos (beq_iff_eq.mpr hkey.symm)]
      omega
    · rw [if_neg hkey, if_neg (fun hsame => hkey (beq_iff_eq.mp hsame).symm), Nat.add_zero]

theorem count_lowerAll (keys : List Key) (tally : Tally Key ceiling) (key : Key) :
    (tally.lowerAll keys).count key = tally.count key - keys.count key := by
  induction keys generalizing tally with
  | nil => rfl
  | cons first keys ih =>
    change ((tally.lower first).lowerAll keys).count key = _
    rw [ih, count_cons]
    change (if key = first then _ else _) - _ = _
    by_cases hkey : key = first
    · rw [if_pos hkey, if_pos (beq_iff_eq.mpr hkey.symm)]
      omega
    · rw [if_neg hkey, if_neg (fun hsame => hkey (beq_iff_eq.mp hsame).symm), Nat.add_zero]

theorem raiseAll_eq_self_iff {keys : List Key} {tally : Tally Key ceiling} :
    tally.raiseAll keys = tally ↔ ∀ key ∈ keys, tally.count key = ceiling := by
  constructor
  · intro hsame key hkey
    have hcnt := count_raiseAll keys tally key
    have hheld := count_pos_iff.mpr hkey
    have hboun := tally.bounded key
    rw [hsame] at hcnt
    omega
  intro hfull
  ext key
  rw [count_raiseAll]
  have hboun := tally.bounded key
  by_cases hkey : key ∈ keys
  · rw [hfull key hkey]
    omega
  · rw [count_eq_zero_of_not_mem hkey]
    omega

end Tally

end WasmAgent.Core
