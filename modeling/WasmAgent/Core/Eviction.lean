import Mathlib.Data.List.Sort

/-!
# Dropping the oldest

Keys with the time each was used last; the oldest of them are dropped.
-/

namespace WasmAgent.Core

open List

variable {Key : Type} {ages other : List (Key × ℕ)} {count : ℕ}

/-- Used no later. -/
def Older (left right : Key × ℕ) : Prop := left.2 ≤ right.2

instance : DecidableRel (@Older Key) :=
  fun left right => inferInstanceAs (Decidable (left.2 ≤ right.2))

instance : Std.Total (@Older Key) := ⟨fun left right => Nat.le_total left.2 right.2⟩

instance : IsTrans (Key × ℕ) Older := ⟨fun _ _ _ => Nat.le_trans⟩

/-- The keys used longest ago, as many as are asked. -/
def oldest (count : ℕ) (ages : List (Key × ℕ)) : List Key :=
  ((ages.insertionSort Older).take count).map Prod.fst

theorem mem_of_mem_oldest {key : Key} (hkey : key ∈ oldest count ages) :
    key ∈ ages.map Prod.fst := by
  obtain ⟨age, hage, rfl⟩ := mem_map.mp hkey
  apply mem_map_of_mem
  exact (mem_insertionSort Older).mp (mem_of_mem_take hage)

@[simp]
theorem oldest_zero : oldest 0 ages = [] := by
  rw [oldest, take_zero, map_nil]

variable (hndp : (ages.map Prod.fst).Nodup)
include hndp

theorem nodup_sorted : ((ages.insertionSort Older).map Prod.fst).Nodup :=
  ((perm_insertionSort Older ages).map Prod.fst).nodup_iff.mpr hndp

variable [DecidableEq Key]

/-- Dropping the first of a list of distinct keys leaves the rest of it. -/
theorem filter_notMem_take (count : ℕ) :
    ages.filter (fun age => age.1 ∉ (ages.take count).map Prod.fst) = ages.drop count := by
  have hparts : ages.map Prod.fst =
      (ages.take count).map Prod.fst ++ (ages.drop count).map Prod.fst := by
    rw [← map_append, take_append_drop]
  rw [hparts, nodup_append] at hndp
  calc ages.filter (fun age => age.1 ∉ (ages.take count).map Prod.fst)
      = (ages.take count ++ ages.drop count).filter
          (fun age => age.1 ∉ (ages.take count).map Prod.fst) := by
        rw [take_append_drop]
    _ = [] ++ ages.drop count := by
        rw [filter_append]
        congr 1
        · apply filter_eq_nil_iff.mpr
          intro age hage
          rw [decide_eq_true_eq, not_not]
          exact mem_map_of_mem hage
        · apply filter_eq_self.mpr
          intro age hage
          rw [decide_eq_true_eq]
          intro htkn
          exact hndp.2.2 _ htkn _ (mem_map_of_mem hage) rfl
    _ = ages.drop count := nil_append _

theorem length_filter_oldest (count : ℕ) :
    (ages.filter (fun age => age.1 ∉ oldest count ages)).length = ages.length - count := by
  have hperm := perm_insertionSort Older ages
  calc (ages.filter (fun age => age.1 ∉ oldest count ages)).length
      = ((ages.insertionSort Older).filter (fun age => age.1 ∉ oldest count ages)).length :=
        ((hperm.filter _).length_eq).symm
    _ = ((ages.insertionSort Older).drop count).length := by
        rw [oldest, filter_notMem_take (nodup_sorted hndp)]
    _ = ages.length - count := by
        rw [length_drop, hperm.length_eq]

omit hndp

omit [DecidableEq Key] in
/-- What was used after all others is not dropped, unless all are. -/
theorem newest_notMem_oldest {key : Key} {age : ℕ} (hndp : (ages.map Prod.fst).Nodup)
    (hmem : (key, age) ∈ ages) (hnew : ∀ older ∈ ages, older.1 ≠ key → older.2 < age)
    (hcnt : count < ages.length) : key ∉ oldest count ages := by
  intro hdrp
  have hsrt := nodup_sorted hndp
  have hordd := pairwise_insertionSort Older ages
  rw [← take_append_drop count (ages.insertionSort Older)] at hsrt hordd
  rw [map_append, nodup_append] at hsrt
  obtain ⟨last, hlast⟩ : ∃ last, last ∈ (ages.insertionSort Older).drop count := by
    apply exists_mem_of_length_pos
    rw [length_drop, length_insertionSort]
    exact Nat.sub_pos_of_lt hcnt
  have hoth : last.1 ≠ key := by
    intro hsame
    exact hsrt.2.2 _ hdrp _ (mem_map_of_mem hlast) hsame.symm
  obtain ⟨found, hfnd, hkey⟩ := mem_map.mp hdrp
  have hfoundAge : found.2 ≤ last.2 := (pairwise_append.mp hordd).2.2 _ hfnd _ hlast
  have hlastAge := hnew last ((mem_insertionSort Older).mp (mem_of_mem_drop hlast)) hoth
  have hsame : found = (key, age) := by
    apply inj_on_of_nodup_map hndp ((mem_insertionSort Older).mp (mem_of_mem_take hfnd)) hmem
    exact hkey
  rw [hsame] at hfoundAge
  exact Nat.not_lt.mpr hfoundAge hlastAge

omit [DecidableEq Key] in
theorem oldest_map_congr {keys : List Key} {first second : Key → ℕ}
    (horder : ∀ left ∈ keys, ∀ right ∈ keys,
      (first left ≤ first right ↔ second left ≤ second right)) (count : ℕ) :
    oldest count (keys.map fun key => (key, first key)) =
      oldest count (keys.map fun key => (key, second key)) := by
  have hsrt : ∀ used : Key → ℕ,
      (keys.map fun key => (key, used key)).insertionSort Older =
        (keys.insertionSort fun left right => used left ≤ used right).map
          fun key => (key, used key) := by
    intro used
    exact (map_insertionSort (fun left right => used left ≤ used right) Older
      (fun key => (key, used key)) keys (fun _ _ _ _ => Iff.rfl)).symm
  have hsame : keys.insertionSort (fun left right => first left ≤ first right) =
      keys.insertionSort (fun left right => second left ≤ second right) := by
    have hmap := map_insertionSort (fun left right => first left ≤ first right)
      (fun left right => second left ≤ second right) id keys horder
    rwa [map_id, map_id] at hmap
  have hproj : ∀ (used : Key → ℕ) (sorted : List Key),
      ((sorted.map fun key => (key, used key)).take count).map Prod.fst = sorted.take count := by
    intro used sorted
    rw [map_take, map_map]
    change (sorted.map id).take count = _
    rw [map_id]
  rw [oldest, oldest, hsrt, hsrt, hproj, hproj, hsame]

end WasmAgent.Core
