import Mathlib.Data.List.Range

/-!
# Trying in order

Items are tried one after another until an attempt settles the matter.  An attempt is made
exactly if none before it settled it.
-/

namespace WasmAgent.Core.Fallback

open List

variable {Item Failure Answer : Type}

/-- Tries the items from an index on, and says how many attempts were made in the end. -/
def tryInOrder (attempt : ℕ → Item → Failure ⊕ Answer) :
    List Item → ℕ → List Failure → (List Failure ⊕ Answer) × ℕ
  | [], index, failures => (.inl failures, index)
  | item :: items, index, failures =>
      match attempt index item with
      | .inl failure => tryInOrder attempt items (index + 1) (failures ++ [failure])
      | .inr answer => (.inr answer, index + 1)

def Settles (attempt : ℕ → Item → Failure ⊕ Answer) (items : List Item) (start index : ℕ) : Prop :=
  ∃ item answer, items[index - start]? = some item ∧ attempt index item = .inr answer

variable {attempt : ℕ → Item → Failure ⊕ Answer} {items : List Item} {item : Item}

theorem settles_cons {start index : ℕ} (hltr : start < index) :
    Settles attempt (item :: items) start index ↔ Settles attempt items (start + 1) index := by
  have hidx : index - start = index - (start + 1) + 1 := by omega
  rw [Settles, Settles, hidx, getElem?_cons_succ]

theorem settles_first {start : ℕ} :
    Settles attempt (item :: items) start start ↔ ∃ answer, attempt start item = .inr answer := by
  rw [Settles, Nat.sub_self, getElem?_cons_zero]
  constructor
  · intro hsets
    obtain ⟨_, answer, hitem, hans⟩ := hsets
    cases hitem
    exact ⟨answer, hans⟩
  · intro hans
    exact ⟨item, hans.choose, rfl, hans.choose_spec⟩

theorem le_made (attempt : ℕ → Item → Failure ⊕ Answer) (items : List Item) (start : ℕ)
    (failures : List Failure) : start ≤ (tryInOrder attempt items start failures).2 := by
  induction items generalizing start failures with
  | nil => exact Nat.le_refl start
  | cons item items ih =>
    rw [tryInOrder]
    cases attempt start item with
    | inl failure => exact Nat.le_of_succ_le (ih (start + 1) _)
    | inr answer => exact Nat.le_succ start

theorem lt_made_iff (attempt : ℕ → Item → Failure ⊕ Answer) (items : List Item) (start : ℕ)
    (failures : List Failure) {index : ℕ} (hsta : start ≤ index) :
    index < (tryInOrder attempt items start failures).2 ↔ index < start + items.length ∧
      ∀ earlier, start ≤ earlier → earlier < index → ¬ Settles attempt items start earlier := by
  induction items generalizing start failures with
  | nil =>
    constructor
    · intro hlt
      exact absurd hsta (Nat.not_le_of_lt hlt)
    · intro hboth
      exact hboth.1
  | cons item items ih =>
    rw [tryInOrder, length_cons]
    cases hatt : attempt start item with
    | inr answer =>
      have hsetd : Settles attempt (item :: items) start start := settles_first.mpr ⟨answer, hatt⟩
      constructor
      · intro hlt
        change index < start + 1 at hlt
        exact ⟨by omega, fun earlier hfst hearl => by omega⟩
      intro hboth
      by_contra hnot
      change ¬ index < start + 1 at hnot
      exact hboth.2 start (Nat.le_refl start) (by omega) hsetd
    | inl failure =>
      have huns : ¬ Settles attempt (item :: items) start start := by
        intro hsetd
        obtain ⟨answer, hans⟩ := settles_first.mp hsetd
        cases hatt.symm.trans hans
      by_cases hfst : index = start
      · have hmade := le_made attempt items (start + 1) (failures ++ [failure])
        constructor
        · intro _
          exact ⟨by omega, fun earlier hleft hrt => by omega⟩
        · intro _
          change index < (tryInOrder attempt items (start + 1) _).2
          omega
      change index < (tryInOrder attempt items (start + 1) _).2 ↔ _
      rw [ih (start + 1) _ (by omega)]
      constructor
      · intro hboth
        refine ⟨by omega, ?_⟩
        intro earlier hleft hrt
        by_cases hsame : earlier = start
        · rw [hsame]
          exact huns
        · rw [settles_cons (by omega)]
          exact hboth.2 earlier (by omega) hrt
      intro hboth
      refine ⟨by omega, ?_⟩
      intro earlier hleft hrt
      rw [← @settles_cons _ _ _ _ items item start earlier hleft]
      exact hboth.2 earlier (by omega) hrt

theorem open_iff (attempt : ℕ → Item → Failure ⊕ Answer) (items : List Item) (start : ℕ)
    (failures : List Failure) :
    (∃ left, (tryInOrder attempt items start failures).1 = .inl left) ↔
      ∀ index, start ≤ index → index < start + items.length →
        ¬ Settles attempt items start index := by
  induction items generalizing start failures with
  | nil =>
    constructor
    · intro _ index hsta hidx
      exact absurd hsta (Nat.not_le_of_lt hidx)
    · intro _
      exact ⟨failures, rfl⟩
  | cons item items ih =>
    rw [tryInOrder, length_cons]
    cases hatt : attempt start item with
    | inr answer =>
      constructor
      · intro hopen
        cases hopen.choose_spec
      · intro hnone
        exact absurd (settles_first.mpr ⟨answer, hatt⟩) (hnone start (Nat.le_refl start) (by omega))
    | inl failure =>
      rw [ih]
      constructor
      · intro hnone index hsta hidx
        by_cases hsame : index = start
        · rw [hsame]
          intro hsetd
          obtain ⟨answer, hans⟩ := settles_first.mp hsetd
          cases hatt.symm.trans hans
        · rw [settles_cons (by omega)]
          exact hnone index (by omega) (by omega)
      · intro hnone index hsta hidx
        rw [← @settles_cons _ _ _ _ items item start index hsta]
        exact hnone index (by omega) (by omega)

theorem made_of_open {left : List Failure} {start : ℕ} {failures : List Failure}
    (hopen : (tryInOrder attempt items start failures).1 = .inl left) :
    (tryInOrder attempt items start failures).2 = start + items.length := by
  induction items generalizing start failures with
  | nil => rfl
  | cons item items ih =>
    rw [tryInOrder] at hopen ⊢
    rw [length_cons]
    cases hatt : attempt start item with
    | inr answer =>
      rw [hatt] at hopen
      cases hopen
    | inl failure =>
      rw [hatt] at hopen
      rw [ih hopen]
      omega

theorem countP_range_le_one_iff (test : ℕ → Bool) (bound : ℕ) :
    (range bound).countP test ≤ 1 ↔
      ∀ first second, first < second → second < bound →
        ¬ (test first = true ∧ test second = true) := by
  induction bound with
  | zero =>
    constructor
    · intro _ first second _ hsnd
      exact absurd hsnd (Nat.not_lt_zero second)
    · intro _
      exact Nat.zero_le 1
  | succ bound ih =>
    rw [range_succ, countP_append, countP_singleton]
    constructor
    · intro hcnt first second hlt hbound hboth
      by_cases hlast : second = bound
      · have hpos : 0 < (range bound).countP test :=
          countP_pos_iff.mpr ⟨first, mem_range.mpr (by omega), hboth.1⟩
        rw [← hlast, if_pos hboth.2] at hcnt
        rw [← hlast] at hpos
        omega
      · have hrest : (range bound).countP test ≤ 1 := by omega
        exact ih.mp hrest first second hlt (by omega) hboth
    intro hpairs
    have hrest := ih.mpr (fun first second hlt hbound => hpairs first second hlt (by omega))
    by_cases htest : test bound = true
    · have hnone : (range bound).countP test = 0 := by
        apply countP_eq_zero.mpr
        intro first hfst htes
        exact hpairs first bound (mem_range.mp hfst) (Nat.lt_succ_self bound) ⟨htes, htest⟩
      rw [if_pos htest]
      omega
    · rw [if_neg htest]
      exact hrest

end WasmAgent.Core.Fallback
