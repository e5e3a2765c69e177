import Mathlib.Data.List.Infix
import Std.Data.ExtTreeMap

/-!
# Prefixes in an ordered map

In lexicographic order the lists with one prefix stand together: a range scan from the
prefix on, as long as keys start with it, passes all of them and nothing else.
-/

namespace WasmAgent.Core

open List Std

section Order

variable {α β : Type*} [Ord α] [LawfulEqOrd α]

theorem not_isLT_of_base {start key : List α} (hsta : start <+: key) :
    (compare key start).isLT = false := by
  induction start generalizing key with
  | nil =>
    cases key <;> rfl
  | cons head start ih =>
    obtain ⟨rest, rfl⟩ := hsta
    rw [cons_append, List.compare_cons_cons, ReflOrd.compare_self]
    exact ih (prefix_append start rest)

theorem prefix_of_between {start low high : List α} (hsta : start <+: high)
    (hlow : (compare low start).isLT = false) (hhigh : compare low high = .lt) : start <+: low := by
  induction start generalizing low high with
  | nil => exact nil_prefix
  | cons head start ih =>
    obtain ⟨rest, rfl⟩ := hsta
    cases low with
    | nil => cases hlow
    | cons first low =>
      rw [List.compare_cons_cons] at hlow
      rw [cons_append, List.compare_cons_cons] at hhigh
      cases hfst : compare first head with
      | lt =>
        rw [hfst] at hlow
        cases hlow
      | gt =>
        rw [hfst] at hhigh
        cases hhigh
      | eq =>
        rw [hfst] at hlow hhigh
        rw [LawfulEqOrd.eq_of_compare hfst]
        exact cons_prefix_cons.mpr ⟨rfl, ih (prefix_append start rest) hlow hhigh⟩

theorem compare_append_left (start left right : List α) :
    compare (start ++ left) (start ++ right) = compare left right := by
  induction start with
  | nil => rfl
  | cons head start ih =>
    rw [cons_append, cons_append, List.compare_cons_cons, ReflOrd.compare_self]
    exact ih

omit [LawfulEqOrd α] in
theorem compare_append_of_length {left right : List α} (hlen : left.length = right.length)
    (leftRest rightRest : List α) :
    compare (left ++ leftRest) (right ++ rightRest) =
      (compare left right).then (compare leftRest rightRest) := by
  induction left generalizing right with
  | nil =>
    rw [length_eq_zero_iff.mp hlen.symm]
    rfl
  | cons first left ih =>
    cases right with
    | nil => cases hlen
    | cons second right =>
      rw [cons_append, cons_append, List.compare_cons_cons, List.compare_cons_cons,
        ih (Nat.succ.inj hlen), Ordering.then_assoc]

theorem pairwise_iff_of_sorted [TransOrd α] {entries : List (List α × β)}
    {related : List α × β → List α × β → Prop}
    (hsrt : entries.Pairwise (fun left right => compare left.1 right.1 = .lt)) :
    entries.Pairwise related ↔
      ∀ left ∈ entries, ∀ right ∈ entries, compare left.1 right.1 = .lt → related left right := by
  induction entries with
  | nil => exact iff_of_true .nil (by nofun)
  | cons entry entries ih =>
    rw [pairwise_cons] at hsrt ⊢
    rw [ih hsrt.2]
    constructor
    · intro hrel left hlt right hrt hbef
      rcases mem_cons.mp hlt with hfst | hlt'
      · rcases mem_cons.mp hrt with hsame | hrt'
        · rw [hfst, hsame, ReflOrd.compare_self] at hbef
          cases hbef
        · rw [hfst]
          exact hrel.1 right hrt'
      rcases mem_cons.mp hrt with hfst | hrt'
      · have hcycle := TransCmp.lt_trans (hfst ▸ hbef) (hsrt.1 left hlt')
        rw [ReflOrd.compare_self] at hcycle
        cases hcycle
      · exact hrel.2 left hlt' right hrt' hbef
    intro hrel
    constructor
    · intro right hrt
      exact hrel entry mem_cons_self right (mem_cons_of_mem _ hrt) (hsrt.1 right hrt)
    · intro left hlt right hrt
      exact hrel left (mem_cons_of_mem _ hlt) right (mem_cons_of_mem _ hrt)

variable [BEq α] [LawfulBEq α] {entries : List (List α × β)}

theorem takeWhile_prefix_of_sorted (start : List α)
    (hsrt : entries.Pairwise (fun left right => compare left.1 right.1 = .lt))
    (hfrom : ∀ entry ∈ entries, (compare entry.1 start).isLT = false) :
    entries.takeWhile (fun entry => start.isPrefixOf entry.1) =
      entries.filter (fun entry => start.isPrefixOf entry.1) := by
  induction entries with
  | nil => rfl
  | cons entry entries ih =>
    rw [pairwise_cons] at hsrt
    rw [takeWhile_cons, filter_cons]
    split
    · rw [ih hsrt.2 (fun other hoth => hfrom other (mem_cons_of_mem _ hoth))]
    rename_i hoth
    symm
    apply filter_eq_nil_iff.mpr
    intro later hltr hsta
    apply hoth
    rw [ isPrefixOf_iff_prefix] at hsta ⊢
    exact prefix_of_between hsta (hfrom entry mem_cons_self) (hsrt.1 later hltr)

theorem scan_prefix_of_sorted [TransOrd α] (start : List α)
    (hsrt : entries.Pairwise (fun left right => compare left.1 right.1 = .lt)) :
    (entries.dropWhile (fun entry => (compare entry.1 start).isLT)).takeWhile
        (fun entry => start.isPrefixOf entry.1) =
      entries.filter (fun entry => start.isPrefixOf entry.1) := by
  induction entries with
  | nil => rfl
  | cons entry entries ih =>
    have hrest := (pairwise_cons.mp hsrt)
    rw [dropWhile_cons]
    split
    · next hbef =>
      have hoth : start.isPrefixOf entry.1 = false := by
        apply eq_false_of_ne_true
        intro hsta
        rw [not_isLT_of_base ( isPrefixOf_iff_prefix.mp hsta)] at hbef
        cases hbef
      rw [ih hrest.2, filter_cons, hoth]
      rfl
    rename_i hfrom
    apply takeWhile_prefix_of_sorted start hsrt
    intro later hltr
    rcases mem_cons.mp hltr with rfl | hltr
    · exact eq_false_of_ne_true hfrom
    apply eq_false_of_ne_true
    intro hbef
    apply hfrom
    rw [Ordering.isLT_iff_eq_lt] at hbef ⊢
    exact TransCmp.lt_trans (hrest.1 later hltr) hbef

end Order

end WasmAgent.Core
