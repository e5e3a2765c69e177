import Mathlib.Data.Bool.Basic
import Mathlib.Tactic.Common

/-!
# First-come matching of openings and closings

A word lists sites in order.  A site may *open* one request and carries some
number of *closings*.  `settle` walks the word once, from the left: every
opening site that carries no closing takes the first later one.  This file
proves that the walk leaves exactly one closing at every opening and none
elsewhere if and only if the word is a ballot word, that is, no closing comes
before the opening it could answer and none is left over.
-/

namespace WasmAgent.Ballot

open Option

/-- One site: whether it opens a request, and how many closings it carries. -/
abbrev Site := Bool × ℕ

/-- Take one closing away from the first site that carries any. -/
def pull : List Site → Option (List Site)
  | [] => none
  | (opens, 0) :: rest => (pull rest).map fun pulled => (opens, 0) :: pulled
  | (opens, closings + 1) :: rest => some ((opens, closings) :: rest)

/-- The walk over the first `count` sites. -/
def settle : ℕ → List Site → List Site
  | 0, word => word
  | _ + 1, [] => []
  | count + 1, (opens, closings) :: rest =>
      if opens = true ∧ closings = 0 then
        match pull rest with
        | some pulled => (opens, 1) :: settle count pulled
        | none => (opens, 0) :: settle count rest
      else (opens, closings) :: settle count rest

/-- With `pending` openings still unanswered, no closing comes too early and
none is missing at the end. -/
def IsBallot : ℕ → List Site → Prop
  | pending, [] => pending = 0
  | pending, (opens, closings) :: rest =>
      closings ≤ pending + opens.toNat ∧ IsBallot (pending + opens.toNat - closings) rest

/-- Every opening carries exactly one closing and nothing else carries any. -/
def Answered (word : List Site) : Prop := ∀ site ∈ word, site.2 = site.1.toNat

theorem pull_length {word pulled : List Site} (hpull : pull word = some pulled) :
    pulled.length = word.length := by
  induction word generalizing pulled with
  | nil => simp [pull] at hpull
  | cons site rest ih =>
      obtain ⟨opens, closings⟩ := site
      cases closings with
      | zero =>
          simp only [pull, map_eq_some_iff] at hpull
          obtain ⟨inner, hinner, rfl⟩ := hpull
          simp [ih hinner]
      | succ closings =>
          simp only [pull, Option.some.injEq] at hpull
          subst hpull
          simp

theorem not_isBallot_succ_of_pull_eq_none {word : List Site}
    (hpull : pull word = none) (pending : ℕ) : ¬ IsBallot (pending + 1) word := by
  induction word generalizing pending with
  | nil => simp [IsBallot]
  | cons site rest ih =>
      obtain ⟨opens, closings⟩ := site
      cases closings with
      | zero =>
          simp only [pull, map_eq_none_iff] at hpull
          simp only [IsBallot, Nat.zero_le, true_and, Nat.sub_zero]
          have hdebt : pending + 1 + opens.toNat = (pending + opens.toNat) + 1 := by
            omega
          rw [hdebt]
          exact ih hpull _
      | succ closings => simp [pull] at hpull

theorem isBallot_pull {word pulled : List Site} (hpull : pull word = some pulled)
    (pending : ℕ) : IsBallot pending pulled ↔ IsBallot (pending + 1) word := by
  induction word generalizing pulled pending with
  | nil => simp [pull] at hpull
  | cons site rest ih =>
      obtain ⟨opens, closings⟩ := site
      cases closings with
      | zero =>
          simp only [pull, map_eq_some_iff] at hpull
          obtain ⟨inner, hinner, rfl⟩ := hpull
          have hdebt : pending + 1 + opens.toNat = (pending + opens.toNat) + 1 := by
            omega
          simp only [IsBallot, Nat.zero_le, true_and, Nat.sub_zero, hdebt]
          exact ih hinner _
      | succ closings =>
          simp only [pull, Option.some.injEq] at hpull
          subst hpull
          have hrest : pending + 1 + opens.toNat - (closings + 1) =
              pending + opens.toNat - closings := by omega
          simp only [IsBallot, hrest]
          constructor
          · rintro ⟨hle, hbal⟩
            exact ⟨by omega, hbal⟩
          · rintro ⟨hle, hbal⟩
            exact ⟨by omega, hbal⟩

theorem answered_cons {site : Site} {rest : List Site} :
    Answered (site :: rest) ↔ site.2 = site.1.toNat ∧ Answered rest := by
  simp [Answered]

theorem answered_settle_iff (count : ℕ) (word : List Site) (hcnt : word.length ≤ count) :
    Answered (settle count word) ↔ IsBallot 0 word := by
  induction count generalizing word with
  | zero =>
      have hnil : word = [] := List.eq_nil_of_length_eq_zero (by omega)
      subst hnil
      simp [settle, Answered, IsBallot]
  | succ count ih =>
      cases word with
      | nil => simp [settle, Answered, IsBallot]
      | cons site rest =>
          obtain ⟨opens, closings⟩ := site
          have hrest : rest.length ≤ count := by simpa using hcnt
          by_cases hopen : opens = true ∧ closings = 0
          · obtain ⟨rfl, rfl⟩ := hopen
            simp only [settle, true_and, ↓reduceIte]
            -- The opening here takes the first later closing, if there is one.
            cases hpull : pull rest with
            | none =>
                have hnot := not_isBallot_succ_of_pull_eq_none hpull 0
                simp [answered_cons, IsBallot, hnot]
            | some pulled =>
                have hpul : pulled.length ≤ count := by
                  rw [pull_length hpull]
                  exact hrest
                simp only [answered_cons, Bool.toNat_true, true_and]
                rw [ih pulled hpul, isBallot_pull hpull 0]
                simp [IsBallot]
          simp only [settle, if_neg hopen]
          rw [answered_cons, ih rest hrest]
          simp only [IsBallot, Nat.zero_add]
          -- Here the site keeps what it carries, so it must already be right.
          cases opens with
          | false =>
              constructor
              · rintro ⟨hclos, hbal⟩
                simp_all
              rintro ⟨hle, hbal⟩
              have hzero : closings = 0 := by simpa using hle
              subst hzero
              exact ⟨rfl, by simpa using hbal⟩
          | true =>
              have hpos : closings ≠ 0 := fun hzero => hopen ⟨rfl, hzero⟩
              constructor
              · rintro ⟨hclos, hbal⟩
                simp_all
              rintro ⟨hle, hbal⟩
              have hone : closings = 1 := by
                simp only [Bool.toNat_true] at hle
                omega
              subst hone
              exact ⟨rfl, by simpa using hbal⟩

end WasmAgent.Ballot
