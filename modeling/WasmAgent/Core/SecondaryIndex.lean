import Mathlib.Logic.Function.Basic

/-!
# Secondary indexes

A table whose keys are computed from records: each key belongs to one name, and what the table
holds under it is what the record of that name asks for.  A table stays so when a record is
written over another, as far as the keys of the old one are kept or removed.
-/

namespace WasmAgent.Core

open Option Function

variable {Key Name Record Value : Type*}

structure Indexing (Key Name Record Value : Type*) where
  /-- The value that a record wants under a key. -/
  entry : Record → Key → Option Value
  owner : Key → Name

namespace Indexing

variable (indexing : Indexing Key Name Record Value)

def Owns (name : Name) (record : Record) : Prop :=
  ∀ key, indexing.entry record key ≠ none → indexing.owner key = name

/-- The table holds what the records ask for, and nothing else. -/
def Shows (records : Name → Option Record) (table : Key → Option Value) : Prop :=
  ∀ key, table key = (records (indexing.owner key)).bind (fun record => indexing.entry record key)

variable {indexing} {records : Name → Option Record} {table : Key → Option Value} {name : Name}
variable (hshows : indexing.Shows records table)
include hshows

theorem Shows.sound {key : Key} {value : Value} (hval : table key = some value) :
    ∃ record, records (indexing.owner key) = some record ∧
      indexing.entry record key = some value := by
  rw [hshows key] at hval
  exact bind_eq_some_iff.mp hval

theorem Shows.complete
    (howns : ∀ name record, records name = some record → indexing.Owns name record)
    {record : Record} (hrec : records name = some record) {key : Key} {value : Value}
    (hent : indexing.entry record key = some value) : table key = some value := by
  have hown : indexing.owner key = name := by
    apply howns name record hrec
    rw [hent]
    nofun
  rw [hshows key, hown, hrec]
  exact hent

section Writing

variable [DecidableEq Name] {record : Record} {gone : Key → Prop} [DecidablePred gone]

theorem Shows.write (howns : indexing.Owns name record)
    (hold : ∀ old, records name = some old → indexing.Owns name old)
    (hgone : ∀ key, gone key → ∃ old, records name = some old ∧ indexing.entry old key ≠ none)
    (hcov : ∀ old, records name = some old → ∀ key, indexing.entry old key ≠ none →
      gone key ∨ indexing.entry record key ≠ none) :
    indexing.Shows (update records name (some record))
      (fun key => (indexing.entry record key).or (if gone key then none else table key)) := by
  intro key
  dsimp only
  by_cases hown : indexing.owner key = name
  · rw [hown, update_self, bind_some]
    cases hent : indexing.entry record key with
    | some value => rfl
    | none =>
      split
      · rfl
      rename_i hkept
      rw [hshows key, hown]
      cases hrec : records name with
      | none => rfl
      | some old =>
        by_contra hpres
        rcases hcov old hrec key hpres with hlost | hwan
        · exact hkept hlost
        · exact hwan hent
  have hoth : indexing.entry record key = none := by
    by_contra hent
    exact hown (howns key hent)
  have hkept : ¬ gone key := by
    intro hlost
    obtain ⟨old, hrec, hent⟩ := hgone key hlost
    exact hown (hold old hrec key hent)
  rw [update_of_ne hown, hoth, none_or, if_neg hkept]
  exact hshows key

theorem Shows.remove (hrec : records name = some record) (howns : indexing.Owns name record) :
    indexing.Shows (update records name none)
      (fun key => if (indexing.entry record key).isSome then none else table key) := by
  intro key
  dsimp only
  by_cases hown : indexing.owner key = name
  · rw [hown, update_self, bind_none]
    cases hent : indexing.entry record key with
    | some value => rfl
    | none =>
      rw [isSome_none, if_neg Bool.false_ne_true, hshows key, hown, hrec, bind_some, hent]
  have hoth : indexing.entry record key = none := by
    by_contra hent
    exact hown (howns key hent)
  rw [update_of_ne hown, hoth, isSome_none, if_neg Bool.false_ne_true]
  exact hshows key

end Writing

end Indexing

end WasmAgent.Core
