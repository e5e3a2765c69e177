import Std.Data.ExtTreeMap

/-!
# Maps that change at some keys

What a lookup finds after an insertion, and after a list of keys is erased.
-/

namespace WasmAgent.Core

open List Std Std.ExtTreeMap

variable {Key Value : Type} {cmp : Key → Key → Ordering} [TransCmp cmp] [LawfulEqCmp cmp]
variable {table : ExtTreeMap Key Value cmp} {key other : Key} {value found : Value}

theorem getElem?_insert_of_ne (hne : key ≠ other) :
    (table.insert key value)[other]? = table[other]? := by
  rw [ExtTreeMap.getElem?_insert, if_neg (mt LawfulEqCmp.eq_of_compare hne)]

theorem getElem?_erase_of_ne (hne : key ≠ other) : (table.erase key)[other]? = table[other]? := by
  rw [getElem?_erase, if_neg (mt LawfulEqCmp.eq_of_compare hne)]

theorem getElem?_insert_cases (hfnd : (table.insert key value)[other]? = some found) :
    key = other ∧ found = value ∨ key ≠ other ∧ table[other]? = some found := by
  rw [ExtTreeMap.getElem?_insert] at hfnd
  split at hfnd
  · next hsame => exact .inl ⟨LawfulEqCmp.eq_of_compare hsame, (Option.some.inj hfnd).symm⟩
  · next hoth => exact .inr ⟨fun hsame => hoth (hsame ▸ ReflCmp.compare_self), hfnd⟩

theorem getElem?_foldl_erase [BEq Key] [LawfulBEq Key] (keys : List Key) :
    (keys.foldl ExtTreeMap.erase table)[key]? = if key ∈ keys then none else table[key]? := by
  induction keys generalizing table with
  | nil => rfl
  | cons first rest ih =>
    rw [foldl_cons, ih]
    by_cases hrest : key ∈ rest
    · rw [if_pos hrest, if_pos (mem_cons_of_mem _ hrest)]
    rw [if_neg hrest]
    by_cases hfst : first = key
    · rw [hfst, getElem?_erase_self, if_pos mem_cons_self]
    · rw [getElem?_erase_of_ne hfst, if_neg]
      exact not_mem_cons_of_ne_of_not_mem (Ne.symm hfst) hrest

end WasmAgent.Core
