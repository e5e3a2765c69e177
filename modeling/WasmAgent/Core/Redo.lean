import Mathlib.Data.List.Nodup
import Std.Data.ExtTreeMap

/-!
# Redo lists

A redo list holds full values, so that applying any part of it twice is the same
as applying it once.  The difference of two tables is such a list: it turns the
one into the other, names every key once, and changes something at each of them.
-/

namespace WasmAgent.Core

open List Option Std.ExtTreeMap Std

inductive Change (Key Value : Type) where
  | put (key : Key) (value : Value)
  | del (key : Key)
  deriving DecidableEq, Repr

namespace Change

variable {Key Value : Type}

def key : Change Key Value → Key
  | put key _ => key
  | del key => key

def value : Change Key Value → Option Value
  | put _ value => some value
  | del _ => none

variable {cmp : Key → Key → Ordering}

def apply [TransCmp cmp] : Change Key Value → ExtTreeMap Key Value cmp →
    ExtTreeMap Key Value cmp
  | put key value, table => table.insert key value
  | del key, table => table.erase key

def applyAll [TransCmp cmp] (changes : List (Change Key Value))
    (table : ExtTreeMap Key Value cmp) : ExtTreeMap Key Value cmp :=
  changes.foldl (fun current change => change.apply current) table

/-- The change says something new about its key. -/
def Alters [TransCmp cmp] (table : ExtTreeMap Key Value cmp) (change : Change Key Value) : Prop :=
  table[change.key]? ≠ change.value

section Lists

variable [TransCmp cmp]

@[simp]
theorem applyAll_nil (table : ExtTreeMap Key Value cmp) :
    applyAll ([] : List (Change Key Value)) table = table := by
  rfl

@[simp]
theorem applyAll_cons (change : Change Key Value) (changes : List (Change Key Value))
    (table : ExtTreeMap Key Value cmp) :
    applyAll (change :: changes) table = applyAll changes (change.apply table) := by
  rfl

theorem applyAll_append (first second : List (Change Key Value))
    (table : ExtTreeMap Key Value cmp) :
    applyAll (first ++ second) table = applyAll second (applyAll first table) := by
  exact foldl_append

theorem applyAll_take_succ {changes : List (Change Key Value)} {done : ℕ}
    (hdone : done < changes.length) (table : ExtTreeMap Key Value cmp) :
    applyAll (changes.take (done + 1)) table =
      changes[done].apply (applyAll (changes.take done) table) := by
  rw [take_succ_eq_append_getElem hdone, applyAll_append]
  rfl

end Lists

variable {key : Key}

section Lookup

variable [TransCmp cmp] [LawfulEqCmp cmp] [DecidableEq Key] {changes : List (Change Key Value)}
  {table : ExtTreeMap Key Value cmp}

theorem getElem?_apply (change : Change Key Value) (table : ExtTreeMap Key Value cmp) (key : Key) :
    (change.apply table)[key]? = if change.key = key then change.value else table[key]? := by
  cases change with
  | put changed value =>
    change (table.insert changed value)[key]? = _
    rw [ExtTreeMap.getElem?_insert]
    simp only [LawfulEqCmp.compare_eq_iff_eq]
    rfl
  | del changed =>
    change (table.erase changed)[key]? = _
    rw [ExtTreeMap.getElem?_erase]
    simp only [LawfulEqCmp.compare_eq_iff_eq]
    rfl

theorem getElem?_applyAll_other (hoth : key ∉ changes.map Change.key) :
    (applyAll changes table)[key]? = table[key]? := by
  induction changes generalizing table with
  | nil => rfl
  | cons change changes ih =>
    rw [map_cons, mem_cons, not_or] at hoth
    rw [applyAll_cons, ih hoth.2, getElem?_apply, if_neg (Ne.symm hoth.1)]

theorem getElem?_applyAll_congr {other : ExtTreeMap Key Value cmp}
    (hsame : key ∈ changes.map Change.key ∨ table[key]? = other[key]?) :
    (applyAll changes table)[key]? = (applyAll changes other)[key]? := by
  induction changes generalizing table other with
  | nil =>
    rcases hsame with hmem | hsame
    · exact absurd hmem not_mem_nil
    · exact hsame
  | cons change changes ih =>
    apply ih
    rw [getElem?_apply, getElem?_apply]
    by_cases hkey : change.key = key
    · rw [if_pos hkey, if_pos hkey]
      exact .inr rfl
    rw [if_neg hkey, if_neg hkey]
    rcases hsame with hmem | hsame
    · rw [map_cons, mem_cons] at hmem
      exact .inl (hmem.resolve_left (fun heq => hkey heq.symm))
    · exact .inr hsame

theorem applyAll_again (start done : ℕ) (hsta : start ≤ done) :
    applyAll (changes.drop start) (applyAll (changes.take done) table) =
      applyAll changes table := by
  have hspl : changes.take done = changes.take start ++ (changes.take done).drop start := by
    conv_lhs => rw [← List.take_append_drop start (changes.take done)]
    rw [List.take_take, Nat.min_eq_left hsta]
  have hwhole : applyAll changes table =
      applyAll (changes.drop start) (applyAll (changes.take start) table) := by
    rw [← applyAll_append, List.take_append_drop]
  rw [hwhole, hspl, applyAll_append]
  apply ExtTreeMap.ext_getElem?
  intro key
  apply getElem?_applyAll_congr
  by_cases hmem : key ∈ (changes.drop start).map Change.key
  · exact .inl hmem
  right
  apply getElem?_applyAll_other
  intro htkn
  apply hmem
  rw [List.drop_take] at htkn
  obtain ⟨change, hchg, hkey⟩ := List.mem_map.mp htkn
  exact List.mem_map.mpr ⟨change, List.mem_of_mem_take hchg, hkey⟩

variable (hndp : (changes.map Change.key).Nodup)
include hndp

variable {change : Change Key Value}

theorem getElem?_applyAll_mem (hchg : change ∈ changes) :
    (applyAll changes table)[change.key]? = change.value := by
  induction changes generalizing table with
  | nil => cases hchg
  | cons head changes ih =>
    rw [map_cons, nodup_cons] at hndp
    rw [applyAll_cons]
    rcases mem_cons.mp hchg with hhead | hrest
    · rw [hhead, getElem?_applyAll_other hndp.1, getElem?_apply, if_pos rfl]
    · exact ih hndp.2 hrest

theorem getElem?_applyAll_take {index : ℕ} (hidx : index < changes.length) (stop : ℕ) :
    (applyAll (changes.take stop) table)[changes[index].key]? =
      if index < stop then changes[index].value else table[changes[index].key]? := by
  have htkn : ((changes.take stop).map Change.key).Nodup := by
    rw [map_take]
    exact hndp.sublist (take_sublist stop _)
  split
  · next hbef =>
    apply getElem?_applyAll_mem htkn
    exact mem_take_iff_getElem.mpr ⟨index, by omega, rfl⟩
  rename_i haft
  apply getElem?_applyAll_other
  intro hmem
  obtain ⟨change, hchg, hkey⟩ := List.mem_map.mp hmem
  obtain ⟨earlier, hearl, rfl⟩ := mem_take_iff_getElem.mp hchg
  have hfst : earlier < (changes.map Change.key).length := by
    rw [length_map]
    omega
  have hsnd : index < (changes.map Change.key).length := by
    rwa [length_map]
  have hsame : (changes.map Change.key)[earlier] = (changes.map Change.key)[index] := by
    rw [List.getElem_map, List.getElem_map]
    exact hkey
  rw [(List.Nodup.getElem_inj_iff hndp).mp hsame] at hearl
  omega

omit hndp in
theorem apply_eq_self (hmade : table[change.key]? = change.value) : change.apply table = table := by
  apply ExtTreeMap.ext_getElem?
  intro key
  rw [getElem?_apply]
  split
  · next hkey =>
    rw [← hkey, hmade]
  · rfl

theorem apply_applyAll_take {index : ℕ} (hidx : index < changes.length) (made : ℕ) :
    changes[index].apply (applyAll (changes.take (max made index)) table) =
      applyAll (changes.take (max made (index + 1))) table := by
  rcases Nat.lt_or_ge index made with hmade | hnew
  · rw [Nat.max_eq_left (Nat.le_of_lt hmade), Nat.max_eq_left hmade]
    apply apply_eq_self
    apply getElem?_applyAll_mem
    · rw [map_take]
      exact (take_sublist _ _).nodup hndp
    · exact mem_take_iff_getElem.mpr ⟨index, by omega, rfl⟩
  · rw [Nat.max_eq_right hnew, Nat.max_eq_right (Nat.le_succ_of_le hnew)]
    exact (applyAll_take_succ hidx table).symm

omit hndp

theorem applyAll_puts (table : ExtTreeMap Key Value cmp) :
    applyAll (table.toList.map (fun entry => put entry.1 entry.2)) ∅ = table := by
  have hkeys : (table.toList.map (fun entry => put entry.1 entry.2)).map Change.key =
      table.toList.map Prod.fst := by
    rw [List.map_map]
    rfl
  apply ExtTreeMap.ext_getElem?
  intro key
  cases hent : table[key]? with
  | some value =>
    have hmem : put key value ∈ table.toList.map (fun entry => put entry.1 entry.2) :=
      List.mem_map.mpr ⟨(key, value), ExtTreeMap.mem_toList_iff_getElem?_eq_some.mpr hent, rfl⟩
    apply getElem?_applyAll_mem _ hmem
    rw [hkeys, ExtTreeMap.map_fst_toList_eq_keys]
    exact ExtTreeMap.nodup_keys
  | none =>
    rw [getElem?_applyAll_other, ExtTreeMap.getElem?_empty]
    rw [hkeys]
    intro hkey
    obtain ⟨entry, hmem, rfl⟩ := List.mem_map.mp hkey
    rw [ExtTreeMap.mem_toList_iff_getElem?_eq_some, hent] at hmem
    cases hmem

def Withdrawn (key : Key) : List (Change Key Value) → Prop
  | [] => True
  | change :: changes =>
      (change.key = key → change.value ≠ none → key ∈ changes.map Change.key) ∧
        Withdrawn key changes

omit [DecidableEq Key] in
theorem withdrawn_of_forall (hnever : ∀ change ∈ changes, change.key = key → change.value = none) :
    Withdrawn key changes := by
  induction changes with
  | nil => trivial
  | cons change changes ih =>
    refine ⟨fun hkey hput => ?_, ih (fun other hoth => hnever other (mem_cons_of_mem _ hoth))⟩
    exact absurd (hnever change mem_cons_self hkey) hput

theorem getElem?_applyAll_eq_none :
    (applyAll changes table)[key]? = none ↔
      (table[key]? = none ∨ key ∈ changes.map Change.key) ∧ Withdrawn key changes := by
  induction changes generalizing table with
  | nil =>
    constructor
    · intro hnone
      exact ⟨.inl hnone, trivial⟩
    · rintro ⟨hnone | hnmd, -⟩
      · exact hnone
      · cases hnmd
  | cons change changes ih =>
    rw [applyAll_cons, ih, getElem?_apply, map_cons, mem_cons, Withdrawn]
    by_cases hkey : change.key = key
    · rw [if_pos hkey, imp_iff_right hkey]
      constructor
      · rintro ⟨hnone | hnmd, hrest⟩
        · exact ⟨.inr (.inl hkey.symm), fun hput => absurd hnone hput, hrest⟩
        · exact ⟨.inr (.inl hkey.symm), fun _ => hnmd, hrest⟩
      · rintro ⟨-, hput, hrest⟩
        exact ⟨Decidable.or_iff_not_imp_left.mpr hput, hrest⟩
    rw [if_neg hkey, or_iff_right (Ne.symm hkey)]
    constructor
    · rintro ⟨hnone, hrest⟩
      exact ⟨hnone, fun hsame => absurd hsame hkey, hrest⟩
    · rintro ⟨hnone, -, hrest⟩
      exact ⟨hnone, hrest⟩

end Lookup

section Difference

variable [TransCmp cmp] [DecidableEq Value]

/-- The puts that a table needs to hold what `after` holds. -/
def upserts (before after : ExtTreeMap Key Value cmp) : List (Change Key Value) :=
  after.toList.filterMap (fun entry =>
    if before[entry.1]? = some entry.2 then none else some (put entry.1 entry.2))

/-- The deletions that a table needs to hold no more than `after`. -/
def deletions (before after : ExtTreeMap Key Value cmp) : List (Change Key Value) :=
  before.toList.filterMap (fun entry =>
    if after.contains entry.1 then none else some (del entry.1))

/-- The list that turns `before` into `after`. -/
def difference (before after : ExtTreeMap Key Value cmp) : List (Change Key Value) :=
  upserts before after ++ deletions before after

variable [LawfulEqCmp cmp] {before after : ExtTreeMap Key Value cmp} {change : Change Key Value}

theorem mem_upserts : change ∈ upserts before after ↔
    ∃ key value, change = put key value ∧ after[key]? = some value ∧ before[key]? ≠ some value := by
  unfold upserts
  rw [List.mem_filterMap]
  constructor
  · rintro ⟨⟨key, value⟩, hent, hchg⟩
    rw [mem_toList_iff_getElem?_eq_some] at hent
    split at hchg
    · cases hchg
    · next hnew =>
      cases hchg
      exact ⟨key, value, rfl, hent, hnew⟩
  · rintro ⟨key, value, rfl, haft, hnew⟩
    refine ⟨(key, value), ?_, if_neg hnew⟩
    rwa [mem_toList_iff_getElem?_eq_some]

omit [DecidableEq Value] in
theorem mem_deletions : change ∈ deletions before after ↔
    ∃ key, change = del key ∧ before[key]? ≠ none ∧ after[key]? = none := by
  unfold deletions
  rw [List.mem_filterMap]
  constructor
  · rintro ⟨⟨key, value⟩, hent, hchg⟩
    rw [mem_toList_iff_getElem?_eq_some] at hent
    split at hchg
    · cases hchg
    rename_i hgone
    cases hchg
    refine ⟨key, rfl, by rw [hent]; exact some_ne_none value, ?_⟩
    rwa [contains_eq_isSome_getElem?, not_isSome_iff_eq_none] at hgone
  rintro ⟨key, rfl, hbef, haft⟩
  obtain ⟨value, hval⟩ := ne_none_iff_exists'.mp hbef
  refine ⟨(key, value), mem_toList_iff_getElem?_eq_some.mpr hval, if_neg ?_⟩
  rwa [contains_eq_isSome_getElem?, not_isSome_iff_eq_none]

theorem of_mem_difference (hchg : change ∈ difference before after) :
    change.value = after[change.key]? ∧ change.Alters before := by
  rcases mem_append.mp hchg with hput | hdel
  · obtain ⟨key, value, rfl, haft, hnew⟩ := mem_upserts.mp hput
    exact ⟨haft.symm, hnew⟩
  · obtain ⟨key, rfl, hbef, haft⟩ := mem_deletions.mp hdel
    exact ⟨haft.symm, hbef⟩

theorem mem_keys_difference :
    key ∈ (difference before after).map Change.key ↔ before[key]? ≠ after[key]? := by
  constructor
  · intro hkey
    obtain ⟨change, hchg, rfl⟩ := List.mem_map.mp hkey
    obtain ⟨hval, halt⟩ := of_mem_difference hchg
    rw [← hval]
    exact halt
  intro hdif
  apply List.mem_map.mpr
  cases haft : after[key]? with
  | some value =>
    rw [haft] at hdif
    exact ⟨put key value, mem_append_left _ (mem_upserts.mpr ⟨key, value, rfl, haft, hdif⟩), rfl⟩
  | none =>
    rw [haft] at hdif
    exact ⟨del key, mem_append_right _ (mem_deletions.mpr ⟨key, rfl, hdif, haft⟩), rfl⟩

omit [TransCmp cmp] [LawfulEqCmp cmp] [DecidableEq Value] in
theorem keys_sublist {make : Key × Value → Option (Change Key Value)}
    (hmake : ∀ entry change, make entry = some change → change.key = entry.1)
    (entries : List (Key × Value)) :
    ((entries.filterMap make).map Change.key).Sublist (entries.map Prod.fst) := by
  induction entries with
  | nil => exact List.Sublist.refl _
  | cons entry entries ih =>
    rw [filterMap_cons]
    cases hchg : make entry with
    | none => exact ih.cons _
    | some change =>
      rw [map_cons, map_cons, hmake entry change hchg]
      exact ih.cons_cons _

theorem difference_keys_nodup : ((difference before after).map Change.key).Nodup := by
  have hents : ∀ table : ExtTreeMap Key Value cmp, (table.toList.map Prod.fst).Nodup := by
    intro table
    rw [map_fst_toList_eq_keys]
    exact nodup_keys
  have hups : ((upserts before after).map Change.key).Nodup := by
    apply (keys_sublist _ _).nodup (hents after)
    intro entry change hchg
    split at hchg <;> cases hchg
    rfl
  have hdelet : ((deletions before after).map Change.key).Nodup := by
    apply (keys_sublist _ _).nodup (hents before)
    intro entry change hchg
    split at hchg <;> cases hchg
    rfl
  rw [difference, map_append]
  apply List.Nodup.append hups hdelet
  intro key hput hdel
  obtain ⟨change, hchg, rfl⟩ := List.mem_map.mp hput
  obtain ⟨other, hoth, hkey⟩ := List.mem_map.mp hdel
  obtain ⟨putKey, value, rfl, haft, -⟩ := mem_upserts.mp hchg
  obtain ⟨delKey, rfl, -, hgone⟩ := mem_deletions.mp hoth
  obtain rfl : delKey = putKey := hkey
  rw [haft] at hgone
  cases hgone

theorem applyAll_difference [DecidableEq Key] : applyAll (difference before after) before = after := by
  apply ExtTreeMap.ext_getElem?
  intro key
  by_cases hkey : key ∈ (difference before after).map Change.key
  · obtain ⟨change, hchg, rfl⟩ := List.mem_map.mp hkey
    rw [getElem?_applyAll_mem difference_keys_nodup hchg, (of_mem_difference hchg).1]
  · rw [getElem?_applyAll_other hkey]
    by_contra hdif
    exact hkey (mem_keys_difference.mpr hdif)

end Difference

end Change

end WasmAgent.Core
