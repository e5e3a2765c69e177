import WasmAgent.Core.Prefixes
import WasmAgent.State.Reserved

/-!
# Moving a prefix

What a prefix move is for: every entry under one prefix stands under the other
afterwards, in place of whatever was there, and the rest is as it was.  The engine moves
the entries one at a time in one map, in key order.  A moved entry is lost where its new
key is the old key of an entry still to be moved, and an entry whose new key is too long
is dropped before it is refused.
-/

namespace WasmAgent.State

open List Std WasmAgent.Core

/-- One entry to move: its old key, its new key and its value. -/
abbrev Move := Bytes × Bytes × Bytes

section Moves

variable {batch after : Batch} {moves : List Move} {moved : Except Error Unit}

/-- What is under the keys of `target` once all entries under `source` are moved at once. -/
def Batch.renamed (batch : Batch) (source target key : Bytes) : Option Bytes :=
  (if target.isPrefixOf key then batch.get (source ++ key.drop target.length) else none).or
    (if source.isPrefixOf key then none else batch.get key)

@[simp]
theorem Batch.get_drop (batch : Batch) (key other : Bytes) :
    (batch.drop key).get other = if key = other then none else batch.get other := by
  rw [Batch.get, Batch.drop, ExtTreeMap.getElem?_erase]
  simp only [Std.compare_eq_iff_eq]
  rfl

@[simp]
theorem Batch.get_store (batch : Batch) (key value other : Bytes) (hszd : Sized key value) :
    (batch.store key value hszd).get other =
      if key = other then some value else batch.get other := by
  rw [Batch.get, Batch.store, ExtTreeMap.getElem?_insert]
  simp only [Std.compare_eq_iff_eq]
  rfl

theorem Batch.moveAll_cons_ok {move : Move} (hszd : Sized move.2.1 move.2.2) :
    batch.moveAll (move :: moves) =
      ((batch.drop move.1).store move.2.1 move.2.2 hszd).moveAll moves := by
  rw [Batch.moveAll]
  split
  · next herr =>
    rw [(checkSize_ok_iff _ _).mpr hszd] at herr
    cases herr
  · rfl

theorem Batch.moveAll_cons_error {move : Move} (hszd : ¬ Sized move.2.1 move.2.2) :
    ∃ fault, batch.moveAll (move :: moves) = (batch.drop move.1, .error fault) := by
  rw [Batch.moveAll]
  split
  · next fault _ =>
    exact ⟨fault, rfl⟩
  · next hok =>
    exact absurd ((checkSize_ok_iff _ _).mp hok) hszd

theorem Batch.moveAll_ok_iff :
    (batch.moveAll moves).2 = .ok () ↔ ∀ move ∈ moves, Sized move.2.1 move.2.2 := by
  induction moves generalizing batch with
  | nil => exact iff_of_true rfl (by nofun)
  | cons move moves ih =>
    rw [forall_mem_cons]
    by_cases hszd : Sized move.2.1 move.2.2
    · rw [Batch.moveAll_cons_ok hszd, ih]
      exact (and_iff_right hszd).symm
    obtain ⟨fault, heq⟩ := @Batch.moveAll_cons_error batch moves move hszd
    rw [heq]
    apply iff_of_false
    · intro hok
      cases hok
    · exact fun hall => hszd hall.1

theorem Batch.exists_dropped_of_moveAll_ne_ok (hstop : (batch.moveAll moves).2 ≠ .ok ()) :
    ∃ move ∈ moves, (batch.moveAll moves).1.get move.1 = none := by
  induction moves generalizing batch with
  | nil => exact absurd rfl hstop
  | cons move moves ih =>
    by_cases hszd : Sized move.2.1 move.2.2
    · rw [Batch.moveAll_cons_ok hszd] at hstop ⊢
      obtain ⟨other, hoth, hnone⟩ := ih hstop
      exact ⟨other, mem_cons_of_mem _ hoth, hnone⟩
    obtain ⟨fault, heq⟩ := @Batch.moveAll_cons_error batch moves move hszd
    rw [heq]
    refine ⟨move, mem_cons_self, ?_⟩
    rw [Batch.get_drop, if_pos rfl]

theorem Batch.moveAll_get_other {key : Bytes} (hok : ∀ move ∈ moves, Sized move.2.1 move.2.2)
    (hold : ∀ move ∈ moves, move.1 ≠ key) (hnew : ∀ move ∈ moves, move.2.1 ≠ key) :
    (batch.moveAll moves).1.get key = batch.get key := by
  induction moves generalizing batch with
  | nil => rfl
  | cons move moves ih =>
    rw [forall_mem_cons] at hok hold hnew
    rw [Batch.moveAll_cons_ok hok.1, ih hok.2 hold.2 hnew.2, Batch.get_store, if_neg hnew.1,
      Batch.get_drop, if_neg hold.1]

theorem Batch.moveAll_get_old {key : Bytes} (hok : ∀ move ∈ moves, Sized move.2.1 move.2.2)
    (hold : ∃ move ∈ moves, move.1 = key) (hnew : ∀ move ∈ moves, move.2.1 ≠ key) :
    (batch.moveAll moves).1.get key = none := by
  induction moves generalizing batch with
  | nil =>
    obtain ⟨move, hmove, _⟩ := hold
    cases hmove
  | cons move moves ih =>
    rw [forall_mem_cons] at hok hnew
    rw [Batch.moveAll_cons_ok hok.1]
    by_cases hrest : ∃ move ∈ moves, move.1 = key
    · exact ih hok.2 hrest hnew.2
    have hfst : move.1 = key := by
      obtain ⟨other, hoth, hkey⟩ := hold
      rcases mem_cons.mp hoth with rfl | hoth
      · exact hkey
      · exact absurd ⟨other, hoth, hkey⟩ hrest
    rw [Batch.moveAll_get_other hok.2 (fun other hoth hkey => hrest ⟨other, hoth, hkey⟩)
      hnew.2, Batch.get_store, if_neg hnew.1, Batch.get_drop, if_pos hfst]

variable (hok : ∀ move ∈ moves, Sized move.2.1 move.2.2)
variable (hndp : moves.Pairwise (fun first second => first.2.1 ≠ second.2.1))
include hok hndp

theorem Batch.moveAll_get_new (hclear : moves.Pairwise (fun first second => first.2.1 ≠ second.1)) :
    ∀ move ∈ moves, (batch.moveAll moves).1.get move.2.1 = some move.2.2 := by
  induction moves generalizing batch with
  | nil => nofun
  | cons move moves ih =>
    rw [forall_mem_cons] at hok
    rw [pairwise_cons] at hndp hclear
    rw [Batch.moveAll_cons_ok hok.1, forall_mem_cons]
    constructor
    · rw [Batch.moveAll_get_other hok.2 (fun other hoth => (hclear.1 other hoth).symm)
        (fun other hoth => (hndp.1 other hoth).symm), Batch.get_store, if_pos rfl]
    · exact ih hok.2 hndp.2 hclear.2

theorem Batch.exists_lost_of_not_clear
    (hclear : ¬ moves.Pairwise (fun first second => first.2.1 ≠ second.1)) :
    ∃ move ∈ moves, (batch.moveAll moves).1.get move.2.1 = none := by
  induction moves generalizing batch with
  | nil => exact absurd List.Pairwise.nil hclear
  | cons move moves ih =>
    rw [forall_mem_cons] at hok
    rw [pairwise_cons] at hndp hclear
    rw [Batch.moveAll_cons_ok hok.1]
    by_cases hfst : ∀ other ∈ moves, move.2.1 ≠ other.1
    · obtain ⟨other, hoth, hlost⟩ :=
        @ih ((batch.drop move.1).store move.2.1 move.2.2 hok.1) hok.2 hndp.2
          (fun hrest => hclear ⟨hfst, hrest⟩)
      exact ⟨other, mem_cons_of_mem _ hoth, hlost⟩
    obtain ⟨other, hoth, hkey⟩ : ∃ other ∈ moves, move.2.1 = other.1 := by
      by_contra hnone
      exact hfst (fun other hoth hkey => hnone ⟨other, hoth, hkey⟩)
    refine ⟨move, mem_cons_self, ?_⟩
    exact Batch.moveAll_get_old hok.2 ⟨other, hoth, hkey.symm⟩
      (fun later hltr => (hndp.1 later hltr).symm)

end Moves

section Renames

variable {batch : Batch} {source target : Bytes}

theorem Batch.iter_sorted (batch : Batch) :
    batch.iter.Pairwise (fun left right => compare left.1 right.1 = .lt) :=
  ExtTreeMap.ordered_keys_toList

theorem Batch.withPrefix_eq_filter (batch : Batch) (start : Bytes) :
    batch.withPrefix start = batch.iter.filter (fun entry => start.isPrefixOf entry.1) :=
  scan_prefix_of_sorted start batch.iter_sorted

theorem Batch.mem_withPrefix {entry : Bytes × Bytes} :
    entry ∈ batch.withPrefix source ↔
      ∃ suffix, entry.1 = source ++ suffix ∧ batch.get (source ++ suffix) = some entry.2 := by
  rw [Batch.withPrefix_eq_filter, mem_filter, isPrefixOf_iff_prefix]
  have hget : entry ∈ batch.iter ↔ batch.get entry.1 = some entry.2 :=
    ExtTreeMap.mem_toList_iff_getElem?_eq_some
  rw [hget]
  constructor
  · intro hent
    obtain ⟨suffix, hkey⟩ := hent.2
    exact ⟨suffix, hkey.symm, hkey ▸ hent.1⟩
  · intro hent
    obtain ⟨suffix, hkey, hval⟩ := hent
    exact ⟨hkey ▸ hval, ⟨suffix, hkey.symm⟩⟩

theorem Batch.mem_moves {move : Move} :
    move ∈ batch.moves source target ↔
      ∃ suffix value, batch.get (source ++ suffix) = some value ∧
        move = (source ++ suffix, target ++ suffix, value) := by
  rw [Batch.moves, mem_map]
  constructor
  · intro hmove
    obtain ⟨entry, hent, hsame⟩ := hmove
    obtain ⟨suffix, hkey, hval⟩ := Batch.mem_withPrefix.mp hent
    refine ⟨suffix, entry.2, hval, ?_⟩
    rw [← hsame, hkey, drop_left]
  intro hmove
  obtain ⟨suffix, value, hval, hsame⟩ := hmove
  refine ⟨(source ++ suffix, value), Batch.mem_withPrefix.mpr ⟨suffix, rfl, hval⟩, ?_⟩
  rw [hsame, drop_left]

theorem Batch.moves_sorted (batch : Batch) (source target : Bytes) :
    (batch.moves source target).Pairwise (fun first second => compare first.1 second.1 = .lt) := by
  apply List.Pairwise.map
  · intro first second hbef
    exact hbef
  · rw [Batch.withPrefix_eq_filter]
    exact batch.iter_sorted.filter _

theorem Batch.moves_nodup (batch : Batch) (source target : Bytes) :
    (batch.moves source target).Pairwise (fun first second => first.2.1 ≠ second.2.1) := by
  apply (batch.moves_sorted source target).imp_of_mem
  intro first second hfst hsnd hbef hsame
  obtain ⟨suffix, value, _, rfl⟩ := Batch.mem_moves.mp hfst
  obtain ⟨other, found, _, rfl⟩ := Batch.mem_moves.mp hsnd
  have hsuf : suffix = other := append_cancel_left hsame
  rw [hsuf] at hbef
  rw [ReflOrd.compare_self] at hbef
  cases hbef

/-- What the caller must know of a batch to move a prefix in it: no new key is too long,
and no entry gets the key of one that comes after it and is itself still to be moved. -/
structure Batch.Movable (batch : Batch) (source target : Bytes) : Prop where
  sized : ∀ suffix value, batch.get (source ++ suffix) = some value →
    (target ++ suffix).length ≤ maxKeyBytes
  clear : ∀ first second, compare first second = .lt → target ++ first = source ++ second →
    batch.get (source ++ first) = none ∨ batch.get (source ++ second) = none

theorem Batch.moves_sized_iff :
    (∀ move ∈ batch.moves source target, Sized move.2.1 move.2.2) ↔
      ∀ suffix value, batch.get (source ++ suffix) = some value →
        (target ++ suffix).length ≤ maxKeyBytes := by
  constructor
  · intro hszd suffix value hval
    exact (hszd _ (Batch.mem_moves.mpr ⟨suffix, value, hval, rfl⟩)).1
  · intro hszd move hmove
    obtain ⟨suffix, value, hval, rfl⟩ := Batch.mem_moves.mp hmove
    exact ⟨hszd suffix value hval, (batch.sized _ _ hval).2⟩

theorem Batch.moves_clear_iff :
    (batch.moves source target).Pairwise (fun first second => first.2.1 ≠ second.1) ↔
      ∀ first second, compare first second = .lt → target ++ first = source ++ second →
        batch.get (source ++ first) = none ∨ batch.get (source ++ second) = none := by
  rw [pairwise_iff_of_sorted (batch.moves_sorted source target)]
  constructor
  · intro hclear first second hbef hsame
    by_contra hboth
    obtain ⟨hfst, hsnd⟩ := not_or.mp hboth
    obtain ⟨value, hval⟩ := Option.ne_none_iff_exists'.mp hfst
    obtain ⟨found, hfnd⟩ := Option.ne_none_iff_exists'.mp hsnd
    apply hclear _ (Batch.mem_moves.mpr ⟨first, value, hval, rfl⟩) _
      (Batch.mem_moves.mpr ⟨second, found, hfnd, rfl⟩) _ hsame
    rwa [compare_append_left]
  intro hclear first hfst second hsnd hbef hsame
  obtain ⟨suffix, value, hval, rfl⟩ := Batch.mem_moves.mp hfst
  obtain ⟨other, found, hfnd, rfl⟩ := Batch.mem_moves.mp hsnd
  rw [compare_append_left] at hbef
  rcases hclear suffix other hbef hsame with hnone | hnone
  · rw [hnone] at hval
    cases hval
  · rw [hnone] at hfnd
    cases hfnd

theorem Batch.renamed_target (suffix : Bytes) {value : Bytes}
    (hval : batch.get (source ++ suffix) = some value) :
    batch.renamed source target (target ++ suffix) = some value := by
  have htgt : target.isPrefixOf (target ++ suffix) = true :=
    isPrefixOf_iff_prefix.mpr (prefix_append target suffix)
  rw [Batch.renamed, if_pos htgt, drop_left, hval, Option.some_or]

theorem Batch.get_moves (hmov : batch.Movable source target) (key : Bytes) :
    (batch.moveAll (batch.moves source target)).1.get key = batch.renamed source target key := by
  have hok := Batch.moves_sized_iff.mpr hmov.sized
  have hclear := Batch.moves_clear_iff.mpr hmov.clear
  by_cases hnew : ∃ move ∈ batch.moves source target, move.2.1 = key
  · obtain ⟨move, hmove, rfl⟩ := hnew
    rw [Batch.moveAll_get_new hok (batch.moves_nodup source target) hclear move hmove]
    obtain ⟨suffix, value, hval, rfl⟩ := Batch.mem_moves.mp hmove
    exact (Batch.renamed_target suffix hval).symm
  have hoth : ∀ move ∈ batch.moves source target, move.2.1 ≠ key :=
    fun move hmove hkey => hnew ⟨move, hmove, hkey⟩
  have hnone : (if target.isPrefixOf key then
      batch.get (source ++ key.drop target.length) else none) = none := by
    split
    · next htgt =>
      obtain ⟨suffix, rfl⟩ := isPrefixOf_iff_prefix.mp htgt
      rw [drop_left]
      apply Option.eq_none_iff_forall_ne_some.mpr
      intro value hval
      exact hoth _ (Batch.mem_moves.mpr ⟨suffix, value, hval, rfl⟩) rfl
    · rfl
  rw [Batch.renamed, hnone, Option.none_or]
  split
  · next hsrc =>
    obtain ⟨suffix, rfl⟩ := isPrefixOf_iff_prefix.mp hsrc
    cases hval : batch.get (source ++ suffix) with
    | some value =>
      exact Batch.moveAll_get_old hok ⟨_, Batch.mem_moves.mpr ⟨suffix, value, hval, rfl⟩, rfl⟩ hoth
    | none =>
      rw [Batch.moveAll_get_other hok _ hoth, hval]
      intro move hmove hkey
      obtain ⟨other, value, hfnd, rfl⟩ := Batch.mem_moves.mp hmove
      have hsuf : source ++ other = source ++ suffix := hkey
      rw [hsuf, hval] at hfnd
      cases hfnd
  rename_i hsrc
  apply Batch.moveAll_get_other hok _ hoth
  intro move hmove hkey
  obtain ⟨suffix, value, _, rfl⟩ := Batch.mem_moves.mp hmove
  apply hsrc
  exact isPrefixOf_iff_prefix.mpr ⟨suffix, hkey⟩

/-- What a move of a prefix promises.  Where it succeeds, the entries under `source`
stand under `target` over whatever was there, the others are as they were, and the answer
is how many were moved; where it is refused, the batch is as before. -/
def Batch.RenamesWhole (batch : Batch) (source target : Bytes) : Prop :=
  match batch.renamePrefix source target with
  | (after, .ok count) =>
      (∀ key, after.get key = batch.renamed source target key) ∧
        count = (batch.iter.filter (fun entry => source.isPrefixOf entry.1)).length
  | (after, .error _) => after = batch

theorem Batch.renamePrefix_plain (hpln : (isReserved source || isReserved target) = false) :
    batch.renamePrefix source target =
      ((batch.moveAll (batch.moves source target)).1,
        (batch.moveAll (batch.moves source target)).2.map
          (fun _ => (batch.moves source target).length)) := by
  rw [Batch.renamePrefix, hpln]
  rfl

/-- A move of a prefix keeps its promise exactly where the engine refuses it outright, or
no new key is too long and none is the key of an entry that is moved later. -/
theorem renamesWhole_iff (batch : Batch) (source target : Bytes) :
    batch.RenamesWhole source target ↔
      isReserved source = true ∨ isReserved target = true ∨ batch.Movable source target := by
  rw [← or_assoc, ← Bool.or_eq_true]
  cases hplain : isReserved source || isReserved target with
  | true =>
    apply iff_of_true _ (.inl rfl)
    rw [Batch.RenamesWhole, Batch.renamePrefix, hplain]
    rfl
  | false =>
    rw [or_iff_right Bool.false_ne_true, Batch.RenamesWhole, Batch.renamePrefix_plain hplain]
    by_cases hsized : ∀ move ∈ batch.moves source target, Sized move.2.1 move.2.2
    · rw [Batch.moveAll_ok_iff.mpr hsized]
      constructor
      · intro hwhole
        refine ⟨Batch.moves_sized_iff.mp hsized, Batch.moves_clear_iff.mp ?_⟩
        by_contra hclear
        obtain ⟨move, hmove, hlost⟩ :=
          Batch.exists_lost_of_not_clear hsized (batch.moves_nodup source target) hclear
        rw [hwhole.1] at hlost
        obtain ⟨suffix, value, hvalue, rfl⟩ := Batch.mem_moves.mp hmove
        rw [Batch.renamed_target suffix hvalue] at hlost
        cases hlost
      · intro hmovable
        refine ⟨Batch.get_moves hmovable, ?_⟩
        rw [Batch.moves, length_map, Batch.withPrefix_eq_filter]
    have hstop : (batch.moveAll (batch.moves source target)).2 ≠ .ok () :=
      fun hok => hsized (Batch.moveAll_ok_iff.mp hok)
    cases houtcome : (batch.moveAll (batch.moves source target)).2 with
    | ok => exact absurd houtcome hstop
    | error fault =>
      apply iff_of_false
      · intro hsame
        obtain ⟨move, hmove, hnone⟩ := Batch.exists_dropped_of_moveAll_ne_ok hstop
        obtain ⟨suffix, value, hvalue, rfl⟩ := Batch.mem_moves.mp hmove
        change (batch.moveAll (batch.moves source target)).1 = batch at hsame
        rw [hsame, hvalue] at hnone
        cases hnone
      · intro hmovable
        exact hsized (Batch.moves_sized_iff.mpr hmovable.sized)

/-- Two entries of a component, one key a prefix of the other. -/
def nestedKeys : Batch :=
  (Batch.new.store (utf8 "a") (utf8 "one") ⟨by decide, by decide⟩).store (utf8 "aa") (utf8 "two")
    ⟨by decide, by decide⟩

/-- The entry moved to `aa` is taken for the old one: it is gone, and the answer still
counts it. -/
theorem nested_rename_loses_entry :
    (nestedKeys.renamePrefix (utf8 "a") (utf8 "aa")).1.iter = [(utf8 "aaa", utf8 "two")] ∧
      (nestedKeys.renamePrefix (utf8 "a") (utf8 "aa")).2 = .ok 2 ∧
      ¬ ∀ (batch : Batch) (source target : Bytes), batch.RenamesWhole source target := by
  have hafter : (nestedKeys.renamePrefix (utf8 "a") (utf8 "aa")).1.iter =
      [(utf8 "aaa", utf8 "two")] := by decide +kernel
  have hcount : (nestedKeys.renamePrefix (utf8 "a") (utf8 "aa")).2 = .ok 2 := by decide +kernel
  refine ⟨hafter, hcount, ?_⟩
  intro hall
  have hwhole := hall nestedKeys (utf8 "a") (utf8 "aa")
  rw [Batch.RenamesWhole] at hwhole
  split at hwhole
  · next after count heq =>
    have hexpected : nestedKeys.renamed (utf8 "a") (utf8 "aa") (utf8 "aa") =
        some (utf8 "one") := by decide +kernel
    have hmoved := (hwhole.1 (utf8 "aa")).trans hexpected
    have hentry : (utf8 "aa", utf8 "one") ∈ after.iter :=
      ExtTreeMap.mem_toList_iff_getElem?_eq_some.mpr hmoved
    rw [heq] at hafter
    rw [hafter] at hentry
    revert hentry
    decide +kernel
  · next fault heq =>
    rw [heq] at hcount
    cases hcount

end Renames

end WasmAgent.State
