import WasmAgent.Core.Scans
import WasmAgent.Whatsapp.Shelf

/-!
# Retention over the index

An age key is read back as the record it is the key of, and age keys are ordered as the times
are.  So a pass over the age keys removes the oldest records, and where it reports no more work
none is left that is older than the cutoff.
-/

namespace WasmAgent.Whatsapp

open List Option Std.ExtTreeMap Function Std WasmAgent.Core

section AgeKeys

theorem digitValue_digit : ∀ value < 16, digitValue (digit value) = some value := by
  decide

theorem mapM_digitValue_hex (width value : ℕ) :
    ∃ values, (hex width value).mapM digitValue = some values ∧
      values.foldl (fun sum digit => 16 * sum + digit) 0 = value % 16 ^ width := by
  induction width generalizing value with
  | zero => exact ⟨[], rfl, (Nat.mod_one value).symm⟩
  | succ width ih =>
    obtain ⟨values, hval, hsum⟩ := ih (value / 16)
    refine ⟨values ++ [value % 16], ?_, ?_⟩
    · rw [hex, mapM_append, hval, mapM_cons, digitValue_digit _ (Nat.mod_lt value (by decide))]
      rfl
    · rw [foldl_append, hsum, foldl_cons, foldl_nil, Nat.pow_succ', Nat.mod_mul]
      exact Nat.add_comm _ _

variable (ts : Int64)

theorem toNat_lt : ts.toInt.toNat < 2 ^ 63 := by
  have hbound := Int64.toInt_lt ts
  omega

theorem fromAge_age : fromAge (age ts) = some ts.toInt.toNat := by
  obtain ⟨values, hval, hsum⟩ := mapM_digitValue_hex 16 ts.toInt.toNat
  have hsmall := toNat_lt ts
  have hwidth : ts.toInt.toNat < 16 ^ 16 := hsmall.trans (by decide)
  have hdig : (age ts).head? ≠ some '+' := by
    intro hhead
    have hmem := mem_of_mem_head? hhead
    obtain ⟨front, rest, hfrt⟩ := append_of_mem hmem
    change hex 16 ts.toInt.toNat = front ++ '+' :: rest at hfrt
    rw [hfrt, mapM_append, mapM_cons] at hval
    cases hread : front.mapM digitValue with
    | none =>
      rw [hread] at hval
      cases hval
    | some numbers =>
      rw [hread] at hval
      cases hval
  have hne : (age ts).isEmpty = false := by
    rw [List.isEmpty_eq_false_iff, ← length_pos_iff, age, length_hex]
    exact Nat.succ_pos 15
  rw [fromAge, if_neg hdig, hne, if_neg Bool.false_ne_true, age, hval,
    map_some, hsum, Nat.mod_eq_of_lt hwidth, filter_some,
    if_pos (decide_eq_true hsmall)]

theorem compare_digit : ∀ left < 16, ∀ right < 16,
    compare [digit left] [digit right] = compare left right := by
  decide

theorem compare_hex {width left right : ℕ} (hlt : left < 16 ^ width) (hrt : right < 16 ^ width) :
    compare (hex width left) (hex width right) = compare left right := by
  induction width generalizing left right with
  | zero =>
    rw [Nat.lt_one_iff.mp hlt, Nat.lt_one_iff.mp hrt]
    rfl
  | succ width ih =>
    rw [hex, hex, compare_append_of_length ((length_hex _ _).trans (length_hex _ _).symm),
      ih (Nat.div_lt_of_lt_mul (by rwa [pow_succ'] at hlt))
        (Nat.div_lt_of_lt_mul (by rwa [pow_succ'] at hrt)),
      compare_digit _ (Nat.mod_lt left (by decide)) _ (Nat.mod_lt right (by decide)),
      compare_div_mod]

theorem toNat_le_of_keyAge {left right : Int64} {chat id other name : String}
    (horder : (compare (keyAge right other name) (keyAge left chat id)).isLT = false) :
    left.toInt.toNat ≤ right.toInt.toNat := by
  have hwidth : ∀ ts : Int64, ts.toInt.toNat < 16 ^ 16 :=
    fun ts => (toNat_lt ts).trans (by decide)
  by_contra hless
  rw [keyAge, keyAge, joined, joined, joined, age, age,
    compare_append_of_length ((length_hex _ _).trans (length_hex _ _).symm),
    compare_hex (hwidth right) (hwidth left), Nat.compare_eq_lt.mpr (Nat.not_le.mp hless)] at horder
  cases horder

theorem segments_keyAge {chat id : String} (hchat : '/' ∉ chat.toList) (hid : '/' ∉ id.toList) :
    Index.segments (keyAge ts chat id) = [age ts, chat.toList, id.toList] := by
  rw [Index.segments, keyAge, joined, joined,
    splitOn_append_cons_self_of_not_mem (slash_notMem_age ts),
    splitOn_append_cons_self_of_not_mem hchat, splitOn_eq_singleton hid]

end AgeKeys

/-! ## One key -/

def Record.ageKey (record : Record) : Key := keyAge record.ts record.chat record.id

namespace Shelf

def drop (record : Record) (shelf : Shelf) : Shelf :=
  { shelf with records := Function.update shelf.records record.name none }

def dropAll (records : List Record) (shelf : Shelf) : Shelf :=
  records.foldl (fun shelf record => shelf.drop record) shelf

theorem dropAll_append (first second : List Record) (shelf : Shelf) :
    shelf.dropAll (first ++ second) = (shelf.dropAll first).dropAll second :=
  foldl_append

theorem dropAll_records (records : List Record) (shelf : Shelf) (name : Name) :
    (shelf.dropAll records).records name =
      if name ∈ records.map Record.name then none else shelf.records name := by
  induction records generalizing shelf with
  | nil => rfl
  | cons record records ih =>
    rw [dropAll, foldl_cons]
    change ((shelf.drop record).dropAll records).records name = _
    rw [ih]
    change (if name ∈ records.map Record.name then none
      else update shelf.records record.name none name) = _
    rw [update_apply]
    by_cases hrest : name ∈ records.map Record.name
    · rw [if_pos hrest, map_cons, if_pos (mem_cons_of_mem _ hrest)]
    · rw [if_neg hrest]
      simp [hrest]

end Shelf

variable {removed : List Record}

section Keys

variable {tables : Unicode} {shelf : Shelf} {index : Index} {record : Record} {key : Key}
variable (hks : Keeps tables shelf index)
include hks

theorem Keeps.ageKey_mem
    (hrec : shelf.records record.name = some record) : record.ageKey ∈ index.ages := by
  have hfnd : index.ages[record.ageKey]? = some (sourceWord record) :=
    family_found hks.represents.ages (hks.represents.owns fun _ => ageFamily_owns) hrec
      (mem_singleton_self _)
  rw [mem_iff_isSome_getElem?, hfnd]
  rfl

omit hks in
theorem ageKey_owner (hpln : record.Plain) : ageFamily.owner record.ageKey = record.name := by
  have hmem : keyAge record.ts record.chat record.id ∈
      [keyAge record.ts record.chat record.id] := mem_singleton_self _
  exact ageFamily_owns hpln _ (entry_ne_none.mpr hmem)

theorem Keeps.record_of_mem (hkey : key ∈ index.ages) :
    ∃ record, shelf.records record.name = some record ∧ key = record.ageKey := by
  obtain ⟨word, hword⟩ := isSome_iff_exists.mp (mem_iff_isSome_getElem?.mp hkey)
  obtain ⟨record, hrec, hmem, _⟩ := family_sound hks.represents.ages hword
  have hname := (hks.represents.owner hrec).1
  rw [← hname] at hrec
  exact ⟨record, hrec, mem_singleton.mp hmem⟩

theorem Keeps.remove (reactions : ExtTreeMap Key Reaction)
    (hrec : shelf.records record.name = some record) :
    Keeps tables (shelf.drop record)
      { index.remove tables record with reactions := reactions } where
  represents := by
    obtain ⟨hnmd, hpln, hmsgs, hids, hages, hsen, hkinds, htks⟩ := hks.represents.remove hrec
    exact ⟨hnmd, hpln, hmsgs, hids, hages, hsen, hkinds, htks⟩
  pending := hks.pending
  settled := by
    intro name stored hsto hmsg
    change update shelf.records record.name none name = some stored at hsto
    rw [update_apply] at hsto
    split at hsto
    · cases hsto
    · exact hks.settled name stored hsto hmsg

omit hks

structure Removed (tables : Unicode) (cutoff : Int) (shelf : Shelf) (before after : Index.Pruned × Index)
    (removed : List Record) : Prop where
  keeps : Keeps tables (shelf.dropAll removed) after.2
  counted : after.1.records = before.1.records + removed.length
  stored : ∀ record ∈ removed, shelf.records record.name = some record
  stale : ∀ record ∈ removed, (record.ts.toInt.toNat : Int) < cutoff
  names : (removed.map Record.name).Nodup

variable {cutoff : Int} {budget : ℕ} {before state after : Index.Pruned × Index}

theorem removed_nil (hks : Keeps tables shelf state.2) :
    Removed tables cutoff shelf state state [] where
  keeps := hks
  counted := rfl
  stored := fun _ hmem => absurd hmem not_mem_nil
  stale := fun _ hmem => absurd hmem not_mem_nil
  names := nodup_nil

theorem Removed.flag (hrmd : Removed tables cutoff shelf before after removed) (more : Bool) :
    Removed tables cutoff shelf before ({ after.1 with more := more }, after.2) removed :=
  { hrmd with }

theorem records_of_dropAll {name : Name}
    (hrec : (shelf.dropAll removed).records name = some record) :
    name ∉ removed.map Record.name ∧ shelf.records name = some record := by
  rw [Shelf.dropAll_records] at hrec
  split at hrec
  · cases hrec
  · next hkept => exact ⟨hkept, hrec⟩

theorem Removed.trans {first second : List Record}
    (hfst : Removed tables cutoff shelf before state first)
    (hsnd : Removed tables cutoff (shelf.dropAll first) state after second) :
    Removed tables cutoff shelf before after (first ++ second) where
  keeps := by
    rw [Shelf.dropAll_append]
    exact hsnd.keeps
  counted := by
    rw [hsnd.counted, hfst.counted, length_append, Nat.add_assoc]
  stored := by
    intro record hrec
    rcases mem_append.mp hrec with hmem | hmem
    · exact hfst.stored record hmem
    · exact (records_of_dropAll (hsnd.stored record hmem)).2
  stale := by
    intro record hrec
    rcases mem_append.mp hrec with hmem | hmem
    · exact hfst.stale record hmem
    · exact hsnd.stale record hmem
  names := by
    rw [map_append, nodup_append]
    refine ⟨hfst.names, hsnd.names, ?_⟩
    intro name hname other hoth hsame
    obtain ⟨record, hmem, rfl⟩ := List.mem_map.mp hoth
    exact (records_of_dropAll (hsnd.stored record hmem)).1 (hsame ▸ hname)

theorem Removed.mem_ages (hks : Keeps tables shelf before.2)
    (hrmd : Removed tables cutoff shelf before after removed) :
    key ∈ after.2.ages ↔ key ∈ before.2.ages ∧ key ∉ removed.map Record.ageKey := by
  constructor
  · intro hkey
    obtain ⟨record, hrec, rfl⟩ := hrmd.keeps.record_of_mem hkey
    obtain ⟨hkept, hsto⟩ := records_of_dropAll hrec
    refine ⟨hks.ageKey_mem hsto, ?_⟩
    intro hmem
    obtain ⟨other, hoth, hsame⟩ := List.mem_map.mp hmem
    have hname : other.name = record.name := by
      rw [← ageKey_owner (hks.represents.owner (hrmd.stored other hoth)).2, hsame,
        ageKey_owner (hks.represents.owner hsto).2]
    exact hkept (hname ▸ List.mem_map_of_mem hoth)
  rintro ⟨hkey, hlt⟩
  obtain ⟨record, hrec, hsame⟩ := hks.record_of_mem hkey
  rw [hsame] at hlt ⊢
  apply hrmd.keeps.ageKey_mem
  rw [Shelf.dropAll_records, if_neg, hrec]
  intro hmem
  obtain ⟨other, hoth, hname⟩ := List.mem_map.mp hmem
  have hsto := hrmd.stored other hoth
  rw [hname, hrec] at hsto
  cases hsto
  exact hlt (List.mem_map_of_mem hoth)

theorem pruneKey_cases (hks : Keeps tables shelf state.2) (hkey : key ∈ state.2.ages) :
    ∃ record, shelf.records record.name = some record ∧ key = record.ageKey ∧
      ((cutoff ≤ (record.ts.toInt.toNat : Int) ∧
          Index.pruneKey tables cutoff budget state key = .error state) ∨
        Index.pruneKey tables cutoff budget state key =
          .error ({ state.1 with more := true }, state.2) ∨
        ∃ after, Index.pruneKey tables cutoff budget state key = .ok after ∧
          Removed tables cutoff shelf state after [record]) := by
  obtain ⟨record, hrec, rfl⟩ := hks.record_of_mem hkey
  have hpln := (hks.represents.owner hrec).2
  refine ⟨record, hrec, rfl, ?_⟩
  have hseg := segments_keyAge record.ts hpln.chat hpln.id
  have hload : state.2.load record.chat record.id = some record :=
    (hks.load record.chat record.id).trans hrec
  have hbody : Index.pruneKey tables cutoff budget state record.ageKey =
      if cutoff ≤ (record.ts.toInt.toNat : Int) then .error state
      else if budget ≤ state.1.records then .error ({ state.1 with more := true }, state.2)
      else .ok ({ state.1 with records := state.1.records + 1 },
        { (state.2.remove tables record).dropReactions (reactionPrefix record.chat record.id) 64 with
          ages := (state.2.remove tables record).ages.erase record.ageKey }) := by
    rw [Index.pruneKey, Record.ageKey, hseg]
    dsimp only
    rw [fromAge_age, String.ofList_toList, String.ofList_toList, hload]
    rfl
  rw [hbody]
  by_cases hins : cutoff ≤ (record.ts.toInt.toNat : Int)
  · exact .inl ⟨hins, if_pos hins⟩
  rw [if_neg hins]
  by_cases hspent : budget ≤ state.1.records
  · exact .inr (.inl (if_pos hspent))
  rw [if_neg hspent]
  refine .inr (.inr ⟨_, rfl, ?_⟩)
  have hages : (state.2.remove tables record).ages.erase record.ageKey =
      (state.2.remove tables record).ages := by
    apply ExtTreeMap.ext_getElem?
    intro other
    change ((state.2.ages.erase record.ageKey).erase record.ageKey)[other]? =
      (state.2.ages.erase record.ageKey)[other]?
    rw [lookup_erase, lookup_erase]
    split <;> rfl
  constructor
  · rw [hages]
    exact hks.remove _ hrec
  · rfl
  · intro other hoth
    rw [List.mem_singleton.mp hoth]
    exact hrec
  · intro other hoth
    rw [List.mem_singleton.mp hoth]
    exact Int.not_le.mp hins
  · exact List.nodup_cons.mpr ⟨List.not_mem_nil, List.nodup_nil⟩

end Keys

/-! ## One page and all of them -/

section Pages

variable {tables : Unicode} {shelf : Shelf} {cutoff : Int} {budget : ℕ}
  {state : Index.Pruned × Index}

theorem pruneKeys_cases {keys : List Key} (hks : Keeps tables shelf state.2)
    (hkeys : ∀ key ∈ keys, key ∈ state.2.ages) (hndp : keys.Nodup) :
    ∃ removed after, Removed tables cutoff shelf state after removed ∧
      ((keys.foldlM (Index.pruneKey tables cutoff budget) state = .ok after ∧
          removed.map Record.ageKey = keys) ∨
        (keys.foldlM (Index.pruneKey tables cutoff budget) state = .error after ∧
          (after.1.more = true ∨
            ∃ (record : Record) (rest : List Key), keys = removed.map Record.ageKey ++ record.ageKey :: rest ∧
              cutoff ≤ (record.ts.toInt.toNat : Int)))) := by
  induction keys generalizing shelf state with
  | nil => exact ⟨[], state, removed_nil hks, .inl ⟨rfl, rfl⟩⟩
  | cons key keys ih =>
    obtain ⟨hkey, hndp⟩ := nodup_cons.mp hndp
    rw [foldlM_cons]
    obtain ⟨record, _, hsame, hcases⟩ :=
      @pruneKey_cases tables shelf key cutoff budget state hks (hkeys key mem_cons_self)
    rcases hcases with ⟨hins, hstep⟩ | hstep | ⟨mid, hstep, hfst⟩
    · rw [hstep]
      refine ⟨[], state, removed_nil hks, .inr ⟨rfl, .inr ⟨record, keys, ?_, hins⟩⟩⟩
      rw [hsame]
      rfl
    · rw [hstep]
      exact ⟨[], _, (removed_nil hks).flag true, .inr ⟨rfl, .inl rfl⟩⟩
    rw [hstep]
    have hrest : ∀ other ∈ keys, other ∈ mid.2.ages := by
      intro other hoth
      apply (hfst.mem_ages hks).mpr
      refine ⟨hkeys other (mem_cons_of_mem key hoth), ?_⟩
      intro hmem
      rw [map_cons, map_nil, mem_singleton, ← hsame] at hmem
      exact hkey (hmem ▸ hoth)
    obtain ⟨removed, after, hsnd, hres⟩ := ih hfst.keeps hrest hndp
    refine ⟨record :: removed, after, hfst.trans hsnd, ?_⟩
    rcases hres with ⟨hok, hall⟩ | ⟨herr, hwhy⟩
    · exact .inl ⟨hok, by rw [map_cons, hall, hsame]⟩
    · refine .inr ⟨herr, hwhy.imp_right ?_⟩
      rintro ⟨last, rest, hkeys, hins⟩
      exact ⟨last, rest, by rw [hkeys, hsame]; rfl, hins⟩

/-- Nothing that is left is older than the cutoff. -/
def Intact (cutoff : Int) (shelf : Shelf) : Prop :=
  ∀ name record, shelf.records name = some record → cutoff ≤ (record.ts.toInt.toNat : Int)

theorem intact_of_stopped {record : Record} {rest : List Key} {after : Index.Pruned × Index}
    (hks : Keeps tables shelf state.2) (hrmd : Removed tables cutoff shelf state after removed)
    (hkeys : state.2.ages.keys = removed.map Record.ageKey ++ record.ageKey :: rest)
    (hins : cutoff ≤ (record.ts.toInt.toNat : Int)) : Intact cutoff (shelf.dropAll removed) := by
  intro name other hoth
  have hname := (hrmd.keeps.represents.owner hoth).1
  rw [← hname] at hoth
  obtain ⟨hmem, hlt⟩ := (hrmd.mem_ages hks).mp (hrmd.keeps.ageKey_mem hoth)
  have hsrt := @ordered_keys _ _ _ state.2.ages _
  rw [← ExtTreeMap.mem_keys, hkeys] at hmem
  rw [hkeys] at hsrt
  have horder : (compare other.ageKey record.ageKey).isLT = false := by
    rcases mem_append.mp hmem with hgone | hhere
    · exact absurd hgone hlt
    rcases mem_cons.mp hhere with hsame | hltr
    · rw [hsame, ReflOrd.compare_self]
      rfl
    · have hless := rel_of_pairwise_cons (pairwise_append.mp hsrt).2.1 hltr
      rw [OrientedOrd.eq_swap, hless]
      rfl
  have hts := toNat_le_of_keyAge horder
  omega

theorem intact_of_empty (hks : Keeps tables shelf state.2)
    (hemp : ∀ key, key ∉ state.2.ages) : Intact cutoff shelf := by
  intro name record hrec
  have hname := (hks.represents.owner hrec).1
  rw [← hname] at hrec
  exact absurd (hks.ageKey_mem hrec) (hemp _)

theorem scan_keys {Value : Type} {table : ExtTreeMap Key Value} {cursor : Option Key}
    (hcur : ∀ key ∈ table, cursor.all (fun last => (compare last key).isLT)) (limit : ℕ) :
    (scan cursor limit table).map Prod.fst = table.keys.take (max limit 1) := by
  have hall : table.toList.filter
      (fun entry => cursor.all (fun last => (compare last entry.1).isLT)) = table.toList := by
    rw [filter_eq_self]
    intro entry hent
    apply hcur
    rw [← ExtTreeMap.mem_keys, ← map_fst_toList_eq_keys]
    exact List.mem_map_of_mem hent
  rw [scan, hall, map_take, map_fst_toList_eq_keys]

theorem left_of_page {entries : List (Key × String)} {after : Index.Pruned × Index}
    {last : Key × String} (hks : Keeps tables shelf state.2)
    (hrmd : Removed tables cutoff shelf state after removed)
    (hpage : entries.map Prod.fst = state.2.ages.keys.take (max Index.page 1))
    (hall : removed.map Record.ageKey = entries.map Prod.fst)
    (hlast : entries.getLast? = some last) :
    (∀ key ∈ after.2.ages, (compare last.1 key).isLT = true) ∧
      after.2.ages.size < state.2.ages.size ∧
      (entries.length < Index.page → ∀ key, key ∉ after.2.ages) := by
  have hspl := take_append_drop (max Index.page 1) state.2.ages.keys
  generalize state.2.ages.keys.drop (max Index.page 1) = later at hspl
  rw [← hpage] at hspl
  have hsrt := @ordered_keys _ _ _ state.2.ages _
  rw [← hspl, pairwise_append] at hsrt
  have hmem : last.1 ∈ entries.map Prod.fst := List.mem_map_of_mem (mem_of_getLast? hlast)
  have hlt : ∀ key ∈ after.2.ages, key ∈ later := by
    intro key hkey
    obtain ⟨hbef, hkept⟩ := (hrmd.mem_ages hks).mp hkey
    rw [← ExtTreeMap.mem_keys, ← hspl] at hbef
    rw [hall] at hkept
    exact (mem_append.mp hbef).resolve_left hkept
  constructor
  · intro key hkey
    rw [hsrt.2.2 _ hmem key (hlt key hkey)]
    rfl
  constructor
  · have hfewer : after.2.ages.keys.length ≤ later.length :=
      (subperm_of_subset nodup_keys fun key hkey =>
        hlt key (ExtTreeMap.mem_keys.mp hkey)).length_le
    have hpos := length_pos_of_mem hmem
    have hlen := congrArg length hspl
    rw [length_append] at hlen
    rw [length_keys] at hfewer hlen
    omega
  intro hshrt key hkey
  have hlen := congrArg length hpage
  rw [length_map, length_take] at hlen
  have htotal := congrArg length hspl
  rw [length_append, length_map] at htotal
  have hltr := length_pos_of_mem (hlt key hkey)
  rw [Index.page] at hshrt hlen
  omega

theorem prunePages_removed {pages : ℕ} {cursor : Option Key} (hks : Keeps tables shelf state.2)
    (hpages : state.2.ages.size < pages)
    (hcur : ∀ key ∈ state.2.ages, cursor.all (fun last => (compare last key).isLT)) :
    ∃ removed, Removed tables cutoff shelf state
        (Index.prunePages tables cutoff budget pages cursor state) removed ∧
      ((Index.prunePages tables cutoff budget pages cursor state).1.more = false →
        Intact cutoff (shelf.dropAll removed)) := by
  induction pages generalizing shelf state cursor with
  | zero => exact absurd hpages (Nat.not_lt_zero _)
  | succ pages ih =>
    have hscan := scan_keys hcur Index.page
    generalize hents : scan cursor Index.page state.2.ages = entries at hscan
    rw [Index.prunePages, hents]
    cases hlast : entries.getLast? with
    | none =>
      refine ⟨[], removed_nil hks, fun _ => intact_of_empty hks ?_⟩
      intro key hkey
      rw [getLast?_eq_none_iff.mp hlast, map_nil, eq_comm, take_eq_nil_iff] at hscan
      rw [← ExtTreeMap.mem_keys, hscan.resolve_left (by decide)] at hkey
      exact not_mem_nil hkey
    | some last =>
      have hkeys : ∀ key ∈ entries.map Prod.fst, key ∈ state.2.ages := by
        intro key hkey
        rw [hscan] at hkey
        exact ExtTreeMap.mem_keys.mp (mem_of_mem_take hkey)
      have hndp : (entries.map Prod.fst).Nodup := by
        rw [hscan]
        exact nodup_keys.sublist (take_sublist _ _)
      obtain ⟨removed, after, hrmd, hres⟩ :=
        @pruneKeys_cases tables shelf cutoff budget state _ hks hkeys hndp
      dsimp only
      rcases hres with ⟨hok, hall⟩ | ⟨herr, hwhy⟩
      · rw [hok]
        obtain ⟨hltr, hfewer, hemp⟩ := left_of_page hks hrmd hscan hall hlast
        dsimp only
        split
        · next hshrt =>
          exact ⟨removed, hrmd, fun _ => intact_of_empty hrmd.keeps (hemp hshrt)⟩
        split
        · refine ⟨removed, hrmd.flag true, ?_⟩
          intro hmore
          cases hmore
        obtain ⟨others, hoths, hint⟩ :=
          @ih (shelf.dropAll removed) after (some last.1) hrmd.keeps (by omega) hltr
        refine ⟨removed ++ others, hrmd.trans hoths, ?_⟩
        rw [Shelf.dropAll_append]
        exact hint
      rw [herr]
      refine ⟨removed, hrmd, ?_⟩
      intro hmore
      rcases hwhy with hflag | ⟨record, rest, hstop, hins⟩
      · dsimp only at hmore
        rw [hflag] at hmore
        cases hmore
      have hstp : state.2.ages.keys = removed.map Record.ageKey ++
          record.ageKey :: (rest ++ state.2.ages.keys.drop (max Index.page 1)) := by
        rw [← cons_append, ← append_assoc, ← hstop, hscan, take_append_drop]
      exact intact_of_stopped hks hrmd hstp hins

theorem prune_removed {index : Index} (hks : Keeps tables shelf index) (now : Int64)
    (days : UInt32) (budget : ℕ) :
    ∃ removed, Removed tables (Index.cutoff now days) shelf (⟨0, false⟩, index)
        (index.prune tables now days budget) removed ∧
      ((index.prune tables now days budget).1.more = false →
        Intact (Index.cutoff now days) (shelf.dropAll removed)) :=
  prunePages_removed hks (Nat.lt_succ_self _) (fun _ _ => rfl)

end Pages

end WasmAgent.Whatsapp
