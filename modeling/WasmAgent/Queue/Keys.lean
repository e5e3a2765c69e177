import WasmAgent.Core.Scans
import WasmAgent.Queue.Store

/-!
# The bytes of index keys

The store orders keys by their bytes and reads a prefix page by page.  For queue names that
pass the check and ids that fit a `u64`, the bytes of index keys are ordered as the keys are,
and the pages of one queue and slot are its keys and no others.
-/

namespace WasmAgent.Queue

open Std.ExtTreeMap List Std WasmAgent.Core

/-- `index_prefix`. -/
def indexBase (queue : String) (slot : Slot) : Bytes :=
  utf8 "i/" ++ utf8 queue ++ utf8 "/" ++ [UInt8.ofNat slot.code]

/-- `index_key`: inverted priority, then the id. -/
def IndexKey.bytes (key : IndexKey) : Bytes :=
  indexBase key.queue key.slot ++ bigEndian 4 key.rank.toNat ++ bigEndian 8 key.id

/-- `id_from_index_key`: the last eight bytes. -/
def idFromIndexKey (bytes : Bytes) : Option JobId :=
  if 8 ≤ bytes.length then some (fromBigEndian (bytes.drop (bytes.length - 8))) else none

/-- A key that an operation can write: the queue's name is valid and the id a `u64`. -/
structure IndexKey.Spelled (key : IndexKey) : Prop where
  queue : validName key.queue 64 = true
  id : key.id ≤ u64Max

section Names

variable {queue : String} {limit : ℕ} (hvld : validName queue limit = true)
include hvld

theorem validName_chars : ∀ char ∈ queue.toList, char.toNat < 128 ∧ char ≠ '/' := by
  intro char hchar
  rw [validName, Bool.and_eq_true, all_eq_true] at hvld
  have halwd := hvld.2 char hchar
  simp only [Bool.or_eq_true, beq_iff_eq, or_assoc] at halwd
  rcases halwd with halnum | rfl | rfl | rfl | rfl
  · delta Char.isAlphanum Char.isAlpha Char.isUpper Char.isLower Char.isDigit at halnum
    simp only [Bool.or_eq_true, Bool.and_eq_true, decide_eq_true_eq, ge_iff_le, UInt32.le_iff_toNat_le] at halnum
    constructor
    · change char.val.toNat < 128
      rcases halnum with (⟨_, hle⟩ | ⟨_, hle⟩) | ⟨_, hle⟩
      · exact Nat.lt_of_le_of_lt hle (by decide)
      · exact Nat.lt_of_le_of_lt hle (by decide)
      · exact Nat.lt_of_le_of_lt hle (by decide)
    · rintro rfl
      revert halnum
      decide
  all_goals decide

theorem ascii_of_validName : Ascii (queue ++ "/") := by
  intro char hchar
  rw [String.toList_append, mem_append] at hchar
  rcases hchar with hname | hslash
  · exact (validName_chars hvld char hname).1
  · rw [mem_singleton.mp hslash]
    decide

/-- The byte of `/`. -/
def slash : UInt8 := 47

omit hvld in
theorem utf8_slash : utf8 "/" = [slash] := by
  decide +kernel

theorem slash_notMem : slash ∉ utf8 queue := by
  have hascii : Ascii queue := fun char hchar => (validName_chars hvld char hchar).1
  rw [utf8_ascii hascii, List.mem_map]
  rintro ⟨char, hchar, hbyte⟩
  obtain ⟨hsmall, hoth⟩ := validName_chars hvld char hchar
  apply hoth
  have hnum := congrArg UInt8.toNat hbyte
  rw [UInt8.toNat_ofNat', Nat.mod_eq_of_lt (by omega)] at hnum
  exact Char.toNat_inj.mp hnum

omit hvld

theorem eq_of_slashed {other : String} (hoth : validName other limit = true)
    (hsta : utf8 queue ++ [slash] <+: utf8 other ++ [slash]) : queue = other :=
  utf8_inj (eq_of_terminated (slash_notMem hoth) hsta)

end Names

section Order

variable {key other : IndexKey} {queue : String} {slot : Slot}

/-- The part of a key after its queue. -/
def IndexKey.rest (key : IndexKey) : Bytes :=
  [UInt8.ofNat key.slot.code] ++ (bigEndian 4 key.rank.toNat ++ bigEndian 8 key.id)

theorem indexBase_eq (queue : String) (slot : Slot) :
    indexBase queue slot = utf8 "i/" ++ ((utf8 queue ++ [slash]) ++ [UInt8.ofNat slot.code]) := by
  rw [indexBase, utf8_slash, append_assoc, append_assoc, append_assoc]

theorem IndexKey.bytes_eq (key : IndexKey) :
    key.bytes = utf8 "i/" ++ ((utf8 key.queue ++ [slash]) ++ key.rest) := by
  rw [bytes, indexBase_eq, rest]
  simp

theorem compare_slot (left right : Slot) :
    compare [UInt8.ofNat left.code] [UInt8.ofNat right.code] = compare left.code right.code := by
  cases left <;> cases right <;> decide

theorem compare_rank (left right : UInt32) : compare left right = compare left.toNat right.toNat :=
  compareOfLessAndEq_number UInt32.toNat (fun _ _ => Iff.rfl) (fun _ _ => UInt32.toNat_inj.mp)
    left right

theorem compare_rest (hkey : key.Spelled) (hoth : other.Spelled) :
    compare key.rest other.rest =
      (compare key.slot.code other.slot.code).then
        ((compare key.rank other.rank).then (compare key.id other.id)) := by
  have hslot : [UInt8.ofNat key.slot.code].length = [UInt8.ofNat other.slot.code].length := rfl
  rw [IndexKey.rest, IndexKey.rest, compare_append_of_length hslot, compare_slot,
    compare_append_of_length ((bigEndian_length _ _).trans (bigEndian_length _ _).symm),
    compare_bigEndian key.rank.toNat_lt other.rank.toNat_lt, ← compare_rank,
    compare_bigEndian (Nat.lt_succ_of_le hkey.id) (Nat.lt_succ_of_le hoth.id)]

theorem compare_bytes (hkey : key.Spelled) (hoth : other.Spelled) :
    compare key.bytes other.bytes = IndexKey.order key other := by
  have hname : ∀ name : String, utf8 name ++ [slash] = utf8 (name ++ "/") := by
    intro name
    rw [utf8_append, utf8_slash]
  have horder : IndexKey.order key other = (compare (key.queue ++ "/") (other.queue ++ "/")).then
      ((compare key.slot.code other.slot.code).then
        ((compare key.rank other.rank).then (compare key.id other.id))) := rfl
  rw [key.bytes_eq, other.bytes_eq, compare_append_left, horder]
  by_cases hque : key.queue = other.queue
  · rw [hque, compare_append_left, compare_rest hkey hoth, ReflOrd.compare_self]
    rfl
  rw [compare_append_of_apart
    (fun hsta => hque (eq_of_slashed hoth.queue hsta))
    (fun hsta => hque (eq_of_slashed hkey.queue hsta).symm), hname, hname,
    compare_utf8 (ascii_of_validName hkey.queue) (ascii_of_validName hoth.queue)]
  cases hnames : compare (key.queue ++ "/") (other.queue ++ "/") with
  | lt => rfl
  | gt => rfl
  | eq =>
    have hsame := LawfulEqOrd.eq_of_compare hnames
    rw [String.append_left_inj] at hsame
    exact absurd hsame hque

theorem indexBase_prefix_iff (hque : validName queue 64 = true) (hkey : key.Spelled) :
    indexBase queue slot <+: key.bytes ↔ key.queue = queue ∧ key.slot = slot := by
  rw [indexBase_eq, key.bytes_eq, prefix_append_right_inj]
  constructor
  · intro hsta
    have hname : utf8 queue ++ [slash] <+: (utf8 key.queue ++ [slash]) ++ key.rest :=
      (prefix_append _ _).trans hsta
    have hsame : key.queue = queue := by
      rcases prefix_or_prefix_of_prefix hname (prefix_append _ _) with hfst | hsnd
      · exact (eq_of_slashed hkey.queue hfst).symm
      · exact eq_of_slashed hque hsnd
    rw [hsame, prefix_append_right_inj, IndexKey.rest, singleton_append, cons_prefix_cons] at hsta
    refine ⟨hsame, ?_⟩
    have hcode := hsta.1
    revert hcode
    cases key.slot <;> cases slot <;> decide
  · rintro ⟨rfl, rfl⟩
    rw [prefix_append_right_inj, IndexKey.rest]
    exact prefix_append _ _

theorem idFromIndexKey_bytes (hkey : key.Spelled) : idFromIndexKey key.bytes = some key.id := by
  have hlen : key.bytes.length =
      (indexBase key.queue key.slot ++ bigEndian 4 key.rank.toNat).length + 8 := by
    rw [IndexKey.bytes, length_append, bigEndian_length]
  rw [idFromIndexKey, if_pos (by omega), hlen, Nat.add_sub_cancel, IndexKey.bytes,
    drop_left, fromBigEndian_bigEndian (Nat.lt_succ_of_le hkey.id)]

end Order

section Scans

variable {rows : List (Bytes × Bytes)} {store : Store} {queue : String} {slot : Slot}

structure HoldsIndex (rows : List (Bytes × Bytes)) (store : Store) : Prop where
  sorted : rows.Pairwise (fun first second => compare first.1 second.1 = .lt)
  keys : ∀ bytes : Bytes, utf8 "i/" <+: bytes →
    (bytes ∈ rows.map Prod.fst ↔ ∃ key : IndexKey, key ∈ store.index ∧ key.bytes = bytes)

def indexRows (store : Store) : List (Bytes × Bytes) :=
  store.index.keys.map (fun key => (key.bytes, []))

theorem holdsIndex_indexRows (hspel : ∀ key : IndexKey, key ∈ store.index → key.Spelled) :
    HoldsIndex (indexRows store) store := by
  refine ⟨?_, ?_⟩
  · rw [indexRows, List.pairwise_map]
    apply List.Pairwise.imp_of_mem _ ordered_keys
    intro first second hfst hsnd hlt
    rw [compare_bytes (hspel first (ExtTreeMap.mem_keys.mp hfst))
      (hspel second (ExtTreeMap.mem_keys.mp hsnd))]
    exact hlt
  · intro bytes _
    rw [indexRows, List.map_map, List.mem_map]
    exact exists_congr fun key => and_congr_left' ExtTreeMap.mem_keys

theorem scanAll_index (hhld : HoldsIndex rows store)
    (hspel : ∀ key : IndexKey, key ∈ store.index → key.Spelled)
    (hque : validName queue 64 = true) (page : ℕ) :
    (scanAll (indexBase queue slot) page rows).map Prod.fst =
      (kv.answer (Query.indexPrefix queue slot) store).map IndexKey.bytes := by
  rw [scanAll_eq page hhld.sorted]
  apply @ext_of_sorted _ compare
  · rw [pairwise_map]
    exact hhld.sorted.filter _
  · rw [pairwise_map]
    apply List.Pairwise.imp_of_mem _ (ordered_keys.filter _)
    intro first second hfst hsnd hlt
    rw [compare_bytes (hspel first _) (hspel second _)]
    · exact hlt
    · exact ((mem_answer_indexPrefix first queue slot store).mp hfst).1
    · exact ((mem_answer_indexPrefix second queue slot store).mp hsnd).1
  intro bytes
  rw [List.mem_map, List.mem_map]
  constructor
  · rintro ⟨row, hrow, rfl⟩
    obtain ⟨hmem, hbase⟩ := List.mem_filter.mp hrow
    rw [ isPrefixOf_iff_prefix] at hbase
    have hfam : utf8 "i/" <+: row.1 := by
      apply List.IsPrefix.trans _ hbase
      exact prefix_append _ _
    obtain ⟨key, hkey, hbs⟩ := (hhld.keys row.1 hfam).mp (mem_map_of_mem hmem)
    rw [← hbs, indexBase_prefix_iff hque (hspel key hkey)] at hbase
    exact ⟨key, (mem_answer_indexPrefix key queue slot store).mpr ⟨hkey, hbase⟩, hbs⟩
  rintro ⟨key, hkey, rfl⟩
  obtain ⟨hmem, hmat⟩ := (mem_answer_indexPrefix key queue slot store).mp hkey
  have hbase := (@indexBase_prefix_iff key queue slot hque (hspel key hmem)).mpr hmat
  have hfam : utf8 "i/" <+: key.bytes := by
    exact prefix_append _ _
  obtain ⟨row, hrow, hbs⟩ := List.mem_map.mp ((hhld.keys key.bytes hfam).mpr ⟨key, hmem, rfl⟩)
  refine ⟨row, List.mem_filter.mpr ⟨hrow, ?_⟩, hbs⟩
  rw [hbs, isPrefixOf_iff_prefix]
  exact hbase

end Scans

end WasmAgent.Queue
