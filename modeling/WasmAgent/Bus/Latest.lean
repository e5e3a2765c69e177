import WasmAgent.Bus.Runs
import WasmAgent.Bus.Stored
import WasmAgent.Core.Maps
import WasmAgent.Core.Scans

/-!
# The latest events of a durable topic

The retained log of a topic is in the order of its keys, which is the order of time and id.
That is the order of publication as long as no event is stamped before the one published
before it.  An event that is falls into the middle of the log, and at the bound it is the
one that is trimmed.
-/

namespace WasmAgent.Bus

open List Std.ExtTreeMap Std WasmAgent.Core

section Latest

variable {Item : Type} {retain : ℕ} {items : List Item}

/-- The last `retain` items. -/
def latest (retain : ℕ) (items : List Item) : List Item := items.drop (items.length - retain)

theorem length_latest (retain : ℕ) (items : List Item) :
    (latest retain items).length = min retain items.length := by
  rw [latest, length_drop]
  omega

theorem latest_of_length_le (hshrt : items.length ≤ retain) : latest retain items = items := by
  rw [latest, Nat.sub_eq_zero_of_le hshrt, drop_zero]

theorem latest_subset (retain : ℕ) (items : List Item) : latest retain items ⊆ items :=
  drop_subset _ _

theorem map_latest {Image : Type} (retain : ℕ) (items : List Item) (image : Item → Image) :
    latest retain (items.map image) = (latest retain items).map image := by
  rw [latest, latest, length_map, map_drop]

theorem latest_append (hrtn : 0 < retain) (items : List Item) (item : Item) :
    latest retain (items ++ [item]) = latest (retain - 1) items ++ [item] := by
  rw [latest, latest, length_append, length_singleton, drop_append_of_le_length (by omega)]
  congr 2
  omega

theorem latest_latest {fewer : ℕ} (hfewer : fewer ≤ retain) (items : List Item) :
    latest fewer (latest retain items) = latest fewer items := by
  rw [latest, length_latest, latest, latest, drop_drop]
  congr 1
  omega

theorem latest_latest_append (hrtn : 0 < retain) (items : List Item) (item : Item) :
    latest retain (latest retain items ++ [item]) = latest retain (items ++ [item]) := by
  rw [latest_append hrtn, latest_append hrtn, latest_latest (Nat.sub_le _ _)]

theorem getLast?_latest (hrtn : 0 < retain) (items : List Item) :
    (latest retain items).getLast? = items.getLast? := by
  rcases eq_nil_or_concat items with rfl | ⟨front, last, rfl⟩
  · rw [latest, drop_nil]
  · rw [concat_eq_append, latest_append hrtn, getLast?_append, getLast?_append]
    rfl

end Latest

section Keys

theorem length_decimal (width value : ℕ) : (decimal width value).length = width := by
  induction width generalizing value with
  | zero => rfl
  | succ width ih => rw [decimal, length_append, ih, length_singleton]

theorem compare_digit {left right : ℕ} (hlt : left < 10) (hrt : right < 10) :
    compare [UInt8.ofNat (48 + left)] [UInt8.ofNat (48 + right)] = compare left right := by
  have hall : ∀ left < 10, ∀ right < 10,
      compare [UInt8.ofNat (48 + left)] [UInt8.ofNat (48 + right)] = compare left right := by
    decide
  exact hall left hlt right hrt

theorem compare_decimal {width left right : ℕ} (hlt : left < 10 ^ width)
    (hrt : right < 10 ^ width) :
    compare (decimal width left) (decimal width right) = compare left right := by
  induction width generalizing left right with
  | zero =>
    rw [Nat.lt_one_iff.mp hlt, Nat.lt_one_iff.mp hrt]
    rfl
  | succ width ih =>
    rw [decimal, decimal, compare_append_of_length
      ((length_decimal _ _).trans (length_decimal _ _).symm),
      ih (Nat.div_lt_of_lt_mul (by rwa [pow_succ'] at hlt))
        (Nat.div_lt_of_lt_mul (by rwa [pow_succ'] at hrt)),
      compare_digit (Nat.mod_lt _ (by decide)) (Nat.mod_lt _ (by decide)), compare_div_mod]

theorem stamp_lt (stamp : UInt64) : stamp.toNat < 10 ^ 20 := Nat.lt_trans stamp.toNat_lt (by decide)

variable (topic : Topic)

theorem compare_retentionKey (tsMs id otherTs otherId : UInt64) :
    compare (retentionKey topic tsMs id) (retentionKey topic otherTs otherId) =
      (compare tsMs.toNat otherTs.toNat).then (compare id.toNat otherId.toNat) := by
  rw [retentionKey, retentionKey, compare_append_left, stampKey, stampKey, append_assoc,
    append_assoc, compare_append_of_length
      ((length_decimal _ _).trans (length_decimal _ _).symm), compare_append_left,
    compare_decimal (stamp_lt tsMs) (stamp_lt otherTs),
    compare_decimal (stamp_lt id) (stamp_lt otherId)]

theorem mem_of_mem_intercalate {Item : Type} {item : Item} {between : List Item}
    {pieces : List (List Item)} (hitem : item ∈ between.intercalate pieces) :
    item ∈ between ∨ ∃ piece ∈ pieces, item ∈ piece := by
  induction pieces with
  | nil => cases hitem
  | cons piece pieces ih =>
    by_cases hlast : pieces = []
    · subst hlast
      rw [intercalate_singleton] at hitem
      exact .inr ⟨piece, mem_cons_self, hitem⟩
    rw [intercalate_cons_of_ne_nil hlast, mem_append, mem_append] at hitem
    rcases hitem with (hitem | hitem) | hitem
    · exact .inr ⟨piece, mem_cons_self, hitem⟩
    · exact .inl hitem
    · rcases ih hitem with hbet | ⟨other, hoth, hin⟩
      · exact .inl hbet
      · exact .inr ⟨other, mem_cons_of_mem _ hoth, hin⟩

theorem forM_ok {Item : Type} {checks : Item → Except TopicError Unit} {items : List Item}
    (hok : items.forM checks = .ok ()) : ∀ item ∈ items, checks item = .ok () := by
  induction items with
  | nil => nofun
  | cons item items ih =>
    change (checks item >>= fun _ => items.forM checks) = .ok () at hok
    cases hfst : checks item with
    | error fault =>
      rw [hfst] at hok
      cases hok
    | ok _ =>
      rw [hfst] at hok
      rw [forall_mem_cons]
      exact ⟨hfst, ih hok⟩

theorem Topic.slash_notMem : '/' ∉ topic.text.toList := by
  intro hslash
  have hvld := topic.valid
  rw [check] at hvld
  split at hvld
  · cases hvld
  split at hvld
  · cases hvld
  split at hvld
  · cases hvld
  rw [← @intercalate_splitOn Char topic.text.toList _ _ '.'] at hslash
  rcases mem_of_mem_intercalate hslash with hdot | ⟨piece, hpiece, hin⟩
  · revert hdot
    decide
  have hseg := forM_ok hvld (String.ofList piece) (mem_map_of_mem hpiece)
  rw [checkSegment] at hseg
  split at hseg
  · cases hseg
  split at hseg
  · cases hseg
  split at hseg
  · next hok =>
    rw [segmentOk, Bool.and_eq_true] at hok
    have hall := all_eq_true.mp hok.2 '/' (by rwa [String.toList_ofList])
    revert hall
    decide
  · cases hseg

theorem takeWhile_slash (rest : List Char) :
    (topic.text.toList ++ '/' :: rest).takeWhile (· != '/') = topic.text.toList := by
  rw [takeWhile_append_of_pos]
  · exact append_nil _
  intro char hchar
  rw [bne_iff_ne]
  intro hslash
  exact topic.slash_notMem (hslash ▸ hchar)

theorem topic_of_prefixes {topic other : Topic}
    (hbeg : retentionPrefix topic <+: retentionPrefix other) : other = topic := by
  rw [retentionPrefix, retentionPrefix, ← utf8_append, ← utf8_append, ← utf8_append,
    ← utf8_append] at hbeg
  obtain ⟨rest, hrest⟩ := utf8_begins hbeg
  have hlists := congrArg String.toList hrest
  simp only [String.toList_append, append_assoc] at hlists
  have hnames := congrArg (takeWhile (· != '/')) (append_cancel_left hlists)
  change takeWhile _ (other.text.toList ++ '/' :: _) =
    takeWhile _ (topic.text.toList ++ '/' :: _) at hnames
  rw [takeWhile_slash, takeWhile_slash] at hnames
  obtain ⟨text, _⟩ := other
  obtain ⟨_, _⟩ := topic
  have htexts := String.toList_inj.mp hnames
  cases htexts
  rfl

theorem topic_of_key {topic other : Topic} {key : Bytes} (htopic : retentionPrefix topic <+: key)
    (hoth : retentionPrefix other <+: key) : other = topic := by
  rcases Nat.le_total (retentionPrefix topic).length (retentionPrefix other).length with hle | hle
  · exact topic_of_prefixes (prefix_of_prefix_length_le htopic hoth hle)
  · exact (topic_of_prefixes (prefix_of_prefix_length_le hoth htopic hle)).symm

theorem prefix_retentionKey (tsMs id : UInt64) :
    retentionPrefix topic <+: retentionKey topic tsMs id :=
  prefix_append _ _

end Keys

section Scans

variable {base key value : Bytes} {table : Table} {row : Bytes × Bytes}

theorem mem_scanPrefix :
    row ∈ scanPrefix base table ↔ base <+: row.1 ∧ table[row.1]? = some row.2 := by
  rw [scanPrefix, List.mem_filter, isPrefixOf_iff_prefix, and_comm, mem_toList_iff_getElem?_eq_some]

theorem scanPrefix_sorted (base : Bytes) (table : Table) :
    (scanPrefix base table).Pairwise (fun left right => compare left.1 right.1 = .lt) :=
  table.ordered_keys_toList.filter _

theorem rows_ext {left right : List (Bytes × Bytes)}
    (hleft : left.Pairwise (fun before after => compare before.1 after.1 = .lt))
    (hrt : right.Pairwise (fun before after => compare before.1 after.1 = .lt))
    (hsame : ∀ row, row ∈ left ↔ row ∈ right) : left = right := by
  have hndp : ∀ {rows : List (Bytes × Bytes)},
      rows.Pairwise (fun before after => compare before.1 after.1 = .lt) → rows.Nodup := by
    intro rows hsrt
    apply hsrt.imp
    intro before after hlt heq
    rw [heq, ReflOrd.compare_self] at hlt
    cases hlt
  have hperm : left.Perm right := (perm_ext_iff_of_nodup (hndp hleft) (hndp hrt)).mpr hsame
  apply hperm.eq_of_pairwise _ hleft hrt
  intro before after _ _ hlt hgt
  have hcycle := TransCmp.lt_trans hlt hgt
  rw [ReflOrd.compare_self] at hcycle
  cases hcycle

theorem mem_scanPrefix_insert :
    row ∈ scanPrefix base (table.insert key value) ↔
      (base <+: key ∧ row = (key, value)) ∨ row.1 ≠ key ∧ row ∈ scanPrefix base table := by
  rw [mem_scanPrefix, mem_scanPrefix, ExtTreeMap.getElem?_insert]
  simp only [Std.compare_eq_iff_eq]
  obtain ⟨found, bytes⟩ := row
  by_cases hkey : key = found
  · subst hkey
    simp only [if_true, Option.some.injEq, Prod.mk.injEq, true_and, ne_eq, not_true, false_and,
      or_false]
    exact and_congr_right (fun _ => eq_comm)
  · have hne : found ≠ key := fun hsame => hkey hsame.symm
    simp [if_neg hkey, hne]

theorem scanPrefix_insert_other (hoth : ¬ base <+: key) :
    scanPrefix base (table.insert key value) = scanPrefix base table := by
  apply rows_ext (scanPrefix_sorted _ _) (scanPrefix_sorted _ _)
  intro row
  rw [mem_scanPrefix_insert]
  constructor
  · intro hrow
    exact (hrow.resolve_left (fun hnew => hoth hnew.1)).2
  intro hrow
  refine .inr ⟨?_, hrow⟩
  intro hkey
  exact hoth (hkey ▸ (mem_scanPrefix.mp hrow).1)

def eraseRows (rows : List (Bytes × Bytes)) (table : Table) : Table :=
  rows.foldl (fun current row => current.erase row.1) table

theorem mem_scanPrefix_eraseRows (rows : List (Bytes × Bytes)) :
    row ∈ scanPrefix base (eraseRows rows table) ↔
      row ∈ scanPrefix base table ∧ row.1 ∉ rows.map Prod.fst := by
  induction rows generalizing table with
  | nil => exact ⟨fun hrow => ⟨hrow, not_mem_nil⟩, fun hrow => hrow.1⟩
  | cons first rows ih =>
    change row ∈ scanPrefix base (eraseRows rows (table.erase first.1)) ↔ _
    rw [ih, map_cons, mem_cons, not_or, mem_scanPrefix, mem_scanPrefix, getElem?_erase]
    simp only [Std.compare_eq_iff_eq]
    by_cases hkey : first.1 = row.1
    · rw [if_pos hkey]
      constructor
      · intro hrow
        cases hrow.1.2
      · intro hrow
        exact absurd hkey.symm hrow.2.1
    · rw [if_neg hkey, and_iff_right (fun hsame => hkey hsame.symm)]

theorem scanPrefix_eraseRows_take (count : ℕ) :
    scanPrefix base (eraseRows ((scanPrefix base table).take count) table) =
      (scanPrefix base table).drop count := by
  have hsrt := scanPrefix_sorted base table
  have hspl := hsrt
  rw [← take_append_drop count (scanPrefix base table), pairwise_append] at hspl
  apply rows_ext (scanPrefix_sorted _ _) hspl.2.1
  intro row
  rw [mem_scanPrefix_eraseRows]
  constructor
  · rintro ⟨hin, hkeys⟩
    have hparts := hin
    rw [← take_append_drop count (scanPrefix base table), mem_append] at hparts
    exact hparts.resolve_left (fun htkn => hkeys (mem_map_of_mem htkn))
  intro hrow
  refine ⟨drop_subset _ _ hrow, ?_⟩
  intro hkey
  obtain ⟨taken, htkn, hsame⟩ := List.mem_map.mp hkey
  have hlt := hspl.2.2 taken htkn row hrow
  rw [hsame, ReflOrd.compare_self] at hlt
  cases hlt

/-- A store that refuses nothing. -/
def quiet : Faults := fun _ => none

end Scans

section Appends

variable {topic : Topic} {table : Table} {event : Event} {retain : ℕ}

def logOf (topic : Topic) (table : Table) : List (Bytes × Bytes) :=
  scanPrefix (retentionPrefix topic) table

def Event.row (event : Event) : Bytes × Bytes :=
  (retentionKey event.topic event.tsMs event.id, event.encode)

def gone (retain : ℕ) (event : Event) (faults : Faults) (table : Table) : List (Bytes × Bytes) :=
  let rows := logOf event.topic (table.insert event.row.1 event.row.2)
  if (faults (.scan (retentionPrefix event.topic))).isSome then []
  else (rows.take (rows.length - retain)).takeWhile fun row => (faults (.del row.1)).isNone

variable {faults : Faults}

theorem deleteRows_table (rows : List (Bytes × Bytes)) :
    (deleteRows faults rows table).2 =
      eraseRows (rows.takeWhile fun row => (faults (.del row.1)).isNone) table := by
  induction rows generalizing table with
  | nil => rfl
  | cons row rows ih =>
    rw [deleteRows, takeWhile_cons]
    cases faults (.del row.1) with
    | none => exact ih
    | some why => rfl

theorem append_table (hput : faults (.put event.row.1) = none) :
    (append retain event faults table).2 =
      eraseRows (gone retain event faults table) (table.insert event.row.1 event.row.2) := by
  rw [Event.row] at hput
  rw [append, hput, gone]
  change (trim retain _ faults _).2 = _
  rw [trim]
  cases faults (.scan (retentionPrefix event.topic)) with
  | none => exact deleteRows_table _
  | some why => rfl

theorem logOf_append_on (htopic : event.topic = topic) (retain : ℕ) (table : Table) :
    logOf topic (append retain event quiet table).2 =
      latest retain (logOf topic (table.insert event.row.1 event.row.2)) := by
  subst htopic
  have hall (rows : List (Bytes × Bytes)) :
      rows.takeWhile (fun row => (quiet (.del row.1)).isNone) = rows := by
    induction rows with
    | nil => rfl
    | cons row rows ih => exact congrArg (cons row) ih
  rw [append_table rfl, gone, if_neg (by nofun), hall]
  exact scanPrefix_eraseRows_take _

theorem logOf_erase_other {key : Bytes} (hoth : ¬ retentionPrefix topic <+: key) :
    logOf topic (table.erase key) = logOf topic table := by
  apply rows_ext (scanPrefix_sorted _ _) (scanPrefix_sorted _ _)
  intro row
  rw [mem_scanPrefix, mem_scanPrefix]
  apply and_congr_right
  intro hbeg
  rw [getElem?_erase_of_ne]
  rintro rfl
  exact hoth hbeg

theorem logOf_deleteRows_other {rows : List (Bytes × Bytes)}
    (hoth : ∀ row ∈ rows, ¬ retentionPrefix topic <+: row.1) :
    logOf topic (deleteRows faults rows table).2 = logOf topic table := by
  induction rows generalizing table with
  | nil => rfl
  | cons row rows ih =>
    rw [forall_mem_cons] at hoth
    rw [deleteRows]
    split
    · rfl
    · rw [ih hoth.2, logOf_erase_other hoth.1]

theorem logOf_append_other (hoth : event.topic ≠ topic) (retain : ℕ) (faults : Faults)
    (table : Table) : logOf topic (append retain event faults table).2 = logOf topic table := by
  have hins : logOf topic (table.insert event.row.1 event.row.2) = logOf topic table := by
    apply scanPrefix_insert_other
    intro hbeg
    exact hoth (topic_of_key hbeg (prefix_retentionKey _ _ _))
  rw [append]
  split
  · rfl
  rw [trim]
  split
  · exact hins
  rw [← hins]
  apply logOf_deleteRows_other
  intro row hrow hbeg
  exact hoth (topic_of_key hbeg (mem_scanPrefix.mp (take_subset _ _ hrow)).1)

end Appends

end WasmAgent.Bus
