import WasmAgent.Core.Maps
import WasmAgent.State.Loading

/-!
# A component's view of its kv

The guard in front of a component's own store.  Keys under `__wa/` are not found, not
written, and left out of pages that are filled up again; whatever the component asks,
it sees the ordered map of the other keys.
-/

namespace WasmAgent.Host

open List Option Std.ExtTreeMap Std WasmAgent.Core WasmAgent.State

abbrev Entry := Bytes × Bytes

def under (base key : Bytes) : Bool := base.isPrefixOf key

def entriesUnder (base : Bytes) (cursor : Option Bytes) (table : Table) : List Entry :=
  beyond cursor (table.toList.filter (fun entry => under base entry.1))

/-- `Kv::scan`: a page of a store, asked for by prefix, cursor and limit. -/
abbrev Scan := Namespace → Bytes → Option Bytes → ℕ → List Entry

def maxPage : ℕ := 10000

namespace KvStore

def set (key value : Bytes) (store : Namespace) : Namespace := store.insert key value

def delete (key : Bytes) (store : Namespace) : Namespace := store.erase key

/-- `delete_prefix`: how many there were, and what is left. -/
def deletePrefix (base : Bytes) (store : Namespace) : UInt32 × Namespace :=
  (UInt32.ofNat (entriesUnder base none store).length, store.filter (fun key _ => !under base key))

/-- `scan`, as its SQL has it: an empty cursor is none, and the limit is clamped. -/
def scan : Scan := fun store base cursor limit =>
  (entriesUnder base (cursor.filter (fun key => !key.isEmpty)) store).take (max 1 (min limit maxPage))

end KvStore

def PagesFrom (page : Scan) (store : Namespace) (base : Bytes) (cursor start : Option Bytes) :
    Prop :=
  ∀ limit, 0 < limit → limit ≤ maxPage →
    page store base cursor limit = (entriesUnder base start store).take limit

def PagesAt (page : Scan) (store : Namespace) (base : Bytes) (cursor : Option Bytes) : Prop :=
  ∀ limit, 0 < limit → limit ≤ maxPage →
    page store base cursor limit = (entriesUnder base cursor store).take limit

def PagesAfter (page : Scan) : Prop := ∀ store base cursor, PagesAt page store base cursor

/-- The refusal word a guest sees. -/
def reservedWord : String := "reserved_prefix"

/-- `limit.clamp(1, MAX_PAGE)`. -/
def clampLimit (limit : UInt32) : ℕ := max 1 (min limit.toNat maxPage)

def coversReserved (base : Bytes) : Bool :=
  base.isPrefixOf reservedPrefix || reservedPrefix.isPrefixOf base

/-- The key is the guest's to see. -/
def visible (entry : Entry) : Bool := !isReserved entry.1

namespace GuestKv

def get (key : Bytes) (store : Namespace) : Except String (Option Bytes) :=
  if isReserved key then .ok none
  else .ok (store.get key)

def set (key value : Bytes) (store : Namespace) : Except String Unit × Namespace :=
  if isReserved key then (.error reservedWord, store)
  else (.ok (), KvStore.set key value store)

def delete (key : Bytes) (store : Namespace) : Except String Unit × Namespace :=
  if isReserved key then (.error reservedWord, store)
  else (.ok (), KvStore.delete key store)

variable (page : Scan)

/-- The loop that fills a page up, `none` where it takes more than `steps` turns. -/
def fill (base : Bytes) (limit : ℕ) (store : Namespace) :
    ℕ → Option Bytes → List Entry → Option (List Entry)
  | 0, _, _ => none
  | steps + 1, cursor, out =>
      let want := limit - out.length
      let found := page store base cursor want
      match found.getLast? with
      | none => some out
      | some last =>
          let filled := out ++ found.filter visible
          if found.length < want ∨ limit ≤ filled.length then some filled
          else fill base limit store steps (some last.1) filled

/-- One page of the guest's own entries; every turn of the loop passes an entry. -/
def scan (base : Bytes) (cursor : Option Bytes) (limit : UInt32) (store : Namespace) :
    Option (List Entry) :=
  fill page base (clampLimit limit) store ((entriesUnder base none store).length + 1) cursor []

/-- The loop of `delete_prefix` over the visible pages. -/
def removePages (base : Bytes) : ℕ → Option Bytes → UInt32 → Namespace →
    Option (UInt32 × Namespace)
  | 0, _, _, _ => none
  | steps + 1, cursor, removed, store => do
      let found ← scan page base cursor 512 store
      match found.getLast? with
      | none => some (removed, store)
      | some last =>
          removePages base steps (some last.1)
            (UInt32.ofNat (min (removed.toNat + found.length) 0xFFFFFFFF))
            (found.foldl (fun left entry => KvStore.delete entry.1 left) store)

def deletePrefix (base : Bytes) (store : Namespace) : Option (Except String UInt32 × Namespace) :=
  if isReserved base then some (.error reservedWord, store)
  else if !coversReserved base then
    some (.ok (KvStore.deletePrefix base store).1, (KvStore.deletePrefix base store).2)
  else
    (removePages page base ((entriesUnder base none store).length + 1) none 0 store).map
      (fun ended => (.ok ended.1, ended.2))

end GuestKv

variable {last : Entry}

section Pages

variable {page : Scan} {base : Bytes} {cursor start : Option Bytes} {store : Namespace}

theorem ascending (base : Bytes) (cursor : Option Bytes) (table : Table) :
    (entriesUnder base cursor table).Pairwise
      (fun first second => compare first.1 second.1 = .lt) :=
  (ordered_keys_toList.filter _).filter _

theorem entriesUnder_after (hlast : last ∈ entriesUnder base cursor store) :
    entriesUnder base (some last.1) store = beyond (some last.1) (entriesUnder base cursor store) := by
  rw [entriesUnder, entriesUnder]
  generalize store.toList.filter (fun entry => under base entry.1) = within
  rw [beyond, beyond, beyond, List.filter_filter]
  apply List.filter_congr
  intro entry _
  cases cursor with
  | none => exact (Bool.and_true _).symm
  | some key =>
    have haft := (List.mem_filter.mp hlast).2
    change (compare last.1 entry.1).isLT =
      ((compare last.1 entry.1).isLT && (compare key entry.1).isLT)
    cases hless : (compare last.1 entry.1).isLT with
    | false => rfl
    | true =>
      rw [Ordering.isLT_iff_eq_lt] at hless
      change (compare key last.1).isLT = true at haft
      rw [Ordering.isLT_iff_eq_lt] at haft
      rw [TransCmp.lt_trans haft hless]
      rfl

theorem entriesUnder_page {want : ℕ}
    (hlast : ((entriesUnder base cursor store).take want).getLast? = some last) :
    entriesUnder base (some last.1) store = (entriesUnder base cursor store).drop want := by
  have hmem : last ∈ entriesUnder base cursor store := mem_of_mem_take (mem_of_getLast? hlast)
  have hspl := take_append_drop want (entriesUnder base cursor store)
  rw [entriesUnder_after hmem, ← hspl]
  have hsrt := ascending base cursor store
  rw [← hspl] at hsrt
  rw [beyond_getLast? hsrt hlast, hspl]

/-- The empty key comes before every other. -/
theorem eq_singleton_of_last {entries : List Entry}
    (hsrt : entries.Pairwise (fun first second => compare first.1 second.1 = .lt))
    (hlast : entries.getLast? = some last) (hemp : last.1 = []) : entries = [last] := by
  obtain ⟨front, rfl⟩ := getLast?_eq_some_iff.mp hlast
  cases front with
  | nil => rfl
  | cons entry front =>
    have hless := (pairwise_cons.mp hsrt).1 last (mem_append_right _ mem_cons_self)
    rw [hemp] at hless
    cases hkey : entry.1 with
    | nil =>
      rw [hkey] at hless
      cases hless
    | cons byte rest =>
      rw [hkey] at hless
      cases hless

theorem fill_eq (hfst : PagesFrom page store base cursor start)
    (hltr : ∀ key, key ≠ [] → PagesAt page store base (some key)) {limit steps : ℕ}
    {out : List Entry} (hlim : limit ≤ maxPage) (hroom : out.length < limit)
    (hstps : (entriesUnder base start store).length < steps) :
    GuestKv.fill page base limit store steps cursor out =
      some (out ++ ((entriesUnder base start store).filter visible).take (limit - out.length)) := by
  induction steps generalizing cursor start out with
  | zero => exact absurd hstps (Nat.not_lt_zero _)
  | succ steps ih =>
    have hwant : 0 < limit - out.length := Nat.sub_pos_of_lt hroom
    have hfnd := hfst (limit - out.length) hwant (by omega)
    rw [GuestKv.fill, hfnd]
    generalize hlt : entriesUnder base start store = left at hstps ⊢
    have hspl : left.filter visible =
        (left.take (limit - out.length)).filter visible ++
          (left.drop (limit - out.length)).filter visible := by
      rw [← filter_append, take_append_drop]
    have hshrt := length_filter_le visible (left.take (limit - out.length))
    have htkn : (left.take (limit - out.length)).length ≤ limit - out.length := length_take_le _ _
    cases hlast : (left.take (limit - out.length)).getLast? with
    | none =>
      have hnone := getLast?_eq_none_iff.mp hlast
      have hemp : left = [] := by
        rcases take_eq_nil_iff.mp hnone with hzero | hemp
        · omega
        · exact hemp
      rw [hemp, filter_nil, take_nil, append_nil]
    | some last =>
      have hwhole : ((left.take (limit - out.length)).filter visible).take (limit - out.length) =
          (left.take (limit - out.length)).filter visible :=
        take_of_length_le (Nat.le_trans hshrt htkn)
      dsimp only
      rw [hspl, take_append, hwhole, ← append_assoc]
      split
      · next hdone =>
        rcases hdone with hexh | hfull
        · have hnone : left.drop (limit - out.length) = [] := by
            rw [length_take] at hexh
            exact drop_of_length_le (by omega)
          rw [hnone, filter_nil, take_nil, append_nil]
        rw [length_append] at hfull
        have hover : limit - out.length -
            ((left.take (limit - out.length)).filter visible).length = 0 := by
          omega
        rw [hover, take_zero, append_nil]
      rename_i hmore
      rw [not_or, Nat.not_lt, Nat.not_le] at hmore
      have hpas : (left.take (limit - out.length)).length = limit - out.length :=
        Nat.le_antisymm htkn hmore.1
      rw [← hlt] at hlast
      have hrest := entriesUnder_page hlast
      rw [hlt] at hrest hlast
      -- a page that ends with the empty key is full
      have hkey : last.1 ≠ [] := by
        intro hemp
        have hsrt := (ascending base start store).sublist (take_sublist (limit - out.length) _)
        rw [hlt] at hsrt
        have hsin := eq_singleton_of_last hsrt hlast hemp
        have hshown : visible last = true := by
          rw [visible, hemp]
          rfl
        have hfull := hmore.2
        rw [hsin] at hpas hfull
        rw [length_append, filter_cons_of_pos hshown] at hfull
        have hone : 1 = limit - out.length := hpas
        change out.length + 1 < limit at hfull
        omega
      rw [ih (hltr last.1 hkey) hmore.2, hrest, length_append, Nat.sub_sub]
      rw [hrest, length_drop]
      rw [length_take] at hpas
      omega

theorem beyond_filter (hides : Entry → Bool) (entries : List Entry) :
    beyond cursor (entries.filter hides) = (beyond cursor entries).filter hides := by
  rw [beyond, beyond, List.filter_filter, List.filter_filter]
  apply List.filter_congr
  intro entry _
  exact Bool.and_comm _ _

theorem visible_entriesUnder (base : Bytes) (cursor : Option Bytes) (store : Namespace) :
    (entriesUnder base cursor store).filter visible = entriesUnder base cursor store.user := by
  have hown : store.user.toList = store.toList.filter visible := ExtTreeMap.toList_filter
  rw [entriesUnder, entriesUnder, hown, ← beyond_filter, List.filter_filter, List.filter_filter]
  apply congrArg
  apply List.filter_congr
  intro entry _
  exact Bool.and_comm _ _

theorem length_entriesUnder (base : Bytes) (cursor : Option Bytes) (table : Table) :
    (entriesUnder base cursor table).length ≤ (entriesUnder base none table).length := by
  rw [entriesUnder, entriesUnder, beyond, beyond]
  refine Nat.le_trans (length_filter_le _ _) (Nat.le_of_eq ?_)
  exact congrArg length (filter_eq_self.mpr (fun _ _ => rfl)).symm

theorem scan_eq (hfst : PagesFrom page store base cursor start)
    (hltr : ∀ key, key ≠ [] → PagesAt page store base (some key)) (limit : UInt32) :
    GuestKv.scan page base cursor limit store =
      some ((entriesUnder base start store.user).take (clampLimit limit)) := by
  have hpos : ([] : List Entry).length < clampLimit limit :=
    Nat.lt_of_lt_of_le Nat.zero_lt_one (Nat.le_max_left _ _)
  have hlim : clampLimit limit ≤ maxPage := Nat.max_le.mpr ⟨by decide, Nat.min_le_right _ _⟩
  have hstps := Nat.lt_succ_of_le (length_entriesUnder base start store)
  rw [GuestKv.scan, fill_eq hfst hltr hlim hpos hstps, nil_append, length_nil,
    Nat.sub_zero, visible_entriesUnder]

def walk (page : Scan) (base : Bytes) (limits : ℕ → UInt32) (store : Namespace) :
    ℕ → ℕ → Option Bytes → Option (List (List Entry))
  | 0, _, _ => none
  | steps + 1, turn, cursor => do
      let found ← GuestKv.scan page base cursor (limits turn) store
      match found.getLast? with
      | none => some []
      | some last => (walk page base limits store steps (turn + 1) (some last.1)).map (found :: ·)

structure Enumerates (base : Bytes) (cursor : Option Bytes) (table : Table)
    (pages : List (List Entry)) : Prop where
  filled : ∀ found ∈ pages, found ≠ []
  entries : ∀ entry, entry ∈ pages.flatten ↔ table[entry.1]? = some entry.2 ∧
    under base entry.1 = true ∧ ∀ key, cursor = some key → compare key entry.1 = .lt
  ordered : pages.flatten.Pairwise (fun first second => compare first.1 second.1 = .lt)

theorem mem_entriesUnder {table : Table} {entry : Entry} :
    entry ∈ entriesUnder base cursor table ↔ table[entry.1]? = some entry.2 ∧
      under base entry.1 = true ∧ ∀ key, cursor = some key → compare key entry.1 = .lt := by
  rw [entriesUnder, beyond, List.mem_filter, List.mem_filter, and_assoc,
    ExtTreeMap.mem_toList_iff_getElem?_eq_some]
  apply and_congr_right
  intro _
  apply and_congr_right
  intro _
  rw [Option.all_eq_true]
  apply forall_congr'
  intro key
  rw [Ordering.isLT_iff_eq_lt]

theorem walk_eq (hpage : PagesAfter page) (limits : ℕ → UInt32) {steps turn : ℕ}
    (hstps : (entriesUnder base cursor store.user).length < steps) :
    ∃ pages, walk page base limits store steps turn cursor = some pages ∧
      pages.flatten = entriesUnder base cursor store.user ∧ ∀ found ∈ pages, found ≠ [] := by
  induction steps generalizing cursor turn with
  | zero => exact absurd hstps (Nat.not_lt_zero _)
  | succ steps ih =>
    have hpos : 0 < clampLimit (limits turn) :=
      Nat.lt_of_lt_of_le Nat.zero_lt_one (Nat.le_max_left _ _)
    rw [walk, scan_eq (hpage _ _ _) (fun _ _ => hpage _ _ _), Option.bind_eq_bind, Option.bind_some]
    cases hlast : ((entriesUnder base cursor store.user).take
        (clampLimit (limits turn))).getLast? with
    | none =>
      have hnone : entriesUnder base cursor store.user = [] := by
        rcases List.take_eq_nil_iff.mp (List.getLast?_eq_none_iff.mp hlast) with hzero | hemp
        · omega
        · exact hemp
      refine ⟨[], rfl, hnone.symm, ?_⟩
      intro found hfnd
      cases hfnd
    | some last =>
      have hrest := entriesUnder_page hlast
      have hsome : (entriesUnder base cursor store.user).take (clampLimit (limits turn)) ≠ [] := by
        intro hnone
        rw [hnone] at hlast
        cases hlast
      have hlt : 0 < (entriesUnder base cursor store.user).length := by
        apply List.length_pos_iff.mpr
        intro hnone
        rw [hnone, List.take_nil] at hsome
        exact hsome rfl
      obtain ⟨pages, hpages, hflat, hfil⟩ := @ih (some last.1) (turn + 1) (by
        rw [hrest, List.length_drop]
        omega)
      refine ⟨_ :: pages, congrArg (Option.map _) hpages, ?_, ?_⟩
      · rw [List.flatten_cons, hflat, hrest, List.take_append_drop]
      · exact List.forall_mem_cons.mpr ⟨hsome, hfil⟩

end Pages

section Deleting

variable {page : Scan} {base : Bytes} {cursor : Option Bytes} {store : Namespace}
variable {settle : Option Bytes → Option Bytes}

structure PagesBy (page : Scan) (settle : Option Bytes → Option Bytes) : Prop where
  pages : ∀ store base cursor, PagesFrom page store base cursor (settle cursor)
  opening : settle none = none
  kept : ∀ key, settle (some key) = some key ∨ (key = [] ∧ settle (some key) = none)

theorem PagesAfter.by_id (hpage : PagesAfter page) : PagesBy page id where
  pages := hpage
  opening := rfl
  kept _ := .inl rfl

theorem PagesBy.scan (hpage : PagesBy page settle) (base : Bytes) (cursor : Option Bytes)
    (limit : UInt32) (store : Namespace) :
    GuestKv.scan page base cursor limit store =
      some ((entriesUnder base (settle cursor) store.user).take (clampLimit limit)) := by
  apply scan_eq (hpage.pages _ _ _)
  intro key hkey
  have hpages := hpage.pages store base (some key)
  rw [(hpage.kept key).resolve_right (fun hemp => hkey hemp.1)] at hpages
  exact hpages

theorem getElem?_deleted (found : List Entry) (table : Table) (key : Bytes) :
    (found.foldl (fun left entry => KvStore.delete entry.1 left) table)[key]? =
      if key ∈ found.map Prod.fst then none else table[key]? := by
  rw [← getElem?_foldl_erase, foldl_map]
  rfl

theorem entriesUnder_congr {table other : Table}
    (hsame : ∀ key, under base key = true → cursor.all (fun last => (compare last key).isLT) = true →
      table[key]? = other[key]?) :
    entriesUnder base cursor table = entriesUnder base cursor other := by
  have hfil : ∀ all : Table, entriesUnder base cursor all =
      (all.filter (fun key _ => cursor.all (fun last => (compare last key).isLT) &&
        under base key)).toList := by
    intro all
    rw [ExtTreeMap.toList_filter, entriesUnder, beyond, List.filter_filter]
  rw [hfil, hfil]
  apply congrArg
  apply ExtTreeMap.ext_getElem?
  intro key
  rw [ExtTreeMap.getElem?_filter', ExtTreeMap.getElem?_filter']
  cases hask : cursor.all (fun last => (compare last key).isLT) && under base key with
  | false => cases table[key]? <;> cases other[key]? <;> rfl
  | true =>
    rw [Bool.and_eq_true] at hask
    rw [hsame key hask.2 hask.1]

theorem entriesUnder_deleted {want : ℕ}
    (hlast : ((entriesUnder base cursor store.user).take want).getLast? = some last) :
    entriesUnder base (some last.1) (Namespace.user
        (((entriesUnder base cursor store.user).take want).foldl
          (fun left entry => KvStore.delete entry.1 left) store)) =
      (entriesUnder base cursor store.user).drop want := by
  rw [← entriesUnder_page hlast]
  apply entriesUnder_congr
  intro key hunder haft
  have hless : (compare last.1 key).isLT = true := haft
  rw [Ordering.isLT_iff_eq_lt] at hless
  -- every key that is deleted comes before the cursor
  have hkept : key ∉ ((entriesUnder base cursor store.user).take want).map Prod.fst := by
    intro hdel
    obtain ⟨entry, hent, rfl⟩ := List.mem_map.mp hdel
    obtain ⟨front, hfrt⟩ := getLast?_eq_some_iff.mp hlast
    have hsrt := (ascending base cursor store.user).sublist
      (take_sublist want (entriesUnder base cursor store.user))
    rw [hfrt, pairwise_append] at hsrt
    rw [hfrt] at hent
    rcases mem_append.mp hent with hbef | hsame
    · exact OrientedCmp.not_lt_of_lt (hsrt.2.2 entry hbef last mem_cons_self) hless
    · rw [mem_singleton.mp hsame] at hless
      exact OrientedCmp.not_lt_of_lt hless hless
  rw [Namespace.getElem?_user, Namespace.getElem?_user, Namespace.get, Namespace.get,
    getElem?_deleted, if_neg hkept]

theorem entriesUnder_empty {table : Table} (hemp : table[([] : Bytes)]? = none) :
    entriesUnder base none table = entriesUnder base (some []) table := by
  apply filter_congr
  intro entry hent
  have hthere := mem_toList_iff_getElem?_eq_some.mp (List.mem_of_mem_filter hent)
  cases hkey : entry.1 with
  | nil =>
    rw [hkey, hemp] at hthere
    cases hthere
  | cons byte rest => rfl

theorem PagesBy.deleted (hpage : PagesBy page settle) {last : Entry} {want : ℕ}
    (hlast : ((entriesUnder base cursor store.user).take want).getLast? = some last) :
    entriesUnder base (settle (some last.1)) (Namespace.user
        (((entriesUnder base cursor store.user).take want).foldl
          (fun left entry => KvStore.delete entry.1 left) store)) =
      (entriesUnder base cursor store.user).drop want := by
  rw [← entriesUnder_deleted hlast]
  rcases hpage.kept last.1 with hkept | ⟨hemp, hnone⟩
  · rw [hkept]
  rw [hnone, hemp]
  apply entriesUnder_empty
  have hlst : [] ∈ ((entriesUnder base cursor store.user).take want).map Prod.fst :=
    List.mem_map.mpr ⟨last, mem_of_getLast? hlast, hemp⟩
  rw [Namespace.getElem?_user, Namespace.get, getElem?_deleted, if_pos hlst, ite_self]

/-- `removed.saturating_add(count)`. -/
def addRemoved (removed : UInt32) (count : ℕ) : UInt32 :=
  UInt32.ofNat (min (removed.toNat + count) 0xFFFFFFFF)

theorem addRemoved_zero (removed : UInt32) : addRemoved removed 0 = removed := by
  have hbound := removed.toNat_lt
  rw [addRemoved, Nat.add_zero, Nat.min_eq_left (by omega), UInt32.ofNat_toNat]

theorem addRemoved_add (removed : UInt32) (first second : ℕ) :
    addRemoved (addRemoved removed first) second = addRemoved removed (first + second) := by
  have hbound := removed.toNat_lt
  rw [addRemoved, addRemoved, addRemoved, UInt32.toNat_ofNat_of_lt' (by
    change _ < 0x100000000
    omega)]
  apply congrArg
  omega

theorem removePages_eq (hpage : PagesBy page settle) {steps : ℕ} {removed : UInt32}
    (hstps : (entriesUnder base (settle cursor) store.user).length < steps) :
    ∃ after, GuestKv.removePages page base steps cursor removed store =
        some (addRemoved removed (entriesUnder base (settle cursor) store.user).length, after) ∧
      ∀ key, Namespace.get after key =
        if key ∈ (entriesUnder base (settle cursor) store.user).map Prod.fst then none
        else store.get key := by
  induction steps generalizing cursor removed store with
  | zero => exact absurd hstps (Nat.not_lt_zero _)
  | succ steps ih =>
    have hclam : clampLimit 512 = 512 := by
      decide
    rw [GuestKv.removePages, hpage.scan, hclam, bind_eq_bind, bind_some]
    cases hlast : ((entriesUnder base (settle cursor) store.user).take 512).getLast? with
    | none =>
      have hnone : entriesUnder base (settle cursor) store.user = [] := by
        rcases take_eq_nil_iff.mp (getLast?_eq_none_iff.mp hlast) with hzero | hemp
        · cases hzero
        · exact hemp
      refine ⟨store, ?_, fun key => ?_⟩
      · rw [hnone, length_nil, addRemoved_zero]
      · rw [hnone, map_nil, if_neg not_mem_nil]
    | some last =>
      have hrest := hpage.deleted hlast
      have hsome : entriesUnder base (settle cursor) store.user ≠ [] := by
        intro hnone
        rw [hnone, take_nil] at hlast
        cases hlast
      have hlt := length_pos_iff.mpr hsome
      obtain ⟨after, haft, hget⟩ := @ih (some last.1) _
        (addRemoved removed ((entriesUnder base (settle cursor) store.user).take 512).length) (by
          rw [hrest, length_drop]
          omega)
      refine ⟨after, ?_, fun key => ?_⟩
      · rw [addRemoved_add, hrest, ← length_append, take_append_drop] at haft
        exact haft
      rw [hget key, hrest, Namespace.get, getElem?_deleted]
      have hmem : key ∈ (entriesUnder base (settle cursor) store.user).map Prod.fst ↔
          key ∈ ((entriesUnder base (settle cursor) store.user).take 512).map Prod.fst ∨
            key ∈ ((entriesUnder base (settle cursor) store.user).drop 512).map Prod.fst := by
        rw [← mem_append, ← map_append, take_append_drop]
      by_cases hltr : key ∈ ((entriesUnder base (settle cursor) store.user).drop 512).map Prod.fst
      · rw [if_pos hltr, if_pos (hmem.mpr (.inr hltr))]
      rw [if_neg hltr]
      apply ite_congr
      · rw [hmem, or_iff_left hltr]
      · intro _
        rfl
      · intro _
        rfl

theorem under_iff {base key : Bytes} : under base key = true ↔ base <+: key := isPrefixOf_iff_prefix

/-- What `delete_prefix` answers. -/
def removal (base : Bytes) (store : Namespace) : Except String UInt32 :=
  if isReserved base then .error reservedWord
  else if !coversReserved base then .ok (KvStore.deletePrefix base store).1
  else .ok (addRemoved 0 (entriesUnder base none store.user).length)

theorem deletePrefix_eq (hpage : PagesBy page settle) (base : Bytes) (store : Namespace) :
    ∃ after, GuestKv.deletePrefix page base store = some (removal base store, after) ∧
      ∀ key, Namespace.get after key =
        if under base key = true ∧ isReserved key = false then none else store.get key := by
  rw [GuestKv.deletePrefix, removal]
  split
  · next hrsv =>
    refine ⟨_, rfl, fun key => ?_⟩
    rw [if_neg]
    rintro ⟨hunder, hpln⟩
    have hkey : isReserved key = true := isPrefixOf_iff_prefix.mpr
      (( isPrefixOf_iff_prefix.mp hrsv).trans (under_iff.mp hunder))
    rw [hkey] at hpln
    cases hpln
  split
  · next hrsv hcov =>
    refine ⟨_, rfl, fun key => ?_⟩
    rw [Bool.not_eq_true', coversReserved, Bool.or_eq_false_iff] at hcov
    have hpln : under base key = true → isReserved key = false := by
      intro hunder
      by_contra hkey
      rw [Bool.not_eq_false] at hkey
      rcases prefix_or_prefix_of_prefix (under_iff.mp hunder)
        ( isPrefixOf_iff_prefix.mp hkey) with hbase | hoth
      · rw [ isPrefixOf_iff_prefix.mpr hbase] at hcov
        cases hcov.1
      · rw [ isPrefixOf_iff_prefix.mpr hoth] at hcov
        cases hcov.2
    rw [KvStore.deletePrefix, Namespace.get, getElem?_filter']
    by_cases hunder : under base key = true
    · rw [if_pos ⟨hunder, hpln hunder⟩, hunder]
      cases store[key]? <;> rfl
    · rw [if_neg (fun hboth => hunder hboth.1), Bool.eq_false_iff.mpr hunder, Namespace.get]
      cases store[key]? <;> rfl
  have hvis : (entriesUnder base (settle none) store.user).length ≤
      (entriesUnder base none store).length := by
    rw [hpage.opening, ← visible_entriesUnder]
    exact length_filter_le _ _
  obtain ⟨after, haft, hget⟩ := @removePages_eq page base none store settle hpage
    ((entriesUnder base none store).length + 1) 0 (Nat.lt_succ_of_le hvis)
  rw [hpage.opening] at haft hget
  refine ⟨after, by rw [haft]; rfl, fun key => ?_⟩
  rw [hget key]
  by_cases hkey : under base key = true ∧ isReserved key = false
  · rw [if_pos hkey]
    split
    · rfl
    rename_i hlt
    -- a key that is not listed was not there
    by_contra hthere
    obtain ⟨value, hval⟩ := ne_none_iff_exists'.mp hthere
    apply hlt
    refine List.mem_map.mpr ⟨(key, value), mem_entriesUnder.mpr ⟨?_, hkey.1, ?_⟩, rfl⟩
    · rw [Namespace.getElem?_user, hkey.2]
      exact hval
    · intro last hnone
      cases hnone
  rw [if_neg hkey, if_neg]
  intro hlst
  obtain ⟨entry, hent, rfl⟩ := List.mem_map.mp hlst
  obtain ⟨hfnd, hunder, -⟩ := mem_entriesUnder.mp hent
  exact hkey ⟨hunder, store.plain_user entry.1 entry.2 hfnd⟩

end Deleting

def SameReserved (store after : Namespace) : Prop :=
  ∀ key, isReserved key = true → after.get key = store.get key

/-- What a component sees and does is what it would see and do on the ordered map of its
own keys; the host's are neither seen nor changed. -/
structure GuestView (page : Scan) (store : Namespace) : Prop where
  get : ∀ key, GuestKv.get key store = .ok store.user[key]?
  set : ∀ key value, isReserved key = false → ∃ after,
    GuestKv.set key value store = (.ok (), after) ∧
      after.user = store.user.insert key value ∧ SameReserved store after
  delete : ∀ key, isReserved key = false → ∃ after,
    GuestKv.delete key store = (.ok (), after) ∧
      after.user = store.user.erase key ∧ SameReserved store after
  refused : ∀ key, isReserved key = true →
    (∀ value, GuestKv.set key value store = (.error reservedWord, store)) ∧
      GuestKv.delete key store = (.error reservedWord, store)
  scan : ∀ base cursor limit, GuestKv.scan page base cursor limit store =
    some ((entriesUnder base cursor store.user).take (clampLimit limit))
  walk : ∀ base cursor limits, ∃ pages,
    walk page base limits store ((entriesUnder base none store.user).length + 1) 0 cursor =
        some pages ∧
      Enumerates base cursor store.user pages
  deletePrefix : ∀ base, ∃ outcome after,
    GuestKv.deletePrefix page base store = some (outcome, after) ∧
      after.user = store.user.filter (fun key _ => !under base key) ∧ SameReserved store after

section View

variable {store : Namespace}

theorem view_of_apply (change : State.Change) (hpln : isReserved change.key = false) :
    Namespace.user (change.apply store) = change.apply store.user ∧
      SameReserved store (change.apply store) := by
  refine ⟨Namespace.user_apply store hpln, fun other hrsv => ?_⟩
  rw [Namespace.get_apply, if_neg]
  intro hsame
  rw [hsame, hrsv] at hpln
  cases hpln

/-- Over a store that pages as it should, a component's view is that of its own map. -/
theorem guest_view (page : Scan) (hpage : PagesAfter page) (store : Namespace) :
    GuestView page store where
  get key := by
    rw [GuestKv.get, Namespace.getElem?_user]
    split
    · rfl
    · rfl
  set key value hplain := by
    refine ⟨_, if_neg (by rw [hplain]; exact Bool.false_ne_true), ?_⟩
    exact view_of_apply (.put key value) hplain
  delete key hplain := by
    refine ⟨_, if_neg (by rw [hplain]; exact Bool.false_ne_true), ?_⟩
    exact view_of_apply (.del key) hplain
  refused key hreserved := ⟨fun _ => if_pos hreserved, if_pos hreserved⟩
  scan base cursor limit := scan_eq (hpage _ _ _) (fun _ _ => hpage _ _ _) limit
  walk base cursor limits := by
    obtain ⟨pages, hpages, hflatten, hfilled⟩ := @walk_eq page base cursor store hpage limits
      ((entriesUnder base none store.user).length + 1) 0
      (Nat.lt_succ_of_le (length_entriesUnder base cursor store.user))
    refine ⟨pages, hpages, hfilled, ?_, ?_⟩
    · intro entry
      rw [hflatten]
      exact mem_entriesUnder
    · rw [hflatten]
      exact ascending base cursor store.user
  deletePrefix base := by
    obtain ⟨after, hafter, hget⟩ := deletePrefix_eq hpage.by_id base store
    refine ⟨_, after, hafter, ?_, ?_⟩
    · apply ExtTreeMap.ext_getElem?
      intro key
      rw [ExtTreeMap.getElem?_filter', Namespace.getElem?_user, Namespace.getElem?_user, hget key]
      cases isReserved key with
      | true => rfl
      | false =>
        rw [if_neg Bool.false_ne_true, if_neg Bool.false_ne_true]
        cases under base key with
        | true =>
          rw [if_pos ⟨rfl, rfl⟩]
          cases store.get key <;> rfl
        | false =>
          rw [if_neg (fun hboth => Bool.false_ne_true hboth.1)]
          cases store.get key <;> rfl
    intro key hreserved
    rw [hget key, if_neg]
    rintro ⟨-, hplain⟩
    rw [hreserved] at hplain
    cases hplain

/-- The cursor `Kv::scan` takes a cursor for. -/
def KvStore.passed (cursor : Option Bytes) : Option Bytes := cursor.filter (fun key => !key.isEmpty)

theorem scan_pagesBy : PagesBy KvStore.scan KvStore.passed where
  pages store base cursor limit hlim hmax := by
    rw [KvStore.scan, Nat.min_eq_left hmax, Nat.max_eq_right hlim]
    rfl
  opening := rfl
  kept key := by
    cases key with
    | nil => exact .inr ⟨rfl, rfl⟩
    | cons byte rest => exact .inl rfl

end View

/-- A store that pages as it should, and the notes in it. -/
theorem guest_view_notes :
    GuestView (fun store base cursor limit => (entriesUnder base cursor store).take limit)
      (Core.Change.applyAll [.put (utf8 "__wa/meta/schema") (utf8 "1"),
        .put (utf8 "a") (utf8 "1")] ∅) :=
  guest_view _ (fun _ _ _ _ _ _ => rfl) _

end WasmAgent.Host
