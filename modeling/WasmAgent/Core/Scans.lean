import Mathlib.Data.List.Perm.Subperm
import Mathlib.Data.String.Basic
import WasmAgent.Core.Prefixes
import WasmAgent.Core.Reading

/-!
# Composed keys and paged scans

How keys that are put together from parts compare, and a scan of one prefix that is read page
by page.
-/

namespace WasmAgent.Core

open List Option Std

section Composed

variable {α : Type*} [Ord α] [LawfulEqOrd α]

/-- Where neither part continues the other, what follows does not matter. -/
theorem compare_append_of_apart {left right : List α} (hlt : ¬ left <+: right)
    (hrt : ¬ right <+: left) (leftRest rightRest : List α) :
    compare (left ++ leftRest) (right ++ rightRest) = compare left right := by
  induction left generalizing right with
  | nil => exact absurd nil_prefix hlt
  | cons first left ih =>
    cases right with
    | nil => exact absurd nil_prefix hrt
    | cons second right =>
      rw [cons_append, cons_append, List.compare_cons_cons, List.compare_cons_cons]
      cases hfst : compare first second with
      | lt => rfl
      | gt => rfl
      | eq =>
        rw [LawfulEqOrd.eq_of_compare hfst] at hlt hrt
        exact ih (fun hsta => hlt (cons_prefix_cons.mpr ⟨rfl, hsta⟩))
          (fun hsta => hrt (cons_prefix_cons.mpr ⟨rfl, hsta⟩))

omit [Ord α] [LawfulEqOrd α] in
theorem eq_of_terminated {separator : α} {left right : List α}
    (hrt : separator ∉ right) (hsta : left ++ [separator] <+: right ++ [separator]) :
    left = right := by
  rcases prefix_concat_iff.mp hsta with hsame | hwit
  · exact append_cancel_right hsame
  · exact absurd (hwit.subset (mem_append_right left mem_cons_self)) hrt

end Composed

section Numbers

theorem compare_div_mod (base left right : ℕ) :
    (compare (left / base) (right / base)).then (compare (left % base) (right % base)) =
      compare left right := by
  have hleft := Nat.div_add_mod left base
  have hrt := Nat.div_add_mod right base
  rcases Nat.lt_trichotomy left right with hlt | rfl | hgt
  · rw [Nat.compare_eq_lt.mpr hlt]
    rcases Nat.lt_or_eq_of_le (Nat.div_le_div_right hlt.le : left / base ≤ right / base)
      with hdiv | hdiv
    · rw [Nat.compare_eq_lt.mpr hdiv]
      rfl
    · rw [hdiv] at hleft ⊢
      rw [ReflOrd.compare_self, Nat.compare_eq_lt.mpr (by omega)]
      rfl
  · rw [ReflOrd.compare_self, ReflOrd.compare_self, ReflOrd.compare_self]
    rfl
  rw [Nat.compare_eq_gt.mpr hgt]
  rcases Nat.lt_or_eq_of_le (Nat.div_le_div_right hgt.le : right / base ≤ left / base)
    with hdiv | hdiv
  · rw [Nat.compare_eq_gt.mpr hdiv]
    rfl
  · rw [hdiv] at hrt
    rw [hdiv, ReflOrd.compare_self, Nat.compare_eq_gt.mpr (by omega)]
    rfl

theorem compareOfLessAndEq_number {α : Type*} [LT α] [DecidableLT α] [DecidableEq α]
    (number : α → ℕ) (hless : ∀ left right, left < right ↔ number left < number right)
    (hinj : Function.Injective number) (left right : α) :
    compareOfLessAndEq left right = compare (number left) (number right) := by
  rw [compareOfLessAndEq]
  rcases Nat.lt_trichotomy (number left) (number right) with hlt | heq | hgt
  · rw [if_pos ((hless _ _).mpr hlt), Nat.compare_eq_lt.mpr hlt]
  · have hnot : ¬ left < right := fun hlt => Nat.ne_of_lt ((hless _ _).mp hlt) heq
    rw [if_neg hnot, if_pos (hinj heq), heq, ReflOrd.compare_self]
  have hnot : ¬ left < right := fun hlt => Nat.lt_asymm ((hless _ _).mp hlt) hgt
  rw [if_neg hnot, if_neg, Nat.compare_eq_gt.mpr hgt]
  intro heq
  exact Nat.ne_of_gt hgt (congrArg number heq)

theorem compare_uInt8 (left right : UInt8) : compare left right = compare left.toNat right.toNat :=
  compareOfLessAndEq_number UInt8.toNat (fun _ _ => Iff.rfl) (fun _ _ => UInt8.toNat_inj.mp)
    left right

theorem compare_char (left right : Char) : compare left right = compare left.toNat right.toNat :=
  compareOfLessAndEq_number Char.toNat (fun _ _ => Iff.rfl) (fun _ _ => Char.toNat_inj.mp)
    left right

theorem bigEndian_succ (width value : ℕ) :
    bigEndian (width + 1) value = bigEndian width (value / 0x100) ++ [UInt8.ofNat value] :=
  reverse_cons

theorem compare_bigEndian {width left right : ℕ} (hlt : left < 0x100 ^ width)
    (hrt : right < 0x100 ^ width) :
    compare (bigEndian width left) (bigEndian width right) = compare left right := by
  induction width generalizing left right with
  | zero =>
    rw [Nat.lt_one_iff.mp hlt, Nat.lt_one_iff.mp hrt]
    rfl
  | succ width ih =>
    have hlast : compare [UInt8.ofNat left] [UInt8.ofNat right] =
        compare (left % 0x100) (right % 0x100) := by
      rw [List.compare_cons_cons, compare_uInt8, UInt8.toNat_ofNat', UInt8.toNat_ofNat']
      exact Ordering.then_eq
    rw [bigEndian_succ, bigEndian_succ, compare_append_of_length
      ((bigEndian_length _ _).trans (bigEndian_length _ _).symm),
      ih (Nat.div_lt_of_lt_mul (by rwa [pow_succ'] at hlt))
        (Nat.div_lt_of_lt_mul (by rwa [pow_succ'] at hrt)), hlast, compare_div_mod]

end Numbers

section Text

def Ascii (text : String) : Prop := ∀ char ∈ text.toList, char.toNat < 128

theorem utf8EncodeChar_ascii {char : Char} (hascii : char.toNat < 128) :
    String.utf8EncodeChar char = [UInt8.ofNat char.toNat] := by
  have hsmall : char.val.toNat ≤ 127 := Nat.le_of_lt_succ hascii
  exact if_pos hsmall

theorem utf8_ascii {text : String} (hascii : Ascii text) :
    utf8 text = text.toList.map fun char => UInt8.ofNat char.toNat := by
  have htext := utf8_ofList text.toList
  rw [String.ofList_toList] at htext
  rw [htext, map_eq_flatMap]
  apply flatMap_congr
  intro char hchar
  exact utf8EncodeChar_ascii (hascii char hchar)

theorem compare_asciiChar {left right : Char} (hlt : left.toNat < 128) (hrt : right.toNat < 128) :
    compare (UInt8.ofNat left.toNat) (UInt8.ofNat right.toNat) = compare left right := by
  have hbyte : ∀ char : Char, char.toNat < 128 → (UInt8.ofNat char.toNat).toNat = char.toNat := by
    intro char hchar
    rw [UInt8.toNat_ofNat', Nat.mod_eq_of_lt (by omega)]
  rw [compare_uInt8, hbyte left hlt, hbyte right hrt, compare_char]

theorem compareOfLessAndEq_chars (left right : List Char) :
    compareOfLessAndEq left right = compare left right := by
  induction left generalizing right with
  | nil => cases right <;> rfl
  | cons first left ih =>
    cases right with
    | nil => rfl
    | cons second right =>
      rw [List.compare_cons_cons, ← ih right, compareOfLessAndEq, compareOfLessAndEq]
      rcases Nat.lt_trichotomy first.toNat second.toNat with hlt | heq | hgt
      · have hcmp : compare first second = .lt := if_pos hlt
        have hless : first :: left < second :: right := cons_lt_cons_iff.mpr (Or.inl hlt)
        rw [hcmp, if_pos hless]
        rfl
      · obtain rfl := Char.toNat_inj.mp heq
        have hless : first :: left < first :: right ↔ left < right := by
          rw [cons_lt_cons_iff]
          exact ⟨fun hlt => (hlt.resolve_left (Nat.lt_irrefl first.toNat)).2,
            fun hlt => Or.inr ⟨rfl, hlt⟩⟩
        rw [ReflOrd.compare_self]
        simp only [hless, List.cons.injEq, true_and]
        rfl
      have hcmp : compare first second = .gt := by
        rw [compare_char]
        exact Nat.compare_eq_gt.mpr hgt
      rw [hcmp, if_neg, if_neg]
      · rfl
      · intro heq
        exact Nat.ne_of_gt hgt (congrArg Char.toNat (List.cons.inj heq).1)
      rw [cons_lt_cons_iff]
      rintro (hlt | ⟨heq, -⟩)
      · exact Nat.lt_asymm hlt hgt
      · exact Nat.ne_of_gt hgt (congrArg Char.toNat heq)

/-- Texts of one-byte characters are ordered as their bytes are. -/
theorem compare_utf8 {left right : String} (hlt : Ascii left) (hrt : Ascii right) :
    compare (utf8 left) (utf8 right) = compare left right := by
  have hchars : ∀ {first second : List Char}, (∀ char ∈ first, char.toNat < 128) →
      (∀ char ∈ second, char.toNat < 128) →
      compare (first.map fun char => UInt8.ofNat char.toNat)
        (second.map fun char => UInt8.ofNat char.toNat) = compare first second := by
    intro first
    induction first with
    | nil =>
      intro second _ _
      cases second <;> rfl
    | cons char first ih =>
      intro second hfst hsnd
      cases second with
      | nil => rfl
      | cons other second =>
        rw [forall_mem_cons] at hfst hsnd
        rw [map_cons, map_cons, List.compare_cons_cons, List.compare_cons_cons,
          compare_asciiChar hfst.1 hsnd.1, ih hfst.2 hsnd.2]
  rw [utf8_ascii hlt, utf8_ascii hrt, hchars hlt hrt, ← compareOfLessAndEq_chars]
  change _ = compareOfLessAndEq left right
  rw [compareOfLessAndEq, compareOfLessAndEq]
  simp only [String.lt_iff_toList_lt, String.toList_inj]

end Text

section Pages

variable {α β : Type*} [Ord α] [BEq α] [LawfulBEq α] {rows read left : List (List α × β)}
  {base : List α} {cursor : Option (List α)} {limit : ℕ}

/-- What stands at or after the prefix, and after the cursor. -/
def reached (base : List α) (cursor : Option (List α)) (key : List α) : Bool :=
  !(compare key base).isLT && cursor.all (fun last => (compare last key).isLT)

def scanPage (base : List α) (cursor : Option (List α)) (limit : ℕ) (rows : List (List α × β)) :
    List (List α × β) :=
  ((rows.dropWhile (fun row => !reached base cursor row.1)).takeWhile
    (fun row => base.isPrefixOf row.1)).take limit

/-- Pages until one is not full, as many as are allowed. -/
def scanPages (base : List α) (limit : ℕ) (rows : List (List α × β)) :
    ℕ → Option (List α) → List (List α × β)
  | 0, _ => []
  | pages + 1, cursor =>
      let page := scanPage base cursor limit rows
      match page.getLast? with
      | none => []
      | some last =>
          if page.length < limit then page
          else page ++ scanPages base limit rows pages (some last.1)

def scanAll (base : List α) (page : ℕ) (rows : List (List α × β)) : List (List α × β) :=
  scanPages base (max page 1) rows (rows.length + 1) none

variable [TransOrd α]

variable (hsrt : rows.Pairwise (fun first second => compare first.1 second.1 = .lt))
include hsrt

omit [BEq α] [LawfulBEq α] in
theorem dropWhile_reached :
    rows.dropWhile (fun row => !reached base cursor row.1) =
      rows.filter (fun row => reached base cursor row.1) := by
  induction rows with
  | nil => rfl
  | cons row rows ih =>
    rw [pairwise_cons] at hsrt
    rw [dropWhile_cons, filter_cons]
    by_cases hrch : reached base cursor row.1 = true
    · rw [if_neg (by rw [hrch]; decide), if_pos hrch]
      symm
      congr 1
      apply filter_eq_self.mpr
      intro later hltr
      rw [reached, Bool.and_eq_true, Bool.not_eq_true'] at hrch ⊢
      obtain ⟨hbase, hcur⟩ := hrch
      have hlt := hsrt.1 later hltr
      constructor
      · apply eq_false_of_ne_true
        intro hbef
        rw [Ordering.isLT_iff_eq_lt] at hbef
        rw [TransCmp.lt_trans hlt hbef] at hbase
        cases hbase
      cases cursor with
      | none => rfl
      | some last =>
        rw [all_some, Ordering.isLT_iff_eq_lt] at hcur ⊢
        exact TransCmp.lt_trans hcur hlt
    · rw [Bool.not_eq_true] at hrch
      rw [if_pos (by rw [hrch]; rfl), hrch]
      exact ih hsrt.2

omit hsrt in
omit [BEq α] [LawfulBEq α] in
theorem filter_after (hsrt : (read ++ left).Pairwise
      (fun first second => compare first.1 second.1 = .lt)) :
    (read ++ left).filter
        (fun row => (read.getLast?.map Prod.fst).all (fun last => (compare last row.1).isLT)) =
      left := by
  rcases eq_nil_or_concat read with rfl | ⟨front, last, rfl⟩
  · exact filter_eq_self.mpr fun _ _ => rfl
  rw [concat_eq_append] at hsrt ⊢
  rw [getLast?_concat, map_some, filter_append]
  simp only [all_some]
  rw [pairwise_append] at hsrt
  obtain ⟨hread, -, hbet⟩ := hsrt
  have hbef : ∀ row ∈ front ++ [last], ¬ (compare last.1 row.1).isLT = true := by
    intro row hrow
    rw [Ordering.isLT_iff_eq_lt]
    rcases mem_append.mp hrow with hfrt | hlast
    · rw [pairwise_append] at hread
      exact OrientedCmp.not_lt_of_lt (hread.2.2 row hfrt last mem_cons_self)
    · rw [mem_singleton.mp hlast, ReflOrd.compare_self]
      decide
  have hltr : ∀ row ∈ left, (compare last.1 row.1).isLT = true := by
    intro row hrow
    rw [hbet last (mem_append_right _ mem_cons_self) row hrow]
    rfl
  rw [filter_eq_nil_iff.mpr hbef, filter_eq_self.mpr hltr, nil_append]

variable [LawfulEqOrd α]

theorem scanPage_eq :
    scanPage base cursor limit rows =
      ((rows.filter (fun row => base.isPrefixOf row.1)).filter
        (fun row => cursor.all (fun last => (compare last row.1).isLT))).take limit := by
  rw [scanPage, dropWhile_reached hsrt, takeWhile_prefix_of_sorted base (hsrt.filter _)]
  · rw [List.filter_filter, List.filter_filter]
    congr 1
    apply List.filter_congr
    intro row _
    cases hbase : base.isPrefixOf row.1 with
    | false => rw [Bool.false_and, Bool.and_false]
    | true =>
      rw [Bool.true_and, Bool.and_true, reached,
        not_isLT_of_base ( List.isPrefixOf_iff_prefix.mp hbase)]
      rfl
  intro row hrow
  have hrch := (List.mem_filter.mp hrow).2
  rw [reached, Bool.and_eq_true, Bool.not_eq_true'] at hrch
  exact hrch.1

omit hsrt

theorem scanPages_left {pages : ℕ} (hlim : 0 < limit)
    (hsrt : rows.Pairwise (fun first second => compare first.1 second.1 = .lt))
    (hrows : rows.filter (fun row => base.isPrefixOf row.1) = read ++ left)
    (hpages : left.length < pages) :
    scanPages base limit rows pages (read.getLast?.map Prod.fst) = left := by
  induction pages generalizing read left with
  | zero => exact absurd hpages (Nat.not_lt_zero _)
  | succ pages ih =>
    have hpage : scanPage base (read.getLast?.map Prod.fst) limit rows = left.take limit := by
      rw [scanPage_eq hsrt, hrows, filter_after (hrows ▸ hsrt.filter _)]
    rw [scanPages, hpage]
    rcases eq_nil_or_concat (left.take limit) with hnone | ⟨front, last, hsome⟩
    · rw [hnone]
      exact ((take_eq_nil_iff.mp hnone).resolve_left (Nat.ne_of_gt hlim)).symm
    rw [concat_eq_append] at hsome
    have hlast : (left.take limit).getLast? = some last := by
      rw [hsome, getLast?_concat]
    rw [hlast]
    dsimp only
    split
    · next hshrt =>
      rw [length_take] at hshrt
      exact take_of_length_le (by omega)
    have hspl : rows.filter (fun row => base.isPrefixOf row.1) =
        (read ++ left.take limit) ++ left.drop limit := by
      rw [hrows, append_assoc, take_append_drop]
    have hnext := ih hspl (by
      have hpos : 0 < (left.take limit).length := by
        rw [hsome, length_append]
        exact Nat.lt_of_lt_of_le Nat.zero_lt_one (Nat.le_add_left _ _)
      rw [length_take] at hpos
      rw [length_drop]
      omega)
    rw [getLast?_append, hlast] at hnext
    rw [show some last.1 = ((some last).or read.getLast?).map Prod.fst from rfl, hnext,
      take_append_drop]

theorem scanAll_eq (page : ℕ)
    (hsrt : rows.Pairwise (fun first second => compare first.1 second.1 = .lt)) :
    scanAll base page rows = rows.filter (fun row => base.isPrefixOf row.1) :=
  scanPages_left (Nat.le_max_right _ _) hsrt (nil_append _).symm
    (Nat.lt_succ_of_le (length_filter_le _ rows))

end Pages

section Sorted

variable {α : Type*} {order : α → α → Ordering} [TransCmp order] {left right : List α}

theorem ext_of_sorted (hleft : left.Pairwise (fun first second => order first second = .lt))
    (hrt : right.Pairwise (fun first second => order first second = .lt))
    (hsame : ∀ entry, entry ∈ left ↔ entry ∈ right) : left = right := by
  have hndp : ∀ {entries : List α},
      entries.Pairwise (fun first second => order first second = .lt) → entries.Nodup := by
    intro entries hsrt
    apply hsrt.imp
    intro first second hlt heq
    rw [heq, @ReflCmp.compare_self _ order] at hlt
    cases hlt
  have hperm : left.Perm right := (perm_ext_iff_of_nodup (hndp hleft) (hndp hrt)).mpr hsame
  apply hperm.eq_of_pairwise _ hleft hrt
  intro first second _ _ hlt hgt
  exact absurd hgt (OrientedCmp.not_lt_of_lt hlt)

end Sorted

end WasmAgent.Core
