import Mathlib.Algebra.GroupWithZero.Nat
import Mathlib.Data.List.Basic

/-!
# Reading byte strings from the front

Numbers as bytes, and readers that take a byte string apart.  A reader reads
what a writer wrote when it takes exactly those bytes; it is canonical when it
takes no others; and no reader here slices past the end of its string.
-/

namespace WasmAgent.Core

open List

/-- The `width` low bytes of a number, least significant first. -/
def littleEndian : ℕ → ℕ → List UInt8
  | 0, _ => []
  | width + 1, value => UInt8.ofNat value :: littleEndian width (value / 0x100)

def fromLittleEndian : List UInt8 → ℕ
  | [] => 0
  | byte :: bytes => byte.toNat + 0x100 * fromLittleEndian bytes

/-- The `width` low bytes of a number, most significant first. -/
def bigEndian (width value : ℕ) : List UInt8 := (littleEndian width value).reverse

def fromBigEndian (bytes : List UInt8) : ℕ := fromLittleEndian bytes.reverse

@[simp]
theorem littleEndian_length (width value : ℕ) : (littleEndian width value).length = width := by
  induction width generalizing value with
  | zero => rfl
  | succ width ih => exact congrArg (· + 1) (ih _)

@[simp]
theorem bigEndian_length (width value : ℕ) : (bigEndian width value).length = width := by
  rw [bigEndian, length_reverse, littleEndian_length]

theorem fromLittleEndian_littleEndian {width value : ℕ} (hval : value < 0x100 ^ width) :
    fromLittleEndian (littleEndian width value) = value := by
  induction width generalizing value with
  | zero =>
    rw [Nat.pow_zero, Nat.lt_one_iff] at hval
    rw [hval]
    rfl
  | succ width ih =>
    have hrest : value / 0x100 < 0x100 ^ width :=
      Nat.div_lt_of_lt_mul (by rwa [Nat.pow_succ, Nat.mul_comm] at hval)
    change (UInt8.ofNat value).toNat + 0x100 * fromLittleEndian _ = value
    rw [ih hrest, UInt8.toNat_ofNat']
    exact Nat.mod_add_div value 0x100

theorem fromLittleEndian_littleEndian_mod (width value : ℕ) :
    fromLittleEndian (littleEndian width value) = value % 0x100 ^ width := by
  induction width generalizing value with
  | zero => exact (Nat.mod_one value).symm
  | succ width ih =>
    change (UInt8.ofNat value).toNat + 0x100 * fromLittleEndian _ = _
    rw [ih, UInt8.toNat_ofNat']
    change value % 0x100 + 0x100 * (value / 0x100 % 0x100 ^ width) = _
    rw [Nat.pow_succ']
    exact (@Nat.mod_mul 0x100 (0x100 ^ width) value).symm

variable (bytes : List UInt8)

theorem littleEndian_fromLittleEndian :
    littleEndian bytes.length (fromLittleEndian bytes) = bytes := by
  induction bytes with
  | nil => rfl
  | cons byte bytes ih =>
    have hlow : UInt8.ofNat (fromLittleEndian (byte :: bytes)) = byte := by
      apply UInt8.toNat.inj
      rw [UInt8.toNat_ofNat', fromLittleEndian, Nat.add_mul_mod_self_left]
      exact Nat.mod_eq_of_lt byte.toNat_lt
    have hhigh : fromLittleEndian (byte :: bytes) / 0x100 = fromLittleEndian bytes := by
      rw [fromLittleEndian, Nat.add_mul_div_left _ _ (by decide),
        Nat.div_eq_of_lt byte.toNat_lt, Nat.zero_add]
    rw [length_cons, littleEndian, hlow, hhigh, ih]

theorem fromLittleEndian_lt : fromLittleEndian bytes < 0x100 ^ bytes.length := by
  induction bytes with
  | nil => decide
  | cons byte bytes ih =>
    have hbyte := byte.toNat_lt
    rw [length_cons, Nat.pow_succ, fromLittleEndian]
    omega

theorem fromBigEndian_bigEndian {width value : ℕ} (hval : value < 0x100 ^ width) :
    fromBigEndian (bigEndian width value) = value := by
  rw [fromBigEndian, bigEndian, reverse_reverse, fromLittleEndian_littleEndian hval]

theorem bigEndian_fromBigEndian : bigEndian bytes.length (fromBigEndian bytes) = bytes := by
  have hbs := littleEndian_fromLittleEndian bytes.reverse
  rw [length_reverse] at hbs
  rw [bigEndian, fromBigEndian, hbs, reverse_reverse]

theorem fromBigEndian_lt : fromBigEndian bytes < 0x100 ^ bytes.length := by
  have hlt := fromLittleEndian_lt bytes.reverse
  rwa [length_reverse] at hlt

def utf8 (text : String) : List UInt8 := text.toByteArray.data.toList

theorem utf8_ofList (chars : List Char) :
    utf8 (String.ofList chars) = chars.flatMap String.utf8EncodeChar := by
  rw [utf8, String.toByteArray_ofList, utf8Encode, data_toByteArray]

theorem fromUTF8_utf8 (text : String) : String.fromUTF8? ⟨(utf8 text).toArray⟩ = some text := by
  have hbs : (⟨(utf8 text).toArray⟩ : ByteArray) = text.toByteArray := by
    rw [utf8, Array.toArray_toList]
  rw [hbs, String.fromUTF8?, dif_pos text.isValidUTF8]
  rfl

theorem utf8_of_fromUTF8 {raw : List UInt8} {text : String}
    (htext : String.fromUTF8? ⟨raw.toArray⟩ = some text) : utf8 text = raw := by
  rw [String.fromUTF8?] at htext
  split at htext
  · cases htext
    rfl
  · cases htext

theorem utf8_append (first second : String) : utf8 (first ++ second) = utf8 first ++ utf8 second := by
  rw [utf8, String.toByteArray_append, ByteArray.data_append, Array.toList_append]
  rfl

theorem utf8_inj {left right : String} (hsame : utf8 left = utf8 right) : left = right := by
  have hlt := fromUTF8_utf8 left
  rw [hsame, fromUTF8_utf8] at hlt
  cases hlt
  rfl

theorem utf8_begins {shorter text : String} (hbeg : utf8 shorter <+: utf8 text) :
    ∃ rest, text = shorter ++ rest := by
  obtain ⟨bytes, hbs⟩ := hbeg
  have hext : text.toByteArray.extract 0 shorter.toByteArray.size = shorter.toByteArray := by
    have harray : text.toByteArray = shorter.toByteArray ++ ⟨bytes.toArray⟩ := by
      apply ByteArray.ext
      apply Array.ext'
      rw [ByteArray.data_append, Array.toList_append]
      exact hbs.symm
    rw [harray]
    exact ByteArray.extract_append_eq_left rfl
  have hvld : (⟨shorter.toByteArray.size⟩ : String.Pos.Raw).IsValid text := by
    constructor
    · rw [String.Pos.Raw.le_iff]
      have hlen := congrArg length hbs
      rw [length_append] at hlen
      exact Nat.le.intro hlen
    · rw [hext]
      exact shorter.isValidUTF8
  obtain ⟨first, second, htext, hfst⟩ := String.Pos.Raw.isValid_iff_exists_append.mp hvld
  refine ⟨second, ?_⟩
  rw [htext]
  congr 1
  apply utf8_inj
  have hlen : (utf8 first).length = (utf8 shorter).length :=
    (congrArg String.Pos.Raw.byteIdx hfst).symm
  rw [htext, utf8_append] at hbs
  exact (append_inj_left hbs hlen.symm).symm

inductive Stop (Fault : Type) where
  | error (fault : Fault)
  | panic
  deriving DecidableEq

/-- The largest `usize`. -/
def usizeMax : ℕ := 0xFFFFFFFFFFFFFFFF

/-- A byte string and how far it has been read. -/
structure Reader where
  buf : List UInt8
  offset : ℕ
  inside : offset ≤ buf.length

/-- A computation over what is left of a byte string. -/
abbrev Reading (Fault : Type) := StateT Reader (Except (Stop Fault))

namespace Reader

variable {Fault : Type}

def new (buf : List UInt8) : Reader := ⟨buf, 0, Nat.zero_le _⟩

/-- What is left to read. -/
def rest (reader : Reader) : List UInt8 := reader.buf.drop reader.offset

/-- `&buf[start..stop]`, which panics out of range. -/
def slice (buf : List UInt8) (start stop : ℕ) : Except (Stop Fault) (List UInt8) :=
  if start ≤ stop ∧ stop ≤ buf.length then
    .ok ((buf.drop start).take (stop - start))
  else
    .error .panic

/-- `[bytes[0], …, bytes[count - 1]]`, which panics when one is missing. -/
def array (count : ℕ) (bytes : List UInt8) : Except (Stop Fault) (List UInt8) :=
  if count ≤ bytes.length then .ok (bytes.take count) else .error .panic

/-- The next `count` bytes, or the error for an end that overflows or that lies
past the string. -/
def takeOr (overflow truncated : Fault) (count : ℕ) : Reading Fault (List UInt8) := do
  let reader ← get
  if usizeMax < reader.offset + count then
    throw (.error overflow)
  else if hpast : reader.buf.length < reader.offset + count then
    throw (.error truncated)
  else
    let bytes ← (slice reader.buf reader.offset (reader.offset + count) :
      Except (Stop Fault) (List UInt8))
    set (⟨reader.buf, reader.offset + count, Nat.le_of_not_lt hpast⟩ : Reader)
    return bytes

/-- `after` is `before` with `bytes` read from it. -/
structure Passes (before : Reader) (bytes : List UInt8) (after : Reader) : Prop where
  buf : after.buf = before.buf
  rest : before.rest = bytes ++ after.rest

end Reader

section Rules

variable {Fault Value Next : Type}

/-- The reader takes `bytes`, wherever they come next, and makes `value` of them. -/
def Reads (read : Reading Fault Value) (bytes : List UInt8) (value : Value) : Prop :=
  ∀ before after : Reader, before.buf.length ≤ usizeMax → before.Passes bytes after →
    read before = .ok (value, after)

/-- The same where `bytes` are the last there are. -/
def ReadsLast (read : Reading Fault Value) (bytes : List UInt8) (value : Value) : Prop :=
  ∀ before after : Reader, before.buf.length ≤ usizeMax → before.Passes bytes after →
    after.rest = [] → read before = .ok (value, after)

/-- The reader does not panic, and whatever bytes it takes are as `post` says. -/
structure Yields (read : Reading Fault Value)
    (post : List UInt8 → Value → Reader → Prop) : Prop where
  takes : ∀ before value after, read before = .ok (value, after) →
    ∃ bytes, before.Passes bytes after ∧ post bytes value after
  sober : ∀ before, read before ≠ .error .panic

namespace Reader

theorem Passes.refl (reader : Reader) : reader.Passes [] reader := ⟨rfl, rfl⟩

theorem Passes.trans {before middle after : Reader} {first second : List UInt8}
    (hfst : before.Passes first middle) (hsnd : middle.Passes second after) :
    before.Passes (first ++ second) after := by
  constructor
  · rw [hsnd.buf, hfst.buf]
  · rw [hfst.rest, hsnd.rest, append_assoc]

theorem eq_of_rest {left right : Reader} (hbuf : left.buf = right.buf)
    (hrest : left.rest = right.rest) : left = right := by
  obtain ⟨buf, offset, hins⟩ := left
  obtain ⟨_, other, hoth⟩ := right
  obtain rfl : buf = _ := hbuf
  have hlen := congrArg length hrest
  simp only [rest, length_drop] at hlen hins hoth
  have hoff : offset = other := by omega
  subst hoff
  rfl

theorem rest_further (before : Reader) (count : ℕ)
    (hins : before.offset + count ≤ before.buf.length) :
    rest ⟨before.buf, before.offset + count, hins⟩ = before.rest.drop count := by
  rw [rest, rest, drop_drop]

theorem Passes.split {before after : Reader} {first second : List UInt8}
    (hpas : before.Passes (first ++ second) after) :
    ∃ middle, before.Passes first middle ∧ middle.Passes second after := by
  have hrest := hpas.rest
  have hins : before.offset + first.length ≤ before.buf.length := by
    have hlen := congrArg length hrest
    have hbef := before.inside
    simp only [Reader.rest, length_drop, length_append] at hlen
    omega
  rw [append_assoc] at hrest
  have hmid : before.rest.drop first.length = second ++ after.rest := by
    rw [hrest, drop_left]
  refine ⟨⟨before.buf, before.offset + first.length, hins⟩, ⟨rfl, ?_⟩, ⟨hpas.buf, ?_⟩⟩
  · rw [rest_further, hmid, hrest]
  · rw [rest_further, hmid]

end Reader

theorem bind_run (first : Reading Fault Value) (next : Value → Reading Fault Next)
    (before : Reader) :
    (first >>= next) before = (first before >>= fun result => next result.1 result.2) := by
  rfl

namespace Reads

theorem pure (value : Value) : Reads (pure value : Reading Fault Value) [] value := by
  intro before after _ hpas
  have hsame : before = after := Reader.eq_of_rest hpas.buf.symm hpas.rest
  rw [hsame]
  rfl

theorem lift {checked : Except (Stop Fault) Value} {value : Value} (hchkd : checked = .ok value) :
    Reads (checked : Reading Fault Value) [] value := by
  rw [hchkd]
  exact Reads.pure value

variable {next : Value → Reading Fault Next} {first : Reading Fault Value}

theorem bind
    {bytes rest : List UInt8} {value : Value} {result : Next} (hfst : Reads first bytes value)
    (hnext : Reads (next value) rest result) : Reads (first >>= next) (bytes ++ rest) result := by
  intro before after hshrt hpas
  obtain ⟨middle, hbef, haft⟩ := hpas.split
  rw [bind_run, hfst before middle hshrt hbef]
  apply hnext middle after _ haft
  rwa [hbef.buf]

theorem bindNil
    {bytes : List UInt8} {value : Value} {result : Next} (hfst : Reads first bytes value)
    (hnext : Reads (next value) [] result) : Reads (first >>= next) bytes result := by
  have hboth := hfst.bind hnext
  rwa [append_nil] at hboth

theorem bindLast {bytes rest : List UInt8} {value : Value} {result : Next}
    (hfst : Reads first bytes value) (hnext : ReadsLast (next value) rest result) :
    ReadsLast (first >>= next) (bytes ++ rest) result := by
  intro before after hshrt hpas hend
  obtain ⟨middle, hbef, haft⟩ := hpas.split
  rw [bind_run, hfst before middle hshrt hbef]
  apply hnext middle after _ haft hend
  rwa [hbef.buf]

theorem map {read : Reading Fault Value} {bytes : List UInt8} {value : Value}
    (make : Value → Next) (hread : Reads read bytes value) :
    Reads (make <$> read) bytes (make value) := by
  intro before after hshrt hpas
  change (read before >>= _) = _
  rw [hread before after hshrt hpas]
  rfl

end Reads

namespace Yields

variable {post : List UInt8 → Value → Reader → Prop}

theorem weaken {wider : List UInt8 → Value → Reader → Prop} {read : Reading Fault Value}
    (hyiel : Yields read post)
    (hwider : ∀ bytes value after, post bytes value after → wider bytes value after) :
    Yields read wider := by
  refine ⟨?_, hyiel.sober⟩
  intro before value after hread
  obtain ⟨bytes, hpas, hpost⟩ := hyiel.takes before value after hread
  exact ⟨bytes, hpas, hwider bytes value after hpost⟩

theorem pure {value : Value} (hpost : ∀ after, post [] value after) :
    Yields (pure value : Reading Fault Value) post := by
  constructor
  · intro before _ after hread
    cases hread
    exact ⟨[], Reader.Passes.refl before, hpost before⟩
  · intro before hpan
    cases hpan

theorem error (fault : Fault) : Yields (throw (.error fault) : Reading Fault Value) post := by
  constructor
  · intro before value after hread
    cases hread
  · intro before hpan
    cases hpan

variable {checked : Except (Stop Fault) Value} {next : Value → Reading Fault Next}

theorem lift {post : List UInt8 → Next → Reader → Prop} (hsober : checked ≠ .error .panic)
    (hnext : ∀ value, checked = .ok value → Yields (next value) post) :
    Yields ((checked : Reading Fault Value) >>= next) post := by
  cases checked with
  | ok value => exact hnext value rfl
  | error stop =>
    constructor
    · intro before value after hread
      cases hread
    · intro before hpan
      cases hpan
      exact hsober rfl

theorem liftLast (hsober : checked ≠ .error .panic)
    (hpost : ∀ value after, checked = .ok value → post [] value after) :
    Yields (checked : Reading Fault Value) post := by
  cases checked with
  | ok value => exact Yields.pure fun after => hpost value after rfl
  | error stop =>
    cases stop with
    | error fault => exact Yields.error fault
    | panic => exact absurd rfl hsober

theorem bind {post : List UInt8 → Next → Reader → Prop} {first : Reading Fault Value}
    (hfst : Yields first (fun bytes value _ =>
      Yields (next value) (fun rest result after => post (bytes ++ rest) result after))) :
    Yields (first >>= next) post := by
  constructor
  · intro before result after hread
    rw [bind_run] at hread
    cases hrch : first before with
    | error stop =>
      rw [hrch] at hread
      cases hread
    | ok reached =>
      rw [hrch] at hread
      obtain ⟨bytes, hbs, hnext⟩ := hfst.takes before reached.1 reached.2 hrch
      obtain ⟨rest, hrest, hpost⟩ := hnext.takes reached.2 result after hread
      exact ⟨bytes ++ rest, hbs.trans hrest, hpost⟩
  intro before hpan
  rw [bind_run] at hpan
  cases hrch : first before with
  | error stop =>
    rw [hrch] at hpan
    cases hpan
    exact hfst.sober before hrch
  | ok reached =>
    rw [hrch] at hpan
    obtain ⟨bytes, -, hnext⟩ := hfst.takes before reached.1 reached.2 hrch
    exact hnext.sober reached.2 hpan

theorem look {next : Reader → Reading Fault Value} (hnext : ∀ reader, Yields (next reader) post) :
    Yields (get >>= next) post :=
  ⟨fun before => (hnext before).takes before, fun before => (hnext before).sober before⟩

theorem map {make : Value → Next} {post : List UInt8 → Next → Reader → Prop}
    {read : Reading Fault Value}
    (hread : Yields read (fun bytes value after => post bytes (make value) after)) :
    Yields (make <$> read) post := by
  have hrun : ∀ before, (make <$> read) before =
      (read before >>= fun result => Except.ok (make result.1, result.2)) := fun _ => rfl
  constructor
  · intro before result after hres
    rw [hrun] at hres
    cases hrch : read before with
    | error stop =>
      rw [hrch] at hres
      cases hres
    | ok reached =>
      rw [hrch] at hres
      cases hres
      exact hread.takes before reached.1 reached.2 hrch
  intro before hpan
  rw [hrun] at hpan
  cases hrch : read before with
  | error stop =>
    rw [hrch] at hpan
    cases hpan
    exact hread.sober before hrch
  | ok reached =>
    rw [hrch] at hpan
    cases hpan

end Yields

end Rules

variable {count : ℕ}

section Many

variable {Fault Value Item : Type} {read : Reading Fault Value}
variable {bytes : Item → List UInt8} {make : Item → Value}

/-- The same reader so many times. -/
def many : ℕ → Reading Fault Value → Reading Fault (List Value)
  | 0, _ => return []
  | count + 1, read => do
      let value ← read
      let rest ← many count read
      return value :: rest

theorem many_reads {items : List Item}
    (hread : ∀ item ∈ items, Reads read (bytes item) (make item)) :
    Reads (many items.length read) (items.flatMap bytes) (items.map make) := by
  induction items with
  | nil => exact Reads.pure []
  | cons item items ih =>
    apply (hread item mem_cons_self).bind
    apply (ih fun other hoth => hread other (mem_cons_of_mem _ hoth)).bindNil
    exact Reads.pure _

theorem many_yields {post : List UInt8 → List Value → Reader → Prop}
    (hread : ∀ post : List UInt8 → Value → Reader → Prop,
      (∀ item after, post (bytes item) (make item) after) → Yields read post)
    (hpost : ∀ (items : List Item) after, items.length = count →
      post (items.flatMap bytes) (items.map make) after) : Yields (many count read) post := by
  induction count generalizing post with
  | zero =>
    apply Yields.pure
    intro after
    exact hpost [] after rfl
  | succ count ih =>
    apply Yields.bind
    apply hread
    intro item _
    apply Yields.bind
    apply ih
    intro items _ hlen
    apply Yields.pure
    intro after
    have hwhole := hpost (item :: items) after (congrArg (· + 1) hlen)
    rwa [flatMap_cons, map_cons, ← append_nil (items.flatMap bytes)] at hwhole

end Many

def readWhole {Fault Value : Type} (read : Reading Fault Value) (bytes : List UInt8) :
    Except (Stop Fault) Value :=
  read.run' (Reader.new bytes)

section Whole

variable {Fault Value : Type} {read : Reading Fault Value} {bytes : List UInt8}

theorem ReadsLast.whole {value : Value} (hread : ReadsLast read bytes value)
    (hshrt : bytes.length ≤ usizeMax) : readWhole read bytes = .ok value := by
  have hend : (⟨bytes, bytes.length, Nat.le_refl _⟩ : Reader).rest = [] := drop_length
  have hrun := hread (Reader.new bytes) ⟨bytes, bytes.length, Nat.le_refl _⟩ hshrt
    ⟨rfl, by rw [hend, append_nil]; rfl⟩ hend
  change (Prod.fst <$> read (Reader.new bytes)) = _
  rw [hrun]
  rfl

theorem Yields.whole {post : List UInt8 → Value → Prop} {value : Value}
    (hyiel : Yields read (fun taken value after => after.rest = [] ∧ post taken value))
    (hread : readWhole read bytes = .ok value) : post bytes value := by
  change (Prod.fst <$> read (Reader.new bytes)) = _ at hread
  cases hrch : read (Reader.new bytes) with
  | error stop =>
    rw [hrch] at hread
    cases hread
  | ok reached =>
    rw [hrch] at hread
    cases hread
    obtain ⟨taken, hpas, hend, hpost⟩ := hyiel.takes _ reached.1 reached.2 hrch
    have hrest := hpas.rest
    rw [hend, append_nil] at hrest
    rwa [← hrest] at hpost

theorem Yields.value_whole {post : Value → Prop} {value : Value}
    (hyiel : Yields read (fun _ value _ => post value))
    (hread : readWhole read bytes = .ok value) : post value := by
  change (Prod.fst <$> read (Reader.new bytes)) = _ at hread
  cases hrch : read (Reader.new bytes) with
  | error stop =>
    rw [hrch] at hread
    cases hread
  | ok reached =>
    rw [hrch] at hread
    cases hread
    obtain ⟨_, -, hpost⟩ := hyiel.takes _ reached.1 reached.2 hrch
    exact hpost

variable {post : List UInt8 → Value → Reader → Prop}

theorem Yields.whole_sober (hyiel : Yields read post) : readWhole read bytes ≠ .error .panic := by
  intro hpan
  change (Prod.fst <$> read (Reader.new bytes)) = _ at hpan
  cases hrch : read (Reader.new bytes) with
  | error stop =>
    rw [hrch] at hpan
    cases hpan
    exact hyiel.sober _ hrch
  | ok reached =>
    rw [hrch] at hpan
    cases hpan

theorem Yields.whole_ends (hyiel : Yields read post) (bytes : List UInt8) :
    (∃ value, readWhole read bytes = .ok value) ∨
      ∃ fault, readWhole read bytes = .error (.error fault) := by
  cases hread : readWhole read bytes with
  | ok value => exact Or.inl ⟨value, rfl⟩
  | error stop =>
    cases stop with
    | error fault => exact Or.inr ⟨fault, rfl⟩
    | panic => exact absurd hread hyiel.whole_sober

end Whole

namespace Reader

variable {Fault : Type} {overflow truncated : Fault}

theorem slice_inside {buf : List UInt8} {start : ℕ} (hins : start + count ≤ buf.length) :
    (slice buf start (start + count) : Except (Stop Fault) (List UInt8)) =
      .ok ((buf.drop start).take count) := by
  rw [slice, if_pos ⟨Nat.le_add_right _ _, hins⟩, Nat.add_sub_cancel_left]

theorem takeOr_run (count : ℕ) (before : Reader) :
    (takeOr overflow truncated count : Reading Fault (List UInt8)) before =
      if usizeMax < before.offset + count then .error (.error overflow)
      else if hpast : before.buf.length < before.offset + count then .error (.error truncated)
      else .ok (before.rest.take count,
        ⟨before.buf, before.offset + count, Nat.le_of_not_lt hpast⟩) := by
  change (if usizeMax < before.offset + count then _ else _ : Reading Fault (List UInt8)) before = _
  split
  · rfl
  split
  · rfl
  · next hpast =>
    rw [slice_inside (Nat.le_of_not_lt hpast)]
    rfl

theorem takeOr_reads (bytes : List UInt8) :
    Reads (takeOr overflow truncated bytes.length : Reading Fault (List UInt8)) bytes bytes := by
  intro before after hshrt hpas
  have hlen := congrArg length hpas.rest
  have hins := before.inside
  simp only [rest, length_drop, length_append] at hlen
  have hreach : before.offset + bytes.length ≤ before.buf.length := by omega
  rw [takeOr_run, if_neg (Nat.not_lt.mpr (Nat.le_trans hreach hshrt)),
    dif_neg (Nat.not_lt.mpr hreach), hpas.rest, take_left]
  have haft : (⟨before.buf, before.offset + bytes.length, hreach⟩ : Reader) = after := by
    apply @eq_of_rest ⟨before.buf, before.offset + bytes.length, hreach⟩ after hpas.buf.symm
    rw [rest_further, hpas.rest, drop_left]
  rw [haft]

variable {post : List UInt8 → List UInt8 → Reader → Prop}

theorem takeOr_yields (hpost : ∀ bytes after, bytes.length = count → post bytes bytes after) :
    Yields (takeOr overflow truncated count : Reading Fault (List UInt8)) post := by
  constructor
  · intro before bytes after hread
    rw [takeOr_run] at hread
    split at hread
    · cases hread
    split at hread
    · cases hread
    rename_i hpast
    cases hread
    refine ⟨before.rest.take count, ⟨rfl, ?_⟩, hpost _ _ ?_⟩
    · rw [rest_further, take_append_drop]
    · rw [length_take, rest, length_drop]
      omega
  intro before hpan
  rw [takeOr_run] at hpan
  split at hpan
  · cases hpan
  · split at hpan <;> cases hpan

theorem array_ok {bytes : List UInt8} (hlen : bytes.length = count) :
    (array count bytes : Except (Stop Fault) (List UInt8)) = .ok bytes := by
  rw [array, if_pos (Nat.le_of_eq hlen.symm), take_of_length_le (Nat.le_of_eq hlen)]

theorem array_reads {count : ℕ} {bytes : List UInt8} (hlen : bytes.length = count) :
    Reads (do
      let taken ← (takeOr overflow truncated count : Reading Fault (List UInt8))
      (array count taken : Except (Stop Fault) (List UInt8))) bytes bytes := by
  subst hlen
  intro before after hshrt hpas
  rw [bind_run, takeOr_reads bytes before after hshrt hpas]
  change (liftM (array bytes.length bytes : Except (Stop Fault) (List UInt8)) :
    Reading Fault (List UInt8)) after = _
  rw [array_ok rfl]
  rfl

theorem array_yields (hpost : ∀ bytes after, bytes.length = count → post bytes bytes after) :
    Yields (do
      let taken ← (takeOr overflow truncated count : Reading Fault (List UInt8))
      (array count taken : Except (Stop Fault) (List UInt8))) post := by
  apply Yields.bind
  apply takeOr_yields
  intro bytes _ hlen
  have hpure : (liftM (array count bytes : Except (Stop Fault) (List UInt8)) :
      Reading Fault (List UInt8)) = pure bytes := by
    rw [array_ok hlen]
    rfl
  rw [hpure]
  apply Yields.pure
  intro after
  rw [append_nil]
  exact hpost bytes after hlen

/-- The number that the next `width` bytes are, least significant first. -/
def number (overflow truncated : Fault) (width : ℕ) : Reading Fault ℕ :=
  fromLittleEndian <$> (do
    let bytes ← (takeOr overflow truncated width : Reading Fault (List UInt8))
    (array width bytes : Except (Stop Fault) (List UInt8)))

theorem number_reads {width value : ℕ} (hval : value < 0x100 ^ width) :
    Reads (number overflow truncated width) (littleEndian width value) value := by
  have hreads := (@array_reads Fault overflow truncated width (littleEndian width value)
    (littleEndian_length width value)).map fromLittleEndian
  rwa [fromLittleEndian_littleEndian hval] at hreads

theorem number_yields {width : ℕ} {post : List UInt8 → ℕ → Reader → Prop}
    (hpost : ∀ value after, value < 0x100 ^ width → post (littleEndian width value) value after) :
    Yields (number overflow truncated width) post := by
  apply Yields.map
  apply array_yields
  intro bytes after hlen
  have hfits := fromLittleEndian_lt bytes
  rw [hlen] at hfits
  have hbs := hpost (fromLittleEndian bytes) after hfits
  rwa [← hlen, littleEndian_fromLittleEndian] at hbs

end Reader

end WasmAgent.Core
