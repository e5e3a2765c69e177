import WasmAgent.Core.Reading

/-!
# Standard base64

Three bytes as four symbols, padded; the reader skips white space.
-/

namespace WasmAgent.Stt.Base64

open List WasmAgent.Core

def alphabet : List Char :=
  "ABCDEFGHIJKLMNOPQRSTUVWXYZabcdefghijklmnopqrstuvwxyz0123456789+/".toList

/-- The symbol of the last six bits. -/
def symbol (value : ℕ) : Char := alphabet.getD (value % 64) '='

/-- Three bytes, the first one on top. -/
def triple (first second third : UInt8) : ℕ :=
  first.toNat * 65536 + second.toNat * 256 + third.toNat

/-- The symbols of all chunks of three bytes. -/
def symbols : List UInt8 → List Char
  | [] => []
  | [first] =>
      let bits := triple first 0 0
      [symbol (bits / 2 ^ 18), symbol (bits / 2 ^ 12), '=', '=']
  | [first, second] =>
      let bits := triple first second 0
      [symbol (bits / 2 ^ 18), symbol (bits / 2 ^ 12), symbol (bits / 2 ^ 6), '=']
  | first :: second :: third :: rest =>
      let bits := triple first second third
      symbol (bits / 2 ^ 18) :: symbol (bits / 2 ^ 12) :: symbol (bits / 2 ^ 6) :: symbol bits ::
        symbols rest

def encode (bytes : List UInt8) : String := String.ofList (symbols bytes)

def isAsciiWhitespace (byte : UInt8) : Bool :=
  byte = 0x20 || byte = 0x09 || byte = 0x0a || byte = 0x0c || byte = 0x0d

def position (byte : UInt8) : Option ℕ :=
  if 0x41 ≤ byte ∧ byte ≤ 0x5a then some (byte.toNat - 0x41)
  else if 0x61 ≤ byte ∧ byte ≤ 0x7a then some (byte.toNat - 0x61 + 26)
  else if 0x30 ≤ byte ∧ byte ≤ 0x39 then some (byte.toNat - 0x30 + 52)
  else if byte = 0x2b then some 62
  else if byte = 0x2f then some 63
  else none

/-- What has been read so far; the accumulator holds `bits` bits, fewer than eight. -/
structure Decoding where
  out : List UInt8
  accumulator : ℕ
  bits : ℕ
  symbols : ℕ
  padding : ℕ

namespace Decoding

def start : Decoding := ⟨[], 0, 0, 0, 0⟩

/-- Takes six more bits, and gives away a byte as soon as there is one. -/
def push (decoding : Decoding) (value : ℕ) : Decoding :=
  let accumulator := decoding.accumulator * 64 + value
  let bits := decoding.bits + 6
  if 8 ≤ bits then
    { decoding with
      out := decoding.out ++ [(accumulator / 2 ^ (bits - 8)).toUInt8]
      accumulator := accumulator % 2 ^ (bits - 8)
      bits := bits - 8
      symbols := decoding.symbols + 1 }
  else
    { decoding with accumulator, bits, symbols := decoding.symbols + 1 }

def step (decoding : Decoding) (byte : UInt8) : Option Decoding :=
  if isAsciiWhitespace byte then
    some decoding
  else if byte = 0x3d then
    if 2 < decoding.padding + 1 then none
    else some { decoding with padding := decoding.padding + 1 }
  else if 0 < decoding.padding then
    none
  else
    (position byte).map decoding.push

def finish (decoding : Decoding) : Option (List UInt8) :=
  if 0 < decoding.padding ∧ (decoding.symbols + decoding.padding) % 4 ≠ 0 then none
  else if decoding.symbols % 4 = 1 then none
  else if decoding.accumulator ≠ 0 then none
  else some decoding.out

end Decoding

def decode (text : String) : Option (List UInt8) := do
  let decoding ← (utf8 text).foldlM Decoding.step Decoding.start
  decoding.finish

def symbolByte (value : ℕ) : UInt8 := (symbol value).toNat.toUInt8

theorem utf8_ofList {chars : List Char} (hascii : ∀ char ∈ chars, char.toNat < 128) :
    utf8 (String.ofList chars) = chars.map fun char => char.toNat.toUInt8 := by
  rw [utf8, String.toByteArray_ofList, utf8Encode, toList_data_toByteArray]
  induction chars with
  | nil => rfl
  | cons char chars ih =>
    have hchar : String.utf8EncodeChar char = [char.toNat.toUInt8] := by
      have hsmall : char.val.toNat ≤ 127 := Nat.le_of_lt_succ (hascii char mem_cons_self)
      rw [String.utf8EncodeChar]
      exact if_pos hsmall
    rw [flatMap_cons, map_cons, hchar, singleton_append,
      ih fun other hoth => hascii other (mem_cons_of_mem char hoth)]

theorem symbol_ascii : ∀ value, (symbol value).toNat < 128 := by
  intro value
  have hall : ∀ digit < 64, (alphabet.getD digit '=').toNat < 128 := by decide +kernel
  exact hall _ (Nat.mod_lt value (by decide))

theorem step_symbol (value : ℕ) {decoding : Decoding} (hpad : decoding.padding = 0) :
    decoding.step (symbolByte value) = some (decoding.push (value % 64)) := by
  have hall : ∀ digit < 64, isAsciiWhitespace (symbolByte digit) = false ∧
      symbolByte digit ≠ 0x3d ∧ position (symbolByte digit) = some digit := by
    decide +kernel
  have hmod : symbolByte value = symbolByte (value % 64) := by
    rw [symbolByte, symbolByte, symbol, symbol, Nat.mod_mod]
  obtain ⟨hspace, hequals, hpos⟩ := hall (value % 64) (Nat.mod_lt value (by decide))
  rw [hmod, Decoding.step, if_neg (by rw [hspace]; exact Bool.false_ne_true), if_neg hequals,
    if_neg (by rw [hpad]; exact Nat.lt_irrefl 0), hpos]
  rfl

section Blocks

variable {first second third : UInt8} {decoding : Decoding}

theorem triple_first : triple first second third / 2 ^ 18 % 64 = first.toNat / 4 := by
  have hfst := first.toNat_lt
  have hsnd := second.toNat_lt
  have hthird := third.toNat_lt
  rw [triple]
  omega

theorem triple_second :
    triple first second third / 2 ^ 12 % 64 = first.toNat % 4 * 16 + second.toNat / 16 := by
  have hsnd := second.toNat_lt
  have hthird := third.toNat_lt
  rw [triple]
  omega

theorem triple_third :
    triple first second third / 2 ^ 6 % 64 = second.toNat % 16 * 4 + third.toNat / 64 := by
  have hthird := third.toNat_lt
  rw [triple]
  omega

theorem triple_last : triple first second third % 64 = third.toNat % 64 := by
  rw [triple]
  omega

theorem push_fills {byte : UInt8} {value rest : ℕ} (hbits : 2 ≤ decoding.bits)
    (hval : decoding.accumulator * 64 + value = byte.toNat * 2 ^ (decoding.bits - 2) + rest)
    (hrest : rest < 2 ^ (decoding.bits - 2)) :
    decoding.push value =
      ⟨decoding.out ++ [byte], rest, decoding.bits - 2, decoding.symbols + 1, decoding.padding⟩ := by
  have hsub : decoding.bits + 6 - 8 = decoding.bits - 2 := by omega
  rw [Decoding.push]
  rw [if_pos (Nat.add_le_add_right hbits 6), hsub, hval]
  rw [Nat.mul_comm, Nat.mul_add_div (Nat.two_pow_pos _), Nat.div_eq_of_lt hrest, Nat.add_zero,
    Nat.mul_add_mod, Nat.mod_eq_of_lt hrest]
  rw [show byte.toNat.toUInt8 = byte from UInt8.ofNat_toNat]

theorem push_start {value : ℕ} (hclear : decoding.accumulator = 0) (hbits : decoding.bits = 0) :
    decoding.push value = ⟨decoding.out, value, 6, decoding.symbols + 1, decoding.padding⟩ := by
  rw [Decoding.push]
  rw [hbits, hclear, if_neg (by decide), Nat.zero_mul, Nat.zero_add]

theorem push_first (hclear : decoding.accumulator = 0) (hbits : decoding.bits = 0) :
    (decoding.push (triple first second third / 2 ^ 18 % 64)).push
        (triple first second third / 2 ^ 12 % 64) =
      ⟨decoding.out ++ [first], second.toNat / 16, 4, decoding.symbols + 2, decoding.padding⟩ := by
  have hsnd := second.toNat_lt
  rw [triple_first, triple_second, push_start hclear hbits]
  apply push_fills
  · change 2 ≤ 6
    decide
  · change first.toNat / 4 * 64 + _ = first.toNat * 16 + _
    omega
  · change second.toNat / 16 < 16
    omega

theorem push_second {out : List UInt8} {count padding : ℕ} :
    Decoding.push ⟨out, second.toNat / 16, 4, count, padding⟩
        (triple first second third / 2 ^ 6 % 64) =
      ⟨out ++ [second], third.toNat / 64, 2, count + 1, padding⟩ := by
  have hthird := third.toNat_lt
  rw [triple_third]
  apply push_fills
  · change 2 ≤ 4
    decide
  · change second.toNat / 16 * 64 + _ = second.toNat * 4 + _
    omega
  · change third.toNat / 64 < 4
    omega

theorem push_third {out : List UInt8} {count padding : ℕ} :
    Decoding.push ⟨out, third.toNat / 64, 2, count, padding⟩ (triple first second third % 64) =
      ⟨out ++ [third], 0, 0, count + 1, padding⟩ := by
  rw [triple_last]
  apply push_fills
  · exact Nat.le_refl 2
  · change third.toNat / 64 * 64 + _ = third.toNat * 1 + 0
    omega
  · exact Nat.one_pos

theorem step_equals (hpad : decoding.padding < 2) :
    decoding.step 0x3d = some { decoding with padding := decoding.padding + 1 } := by
  rw [Decoding.step, if_neg (by decide), if_pos rfl, if_neg (by omega)]

end Blocks

theorem foldlM_symbol (value : ℕ) (rest : List UInt8) {decoding : Decoding}
    (hpad : decoding.padding = 0) :
    (symbolByte value :: rest).foldlM Decoding.step decoding =
      rest.foldlM Decoding.step (decoding.push (value % 64)) := by
  rw [foldlM_cons, step_symbol value hpad]
  rfl

theorem foldlM_equals (rest : List UInt8) {decoding : Decoding} (hpad : decoding.padding < 2) :
    ((0x3d : UInt8) :: rest).foldlM Decoding.step decoding =
      rest.foldlM Decoding.step { decoding with padding := decoding.padding + 1 } := by
  rw [foldlM_cons, step_equals hpad]
  rfl

theorem push_padding (decoding : Decoding) (value : ℕ) :
    (decoding.push value).padding = decoding.padding := by
  rw [Decoding.push]
  split
  · rfl
  · rfl

theorem foldlM_first (first second third : UInt8) (rest out : List UInt8) (count : ℕ) :
    (symbolByte (triple first second third / 2 ^ 18) ::
        symbolByte (triple first second third / 2 ^ 12) :: rest).foldlM Decoding.step
          ⟨out, 0, 0, count, 0⟩ =
      rest.foldlM Decoding.step ⟨out ++ [first], second.toNat / 16, 4, count + 2, 0⟩ := by
  rw [foldlM_symbol _ _ rfl, foldlM_symbol _ _ (push_padding _ _), push_first rfl rfl]

theorem foldlM_second (first second third : UInt8) (rest out : List UInt8) (count : ℕ) :
    (symbolByte (triple first second third / 2 ^ 6) :: rest).foldlM Decoding.step
        ⟨out, second.toNat / 16, 4, count, 0⟩ =
      rest.foldlM Decoding.step ⟨out ++ [second], third.toNat / 64, 2, count + 1, 0⟩ := by
  rw [foldlM_symbol _ _ rfl, push_second]

theorem foldlM_third (first second third : UInt8) (rest out : List UInt8) (count : ℕ) :
    (symbolByte (triple first second third) :: rest).foldlM Decoding.step
        ⟨out, third.toNat / 64, 2, count, 0⟩ =
      rest.foldlM Decoding.step ⟨out ++ [third], 0, 0, count + 1, 0⟩ := by
  rw [foldlM_symbol _ _ rfl, push_third]

def symbolBytes (bytes : List UInt8) : List UInt8 :=
  (symbols bytes).map fun char => char.toNat.toUInt8

theorem foldlM_symbolBytes (bytes out : List UInt8) (count : ℕ) (hcnt : count % 4 = 0) :
    ((symbolBytes bytes).foldlM Decoding.step ⟨out, 0, 0, count, 0⟩).bind Decoding.finish =
      some (out ++ bytes) := by
  induction bytes using symbols.induct generalizing out count with
  | case1 =>
    change Decoding.finish ⟨out, 0, 0, count, 0⟩ = _
    rw [Decoding.finish, if_neg, if_neg, if_neg, append_nil]
    · exact not_not.mpr rfl
    · change ¬ count % 4 = 1
      omega
    · exact fun hpad => absurd hpad.1 (Nat.lt_irrefl 0)
  | case2 first =>
    change (foldlM Decoding.step _ [symbolByte _, symbolByte _, 0x3d, 0x3d]).bind _ = _
    rw [foldlM_first, foldlM_equals _ Nat.two_pos, foldlM_equals _ Nat.one_lt_two]
    change Decoding.finish ⟨out ++ [first], 0, 4, count + 2, 2⟩ = _
    rw [Decoding.finish, if_neg, if_neg, if_neg]
    · exact not_not.mpr rfl
    · change ¬ (count + 2) % 4 = 1
      omega
    intro hpad
    apply hpad.2
    change (count + 2 + 2) % 4 = 0
    omega
  | case3 first second =>
    change (foldlM Decoding.step _ [symbolByte _, symbolByte _, symbolByte _, 0x3d]).bind _ = _
    rw [foldlM_first, foldlM_second, foldlM_equals _ Nat.two_pos]
    change Decoding.finish ⟨out ++ [first] ++ [second], 0, 2, count + 3, 1⟩ = _
    rw [Decoding.finish, if_neg, if_neg, if_neg, append_assoc]
    · rfl
    · exact not_not.mpr rfl
    · change ¬ (count + 3) % 4 = 1
      omega
    intro hpad
    apply hpad.2
    change (count + 3 + 1) % 4 = 0
    omega
  | case4 first second third rest ih =>
    change (foldlM Decoding.step _
      (symbolByte _ :: symbolByte _ :: symbolByte _ :: symbolByte _ :: symbolBytes rest)).bind _ = _
    rw [foldlM_first, foldlM_second, foldlM_third, ih _ _ (by omega)]
    rw [append_assoc, append_assoc, append_assoc]
    rfl

variable (bytes : List UInt8)

theorem ascii_symbols : ∀ char ∈ symbols bytes, char.toNat < 128 := by
  induction bytes using symbols.induct with
  | case1 => simp [symbols]
  | case2 | case3 => simp [symbols, symbol_ascii]
  | case4 first second third rest ih => simpa [symbols, symbol_ascii] using ih

theorem utf8_encode : utf8 (encode bytes) = symbolBytes bytes := utf8_ofList (ascii_symbols bytes)

theorem decode_encode : decode (encode bytes) = some bytes := by
  rw [decode, utf8_encode]
  exact foldlM_symbolBytes bytes [] 0 rfl

theorem length_symbols : (symbols bytes).length = (bytes.length + 2) / 3 * 4 := by
  induction bytes using symbols.induct with
  | case1 => rfl
  | case2 | case3 => simp [symbols]
  | case4 first second third rest ih =>
    rw [symbols]
    simp only [length_cons, ih]
    omega

theorem length_utf8_encode : (utf8 (encode bytes)).length = (bytes.length + 2) / 3 * 4 := by
  rw [utf8_encode, symbolBytes, length_map, length_symbols]

end WasmAgent.Stt.Base64
