import Mathlib.Data.List.Basic
import Mathlib.Data.List.TakeWhile

/-!
# Compact JSON text

Numbers and strings as compact JSON writes them, and a scanner that reads them back.
A scanner takes a prefix of the characters it is given; what a printer wrote is read
back in front of any text that does not go on with the same token.
-/

namespace WasmAgent.Core

open List Option

/-- A scanner of characters. -/
abbrev Scan := StateT (List Char) Option

namespace Scan

variable {Value Next : Type}

theorem bind_of {scan : Scan Value} {next : Value → Scan Next} {input rest : List Char}
    {value : Value} (hscan : scan input = some (value, rest)) :
    (scan >>= next) input = next value rest := by
  change (scan input).bind (fun taken => next taken.1 taken.2) = _
  rw [hscan]
  rfl

/-- The given characters. -/
def literal (text : List Char) : Scan Unit := fun input =>
  if text.isPrefixOf input then some ((), input.drop text.length) else none

theorem literal_append (text rest : List Char) : literal text (text ++ rest) = some ((), rest) := by
  rw [literal, if_pos, drop_left]
  exact isPrefixOf_iff_prefix.mpr (prefix_append text rest)

/-- One of two readings, told apart by how the text begins. -/
def orElse (text : List Char) (found other : Scan Value) : Scan Value := fun input =>
  if text.isPrefixOf input then found (input.drop text.length) else other input

theorem orElse_append (text rest : List Char) (found other : Scan Value) :
    orElse text found other (text ++ rest) = found rest := by
  rw [orElse, if_pos, drop_left]
  exact isPrefixOf_iff_prefix.mpr (prefix_append text rest)

theorem orElse_other {first char : Char} (hoth : first ≠ char) (text rest : List Char)
    (found other : Scan Value) :
    orElse (first :: text) found other (char :: rest) = other (char :: rest) := by
  rw [orElse, if_neg]
  intro hstas
  rw [isPrefixOf_cons_cons, Bool.and_eq_true, beq_iff_eq] at hstas
  exact hoth hstas.1

/-- All of a text. -/
def whole (scan : Scan Value) (input : List Char) : Option Value :=
  match scan input with
  | some (value, []) => some value
  | some (_, _ :: _) => none
  | none => none

theorem whole_of {scan : Scan Value} {input : List Char} {value : Value}
    (hscan : scan input = some (value, [])) : scan.whole input = some value := by
  rw [whole, hscan]

end Scan

section Numbers

def printNumber (value : ℕ) : List Char := Nat.toDigits 10 value

def EndsNumber (rest : List Char) : Prop := ∀ char ∈ rest.head?, char.isDigit = false

theorem endsNumber_cons {char : Char} (hchar : char.isDigit = false) (rest : List Char) :
    EndsNumber (char :: rest) := by
  intro other hoth
  cases hoth
  exact hchar

/-- The digits that come next, as a number below a bound. -/
def scanNumber (accepts : ℕ → Bool) : Scan ℕ := fun input =>
  let digits := input.takeWhile Char.isDigit
  if digits ≠ [] ∧ accepts (Nat.ofDigitChars 10 digits 0) then
    some (Nat.ofDigitChars 10 digits 0, input.dropWhile Char.isDigit)
  else
    none

theorem scanNumber_printNumber {accepts : ℕ → Bool} {value : ℕ} (haccs : accepts value = true)
    {rest : List Char} (hends : EndsNumber rest) :
    scanNumber accepts (printNumber value ++ rest) = some (value, rest) := by
  have hdig : ∀ char ∈ Nat.toDigits 10 value, char.isDigit = true := by
    intro char hchar
    exact Nat.isDigit_of_mem_toDigits (by decide) (by decide) hchar
  have hrest : rest.takeWhile Char.isDigit = [] ∧ rest.dropWhile Char.isDigit = rest := by
    cases rest with
    | nil => exact ⟨rfl, rfl⟩
    | cons char rest =>
      have hchar := hends char rfl
      rw [takeWhile_cons, dropWhile_cons, hchar]
      exact ⟨rfl, rfl⟩
  have hval : Nat.ofDigitChars 10 (Nat.toDigits 10 value) 0 = value := Nat.ofDigitChars_ten_toDigits
  rw [scanNumber, printNumber, takeWhile_append_of_pos hdig, hrest.1, append_nil,
    dropWhile_append_of_pos hdig, hrest.2]
  rw [hval, if_pos ⟨Nat.toDigits_ne_nil, haccs⟩]

end Numbers

section Strings

def shortEscapes : List (Char × Char) :=
  [('"', '"'), ('\\', '\\'), ('\x08', 'b'), ('\t', 't'), ('\n', 'n'), ('\x0c', 'f'), ('\x0d', 'r')]

/-- A character of a string, escaped where it must be. -/
def escape (char : Char) : List Char :=
  match shortEscapes.lookup char with
  | some letter => ['\\', letter]
  | none =>
      if char.toNat < 0x20 then
        ['\\', 'u', '0', '0', Nat.digitChar (char.toNat / 16), Nat.digitChar (char.toNat % 16)]
      else
        [char]

def hexDigit (char : Char) : Option ℕ :=
  if char.isDigit then some (char.toNat - 0x30)
  else if 0x61 ≤ char.toNat ∧ char.toNat ≤ 0x66 then some (char.toNat - 0x57)
  else if 0x41 ≤ char.toNat ∧ char.toNat ≤ 0x46 then some (char.toNat - 0x37)
  else none

/-- Four hex digits; those of a surrogate name no character of their own. -/
def scanHex : Scan Char
  | a :: b :: c :: d :: rest => do
      let a ← hexDigit a
      let b ← hexDigit b
      let c ← hexDigit c
      let d ← hexDigit d
      let code := ((a * 16 + b) * 16 + c) * 16 + d
      if 0xd800 ≤ code ∧ code ≤ 0xdfff then none else some (Char.ofNat code, rest)
  | _ => none

def scanEscape : Scan Char
  | 'u' :: rest => scanHex rest
  | letter :: rest =>
      match (('/', '/') :: shortEscapes).find? (fun entry => entry.2 == letter) with
      | some entry => some (entry.1, rest)
      | none => none
  | [] => none

def scanChar : Scan Char
  | [] => none
  | char :: rest =>
      if char = '\\' then scanEscape rest
      else if char.toNat < 0x20 then none
      else some (char, rest)

/-- What is left of a string, up to its closing quote. -/
def scanChars : ℕ → Scan (List Char)
  | 0, _ => none
  | _ + 1, [] => none
  | steps + 1, char :: rest =>
      if char = '"' then some ([], rest)
      else
        match scanChar (char :: rest) with
        | none => none
        | some (found, rest) => (scanChars steps rest).map (fun taken => (found :: taken.1, taken.2))

def printString (text : String) : List Char := '"' :: (text.toList.flatMap escape ++ ['"'])

def scanString : Scan String
  | '"' :: rest => (scanChars (rest.length + 1) rest).map (fun taken => (String.ofList taken.1, taken.2))
  | _ => none

theorem scanEscape_short {entry : Char × Char} (hent : entry ∈ shortEscapes)
    (rest : List Char) : scanEscape (entry.2 :: rest) = some (entry.1, rest) := by
  rw [shortEscapes] at hent
  simp only [mem_cons, not_mem_nil, or_false] at hent
  rcases hent with rfl | rfl | rfl | rfl | rfl | rfl | rfl <;> rfl

theorem hexDigit_digitChar : ∀ digit < 16, hexDigit (Nat.digitChar digit) = some digit := by
  decide

theorem scanHex_control {char : Char} (hcon : char.toNat < 0x20) (rest : List Char) :
    scanHex ('0' :: '0' :: Nat.digitChar (char.toNat / 16) :: Nat.digitChar (char.toNat % 16) ::
      rest) = some (char, rest) := by
  have hhigh := hexDigit_digitChar (char.toNat / 16) (by omega)
  have hlow := hexDigit_digitChar (char.toNat % 16) (by omega)
  have hzero : hexDigit '0' = some 0 := rfl
  have hcode : ((0 * 16 + 0) * 16 + char.toNat / 16) * 16 + char.toNat % 16 = char.toNat := by
    omega
  rw [scanHex, hzero, hhigh, hlow]
  change (if 0xd800 ≤ ((0 * 16 + 0) * 16 + char.toNat / 16) * 16 + char.toNat % 16 ∧ _ then none
    else some (Char.ofNat _, rest)) = _
  rw [hcode, Char.ofNat_toNat, if_neg]
  omega

theorem scanChar_escape (char : Char) (rest : List Char) :
    scanChar (escape char ++ rest) = some (char, rest) := by
  rw [escape]
  cases hlook : shortEscapes.lookup char with
  | some letter =>
    obtain ⟨before, after, hspl, -⟩ := lookup_eq_some_iff.mp hlook
    have hent : (char, letter) ∈ shortEscapes := by
      rw [hspl]
      exact mem_append_right before mem_cons_self
    exact scanEscape_short hent rest
  | none =>
    dsimp only
    split
    · next hcon => exact scanHex_control hcon rest
    rename_i hpln
    have hslash : char ≠ '\\' := by
      rintro rfl
      cases hlook
    rw [singleton_append, scanChar, if_neg hslash, if_neg hpln]

theorem escape_cons (char : Char) : ∃ first rest, escape char = first :: rest ∧ first ≠ '"' := by
  rw [escape]
  cases hlook : shortEscapes.lookup char with
  | some letter => exact ⟨'\\', [letter], rfl, by decide⟩
  | none =>
    dsimp only
    split
    · exact ⟨'\\', _, rfl, by decide⟩
    · refine ⟨char, [], rfl, ?_⟩
      rintro rfl
      cases hlook

theorem scanChars_escapes (chars rest : List Char) (steps : ℕ) (hstps : chars.length < steps) :
    scanChars steps (chars.flatMap escape ++ '"' :: rest) = some (chars, rest) := by
  induction chars generalizing steps with
  | nil =>
    obtain ⟨steps, rfl⟩ := Nat.exists_eq_add_of_lt hstps
    rfl
  | cons char chars ih =>
    cases steps with
    | zero => exact absurd hstps (Nat.not_lt_zero _)
    | succ steps =>
      obtain ⟨first, more, hesc, hfst⟩ := escape_cons char
      have hchar := scanChar_escape char (chars.flatMap escape ++ '"' :: rest)
      rw [flatMap_cons, append_assoc]
      rw [hesc] at hchar ⊢
      rw [cons_append] at hchar ⊢
      rw [scanChars, if_neg hfst, hchar]
      dsimp only
      rw [ih steps (Nat.lt_of_succ_lt_succ hstps)]
      rfl

theorem length_le_escapes (chars : List Char) : chars.length ≤ (chars.flatMap escape).length := by
  induction chars with
  | nil => exact Nat.le_refl 0
  | cons char chars ih =>
    obtain ⟨first, more, hesc, -⟩ := escape_cons char
    rw [flatMap_cons, hesc, length_append, length_cons, length_cons]
    omega

theorem scanString_printString (text : String) (rest : List Char) :
    scanString (printString text ++ rest) = some (text, rest) := by
  have hlong := length_le_escapes text.toList
  change (scanChars _ ((text.toList.flatMap escape ++ ['"']) ++ rest)).map _ = _
  rw [append_assoc, singleton_append, scanChars_escapes, map_some, String.ofList_toList]
  change _ < (text.toList.flatMap escape ++ ['"'] ++ rest).length + 1
  rw [length_append, length_append]
  omega

end Strings

section Objects

variable {Value Next : Type} {scan : Scan Value} {text rest : List Char} {value : Value}

/-- The value is read back from its text, in front of anything but another digit. -/
def Scans (scan : Scan Value) (text : List Char) (value : Value) : Prop :=
  ∀ rest, EndsNumber rest → scan (text ++ rest) = some (value, rest)

theorem Scans.whole (hscans : Scans scan text value) : scan.whole text = some value := by
  have hscan := hscans [] (fun _ hnone => nomatch hnone)
  rw [append_nil] at hscan
  exact Scan.whole_of hscan

theorem scans_number {accepts : ℕ → Bool} {number : ℕ} (haccs : accepts number = true) :
    Scans (scanNumber accepts) (printNumber number) number := by
  intro rest hends
  exact scanNumber_printNumber haccs hends

theorem scans_string (text : String) : Scans scanString (printString text) text := by
  intro rest _
  exact scanString_printString text rest

theorem Scans.map (hscans : Scans scan text value) (map : Value → Next) :
    Scans (map <$> scan) text (map value) := by
  intro rest hends
  change (scan (text ++ rest)).bind (fun taken => some (map taken.1, taken.2)) = _
  rw [hscans rest hends]
  rfl

def StartsOther (rest : List Char) : Prop := ∃ char more, rest = char :: more ∧ char.isDigit = false

theorem StartsOther.endsNumber (hstas : StartsOther rest) (more : List Char) :
    EndsNumber (rest ++ more) := by
  obtain ⟨char, tail, rfl, hchar⟩ := hstas
  exact endsNumber_cons hchar (tail ++ more)

def fieldName (name : String) : List Char := '"' :: (name.toList ++ ['"', ':'])

/-- One field of an object, behind the brace or the comma before it, and what follows. -/
def printField (opening : Char) (name : String) (text rest : List Char) : List Char :=
  opening :: (fieldName name ++ (text ++ rest))

def scanField (opening : Char) (name : String) (scan : Scan Value) : Scan Value := do
  Scan.literal (opening :: fieldName name)
  scan

def scanClose (value : Value) : Scan Value := do
  Scan.literal ['}']
  return value

theorem scans_close : Scans (scanClose value) ['}'] value := by
  intro rest _
  exact Scan.bind_of (Scan.literal_append ['}'] rest)

theorem starts_close : StartsOther ['}'] := ⟨'}', [], rfl, rfl⟩

theorem starts_field {opening : Char} (hopen : opening.isDigit = false) (name : String) :
    StartsOther (printField opening name text rest) :=
  ⟨opening, _, rfl, hopen⟩

theorem Scans.field {next : Value → Scan Next} {whole : Next} {opening : Char} {name : String}
    (hval : Scans scan text value) (hrest : Scans (next value) rest whole)
    (hstas : StartsOther rest) :
    Scans (scanField opening name scan >>= next) (printField opening name text rest) whole := by
  intro more hends
  have hopen : scanField opening name scan (printField opening name text rest ++ more) =
      some (value, rest ++ more) := by
    change (Scan.literal (opening :: fieldName name) >>= fun _ => scan)
      ((opening :: fieldName name) ++ (text ++ rest) ++ more) = _
    rw [append_assoc, Scan.bind_of (Scan.literal_append _ _), append_assoc]
    exact hval _ (hstas.endsNumber more)
  rw [Scan.bind_of hopen]
  exact hrest more hends

end Objects

section Cuts

variable {Value Next : Type} {scan : Scan Value} {text rest : List Char} {value : Value}

/-- What is read of a text cut short is read up to the cut. -/
def Breaks (scan : Scan Value) (text : List Char) : Prop :=
  ∀ count < text.length, ∀ value left, scan (text.take count) = some (value, left) → left = []

/-- Nothing is read of a text cut short. -/
def Stalls (scan : Scan Value) (text : List Char) : Prop :=
  ∀ count < text.length, scan (text.take count) = none

theorem Stalls.breaks (hstal : Stalls scan text) : Breaks scan text := by
  intro count hcnt value left hscan
  rw [hstal count hcnt] at hscan
  cases hscan

variable {count : ℕ}

theorem Stalls.whole (hstal : Stalls scan text) (hcnt : count < text.length) :
    scan.whole (text.take count) = none := by
  rw [Scan.whole, hstal count hcnt]

theorem Breaks.map (hbreaks : Breaks scan text) (map : Value → Next) :
    Breaks (map <$> scan) text := by
  intro count hcnt value left hscan
  change (scan (text.take count)).bind (fun taken => some (map taken.1, taken.2)) = _ at hscan
  obtain ⟨taken, htkn, hval⟩ := bind_eq_some_iff.mp hscan
  cases hval
  exact hbreaks count hcnt taken.1 taken.2 htkn

theorem breaks_number (accepts : ℕ → Bool) (number : ℕ) :
    Breaks (scanNumber accepts) (printNumber number) := by
  intro count _ value left hscan
  rw [scanNumber] at hscan
  split at hscan
  · cases hscan
    rw [dropWhile_eq_nil_iff]
    intro char hchar
    exact Nat.isDigit_of_mem_toDigits (by decide) (by decide) (mem_of_mem_take hchar)
  · cases hscan

theorem scanChar_cut {char : Char} (hcnt : count < (escape char).length) :
    scanChar ((escape char).take count) = none := by
  rw [escape] at hcnt ⊢
  cases hlook : shortEscapes.lookup char with
  | some letter =>
    rw [hlook] at hcnt
    dsimp only at hcnt ⊢
    match count, hcnt with
    | 0, _ => rfl
    | 1, _ => rfl
  | none =>
    rw [hlook] at hcnt
    dsimp only at hcnt ⊢
    split at hcnt
    · next hcon =>
      rw [if_pos hcon]
      match count, hcnt with
      | 0, _ => rfl
      | 1, _ => rfl
      | 2, _ => rfl
      | 3, _ => rfl
      | 4, _ => rfl
      | 5, _ => rfl
    rename_i hpln
    rw [if_neg hpln]
    match count, hcnt with
    | 0, _ => rfl

theorem scanChars_cut (chars : List Char)
    (hcnt : count ≤ (chars.flatMap escape).length) (steps : ℕ) :
    scanChars steps ((chars.flatMap escape).take count) = none := by
  induction chars generalizing count steps with
  | nil =>
    rw [flatMap_nil, take_nil]
    cases steps <;> rfl
  | cons char chars ih =>
    cases steps with
    | zero => rfl
    | succ steps =>
      obtain ⟨first, more, hesc, hfst⟩ := escape_cons char
      rw [flatMap_cons, take_append]
      rw [flatMap_cons, length_append] at hcnt
      rcases Nat.lt_or_ge count (escape char).length with hins | hpast
      · rw [Nat.sub_eq_zero_of_le (Nat.le_of_lt hins), take_zero, append_nil]
        have hcut := scanChar_cut hins
        cases count with
        | zero => rfl
        | succ count =>
          rw [hesc, take_succ_cons] at hcut ⊢
          rw [scanChars, if_neg hfst, hcut]
      have hchar := scanChar_escape char
        ((chars.flatMap escape).take (count - (escape char).length))
      rw [take_of_length_le hpast]
      rw [hesc, cons_append] at hchar ⊢
      rw [scanChars, if_neg hfst, hchar, ← hesc]
      dsimp only
      rw [ih (by omega)]
      rfl

theorem stalls_string (text : String) : Stalls scanString (printString text) := by
  intro count hcnt
  cases count with
  | zero => rfl
  | succ count =>
    rw [printString, length_cons, length_append] at hcnt
    have hins : count ≤ (text.toList.flatMap escape).length := by
      rw [length_singleton] at hcnt
      omega
    rw [printString, take_succ_cons, take_append_of_le_length hins, scanString,
      scanChars_cut _ hins]
    rfl

theorem literal_cut (hcnt : count < text.length) : Scan.literal text (text.take count) = none := by
  rw [Scan.literal, if_neg]
  intro hstas
  have hlong := ( isPrefixOf_iff_prefix.mp hstas).length_le
  rw [length_take] at hlong
  omega

theorem stalls_close : Stalls (scanClose value) ['}'] := by
  intro count hcnt
  cases count with
  | zero => rfl
  | succ count => exact absurd hcnt (by simp)

variable {next : Value → Scan Next}

theorem Scan.bind_none {input : List Char} (hscan : scan input = none) :
    (scan >>= next) input = none := by
  change (scan input).bind (fun taken => next taken.1 taken.2) = _
  rw [hscan]
  rfl

/-- Nothing more is read where nothing is left. -/
theorem scanField_nil {opening : Char} {name : String} :
    (scanField opening name scan >>= next) [] = none :=
  Scan.bind_none rfl

theorem Stalls.field {opening : Char} {name : String}
    (hval : Scans scan text value) (hbreaks : Breaks scan text) (hstas : StartsOther rest)
    (hnone : ∀ other, next other [] = none) (hrest : Stalls (next value) rest) :
    Stalls (scanField opening name scan >>= next) (printField opening name text rest) := by
  intro count hcnt
  change count < ((opening :: fieldName name) ++ (text ++ rest)).length at hcnt
  change (scanField opening name scan >>= next)
    (((opening :: fieldName name) ++ (text ++ rest)).take count) = none
  rw [length_append, length_append] at hcnt
  rw [take_append]
  rcases Nat.lt_or_ge count (opening :: fieldName name).length with hname | hname
  · rw [Nat.sub_eq_zero_of_le (Nat.le_of_lt hname), take_zero, append_nil]
    apply Scan.bind_none
    exact Scan.bind_none (literal_cut hname)
  rw [take_of_length_le hname]
  have hopen : ∀ input, scanField opening name scan ((opening :: fieldName name) ++ input) =
      scan input := fun input => Scan.bind_of (Scan.literal_append _ input)
  rw [take_append]
  rcases Nat.lt_or_ge (count - (opening :: fieldName name).length) text.length with hin | hpast
  · rw [Nat.sub_eq_zero_of_le (Nat.le_of_lt hin), take_zero, append_nil]
    cases hscan : scan (text.take (count - (opening :: fieldName name).length)) with
    | none => exact Scan.bind_none ((hopen _).trans hscan)
    | some taken =>
      have hlt := hbreaks _ hin taken.1 taken.2 hscan
      rw [Scan.bind_of ((hopen _).trans hscan), hlt]
      exact hnone taken.1
  rw [take_of_length_le hpast]
  have hends : EndsNumber (rest.take
      (count - (opening :: fieldName name).length - text.length)) := by
    obtain ⟨char, more, rfl, hchar⟩ := hstas
    cases count - (opening :: fieldName name).length - text.length with
    | zero => exact fun _ hmem => nomatch hmem
    | succ left => exact endsNumber_cons hchar _
  rw [Scan.bind_of ((hopen _).trans (hval _ hends))]
  exact hrest _ (by omega)

end Cuts

end WasmAgent.Core
