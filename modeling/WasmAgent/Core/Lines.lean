import WasmAgent.Core.Reading

/-!
# Byte strings as lines

A byte string split at its line ends.  Texts without a line end, each ended by one, are
the lines of the string they make up, and nothing is left over.
-/

namespace WasmAgent.Core

open List

def newline : UInt8 := 0x0a

/-- The lines that are ended, and what follows the last line end. -/
def splitLines : List UInt8 → List (List UInt8) × List UInt8
  | [] => ([], [])
  | byte :: bytes =>
      if byte = newline then
        ([] :: (splitLines bytes).1, (splitLines bytes).2)
      else
        match splitLines bytes with
        | ([], rest) => ([], byte :: rest)
        | (line :: lines, rest) => ((byte :: line) :: lines, rest)

theorem splitLines_line {line : List UInt8} (bytes : List UInt8) (hline : newline ∉ line) :
    splitLines (line ++ newline :: bytes) =
      (line :: (splitLines bytes).1, (splitLines bytes).2) := by
  induction line with
  | nil => exact if_pos rfl
  | cons byte line ih =>
    have hbyte : byte ≠ newline := fun hsame => hline (hsame ▸ mem_cons_self)
    rw [cons_append, splitLines, if_neg hbyte, ih fun hmem => hline (mem_cons_of_mem _ hmem)]

theorem splitLines_append {first : List UInt8} (second : List UInt8)
    (hended : (splitLines first).2 = []) :
    splitLines (first ++ second) =
      ((splitLines first).1 ++ (splitLines second).1, (splitLines second).2) := by
  induction first with
  | nil => rfl
  | cons byte first ih =>
    rw [cons_append]
    simp only [splitLines] at hended ⊢
    by_cases hbyte : byte = newline
    · rw [if_pos hbyte] at hended
      rw [if_pos hbyte, if_pos hbyte, ih hended]
      rfl
    rw [if_neg hbyte] at hended
    rw [if_neg hbyte, if_neg hbyte]
    cases hspl : splitLines first with
    | mk lines rest =>
      rw [hspl] at hended ih
      cases lines with
      | nil => cases hended
      | cons line lines =>
        rw [ih hended]
        rfl

section Text

/-- No line end. -/
def Unbroken (text : String) : Prop := '\n' ∉ text.toList

instance (text : String) : Decidable (Unbroken text) :=
  inferInstanceAs (Decidable ('\n' ∉ text.toList))

@[simp]
theorem unbroken_append {first second : String} :
    Unbroken (first ++ second) ↔ Unbroken first ∧ Unbroken second := by
  rw [Unbroken, String.toList_append, mem_append, not_or]
  rfl

theorem unbroken_ofList {chars : List Char} (hchars : '\n' ∉ chars) :
    Unbroken (String.ofList chars) := by
  rwa [Unbroken, String.toList_ofList]

theorem newline_not_mem_encode {ch : Char} (hch : ch ≠ '\n') :
    newline ∉ String.utf8EncodeChar ch := by
  have hsmall : ∀ value low : ℕ, 0x80 ≤ low → value + low < 0x100 →
      newline ≠ UInt8.ofNat (value + low) := by
    intro value low hlow hbound hsame
    have hnat := congrArg UInt8.toNat hsame
    rw [UInt8.toNat_ofNat', Nat.mod_eq_of_lt hbound] at hnat
    change 10 = value + low at hnat
    omega
  rw [String.utf8EncodeChar]
  split
  · next hone =>
    intro hmem
    apply hch
    have hnat := congrArg UInt8.toNat (mem_singleton.mp hmem)
    rw [UInt8.toNat_ofNat', Nat.mod_eq_of_lt (by omega)] at hnat
    apply Char.ext
    apply UInt32.toNat.inj
    exact hnat.symm
  split
  · next htwo =>
    intro hmem
    simp only [mem_cons, not_mem_nil, or_false] at hmem
    rcases hmem with h | h
    · exact hsmall _ _ (by decide) (by omega) h
    · exact hsmall _ _ (by decide) (by omega) h
  split
  · next hthree =>
    intro hmem
    simp only [mem_cons, not_mem_nil, or_false] at hmem
    rcases hmem with h | h | h
    · exact hsmall _ _ (by decide) (by omega) h
    · exact hsmall _ _ (by decide) (by omega) h
    · exact hsmall _ _ (by decide) (by omega) h
  intro hmem
  simp only [mem_cons, not_mem_nil, or_false] at hmem
  rcases hmem with h | h | h | h
  · exact hsmall _ _ (by decide) (by omega) h
  · exact hsmall _ _ (by decide) (by omega) h
  · exact hsmall _ _ (by decide) (by omega) h
  · exact hsmall _ _ (by decide) (by omega) h

theorem newline_not_mem_utf8 {text : String} (htext : Unbroken text) : newline ∉ utf8 text := by
  rw [← @String.ofList_toList text, utf8_ofList, mem_flatMap]
  rintro ⟨ch, hch, hmem⟩
  apply newline_not_mem_encode _ hmem
  intro hsame
  exact htext (hsame ▸ hch)

end Text

end WasmAgent.Core
