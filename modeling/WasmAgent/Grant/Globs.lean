import WasmAgent.Grant.Policy

/-!
# The language of a pattern

A star stands for any text and another character for itself.  The matcher, which goes back to its
last star only, accepts exactly this language, in a number of steps that is known beforehand.
-/

namespace WasmAgent.Grant

open List Option

inductive Stands : List Char → List Char → Prop where
  | nil : Stands [] []
  | char {char : Char} {raw text : List Char} (hchar : char ≠ '*') (hrest : Stands raw text) :
      Stands (char :: raw) (char :: text)
  | star {raw text : List Char} (skipped : List Char) (hrest : Stands raw text) :
      Stands ('*' :: raw) (skipped ++ text)

inductive Spells : List Tok → List Char → Prop where
  | nil : Spells [] []
  | lit {tokens : List Tok} {text : List Char} (chars : List Char) (hrest : Spells tokens text) :
      Spells (.lit chars :: tokens) (chars ++ text)
  | star {tokens : List Tok} {text : List Char} (skipped : List Char) (hrest : Spells tokens text) :
      Spells (.star :: tokens) (skipped ++ text)

variable {raw : List Char}

section Spelling

variable {tokens more : List Tok} {text lit : List Char}

@[simp]
theorem spells_nil : Spells [] text ↔ text = [] :=
  ⟨fun hspls => by cases hspls; rfl, fun hnil => hnil ▸ .nil⟩

theorem spells_lit : Spells (.lit lit :: tokens) text ↔ ∃ rest, text = lit ++ rest ∧ Spells tokens rest := by
  constructor
  · intro hspls
    cases hspls with
    | lit _ hrest => exact ⟨_, rfl, hrest⟩
  · rintro ⟨rest, rfl, hrest⟩
    exact .lit lit hrest

theorem spells_star :
    Spells (.star :: tokens) text ↔ ∃ skipped rest, text = skipped ++ rest ∧ Spells tokens rest := by
  constructor
  · intro hspls
    cases hspls with
    | star skipped hrest => exact ⟨skipped, _, rfl, hrest⟩
  · rintro ⟨skipped, rest, rfl, hrest⟩
    exact .star skipped hrest

theorem spells_append :
    Spells (tokens ++ more) text ↔
      ∃ before rest, text = before ++ rest ∧ Spells tokens before ∧ Spells more rest := by
  constructor
  · intro hspls
    induction tokens generalizing text with
    | nil => exact ⟨[], text, rfl, .nil, hspls⟩
    | cons token tokens ih =>
      cases hspls with
      | lit chars hrest =>
        obtain ⟨before, rest, rfl, hbef, hrest⟩ := ih hrest
        exact ⟨chars ++ before, rest, (append_assoc _ _ _).symm, .lit chars hbef, hrest⟩
      | star skipped hrest =>
        obtain ⟨before, rest, rfl, hbef, hrest⟩ := ih hrest
        exact ⟨skipped ++ before, rest, (append_assoc _ _ _).symm, .star skipped hbef, hrest⟩
  rintro ⟨before, rest, rfl, hbef, hrest⟩
  induction hbef with
  | nil => exact hrest
  | lit chars _ ih => exact append_assoc _ _ _ ▸ .lit chars ih
  | star skipped _ ih => exact append_assoc _ _ _ ▸ .star skipped ih

theorem spells_push_lit :
    Spells (if lit.isEmpty then tokens else tokens ++ [.lit lit]) text ↔
      ∃ before, text = before ++ lit ∧ Spells tokens before := by
  cases lit with
  | nil => simp
  | cons char lit => simp [spells_append, spells_lit, and_comm]

theorem spells_push_star :
    Spells (if tokens.getLast? = some .star then tokens else tokens ++ [.star]) text ↔
      ∃ before skipped, text = before ++ skipped ∧ Spells tokens before := by
  split
  · next hlast =>
    constructor
    · exact fun hspls => ⟨text, [], (append_nil _).symm, hspls⟩
    rintro ⟨before, skipped, rfl, hbef⟩
    obtain ⟨first, rfl⟩ := getLast?_eq_some_iff.mp hlast
    obtain ⟨early, late, rfl, hely, hlate⟩ := spells_append.mp hbef
    rw [append_assoc]
    exact spells_append.mpr ⟨early, late ++ skipped, rfl, hely,
      spells_star.mpr ⟨late ++ skipped, [], (append_nil _).symm, .nil⟩⟩
  · simp [spells_append, spells_star, and_comm]

theorem stands_star :
    Stands ('*' :: raw) text ↔ ∃ skipped rest, text = skipped ++ rest ∧ Stands raw rest := by
  constructor
  · intro hstds
    cases hstds with
    | char hchar => exact absurd rfl hchar
    | star skipped hrest => exact ⟨skipped, _, rfl, hrest⟩
  · rintro ⟨skipped, rest, rfl, hrest⟩
    exact .star skipped hrest

theorem stands_plain {plain raw : List Char} (hpln : '*' ∉ plain) :
    Stands (plain ++ raw) text ↔ ∃ rest, text = plain ++ rest ∧ Stands raw rest := by
  induction plain generalizing text with
  | nil => simp
  | cons char plain ih =>
    rw [mem_cons, not_or] at hpln
    constructor
    · intro hstds
      cases hstds with
      | char _ hrest =>
        obtain ⟨rest, rfl, hraw⟩ := (ih hpln.2).mp hrest
        exact ⟨rest, rfl, hraw⟩
      | star => exact absurd rfl hpln.1
    · rintro ⟨rest, rfl, hraw⟩
      exact .char (Ne.symm hpln.1) ((ih hpln.2).mpr ⟨rest, rfl, hraw⟩)

theorem spells_globTokens :
    Spells (Pattern.globTokens raw tokens lit) text ↔
      ∃ before rest, text = before ++ lit ++ rest ∧ Spells tokens before ∧ Stands raw rest := by
  induction raw generalizing tokens lit text with
  | nil =>
    rw [Pattern.globTokens, spells_push_lit]
    constructor
    · rintro ⟨before, rfl, hbef⟩
      exact ⟨before, [], (append_nil _).symm, hbef, .nil⟩
    · rintro ⟨before, rest, rfl, hbef, hrest⟩
      cases hrest
      exact ⟨before, append_nil _, hbef⟩
  | cons char raw ih =>
    rw [Pattern.globTokens]
    by_cases hstar : char = '*'
    · rw [if_pos hstar, ih, hstar]
      constructor
      · rintro ⟨before, rest, rfl, hbef, hrest⟩
        obtain ⟨early, skipped, rfl, hely⟩ := spells_push_star.mp hbef
        obtain ⟨first, rfl, hfst⟩ := spells_push_lit.mp hely
        refine ⟨first, skipped ++ rest, ?_, hfst, .star skipped hrest⟩
        rw [append_nil, append_assoc]
      rintro ⟨before, rest, rfl, hbef, hrest⟩
      obtain ⟨skipped, last, rfl, hlast⟩ := stands_star.mp hrest
      refine ⟨before ++ lit ++ skipped, last, ?_, ?_, hlast⟩
      · simp
      · exact spells_push_star.mpr ⟨_, skipped, rfl, spells_push_lit.mpr ⟨before, rfl, hbef⟩⟩
    rw [if_neg hstar, ih]
    constructor
    · rintro ⟨before, rest, rfl, hbef, hrest⟩
      exact ⟨before, char :: rest, by simp, hbef, .char hstar hrest⟩
    rintro ⟨before, rest, rfl, hbef, hrest⟩
    cases hrest with
    | char _ hrest => exact ⟨before, _, by simp, hbef, hrest⟩
    | star => exact absurd rfl hstar

end Spelling

section Matching

variable {tokens : List Tok} {text : List Char} {star : Option (List Tok × List Char)}

/-- The literals since the last star account for the text since then, whatever it is. -/
def Linked (star : Option (List Tok × List Char)) (tokens : List Tok) (text : List Char) : Prop :=
  ∀ after start, star = some (after, start) → ∃ lits passed, after = lits ++ tokens ∧
    start = passed ++ text ∧ ∀ spelled, Spells lits spelled → spelled.length = passed.length

/-- The last star may stand for more. -/
def Again (star : Option (List Tok × List Char)) : Prop :=
  ∃ after skipped rest, star = some (after, skipped ++ rest) ∧ skipped ≠ [] ∧ Spells after rest

theorem linked_self (tokens : List Tok) (text : List Char) :
    Linked (some (tokens, text)) tokens text := by
  rintro _ _ ⟨⟩
  exact ⟨[], [], rfl, rfl, by simp⟩

theorem Linked.again (hlin : Linked star tokens text) (hagain : Again star) :
    ∃ skipped rest, skipped ≠ [] ∧ text = skipped ++ rest ∧ Spells tokens rest := by
  obtain ⟨after, skipped, rest, hstar, hskip, hspls⟩ := hagain
  obtain ⟨lits, passed, rfl, hsta, hlen⟩ := hlin _ _ hstar
  obtain ⟨before, last, rfl, hbef, hlast⟩ := spells_append.mp hspls
  have hsame := hlen before hbef
  have hspl : (skipped ++ before) ++ last = passed ++ text := by
    rw [append_assoc, hsta]
  obtain ⟨more, hmore, htext⟩ | ⟨more, hmore, htext⟩ := append_eq_append_iff.mp hspl
  · have hle := congrArg length hmore
    rw [length_append, length_append] at hle
    have hnone : skipped.length = 0 := by omega
    exact absurd (length_eq_zero_iff.mp hnone) hskip
  refine ⟨more, last, ?_, htext, hlast⟩
  rintro rfl
  have hle := congrArg length hmore
  rw [length_append, append_nil, hsame] at hle
  have hnone : skipped.length = 0 := by omega
  exact absurd (length_eq_zero_iff.mp hnone) hskip

theorem linked_lit {lit rest : List Char} (hlin : Linked star (.lit lit :: tokens) (lit ++ rest)) :
    Linked star tokens rest := by
  intro after start hstar
  obtain ⟨lits, passed, rfl, rfl, hlen⟩ := hlin after start hstar
  refine ⟨lits ++ [.lit lit], passed ++ lit, by simp, by simp, ?_⟩
  intro spelled hspel
  obtain ⟨before, last, rfl, hbef, hlast⟩ := spells_append.mp hspel
  obtain ⟨_, rfl, hnil⟩ := spells_lit.mp hlast
  rw [spells_nil.mp hnil, append_nil, length_append, length_append, hlen before hbef]

theorem spells_stars (hsolid : .lit [] ∉ tokens) :
    (tokens.dropWhile (· = .star)).isEmpty = true ↔ Spells tokens [] := by
  induction tokens with
  | nil => exact iff_of_true rfl .nil
  | cons token tokens ih =>
    cases token with
    | star => simpa [spells_star] using ih (fun hmem => hsolid (mem_cons_of_mem _ hmem))
    | lit lit =>
      apply iff_of_false Bool.false_ne_true
      intro hspls
      obtain ⟨rest, hemp, _⟩ := spells_lit.mp hspls
      rw [(append_eq_nil_iff.mp hemp.symm).1] at hsolid
      exact hsolid mem_cons_self

theorem solid_globTokens {lit : List Char} (hsolid : .lit [] ∉ tokens) :
    .lit [] ∉ Pattern.globTokens raw tokens lit := by
  have hpush {tokens : List Tok} {lit : List Char} (hsolid : .lit [] ∉ tokens) :
      .lit [] ∉ (if lit.isEmpty then tokens else tokens ++ [.lit lit]) := by
    cases lit with
    | nil => exact hsolid
    | cons char lit => simpa using hsolid
  induction raw generalizing tokens lit with
  | nil => exact hpush hsolid
  | cons char raw ih =>
    rw [Pattern.globTokens]
    split
    · apply ih
      have hpus := @hpush tokens lit hsolid
      generalize (if lit.isEmpty then tokens else tokens ++ [.lit lit]) = pushed at hpus ⊢
      split
      · exact hpus
      · simpa using hpus
    · exact ih hsolid

theorem again_iff {fuel : ℕ} :
    (∀ after first rest, star = some (after, first :: rest) →
      (Pattern.globMatch fuel after rest (some (after, rest)) = true ↔
        Spells after rest ∨ Again (some (after, rest)))) →
    ((match star with
      | none => false
      | some (_, []) => false
      | some (after, _ :: rest) => Pattern.globMatch fuel after rest (some (after, rest))) = true ↔
        Again star) := by
  intro hmat
  match star with
  | none =>
    apply iff_of_false Bool.false_ne_true
    rintro ⟨_, _, _, ⟨⟩, _⟩
  | some (after, []) =>
    apply iff_of_false Bool.false_ne_true
    rintro ⟨_, skipped, rest, hstar, hskip, _⟩
    exact hskip (append_eq_nil_iff.mp (Prod.mk.inj (Option.some.inj hstar)).2.symm).1
  | some (after, first :: rest) =>
    rw [hmat after first rest rfl]
    constructor
    · rintro (hspls | ⟨_, skipped, last, ⟨⟩, hskip, hspls⟩)
      · exact ⟨after, [first], rest, rfl, cons_ne_nil _ _, hspls⟩
      · exact ⟨after, first :: skipped, last, rfl, cons_ne_nil _ _, hspls⟩
    rintro ⟨_, skipped, last, hstar, hskip, hspls⟩
    obtain ⟨rfl, hsta⟩ := Prod.mk.inj (Option.some.inj hstar)
    match skipped with
    | [] => exact absurd rfl hskip
    | [_] =>
      obtain ⟨rfl, rfl⟩ := List.cons.inj hsta
      exact .inl hspls
    | _ :: second :: skipped =>
      obtain ⟨rfl, rfl⟩ := List.cons.inj hsta
      exact .inr ⟨after, second :: skipped, last, rfl, cons_ne_nil _ _, hspls⟩

theorem globMatch_iff {limit fuel : ℕ} (htks : tokens.length ≤ limit) (hsolid : .lit [] ∉ tokens)
    (haft : ∀ after start, star = some (after, start) → after.length ≤ limit ∧ .lit [] ∉ after)
    (hlin : Linked star tokens text)
    (hfuel : (star.elim text.length (·.2.length)) * (limit + 1) + tokens.length < fuel) :
    Pattern.globMatch fuel tokens text star = true ↔ Spells tokens text ∨ Again star := by
  induction fuel generalizing tokens text star with
  | zero => exact absurd hfuel (Nat.not_lt_zero _)
  | succ fuel ih =>
    cases text with
    | nil =>
      have hnone : ¬ Again star := by
        intro hagain
        obtain ⟨skipped, rest, hskip, hemp, _⟩ := hlin.again hagain
        exact hskip (append_eq_nil_iff.mp hemp.symm).1
      rw [Pattern.globMatch, spells_stars hsolid, or_iff_left hnone]
    | cons char text =>
      have hagain := again_iff fun after first rest hstar => by
        obtain ⟨hlim, hsolid⟩ := haft after (first :: rest) hstar
        apply ih hlim hsolid (by rintro _ _ ⟨⟩; exact ⟨hlim, hsolid⟩) (linked_self after rest)
        rw [hstar, elim_some, length_cons, Nat.add_mul] at hfuel
        change rest.length * (limit + 1) + after.length < fuel
        omega
      rw [Pattern.globMatch.eq_def]
      dsimp only
      cases tokens with
      | nil =>
        rw [or_iff_right (by simp)]
        exact hagain
      | cons token tokens =>
        change _ + (tokens.length + 1) < fuel + 1 at hfuel
        have hroom := Nat.le_of_succ_le htks
        rw [mem_cons, not_or] at hsolid
        cases token with
        | lit lit =>
          dsimp only
          split
          · next hstas =>
            obtain ⟨rest, hrest⟩ := isPrefixOf_iff_prefix.mp hstas
            rw [← hrest] at hlin hfuel ⊢
            rw [drop_left, ih hroom hsolid.2 haft (linked_lit hlin), spells_lit]
            · simp
            cases star with
            | none =>
              rw [elim_none, length_append, Nat.add_mul] at hfuel
              rw [elim_none]
              omega
            | some start =>
              rw [elim_some] at hfuel ⊢
              omega
          rename_i hoth
          rw [or_iff_right]
          · exact hagain
          · intro hspls
            obtain ⟨rest, hrest, _⟩ := spells_lit.mp hspls
            exact hoth ( isPrefixOf_iff_prefix.mpr ⟨rest, hrest.symm⟩)
        | star =>
          have hshor : (char :: text).length ≤ star.elim (char :: text).length (·.2.length) := by
            cases star with
            | none => exact Nat.le_refl _
            | some start =>
              obtain ⟨_, passed, _, hsta, _⟩ := hlin start.1 start.2 rfl
              rw [elim_some, hsta, length_append]
              exact Nat.le_add_left _ _
          have hless := Nat.mul_le_mul_right (limit + 1) hshor
          have hfewer : (char :: text).length * (limit + 1) + tokens.length < fuel := by
            omega
          dsimp only
          rw [ih hroom hsolid.2 (by rintro _ _ ⟨⟩; exact ⟨hroom, hsolid.2⟩)
            (linked_self tokens (char :: text)) hfewer, spells_star]
          have hbeh : Spells tokens (char :: text) ∨ Again (some (tokens, char :: text)) ↔
              ∃ skipped rest, char :: text = skipped ++ rest ∧ Spells tokens rest := by
            constructor
            · rintro (hspls | ⟨_, skipped, rest, hstar, _, hspls⟩)
              · exact ⟨[], _, rfl, hspls⟩
              · obtain ⟨rfl, hsta⟩ := Prod.mk.inj (Option.some.inj hstar)
                exact ⟨skipped, rest, hsta, hspls⟩
            rintro ⟨skipped, rest, hsta, hspls⟩
            cases skipped with
            | nil => exact .inl (hsta ▸ hspls)
            | cons head skipped =>
              exact .inr ⟨tokens, head :: skipped, rest, hsta ▸ rfl, cons_ne_nil _ _, hspls⟩
          rw [hbeh, or_iff_left_of_imp]
          intro hagain
          obtain ⟨skipped, rest, _, hsta, hspls⟩ := hlin.again hagain
          obtain ⟨more, last, rfl, hlast⟩ := spells_star.mp hspls
          exact ⟨skipped ++ more, last, hsta.trans (append_assoc _ _ _).symm, hlast⟩

theorem globMatch_globTokens {fuel : ℕ}
    (hfuel : (text.length + 1) * ((Pattern.globTokens raw [] []).length + 1) ≤ fuel) :
    Pattern.globMatch fuel (Pattern.globTokens raw [] []) text none = true ↔ Stands raw text := by
  have hnone : ¬ Again none := by
    rintro ⟨_, _, _, hstar, _⟩
    cases hstar
  have hless : (none : Option (List Tok × List Char)).elim text.length (·.2.length) *
      ((Pattern.globTokens raw [] []).length + 1) + (Pattern.globTokens raw [] []).length < fuel := by
    rw [Nat.add_mul] at hfuel
    rw [elim_none]
    omega
  rw [@globMatch_iff _ text none _ fuel (Nat.le_refl _) (solid_globTokens not_mem_nil) nofun
    nofun hless, or_iff_left hnone, spells_globTokens]
  constructor
  · rintro ⟨before, rest, rfl, hbef, hrest⟩
    cases hbef
    exact hrest
  · exact fun hstds => ⟨[], _, rfl, .nil, hstds⟩

end Matching

end WasmAgent.Grant
