import WasmAgent.Core.Reading

/-!
# Redacting output as it is read

Exact secrets are replaced before output is written.  What may still become a secret is held back
until more is read; a secret that is complete is replaced at once.
-/

namespace WasmAgent.Operation.Redact

open List Option WasmAgent.Core

abbrev Bytes := List UInt8

def redactedText : Bytes := utf8 "<redacted>"

/-- What is written: a byte of the input, or the mark in place of a secret. -/
inductive Piece where
  | copied (byte : UInt8)
  | redacted
  deriving DecidableEq

def Piece.render : Piece → Bytes
  | .copied byte => [byte]
  | .redacted => redactedText

def render (pieces : List Piece) : Bytes := pieces.flatMap Piece.render

structure Redactor where
  secrets : List Bytes
  carry : Bytes
  deriving DecidableEq

def byFirst (secrets : List Bytes) (byte : UInt8) : List Bytes :=
  secrets.filter fun secret => secret.head? = some byte

def maxLen (secrets : List Bytes) : ℕ :=
  secrets.foldl (fun longest secret => max longest secret.length) 0

def matchAt (secrets : List Bytes) : Bytes → Option ℕ
  | [] => none
  | byte :: rest =>
      ((byFirst secrets byte).find? (·.isPrefixOf (byte :: rest))).map List.length

def couldExtend (secrets : List Bytes) (text : Bytes) : Bool :=
  secrets.any fun secret => text.length < secret.length && text.isPrefixOf secret

/-- The loop of `push`, and of `finish` at the end: the pieces written and what is held back.
`skip` bytes of a secret that was replaced are still to be passed over. -/
def scan (secrets : List Bytes) (atEnd : Bool) : ℕ → Bytes → List Piece × Bytes
  | _, [] => ([], [])
  | skip + 1, _ :: rest => scan secrets atEnd skip rest
  | 0, byte :: rest =>
      match matchAt secrets (byte :: rest) with
      | some length =>
          let after := scan secrets atEnd (length - 1) rest
          (.redacted :: after.1, after.2)
      | none =>
          if !atEnd && couldExtend secrets (byte :: rest) then ([], byte :: rest)
          else
            let after := scan secrets atEnd 0 rest
            (.copied byte :: after.1, after.2)

namespace Redactor

def new (secrets : List Bytes) : Redactor := ⟨secrets, []⟩

def isActive (redactor : Redactor) : Bool := 0 < maxLen redactor.secrets

def push (chunk : Bytes) (redactor : Redactor) : List Piece × Redactor :=
  if !redactor.isActive then (chunk.map .copied, redactor)
  else
    let scanned := scan redactor.secrets false 0 (redactor.carry ++ chunk)
    (scanned.1, { redactor with carry := scanned.2 })

def finish (redactor : Redactor) : List Piece := (scan redactor.secrets true 0 redactor.carry).1

/-- What is written of output that comes in chunks. -/
def pieces : List Bytes → Redactor → List Piece
  | [], redactor => redactor.finish
  | chunk :: chunks, redactor => (redactor.push chunk).1 ++ pieces chunks (redactor.push chunk).2

end Redactor

/-- However output is cut, the same is written as for the whole in one piece, and no secret is
copied to it. -/
def Redacts (secrets : List Bytes) : Prop :=
  ∀ chunks : List Bytes,
    render ((Redactor.new secrets).pieces chunks) =
        render ((Redactor.new secrets).pieces [chunks.flatten]) ∧
      ∀ secret ∈ secrets, secret ≠ [] →
        ¬ secret.map Piece.copied <:+: (Redactor.new secrets).pieces chunks

def Prompt (secrets : List Bytes) : Prop :=
  ∀ secret ∈ secrets, ∀ length, matchAt secrets secret = some length →
    ∀ other ∈ secrets, other ≠ [] → other <+: secret → length ≤ other.length

variable {secret : Bytes}

section Matching

variable {secrets : List Bytes} {text more : Bytes} {length : ℕ}

theorem matchAt_eq (secrets : List Bytes) (text : Bytes) :
    matchAt secrets text = (secrets.find? fun secret =>
      !secret.isEmpty && secret.isPrefixOf text).map List.length := by
  cases text with
  | nil =>
    rw [matchAt, find?_eq_none.mpr]
    · rfl
    · intro secret _
      cases secret <;> simp
  | cons byte rest =>
    rw [matchAt, byFirst, find?_filter]
    congr 2
    funext secret
    cases secret with
    | nil => simp
    | cons first secret =>
      rw [head?_cons, isPrefixOf_cons_cons, Bool.eq_iff_iff]
      by_cases hfst : first = byte <;> simp [hfst]

theorem matchAt_spec (hmat : matchAt secrets text = some length) :
    ∃ before secret later, secrets = before ++ secret :: later ∧ secret.length = length ∧
      secret ≠ [] ∧ secret <+: text ∧ ∀ other ∈ before, other ≠ [] → ¬ other <+: text := by
  rw [matchAt_eq, map_eq_some_iff] at hmat
  obtain ⟨secret, hfind, hlen⟩ := hmat
  obtain ⟨hfnd, before, later, hspl, hbef⟩ := find?_eq_some_iff_append.mp hfind
  simp only [Bool.and_eq_true, Bool.not_eq_true', isEmpty_eq_false_iff,
    isPrefixOf_iff_prefix] at hfnd
  refine ⟨before, secret, later, hspl, hlen, hfnd.1, hfnd.2, ?_⟩
  intro other hoth hsome hbeg
  have hnot := hbef other hoth
  simp [hsome, isPrefixOf_iff_prefix.mpr hbeg] at hnot

theorem matchAt_none (hmat : matchAt secrets text = none) (hsec : secret ∈ secrets)
    (hsome : secret ≠ []) : ¬ secret <+: text := by
  rw [matchAt_eq, map_eq_none_iff, find?_eq_none] at hmat
  have hnot := hmat secret hsec
  intro hbeg
  simp [hsome, isPrefixOf_iff_prefix.mpr hbeg] at hnot

theorem matchAt_of_first {before later : List Bytes}
    (hspl : secrets = before ++ secret :: later) (hsome : secret ≠ [])
    (hbeg : secret <+: text) (hbef : ∀ other ∈ before, other ≠ [] → ¬ other <+: text) :
    matchAt secrets text = some secret.length := by
  rw [matchAt_eq, map_eq_some_iff]
  refine ⟨secret, find?_eq_some_iff_append.mpr ⟨?_, before, later, hspl, ?_⟩, rfl⟩
  · simp [hsome, hbeg]
  intro other hoth
  by_cases hnone : other = []
  · simp [hnone]
  · have hnot : other.isPrefixOf text = false := Bool.eq_false_iff.mpr
      fun hbeg => hbef other hoth hnone ( isPrefixOf_iff_prefix.mp hbeg)
    simp [hnot]

theorem matchAt_append (hprom : Prompt secrets) (hmat : matchAt secrets text = some length) :
    matchAt secrets (text ++ more) = some length := by
  obtain ⟨before, secret, later, hspl, rfl, hsome, hbeg, hbef⟩ := matchAt_spec hmat
  apply matchAt_of_first hspl hsome (hbeg.trans (prefix_append _ _))
  intro other hoth hfull hlong
  have htext : text <+: other :=
    ( prefix_or_prefix_of_prefix hlong (prefix_append text more)).resolve_left
      (hbef other hoth hfull)
  have hin : other ∈ secrets := hspl ▸ mem_append_left _ hoth
  cases hfst : matchAt secrets other with
  | none => exact matchAt_none hfst hin hfull prefix_rfl
  | some found =>
    have hshrt := hprom other hin found hfst secret
      (hspl ▸ mem_append_right _ mem_cons_self) hsome (hbeg.trans htext)
    obtain ⟨earlier, first, rest, hspl', rfl, hsome', hbeg', hearl⟩ := matchAt_spec hfst
    have hpref : first <+: text :=
      (prefix_of_prefix_length_le hbeg' (hbeg.trans htext) hshrt).trans hbeg
    -- The first secret that `other` begins with is not after `other` in the list.
    have hplace : first ∈ before := by
      rw [hspl] at hspl'
      obtain ⟨middle, hlt, hrt⟩ | ⟨middle, hlt, hrt⟩ := append_eq_append_iff.mp hspl'
      · exact absurd prefix_rfl (hearl other (hlt ▸ mem_append_left _ hoth) hfull)
      cases middle with
      | nil =>
        rw [append_nil] at hlt
        exact absurd prefix_rfl (hearl other (hlt ▸ hoth) hfull)
      | cons head middle =>
        cases hrt
        exact hlt ▸ mem_append_right _ mem_cons_self
    exact hbef first hplace hsome' hpref

theorem matchAt_append_none (hmat : matchAt secrets text = none)
    (hext : couldExtend secrets text = false) : matchAt secrets (text ++ more) = none := by
  rw [matchAt_eq, Option.map_eq_none_iff, List.find?_eq_none]
  intro secret hsec hfnd
  simp only [Bool.and_eq_true, Bool.not_eq_true', List.isEmpty_eq_false_iff,
    List.isPrefixOf_iff_prefix] at hfnd
  have hnot := matchAt_none hmat hsec hfnd.1
  have hlong := ( List.prefix_or_prefix_of_prefix hfnd.2
    (List.prefix_append text more)).resolve_left hnot
  rw [couldExtend, List.any_eq_false] at hext
  apply hext secret hsec
  rw [Bool.and_eq_true, decide_eq_true_iff, List.isPrefixOf_iff_prefix]
  refine ⟨Nat.lt_of_le_of_ne hlong.length_le ?_, hlong⟩
  intro hlen
  exact hnot (hlong.eq_of_length hlen ▸ List.prefix_rfl)

end Matching

section Scanning

variable {secrets : List Bytes} {text more : Bytes}

/-- What is held back is scanned again with what follows. -/
theorem scan_append (hprom : Prompt secrets) {skip : ℕ} (hskip : skip ≤ text.length) :
    (scan secrets true skip (text ++ more)).1 = (scan secrets false skip text).1 ++
      (scan secrets true 0 ((scan secrets false skip text).2 ++ more)).1 := by
  induction text generalizing skip with
  | nil =>
    cases Nat.le_zero.mp hskip
    rfl
  | cons byte rest ih =>
    cases skip with
    | succ skip => exact ih (Nat.le_of_succ_le_succ hskip)
    | zero =>
      rw [cons_append, scan, scan]
      cases hmat : matchAt secrets (byte :: rest) with
      | some length =>
        have hlong := @matchAt_append secrets (byte :: rest) more length hprom hmat
        rw [cons_append] at hlong
        obtain ⟨_, secret, _, _, rfl, _, hbeg, _⟩ := matchAt_spec hmat
        have hle : secret.length - 1 ≤ rest.length := by
          have hlen := hbeg.length_le
          rw [length_cons] at hlen
          omega
        simp [hlong, ih hle]
      | none =>
        cases hext : couldExtend secrets (byte :: rest) with
        | true =>
          simp only [Bool.not_false, Bool.and_self, if_true, nil_append]
          rw [cons_append, scan]
        | false =>
          have hlong := @matchAt_append_none secrets (byte :: rest) more hmat hext
          rw [cons_append] at hlong
          simp [hlong, ih (Nat.zero_le _)]

theorem scan_inactive (hinac : maxLen secrets = 0) (atEnd : Bool) (text : Bytes) :
    scan secrets atEnd 0 text = (text.map .copied, []) := by
  have hemp : ∀ secret ∈ secrets, secret = [] := by
    have hall : ∀ (secrets : List Bytes) (longest : ℕ),
        secrets.foldl (fun longest secret => max longest secret.length) longest = 0 →
        longest = 0 ∧ ∀ secret ∈ secrets, secret = [] := by
      intro secrets
      induction secrets with
      | nil => exact fun longest hzero => ⟨hzero, nofun⟩
      | cons first secrets ih =>
        intro longest hzero
        obtain ⟨hmax, hrest⟩ := ih _ hzero
        rw [Nat.max_eq_zero_iff, List.length_eq_zero_iff] at hmax
        exact ⟨hmax.1, List.forall_mem_cons.mpr ⟨hmax.2, hrest⟩⟩
    exact (hall secrets 0 hinac).2
  induction text with
  | nil => rfl
  | cons byte rest ih =>
    have hmat : matchAt secrets (byte :: rest) = none := by
      rw [matchAt_eq, Option.map_eq_none_iff, List.find?_eq_none]
      intro secret hsec
      simp [hemp secret hsec]
    have hext : couldExtend secrets (byte :: rest) = false := by
      rw [couldExtend, List.any_eq_false]
      intro secret hsec
      simp [hemp secret hsec]
    simp [scan, hmat, hext, ih]

theorem push_eq (redactor : Redactor) (chunk : Bytes)
    (hcarry : redactor.isActive = false → redactor.carry = []) :
    redactor.push chunk =
      ((scan redactor.secrets false 0 (redactor.carry ++ chunk)).1,
        { redactor with carry := (scan redactor.secrets false 0 (redactor.carry ++ chunk)).2 }) := by
  rw [Redactor.push]
  cases hact : redactor.isActive with
  | true => rfl
  | false =>
    obtain ⟨secrets, carry⟩ := redactor
    cases hcarry hact
    rw [Redactor.isActive, decide_eq_false_iff_not, Nat.not_lt, Nat.le_zero] at hact
    rw [nil_append, scan_inactive hact]
    rfl

/-- What is held back may still become a secret. -/
def Redactor.Waits (redactor : Redactor) : Prop :=
  redactor.carry = [] ∨ couldExtend redactor.secrets redactor.carry = true

theorem waits_scan (skip : ℕ) (text : Bytes) :
    Redactor.Waits ⟨secrets, (scan secrets false skip text).2⟩ := by
  fun_induction scan secrets false skip text with
  | case1 => exact .inl rfl
  | case4 byte rest _ hext => exact .inr hext
  | _ => assumption

theorem prefix_of_copied {copied : Bytes}
    (hcop : copied.map .copied <+: (scan secrets true 0 text).1) : copied <+: text := by
  induction text generalizing copied with
  | nil => simpa [scan] using hcop
  | cons byte rest ih =>
    cases copied with
    | nil => exact nil_prefix
    | cons first copied =>
      rw [scan] at hcop
      cases hmat : matchAt secrets (byte :: rest) with
      | some length => simp [hmat] at hcop
      | none =>
        simp only [hmat, Bool.not_true, Bool.false_and, Bool.false_eq_true, if_false,
          map_cons, cons_prefix_cons, Piece.copied.injEq] at hcop
        exact cons_prefix_cons.mpr ⟨hcop.1, ih hcop.2⟩

theorem not_copied (hsec : secret ∈ secrets) (hsome : secret ≠ []) {skip : ℕ} :
    ¬ secret.map .copied <:+: (scan secrets true skip text).1 := by
  induction text generalizing skip with
  | nil => simpa [scan] using hsome
  | cons byte rest ih =>
    cases skip with
    | succ skip => exact ih
    | zero =>
      intro hcop
      have hhead : ¬ secret.map .copied <+: (scan secrets true 0 (byte :: rest)).1 := by
        intro hbeg
        have htext := prefix_of_copied hbeg
        rw [scan] at hbeg
        cases hmat : matchAt secrets (byte :: rest) with
        | none => exact matchAt_none hmat hsec hsome htext
        | some length =>
          cases secret with
          | nil => exact hsome rfl
          | cons first secret => simp [hmat] at hbeg
      cases hpiec : (scan secrets true 0 (byte :: rest)).1 with
      | nil =>
        rw [hpiec, infix_nil] at hcop
        exact hsome (map_eq_nil_iff.mp hcop)
      | cons piece pieces =>
        rw [hpiec] at hhead hcop
        have hrest := (infix_cons_iff.mp hcop).resolve_left hhead
        rw [scan] at hpiec
        cases hmat : matchAt secrets (byte :: rest) with
        | some length =>
          simp only [hmat, List.cons.injEq] at hpiec
          exact ih (hpiec.2 ▸ hrest)
        | none =>
          simp only [hmat, Bool.not_true, Bool.false_and, Bool.false_eq_true, if_false,
            List.cons.injEq] at hpiec
          exact ih (hpiec.2 ▸ hrest)

end Scanning

section Streams

variable {secrets : List Bytes}

theorem pieces_eq (hprom : Prompt secrets) (chunks : List Bytes) (carry : Bytes)
    (hcarry : maxLen secrets = 0 → carry = []) :
    Redactor.pieces chunks ⟨secrets, carry⟩ =
      (scan secrets true 0 (carry ++ chunks.flatten)).1 := by
  induction chunks generalizing carry with
  | nil => rw [flatten_nil, append_nil, Redactor.pieces, Redactor.finish]
  | cons chunk chunks ih =>
    have hinac : Redactor.isActive ⟨secrets, carry⟩ = false → carry = [] := by
      intro hact
      rw [Redactor.isActive, decide_eq_false_iff_not, Nat.not_lt, Nat.le_zero] at hact
      exact hcarry hact
    rw [Redactor.pieces, push_eq _ _ hinac, flatten_cons, ← append_assoc,
      scan_append hprom (Nat.zero_le _)]
    rw [ih]
    intro hzero
    rw [scan_inactive hzero]

theorem redacts_of_prompt (hprom : Prompt secrets) : Redacts secrets := by
  intro chunks
  have hall (chunks : List Bytes) := pieces_eq hprom chunks [] (fun _ => rfl)
  rw [Redactor.new, hall, hall, flatten_singleton]
  exact ⟨rfl, fun secret hsec hsome => not_copied hsec hsome⟩

theorem render_cons_pos (piece : Piece) (pieces : List Piece) :
    0 < (render (piece :: pieces)).length := by
  rw [render, flatMap_cons, length_append]
  cases piece with
  | copied byte => exact Nat.add_pos_left Nat.one_pos _
  | redacted => exact Nat.add_pos_left (by decide +kernel) _

/-- Of a text something is written, or all of it is held back. -/
theorem scan_progress (atEnd : Bool) (byte : UInt8) (rest : Bytes) :
    0 < (render (scan secrets atEnd 0 (byte :: rest)).1).length ∨
      atEnd = false ∧ (scan secrets atEnd 0 (byte :: rest)).2 = byte :: rest := by
  rw [scan]
  cases matchAt secrets (byte :: rest) with
  | some length => exact .inl (render_cons_pos _ _)
  | none =>
    dsimp only
    split
    · next hheld =>
      rw [Bool.and_eq_true, Bool.not_eq_true'] at hheld
      exact .inr ⟨hheld.1, rfl⟩
    · exact .inl (render_cons_pos _ _)

theorem scan_skip (atEnd : Bool) (text : Bytes) :
    scan secrets atEnd text.length text = ([], []) := by
  induction text with
  | nil => rfl
  | cons byte rest ih => exact ih

theorem prompt_of_redacts (hred : Redacts secrets) : Prompt secrets := by
  intro secret hsec length hmat other hoth hsome hbeg
  by_contra hshrt
  obtain ⟨before, found, later, hspl, rfl, hfull, hfnd, hbef⟩ := matchAt_spec hmat
  have hfst : matchAt secrets found = some found.length :=
    matchAt_of_first hspl hfull prefix_rfl
      fun earlier hearl hely hpref => hbef earlier hearl hely ( hpref.trans hfnd)
  obtain ⟨tail, rfl⟩ := prefix_of_prefix_length_le hbeg hfnd (Nat.le_of_lt (Nat.not_le.mp hshrt))
  have hsame := congrArg List.length (hred [other, tail]).1
  have hpush (carry chunk : Bytes) (hcarry : maxLen secrets = 0 → carry = []) :=
    push_eq ⟨secrets, carry⟩ chunk (fun hact => hcarry (by
      simpa [Redactor.isActive] using hact))
  have hheld (text : Bytes) (hzero : maxLen secrets = 0) :
      (scan secrets false 0 text).2 = [] := by rw [scan_inactive hzero]
  simp only [Redactor.pieces, Redactor.new, Redactor.finish, flatten_cons, flatten_nil,
    append_nil] at hsame
  rw [hpush [] other (fun _ => rfl), hpush [] (other ++ tail) (fun _ => rfl)] at hsame
  simp only [hpush _ tail (hheld _), nil_append] at hsame
  cases other with
  | nil => exact hsome rfl
  | cons byte rest =>
    have hwhole : scan secrets false 0 (byte :: rest ++ tail) = ([.redacted], []) := by
      rw [cons_append, scan]
      rw [cons_append] at hfst
      simp only [hfst, length_cons, Nat.add_sub_cancel, scan_skip]
    cases hbegin : matchAt secrets (byte :: rest) with
    | none => exact matchAt_none hbegin hoth hsome prefix_rfl
    | some length =>
      have hpart : ∃ pieces, (scan secrets false 0 (byte :: rest)).1 = .redacted :: pieces := by
        rw [scan, hbegin]
        exact ⟨_, rfl⟩
      obtain ⟨pieces, hpiec⟩ := hpart
      generalize (scan secrets false 0 (byte :: rest)).2 = carry at hsame
      rw [hwhole, hpiec, cons_append] at hsame
      simp only [scan, append_nil, render, flatMap_cons, flatMap_append,
        length_append, flatMap_nil] at hsame
      cases hlt : carry ++ tail with
      | nil =>
        rw [append_eq_nil_iff] at hlt
        rw [hlt.2, append_nil] at hshrt
        exact hshrt (Nat.le_refl _)
      | cons first left =>
        rw [hlt] at hsame
        rcases @scan_progress secrets false first left with hsome | ⟨-, hall⟩
        · rw [render] at hsome
          omega
        rw [hall] at hsame
        rcases @scan_progress secrets true first left with hsome | ⟨hend, -⟩
        · rw [render] at hsome
          omega
        · cases hend

/-- Output is redacted alike in all cuts, with no secret left, exactly if each secret is found out
by its shortest beginning in the list. -/
theorem redacts_iff (secrets : List Bytes) : Redacts secrets ↔ Prompt secrets :=
  ⟨prompt_of_redacts, redacts_of_prompt⟩

/-- The longer key comes first, and a chunk ends with the shorter one. -/
theorem longer_key_left_over : ¬ Redacts [utf8 "sk-key-0123", utf8 "sk-key-0"] := by
  intro hredacts
  have hboth := (hredacts [utf8 "sk-key-0", utf8 "123"]).1
  revert hboth
  decide +kernel

end Streams

end WasmAgent.Operation.Redact
