import Mathlib.Algebra.Group.Int.Defs
import Mathlib.Algebra.Group.Nat.Defs
import Mathlib.Data.Finset.Card
import WasmAgent.Core.Forgetting

/-!
# Admission of calls

The checks a producing node makes on a call before it answers it: target, caller, freshness,
signature, replay.
-/

namespace WasmAgent.Stt

open List Std.ExtTreeMap Std WasmAgent.Core

/-- What a caller asks the producing node to do. -/
inductive Op where
  | take
  | audio
  | heartbeat
  | progress
  | done
  | fail
  deriving DecidableEq

def Op.asStr : Op → String
  | take => "take"
  | audio => "audio"
  | heartbeat => "beat"
  | progress => "seg"
  | done => "done"
  | fail => "fail"

/-- One call, without its body. -/
structure Envelope where
  op : Op
  fromNode : String
  toNode : String
  tsMs : Int64
  rid : String

def Envelope.signatureMessage (envelope : Envelope) (bodySha256Hex : String) : String :=
  envelope.op.asStr ++ "|" ++ envelope.fromNode ++ "|" ++ toString envelope.tsMs.toInt ++ "|" ++
    bodySha256Hex

structure TransportSignature where
  tsMs : Int64
  bodySha256Hex : String
  signature : String

inductive Refusal where
  | wrongTarget
  | unknownCaller
  | stale
  | badSignature
  | replayed
  | malformed (what : String)
  | leaseLost
  | notFound
  | staleJob
  deriving DecidableEq

structure Admission where
  me : String
  ownerNodes : List String
  skewMs : Int64
  seen : ExtTreeMap String Int64

def defaultSkewMs : Int64 := 60000

def maxReplayEntries : ℕ := 4096

/-- A difference, held within 64 bits. -/
def saturatingSub (left right : Int64) : Int64 := Int64.ofIntClamp (left.toInt - right.toInt)

namespace Admission

def new (me : String) (ownerNodes : List String) : Admission := ⟨me, ownerNodes, defaultSkewMs, ∅⟩

def withSkewMs (admission : Admission) (skewMs : Int64) : Admission :=
  { admission with skewMs := if skewMs < 0 then 0 else skewMs }

/-- How many calls a budget lets it remember. -/
def room (budget : ℕ) : ℕ := max 1 (min budget maxReplayEntries)

def remember (admission : Admission) (rid : String) (tsMs : Int64) (budget : ℕ) : Admission :=
  -- The product wraps: a skew of half the range and more has no horizon.
  let horizon := saturatingSub tsMs (2 * admission.skewMs)
  let kept := admission.seen.filter fun _ seenMs => horizon ≤ seenMs
  { admission with
    seen := (makeRoom Int64.toInt (room budget) kept.size kept).insert rid tsMs }

def admits (admission : Admission) (envelope : Envelope) (transport : TransportSignature)
    (nowMs : Int64) (budget : ℕ) (verify : String → String → String → Bool) :
    Except Refusal Unit × Admission :=
  if envelope.toNode ≠ admission.me then
    (.error .wrongTarget, admission)
  else if envelope.fromNode ∉ admission.ownerNodes then
    (.error .unknownCaller, admission)
  else if transport.tsMs ≠ envelope.tsMs then
    (.error .badSignature, admission)
  else if admission.skewMs.toInt.natAbs < (saturatingSub nowMs envelope.tsMs).toInt.natAbs then
    (.error .stale, admission)
  else if !verify (envelope.signatureMessage transport.bodySha256Hex) envelope.fromNode
      transport.signature then
    (.error .badSignature, admission)
  else if admission.seen.contains envelope.rid then
    (.error .replayed, admission)
  else
    (.ok (), admission.remember envelope.rid envelope.tsMs budget)

end Admission

/-- One call of `admits`. -/
structure Call where
  envelope : Envelope
  transport : TransportSignature
  nowMs : Int64
  budget : ℕ
  verify : String → String → String → Bool

structure Desk where
  admission : Admission
  admitted : List Call

namespace Desk

def answer (desk : Desk) (call : Call) : Except Refusal Unit × Admission :=
  desk.admission.admits call.envelope call.transport call.nowMs call.budget call.verify

def step (desk : Desk) (call : Call) : Desk :=
  match desk.answer call with
  | (.ok (), next) => ⟨next, desk.admitted ++ [call]⟩
  | (.error _, next) => ⟨next, desk.admitted⟩

/-- The calls, one after the other, to a node that has just started. -/
def run (fresh : Admission) (calls : List Call) : Desk := calls.foldl step ⟨fresh, []⟩

end Desk

/-- The producer's clock does not go back. -/
def Forward (calls : List Call) : Prop :=
  calls.Pairwise fun first second => first.nowMs ≤ second.nowMs

instance (calls : List Call) : Decidable (Forward calls) :=
  inferInstanceAs (Decidable (calls.Pairwise _))

def InWindow (skewMs nowMs : Int64) (call : Call) : Prop :=
  (nowMs.toInt - call.envelope.tsMs.toInt).natAbs ≤ skewMs.toInt.natAbs

instance (skewMs nowMs : Int64) : DecidablePred (InWindow skewMs nowMs) :=
  fun _ => inferInstanceAs (Decidable (_ ≤ _))

def Desk.recent (desk : Desk) (nowMs : Int64) : Finset String :=
  ((desk.admitted.filter fun call => InWindow desk.admission.skewMs nowMs call).map
    fun call => call.envelope.rid).toFinset

/-- Each call is admitted while fewer ids than its budget were admitted inside its window. -/
def Roomy (fresh : Admission) (calls : List Call) : Prop :=
  ∀ before call after, calls = before ++ call :: after →
    ((Desk.run fresh before).recent call.nowMs).card < Admission.room call.budget

structure Checked (fresh : Admission) (call : Call) : Prop where
  target : call.envelope.toNode = fresh.me
  caller : call.envelope.fromNode ∈ fresh.ownerNodes
  time : call.transport.tsMs = call.envelope.tsMs
  window : InWindow fresh.skewMs call.nowMs call
  verified : call.verify (call.envelope.signatureMessage call.transport.bodySha256Hex)
    call.envelope.fromNode call.transport.signature = true

def Renewed (skewMs : Int64) (first second : Call) : Prop :=
  first.envelope.rid = second.envelope.rid →
    first.envelope.tsMs.toInt + skewMs.toInt < second.nowMs.toInt ∧
      first.envelope.tsMs.toInt < second.envelope.tsMs.toInt

section Steps

variable {fresh : Admission} {desk : Desk} {call : Call} {calls : List Call}

inductive Stepped (desk : Desk) (call : Call) : Desk → Prop where
  | refused (refusal : Refusal) (hanswer : desk.answer call = (.error refusal, desk.admission)) :
    Stepped desk call desk
  | admitted (hchecked : Checked desk.admission call)
      (hnew : desk.admission.seen.contains call.envelope.rid = false)
      (hanswer : desk.answer call = (.ok (),
        desk.admission.remember call.envelope.rid call.envelope.tsMs call.budget)) :
    Stepped desk call
      ⟨desk.admission.remember call.envelope.rid call.envelope.tsMs call.budget,
        desk.admitted ++ [call]⟩

theorem toInt_saturatingSub_of_le {left right : Int64} {bound : ℕ} (hbound : bound < 2 ^ 62) :
    (saturatingSub left right).toInt.natAbs ≤ bound ↔
      (left.toInt - right.toInt).natAbs ≤ bound := by
  rw [saturatingSub, Int64.ofIntClamp]
  split
  · split
    · rw [Int64.toInt_ofIntLE]
    · next hhigh =>
      rw [Int64.toInt_maxValue] at hhigh ⊢
      omega
  · next hlow =>
    rw [Int64.toInt_minValue] at hlow ⊢
    omega

theorem lt_sub_of_lt_saturatingSub {left right earlier : Int64}
    (hlt : earlier < saturatingSub left right) : earlier.toInt < left.toInt - right.toInt := by
  rw [Int64.lt_iff_toInt_lt, saturatingSub, Int64.ofIntClamp] at hlt
  have hleast := Int64.le_toInt earlier
  split at hlt
  · split at hlt
    · rwa [Int64.toInt_ofIntLE] at hlt
    · next hhigh =>
      omega
  · rw [Int64.toInt_minValue] at hlt
    omega

theorem toInt_two_mul {skewMs : Int64} (hskew : skewMs.toInt.natAbs < 2 ^ 62) :
    (2 * skewMs).toInt = 2 * skewMs.toInt := by
  have htwo : (2 : Int64).toInt = 2 := rfl
  rw [Int64.toInt_mul, htwo]
  apply Int.bmod_eq_of_le
  · omega
  · omega

theorem stepped (hskew : desk.admission.skewMs.toInt.natAbs < 2 ^ 62) :
    Stepped desk call (desk.step call) := by
  have hcases : ∀ answer, desk.answer call = answer → Stepped desk call (desk.step call) := by
    intro answer hans
    have hsame := hans
    rw [Desk.answer, Admission.admits] at hans
    rw [Desk.step, hsame]
    split at hans
    · subst hans
      exact .refused _ hsame
    split at hans
    · subst hans
      exact .refused _ hsame
    split at hans
    · subst hans
      exact .refused _ hsame
    split at hans
    · subst hans
      exact .refused _ hsame
    split at hans
    · subst hans
      exact .refused _ hsame
    split at hans
    · subst hans
      exact .refused _ hsame
    next htgt hcal htime hwin hver hnew =>
      subst hans
      apply Stepped.admitted _ (Bool.eq_false_of_not_eq_true hnew) hsame
      exact {
        target := not_not.mp htgt
        caller := not_not.mp hcal
        time := not_not.mp htime
        window := (toInt_saturatingSub_of_le hskew).mp (Nat.not_lt.mp hwin)
        verified := by
          rw [Bool.not_eq_true', Bool.not_eq_false] at hver
          exact hver }
  exact hcases _ rfl

theorem size_remember (admission : Admission) (rid : String) (tsMs : Int64) (budget : ℕ) :
    (admission.remember rid tsMs budget).seen.size ≤ Admission.room budget := by
  apply size_insert_le.trans
  exact size_makeRoom (Nat.lt_of_lt_of_le Nat.zero_lt_one (Nat.le_max_left 1 _)) (Nat.le_refl _)

theorem room_le (budget : ℕ) : Admission.room budget ≤ maxReplayEntries :=
  Nat.max_le.mpr ⟨by decide, Nat.min_le_right budget _⟩

theorem getElem?_remember {admission : Admission} {rid other : String} {tsMs seenMs : Int64}
    {budget : ℕ} (hoth : (admission.remember rid tsMs budget).seen[other]? = some seenMs) :
    rid = other ∧ tsMs = seenMs ∨ admission.seen[other]? = some seenMs := by
  rcases getElem?_insert_cases hoth with ⟨hsame, rfl⟩ | ⟨-, hold⟩
  · exact .inl ⟨hsame, rfl⟩
  · have hkept := getElem?_of_makeRoom hold
    rw [ExtTreeMap.getElem?_filter', Option.filter_eq_some_iff] at hkept
    exact .inr hkept.1

theorem forgotten_of_remember {admission : Admission} {rid other : String} {tsMs seenMs : Int64}
    {budget : ℕ} (hskew : admission.skewMs.toInt.natAbs < 2 ^ 62)
    (hoth : admission.seen[other]? = some seenMs) (hrid : rid ≠ other)
    (hfor : (admission.remember rid tsMs budget).seen[other]? = none) :
    seenMs.toInt < tsMs.toInt - 2 * admission.skewMs.toInt ∨
      Admission.room budget ≤ (admission.seen.filter fun _ laterMs => seenMs.toInt ≤ laterMs.toInt).size := by
  rw [Admission.remember, getElem?_insert_of_ne hrid] at hfor
  by_cases hhor : seenMs < saturatingSub tsMs (2 * admission.skewMs)
  · left
    have hlt := lt_sub_of_lt_saturatingSub hhor
    rwa [toInt_two_mul hskew] at hlt
  right
  have hkept : (admission.seen.filter fun _ keptMs =>
      saturatingSub tsMs (2 * admission.skewMs) ≤ keptMs)[other]? = some seenMs := by
    rw [ExtTreeMap.getElem?_filter', hoth, Option.filter_some, if_pos]
    exact decide_eq_true (Int64.not_lt.mp hhor)
  apply (room_le_of_dropped hkept hfor).trans
  apply size_le_of_subset
  intro key laterMs hltr
  rw [ExtTreeMap.getElem?_filter', Option.filter_eq_some_iff] at hltr ⊢
  refine ⟨?_, hltr.2⟩
  have hbef := hltr.1
  rw [ExtTreeMap.getElem?_filter', Option.filter_eq_some_iff] at hbef
  exact hbef.1

structure Regular (fresh : Admission) (desk : Desk) : Prop where
  me : desk.admission.me = fresh.me
  ownerNodes : desk.admission.ownerNodes = fresh.ownerNodes
  skewMs : desk.admission.skewMs = fresh.skewMs
  known : ∀ (rid : String) (seenMs : Int64), desk.admission.seen[rid]? = some seenMs →
    ∃ call ∈ desk.admitted, call.envelope.rid = rid ∧ call.envelope.tsMs = seenMs
  checked : ∀ call ∈ desk.admitted, Checked fresh call
  bounded : desk.admission.seen.size ≤ maxReplayEntries

theorem regular_start (hseen : fresh.seen = ∅) : Regular fresh ⟨fresh, []⟩ where
  me := rfl
  ownerNodes := rfl
  skewMs := rfl
  known rid seenMs hknw := by
    rw [hseen, getElem?_empty] at hknw
    cases hknw
  checked call hcall := by cases hcall
  bounded := by
    rw [hseen, size_empty]
    exact Nat.zero_le _

variable (hreg : Regular fresh desk)
include hreg

theorem Regular.step
    (hskew : fresh.skewMs.toInt.natAbs < 2 ^ 62) : Regular fresh (desk.step call) := by
  have hstep : Stepped desk call (desk.step call) := by
    apply stepped
    rw [hreg.skewMs]
    exact hskew
  generalize desk.step call = next at hstep
  cases hstep with
  | refused refusal hans => exact hreg
  | admitted hchec hnew hans =>
    have hcall : call ∈ desk.admitted ++ [call] := mem_append_right _ mem_cons_self
    exact {
      me := hreg.me
      ownerNodes := hreg.ownerNodes
      skewMs := hreg.skewMs
      known := by
        intro rid seenMs hknw
        cases getElem?_remember hknw with
        | inl hsame => exact ⟨call, hcall, hsame⟩
        | inr hbef =>
          obtain ⟨earlier, hearl, hsame⟩ := hreg.known rid seenMs hbef
          exact ⟨earlier, mem_append_left _ hearl, hsame⟩
      checked := by
        intro other hoth
        cases mem_append.mp hoth with
        | inl hbef => exact hreg.checked other hbef
        | inr hlast =>
          rw [mem_singleton.mp hlast]
          exact {
            target := hchec.target.trans hreg.me
            caller := hreg.ownerNodes ▸ hchec.caller
            time := hchec.time
            window := hreg.skewMs ▸ hchec.window
            verified := hchec.verified }
      bounded := (size_remember _ _ _ _).trans (room_le call.budget) }

/-- A call admitted so far is remembered with its time, or its window has closed. -/
structure Kept (desk : Desk) (clock : ℤ) : Prop where
  past : ∀ call ∈ desk.admitted, call.nowMs.toInt ≤ clock
  kept : ∀ call ∈ desk.admitted,
    desk.admission.seen[call.envelope.rid]? = some call.envelope.tsMs ∨
      call.envelope.tsMs.toInt + desk.admission.skewMs.toInt < clock
  renewed : desk.admitted.Pairwise (Renewed desk.admission.skewMs)

/-- What is remembered and not older than the window was admitted inside it. -/
theorem size_le_recent {clock : ℤ} (hkept : Kept desk clock)
    (hclock : clock ≤ call.nowMs.toInt) (hnon : 0 ≤ desk.admission.skewMs.toInt) {seenMs : Int64}
    (hopen : call.nowMs.toInt ≤ seenMs.toInt + desk.admission.skewMs.toInt) :
    (desk.admission.seen.filter fun _ laterMs => seenMs.toInt ≤ laterMs.toInt).size ≤
      (desk.recent call.nowMs).card := by
  rw [← ExtTreeMap.length_keys, ← List.toFinset_card_of_nodup ExtTreeMap.nodup_keys]
  apply Finset.card_le_card
  intro rid hrid
  rw [List.mem_toFinset, ExtTreeMap.mem_keys, ExtTreeMap.mem_iff_isSome_getElem?] at hrid
  obtain ⟨laterMs, hltr⟩ := Option.isSome_iff_exists.mp hrid
  rw [ExtTreeMap.getElem?_filter', Option.filter_eq_some_iff] at hltr
  obtain ⟨earlier, hearl, rfl, rfl⟩ := hreg.known rid laterMs hltr.1
  have haft := of_decide_eq_true hltr.2
  have hwin := (hreg.checked earlier hearl).window
  have hbef := (hkept.past earlier hearl).trans hclock
  rw [Desk.recent, List.mem_toFinset]
  apply List.mem_map_of_mem
  rw [List.mem_filter, decide_eq_true_eq]
  refine ⟨hearl, ?_⟩
  rw [InWindow] at hwin ⊢
  rw [← hreg.skewMs] at hwin
  omega

theorem Kept.step {clock : ℤ} (hkept : Kept desk clock) (hclock : clock ≤ call.nowMs.toInt)
    (hnon : 0 ≤ desk.admission.skewMs.toInt) (hskew : desk.admission.skewMs.toInt.natAbs < 2 ^ 62)
    (hroomy : (desk.recent call.nowMs).card < Admission.room call.budget) :
    Kept (desk.step call) call.nowMs.toInt := by
  have hstep := @stepped desk call hskew
  generalize desk.step call = next at hstep
  have hltr : ∀ earlier ∈ desk.admitted,
      desk.admission.seen[earlier.envelope.rid]? = some earlier.envelope.tsMs ∨
        earlier.envelope.tsMs.toInt + desk.admission.skewMs.toInt < call.nowMs.toInt := by
    intro earlier hearl
    exact (hkept.kept earlier hearl).imp_right fun hclos => hclos.trans_le hclock
  cases hstep with
  | refused refusal hans =>
    exact {
      past := fun earlier hearl => (hkept.past earlier hearl).trans hclock
      kept := hltr
      renewed := hkept.renewed }
  | admitted hchec hnew hans =>
    have hwin := hchec.window
    rw [InWindow] at hwin
    constructor
    case past =>
      intro other hoth
      cases mem_append.mp hoth with
      | inl hbef => exact (hkept.past other hbef).trans hclock
      | inr hlast => rw [mem_singleton.mp hlast]
    case kept =>
      intro other hoth
      cases mem_append.mp hoth with
      | inr hlast =>
        left
        rw [mem_singleton.mp hlast]
        exact getElem?_insert_self
      | inl hbef =>
        cases hltr other hbef with
        | inr hclos => exact .inr hclos
        | inl hseen =>
          have hrid : call.envelope.rid ≠ other.envelope.rid := by
            intro hsame
            rw [contains_eq_isSome_getElem?, hsame, hseen] at hnew
            cases hnew
          cases hfnd : (desk.admission.remember call.envelope.rid call.envelope.tsMs
              call.budget).seen[other.envelope.rid]? with
          | some seenMs =>
            left
            cases getElem?_remember hfnd with
            | inl hsame => exact absurd hsame.1 hrid
            | inr hsame => exact hsame.symm.trans hseen
          | none =>
            right
            change other.envelope.tsMs.toInt + desk.admission.skewMs.toInt < call.nowMs.toInt
            cases forgotten_of_remember hskew hseen hrid hfnd with
            | inl hhor => omega
            | inr hfull =>
              apply Int.not_le.mp
              intro hopen
              have hsize := size_le_recent hreg hkept hclock hnon hopen
              exact Nat.not_lt.mpr (hfull.trans hsize) hroomy
    case renewed =>
      apply pairwise_append.mpr
      refine ⟨hkept.renewed, pairwise_singleton _ _, ?_⟩
      intro earlier hearl other hoth hrid
      rw [mem_singleton.mp hoth] at hrid ⊢
      cases hltr earlier hearl with
      | inl hseen =>
        rw [contains_eq_isSome_getElem?, ← hrid, hseen] at hnew
        cases hnew
      | inr hclos =>
        refine ⟨hclos, ?_⟩
        omega

omit hreg

theorem run_append (fresh : Admission) (calls : List Call) (call : Call) :
    Desk.run fresh (calls ++ [call]) = (Desk.run fresh calls).step call :=
  foldl_append

theorem regular_run (hseen : fresh.seen = ∅) (hskew : fresh.skewMs.toInt.natAbs < 2 ^ 62)
    (calls : List Call) : Regular fresh (Desk.run fresh calls) := by
  induction calls using reverseRecOn with
  | nil => exact regular_start hseen
  | append_singleton calls call ih =>
    rw [run_append]
    exact ih.step hskew

theorem Roomy.front (hroomy : Roomy fresh (calls ++ [call])) : Roomy fresh calls := by
  intro before middle after hcalls
  apply hroomy before middle (after ++ [call])
  rw [hcalls, append_assoc, cons_append]

theorem kept_run (hseen : fresh.seen = ∅) (hnon : 0 ≤ fresh.skewMs.toInt)
    (hskew : fresh.skewMs.toInt.natAbs < 2 ^ 62) (hfwd : Forward calls)
    (hroomy : Roomy fresh calls) {clock : ℤ} (hclock : ∀ call ∈ calls, call.nowMs.toInt ≤ clock) :
    Kept (Desk.run fresh calls) clock := by
  induction calls using reverseRecOn generalizing clock with
  | nil =>
    exact {
      past := fun call hcall => by cases hcall
      kept := fun call hcall => by cases hcall
      renewed := .nil }
  | append_singleton calls call ih =>
    obtain ⟨hfrt, -, hlast⟩ := pairwise_append.mp hfwd
    have hbef : Kept (Desk.run fresh calls) call.nowMs.toInt := by
      apply ih hfrt hroomy.front
      intro earlier hearl
      exact Int64.le_iff_toInt_le.mp (hlast earlier hearl call mem_cons_self)
    have hreg := regular_run hseen hskew calls
    have hnow := hclock call (mem_append_right _ mem_cons_self)
    rw [run_append]
    have hkept := hbef.step hreg (Int.le_refl _) (hreg.skewMs ▸ hnon)
      (hreg.skewMs ▸ hskew) (hroomy calls call [] rfl)
    exact {
      past := fun other hoth => (hkept.past other hoth).trans hnow
      kept := fun other hoth =>
        (hkept.kept other hoth).imp_right fun hclos => hclos.trans_le hnow
      renewed := hkept.renewed }

variable (hskew : desk.admission.skewMs.toInt.natAbs < 2 ^ 62)
include hskew

theorem refused_unchanged
    (href : (desk.answer call).1 ≠ .ok ()) : (desk.answer call).2 = desk.admission := by
  have hstep := @stepped desk call hskew
  generalize desk.step call = next at hstep
  cases hstep with
  | refused refusal hans => rw [hans]
  | admitted hchec hnew hans =>
    rw [hans] at href
    exact absurd rfl href

theorem size_of_admitted (hadm : (desk.answer call).1 = .ok ()) :
    (desk.answer call).2.seen.size ≤ Admission.room call.budget := by
  have hstep := @stepped desk call hskew
  generalize desk.step call = next at hstep
  cases hstep with
  | refused refusal hans =>
    rw [hans] at hadm
    cases hadm
  | admitted hchec hnew hans =>
    rw [hans]
    exact size_remember _ _ _ _

end Steps

def Admission.opened (me : String) (ownerNodes : List String) (skewMs : Int64) : Admission :=
  (Admission.new me ownerNodes).withSkewMs skewMs

theorem toInt_opened_skewMs (me : String) (ownerNodes : List String) (skewMs : Int64) :
    (Admission.opened me ownerNodes skewMs).skewMs.toInt = max 0 skewMs.toInt := by
  have hzero : (0 : Int64).toInt = 0 := rfl
  rw [Admission.opened, Admission.withSkewMs]
  split
  · next hneg =>
    rw [Int64.lt_iff_toInt_lt] at hneg
    change (0 : Int64).toInt = _
    omega
  rename_i hnon
  rw [Int64.lt_iff_toInt_lt] at hnon
  change skewMs.toInt = _
  omega

/-- Only checked calls are admitted, a refused call changes nothing, and no more ids are remembered
than the budget allows.  While the clock does not go back and fewer ids than the budget are admitted
inside a window, an id is admitted again only for a later time, after the window of the earlier call
has closed. -/
theorem admission_sound (me : String) (ownerNodes : List String) (skewMs : Int64)
    (hskew : skewMs.toInt < 2 ^ 62) (calls : List Call) :
    (Forward calls → Roomy (.opened me ownerNodes skewMs) calls →
      (Desk.run (.opened me ownerNodes skewMs) calls).admitted.Pairwise
        (Renewed (Admission.opened me ownerNodes skewMs).skewMs)) ∧
      (∀ call ∈ (Desk.run (.opened me ownerNodes skewMs) calls).admitted,
        Checked (.opened me ownerNodes skewMs) call) ∧
      (Desk.run (.opened me ownerNodes skewMs) calls).admission.seen.size ≤ maxReplayEntries ∧
      ∀ call,
        (((Desk.run (.opened me ownerNodes skewMs) calls).answer call).1 ≠ .ok () →
          ((Desk.run (.opened me ownerNodes skewMs) calls).answer call).2 =
            (Desk.run (.opened me ownerNodes skewMs) calls).admission) ∧
        (((Desk.run (.opened me ownerNodes skewMs) calls).answer call).1 = .ok () →
          ((Desk.run (.opened me ownerNodes skewMs) calls).answer call).2.seen.size ≤
            Admission.room call.budget) := by
  have hvalue := toInt_opened_skewMs me ownerNodes skewMs
  have hnonneg : 0 ≤ (Admission.opened me ownerNodes skewMs).skewMs.toInt := by omega
  have hbound : (Admission.opened me ownerNodes skewMs).skewMs.toInt.natAbs < 2 ^ 62 := by omega
  have hregular := regular_run rfl hbound calls
  refine ⟨?_, hregular.checked, hregular.bounded, ?_⟩
  · intro hforward hroomy
    have hnow : ∀ call ∈ calls, call.nowMs.toInt ≤ 2 ^ 63 :=
      fun call _ => Int.le_of_lt (Int64.toInt_lt call.nowMs)
    have hkept := kept_run rfl hnonneg hbound hforward hroomy hnow
    rw [← hregular.skewMs]
    exact hkept.renewed
  · intro call
    rw [← hregular.skewMs] at hbound
    exact ⟨refused_unchanged hbound, size_of_admitted hbound⟩

section Reused

def callAt (rid : String) (nowMs tsMs : Int64) (budget : ℕ) : Call where
  envelope := ⟨.done, "laptop", "phone", tsMs, rid⟩
  transport := ⟨tsMs, "00", "sig"⟩
  nowMs := nowMs
  budget := budget
  verify message _ _ := message = "done|laptop|" ++ toString tsMs.toInt ++ "|00"

def phone : Admission :=
  .opened "phone" ["laptop"] defaultSkewMs

theorem length_admitted (fresh : Admission) (calls : List Call) :
    (Desk.run fresh calls).admitted.length ≤ calls.length := by
  induction calls using reverseRecOn with
  | nil => exact Nat.le_refl 0
  | append_singleton calls call ih =>
    rw [run_append, Desk.step, length_append, length_singleton]
    split
    · rw [length_append, length_singleton]
      exact Nat.add_le_add_right ih 1
    · exact Nat.le_succ_of_le ih

theorem roomy_of_length {fresh : Admission} {calls : List Call}
    (hlen : ∀ call ∈ calls, calls.length ≤ Admission.room call.budget) : Roomy fresh calls := by
  intro before call after hcalls
  have hmem : call ∈ calls := by
    rw [hcalls]
    exact mem_append_right before mem_cons_self
  calc ((Desk.run fresh before).recent call.nowMs).card
      ≤ before.length := by
        apply (toFinset_card_le _).trans
        rw [length_map]
        exact (length_filter_le _ _).trans (length_admitted fresh before)
    _ < calls.length := by
        rw [hcalls, length_append, length_cons]
        omega
    _ ≤ Admission.room call.budget := hlen call hmem

/-- A captured call is not admitted again. -/
theorem admission_sound_captured :
    (Desk.run phone [callAt "r" 0 0 2, callAt "r" 60000 0 2]).admitted.Pairwise
        (Renewed phone.skewMs) :=
  (admission_sound "phone" ["laptop"] defaultSkewMs (by decide) _).1
    (by decide +kernel) (roomy_of_length (by decide))

/-- An id is used, another call comes as soon as the first window has closed, and the id is used
again. -/
def reusedRid : List Call :=
  [callAt "r" 0 0 4096, callAt "q" 60001 120001 4096, callAt "r" 60001 120001 4096]

/-- The second call with the id is admitted, too; and a budget of none leaves one id remembered. -/
theorem reused_rid_admitted_again :
    Forward reusedRid ∧ Roomy phone reusedRid ∧
      ¬ ((Desk.run phone reusedRid).admitted.map fun call => call.envelope.rid).Nodup ∧
      ¬ (Desk.run phone [callAt "r" 0 0 0]).admission.seen.size ≤ min 0 maxReplayEntries := by
  refine ⟨by decide +kernel, roomy_of_length (by decide), ?_, by decide +kernel⟩
  decide +kernel

end Reused

end WasmAgent.Stt
