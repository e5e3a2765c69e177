import Mathlib.Data.List.Count
import WasmAgent.Grant.Caps

/-!
# What an approval is good for

The approvals for one target are kept as a number of uses with one expiry, that of the last
approval.  As long as no approval puts off the expiry of the uses that are left, each call that was
let through on an approval used one that had not expired.
-/

namespace WasmAgent.Grant

open List Option List Std.ExtTreeMap Std WasmAgent.Core

namespace Call

def redeems (engine : Engine) (key : String) (call : Call) : Bool :=
  call.allowed engine && call.request?.any fun request => call.reading.any fun now =>
    (engine.plan request now).charges.contains ⟨key, .approval⟩

def grants (key : String) : Call → List (Option UInt64)
  | approve request now ttl =>
      if approvalKey request.component request.capability request.target = key then
        [ttl.map (saturatingAdd now)]
      else []
  | _ => []

end Call

/-- How many calls are let through on an approval. -/
def redeemed (key : String) : List Call → Engine → ℕ
  | [], _ => 0
  | call :: calls, engine =>
      (if call.redeems engine key then 1 else 0) + redeemed key calls (call.run engine).2

/-- Every call that is let through on an approval takes one of those given before and not yet
taken, and it has not expired. -/
def Redeemable (key : String) : List (Option UInt64) → List Call → Engine → Bool
  | _, [], _ => true
  | held, call :: calls, engine =>
      if call.redeems engine key then
        held.any fun expires => call.reading.all (fun now => expires.all (now < ·)) &&
          Redeemable key (held.erase expires) calls (call.run engine).2
      else Redeemable key (call.grants key ++ held) calls (call.run engine).2

/-- An approval that expires at `left` is good no longer than one that expires at `right`. -/
def notAfter (left right : Option UInt64) : Bool := right.all fun right => left.any (· ≤ right)

def Steady (key : String) : List Call → Engine → Prop
  | [], _ => True
  | call :: calls, engine =>
      (∀ expires ∈ call.grants key, ∀ found, engine.approvals[key]? = some found →
        0 < found.uses → notAfter expires found.expires = true) ∧
      Steady key calls (call.run engine).2

section Uses

variable {engine : Engine} {key : String} {call : Call} {now : UInt64} {charges : List Charge}
  {state : ApprovalState}

theorem approvals_foldl
    (hst : (charges.foldl (Engine.charge now) engine).approvals[key]? = some state) :
    ∃ found, engine.approvals[key]? = some found ∧ state.expires = found.expires ∧
      state.uses.toNat ≤ found.uses.toNat - charges.count ⟨key, .approval⟩ := by
  induction charges generalizing engine with
  | nil => exact ⟨state, hst, rfl, Nat.le_refl _⟩
  | cons first rest ih =>
    obtain ⟨middle, hmid, hexp, huses⟩ := ih hst
    obtain ⟨charged, kind⟩ := first
    rw [List.count_cons]
    cases kind with
    | bucket | daily => exact ⟨middle, hmid, hexp, by simpa using huses⟩
    | approval =>
      simp only [Engine.charge] at hmid
      cases hfnd : engine.approvals[charged]? with
      | none =>
        simp only [hfnd] at hmid
        refine ⟨middle, hmid, hexp, ?_⟩
        have hoth : charged ≠ key := by
          rintro rfl
          cases hfnd.symm.trans hmid
        simpa [hoth] using huses
      | some found =>
        simp only [hfnd, ExtTreeMap.getElem?_insert, Std.compare_eq_iff_eq] at hmid
        split at hmid
        · next hkey =>
          subst hkey
          cases hmid
          refine ⟨found, hfnd, hexp, ?_⟩
          have hless : (if found.uses = 0 then 0 else found.uses - 1).toNat =
              found.uses.toNat - 1 := by
            split
            · next hzero => simp [hzero]
            · next hpos =>
              apply UInt32.toNat_sub_of_le
              exact Nat.pos_of_ne_zero (fun h => hpos (UInt32.toNat_inj.mp h))
          simp only [hless] at huses
          simp only [BEq.rfl, if_true]
          omega
        · next hoth => exact ⟨middle, hmid, hexp, by simpa [hoth] using huses⟩

theorem redeems_found (hred : call.redeems engine key = true) :
    ∃ now found, call.reading = some now ∧ engine.approvals[key]? = some found ∧
      found.validAt now = true := by
  rw [Call.redeems, Bool.and_eq_true] at hred
  obtain ⟨request, now, _, hreq, hrdg, hall, _⟩ := call_commits hred.1
  obtain ⟨used, hchar, hplnd⟩ := plan_allow hall
  obtain ⟨_, hctn⟩ := hred
  have hused : key ∈ used := by
    simpa [hreq, hrdg, hchar, chargesOf] using hctn
  obtain ⟨-, found, hfnd, hvld⟩ := hplnd.approval key hused
  exact ⟨now, found, hrdg, hfnd, hvld⟩

theorem call_lessens (hsound : Sound engine) (hgran : call.grants key = [])
    (hst : (call.run engine).2.approvals[key]? = some state) :
    ∃ found, engine.approvals[key]? = some found ∧ state.expires = found.expires ∧
      state.uses.toNat ≤ found.uses.toNat - if call.redeems engine key then 1 else 0 := by
  cases halwd : call.allowed engine with
  | true =>
    obtain ⟨request, now, other, hreq, hrdg, -, -, -, -, hbud, hrun⟩ := call_commits halwd
    rw [hrun, Engine.commit] at hst
    change (ExtTreeMap.filter _ _)[key]? = _ at hst
    rw [ExtTreeMap.getElem?_filter', Option.filter_eq_some_iff] at hst
    obtain ⟨found, hfnd, hexp, huses⟩ := approvals_foldl hst.1
    refine ⟨found, hbud.approvals ▸ hfnd, hexp, Nat.le_trans huses ?_⟩
    rw [Call.redeems, halwd, hreq, hrdg]
    apply Nat.sub_le_sub_left
    split
    · next hcgd => exact List.one_le_count_iff.mpr (by simpa using hcgd)
    · exact Nat.zero_le _
  | false =>
    rw [Call.redeems, halwd]
    suffices hsame : engine.approvals[key]? = some state from ⟨state, hsame, rfl, Nat.le_refl _⟩
    cases call with
    | check request now =>
      exact (hsound.check request now).2.1 (of_decide_eq_false halwd) |>.approvals ▸ hst
    | peek => exact hst
    | enforce request now sink =>
      exact (hsound.enforce request now sink).2.1 (of_decide_eq_false halwd) |>.approvals ▸ hst
    | approve request now ttl =>
      simp only [Call.grants, ite_eq_right_iff, List.cons_ne_nil, imp_false] at hgran
      simpa [Call.run, Engine.approve, ExtTreeMap.getElem?_insert, hgran] using hst
    | revokeApprovals component capability =>
      change (ExtTreeMap.filter _ _)[key]? = _ at hst
      rw [ExtTreeMap.getElem?_filter', Option.filter_eq_some_iff] at hst
      exact hst.1

theorem grants_of_redeems (hred : call.redeems engine key = true) : call.grants key = [] := by
  cases call with
  | approve => cases hred
  | check | peek | enforce | revokeApprovals => rfl

variable {held : List (Option UInt64)}

theorem grant_covered {request : Request} {ttl expires : Option UInt64}
    (hgran : (Call.approve request now ttl).grants key = [expires])
    (hsteady : ∀ found, engine.approvals[key]? = some found → 0 < found.uses →
      notAfter expires found.expires = true)
    (hheld : ∀ found, engine.approvals[key]? = some found →
      found.uses.toNat ≤ held.countP (notAfter found.expires))
    (hst : (engine.approve request now ttl).2.approvals[key]? = some state) :
    state.uses.toNat ≤ (expires :: held).countP (notAfter state.expires) := by
  rw [Call.grants] at hgran
  split at hgran
  · next hkey =>
    cases hgran
    simp only [Engine.approve, hkey, ExtTreeMap.getElem?_insert_self, Option.some.injEq] at hst
    subst hst
    have hself : notAfter (ttl.map (saturatingAdd now)) (ttl.map (saturatingAdd now)) = true := by
      cases ttl <;> simp [notAfter]
    have hone (uses : UInt32) :
        (if uses = 0xFFFFFFFF then uses else uses + 1).toNat ≤ uses.toNat + 1 := by
      split
      · exact Nat.le_succ _
      · rw [UInt32.toNat_add]
        exact Nat.mod_le _ _
    rw [countP_cons_of_pos hself]
    apply Nat.le_trans (hone _)
    apply Nat.succ_le_succ
    cases hfnd : engine.approvals[key]? with
    | none => exact Nat.zero_le _
    | some found =>
      by_cases huses : 0 < found.uses
      · apply Nat.le_trans (hheld found hfnd)
        apply countP_mono_left
        intro other _ hoth
        have hbef := hsteady found hfnd huses
        cases other with
        | none => rfl
        | some other =>
          simp only [notAfter, all_some, Option.any_eq_true, decide_eq_true_iff] at hoth ⊢
          obtain ⟨stored, hsto, hle⟩ := hoth
          simp only [notAfter, hsto, all_some, Option.any_eq_true, decide_eq_true_iff] at hbef
          obtain ⟨given, hgiven, hless⟩ := hbef
          exact ⟨given, hgiven, UInt64.le_trans hless hle⟩
      · rw [UInt32.not_lt] at huses
        exact Nat.le_trans (UInt32.le_iff_toNat_le.mp huses) (Nat.zero_le _)
  · cases hgran

theorem redeemable_of_steady {calls : List Call}
    (hsound : Sound engine) (hsteady : Steady key calls engine)
    (hheld : ∀ found, engine.approvals[key]? = some found →
      found.uses.toNat ≤ held.countP (notAfter found.expires)) :
    Redeemable key held calls engine = true := by
  induction calls generalizing held engine with
  | nil => rfl
  | cons call calls ih =>
    obtain ⟨hgrant, hrest⟩ := hsteady
    rw [Redeemable]
    split
    · next hred =>
      obtain ⟨now, found, hrdg, hfnd, hvld⟩ := redeems_found hred
      rw [ApprovalState.validAt, Bool.and_eq_true, decide_eq_true_iff] at hvld
      have hcnt := hheld found hfnd
      have hsome : 0 < held.countP (notAfter found.expires) :=
        Nat.lt_of_lt_of_le (UInt32.lt_iff_toNat_lt.mp hvld.1) hcnt
      obtain ⟨expires, hmem, haft⟩ := countP_pos_iff.mp hsome
      rw [List.any_eq_true]
      refine ⟨expires, hmem, ?_⟩
      rw [Bool.and_eq_true, hrdg]
      constructor
      · cases expires with
        | none => rfl
        | some expires =>
          simp only [notAfter, all_some, Option.any_eq_true, decide_eq_true_iff] at haft ⊢
          obtain ⟨stored, hsto, hle⟩ := haft
          rw [hsto, all_some, decide_eq_true_iff] at hvld
          exact UInt64.lt_of_lt_of_le hvld.2 hle
      apply ih (hsound.call call) hrest
      intro state hst
      obtain ⟨before, hbef, hexp, huses⟩ := call_lessens hsound (grants_of_redeems hred) hst
      cases hfnd.symm.trans hbef
      rw [if_pos hred] at huses
      rw [hexp, countP_erase, if_pos ⟨hmem, haft⟩]
      omega
    rename_i hoth
    apply ih (hsound.call call) hrest
    intro state hst
    cases hgran : call.grants key with
    | nil =>
      obtain ⟨before, hbef, hexp, huses⟩ := call_lessens hsound hgran hst
      rw [hexp]
      exact Nat.le_trans (Nat.le_trans huses (Nat.sub_le _ _)) (hheld before hbef)
    | cons expires others =>
      cases call with
      | approve request now ttl =>
        have hone : others = [] := by
          rw [Call.grants] at hgran
          split at hgran <;> cases hgran
          rfl
        subst hone
        exact grant_covered hgran (hgrant expires (hgran ▸ mem_singleton_self _)) hheld hst
      | check | peek | enforce | revokeApprovals => cases hgran

theorem redeemed_le {calls : List Call} (hred : Redeemable key held calls engine = true) :
    redeemed key calls engine ≤ held.length + (calls.flatMap (Call.grants key)).length := by
  induction calls generalizing held engine with
  | nil => exact Nat.zero_le _
  | cons call calls ih =>
    rw [Redeemable] at hred
    rw [redeemed, flatMap_cons, length_append]
    split at hred
    · obtain ⟨expires, hmem, hrest⟩ := any_eq_true.mp hred
      have hle := ih ((Bool.and_eq_true _ _).mp hrest).2
      rw [length_erase_of_mem hmem] at hle
      have hpos := length_pos_of_mem hmem
      rw [if_pos ‹_›]
      omega
    have hle := ih hred
    rw [length_append] at hle
    rw [if_neg ‹_›]
    omega

/-- In every run in which no approval puts off the expiry of uses that are left, the calls let
through on approvals for a target are at most as many as the approvals given for it, and each of
them takes one of its own that has not expired. -/
theorem approvals_single_use_of_run (policy : Policy) {own : Request} {calls : List Call}
    (hsteady : Steady (approvalKey own.component own.capability own.target) calls
      (Engine.new policy)) :
    redeemed (approvalKey own.component own.capability own.target) calls (Engine.new policy) ≤
        (calls.flatMap (Call.grants
          (approvalKey own.component own.capability own.target))).length ∧
      Redeemable (approvalKey own.component own.capability own.target) [] calls
        (Engine.new policy) = true := by
  have hredeemable := @redeemable_of_steady _ _ [] _ (Sound.new policy) hsteady (by
    intro found hfound
    cases (getElem?_empty (a := approvalKey _ _ _)).symm.trans hfound)
  have hle := redeemed_le hredeemable
  rw [length_nil, Nat.zero_add] at hle
  exact ⟨hle, hredeemable⟩

end Uses

section Late

def approvedRule : Rule := ⟨.allow, [], [], none, true, none, none, [], none⟩

def approvedPolicy : Policy where
  set := ⟨1, [], (∅ : ExtTreeMap String ComponentPolicy).insert "c"
    ⟨(∅ : ExtTreeMap String Rule).insert "x" approvedRule⟩⟩
  valid := by decide +kernel

/-- One approval lets through the first of two calls. -/
theorem approvals_single_use_once :
    redeemed (approvalKey "c" "x" none)
        [.approve minuteRequest 0 (some 10), .check minuteRequest 5, .check minuteRequest 6]
        (Engine.new approvedPolicy) ≤ 1 ∧
      Redeemable (approvalKey "c" "x" none) []
        [.approve minuteRequest 0 (some 10), .check minuteRequest 5, .check minuteRequest 6]
        (Engine.new approvedPolicy) = true := by
  apply @approvals_single_use_of_run approvedPolicy minuteRequest
    [.approve minuteRequest 0 (some 10), .check minuteRequest 5, .check minuteRequest 6]
  refine ⟨?_, ?_, ?_, trivial⟩
  · intro _ _ found hfound
    cases (getElem?_empty (a := approvalKey _ _ _)).symm.trans hfound
  · exact fun _ h => absurd h not_mem_nil
  · exact fun _ h => absurd h not_mem_nil

/-- The second approval lets the first be used long after it expired. -/
theorem expired_approval_redeemed :
    redeemed (approvalKey "c" "x" none)
        [.approve minuteRequest 0 (some 10), .approve minuteRequest 100 none,
          .check minuteRequest 200, .check minuteRequest 200] (Engine.new approvedPolicy) = 2 ∧
      ¬ Redeemable (approvalKey "c" "x" none) []
        [.approve minuteRequest 0 (some 10), .approve minuteRequest 100 none,
          .check minuteRequest 200, .check minuteRequest 200] (Engine.new approvedPolicy) = true := by
  decide +kernel

end Late

end WasmAgent.Grant
