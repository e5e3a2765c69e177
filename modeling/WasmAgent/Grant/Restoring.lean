import WasmAgent.Grant.Rates

/-!
# Snapshots of the engine

A snapshot keeps the budgets but not the order in which the target buckets were charged;
restoring one orders them by their keys.  The restored engine answers as the original until
a target bucket is dropped that the original would have kept.
-/

namespace WasmAgent.Grant

open List Option Std.ExtTreeMap Std WasmAgent.Core

namespace Engine

def anew (engine : Engine) : Engine :=
  { new engine.policy with
    targetMode := engine.targetMode
    failClosedOnAudit := engine.failClosedOnAudit
    maxTargetBuckets := engine.maxTargetBuckets }

/-- The budgets are within what `restore` takes. -/
structure Fits (engine : Engine) : Prop where
  buckets : engine.buckets.size ≤ max (min (engine.maxTargetBuckets * 2) usizeMax) 64
  daily : ∀ (key : String) (counter : DailyCounter), engine.daily[key]? = some counter →
    ¬ (counter.day = 0 ∧ 0 < counter.count)

def InOrder (engine : Engine) : Prop :=
  (targets engine.buckets).Pairwise fun earlier later => earlier.2 < later.2

def crowded (engine : Engine) (request : Request) (now : UInt64) : Bool :=
  engine.maxTargetBuckets <
    ((engine.plan request now).charges.foldl (charge now) engine).targetBucketCount

end Engine

/-- No call leaves a target bucket to be dropped. -/
def Roomy : List Call → Engine → Prop
  | [], _ => True
  | call :: calls, engine =>
      (∀ request now, call.allowed engine = true → call.request? = some request →
        call.reading = some now → engine.crowded request now = false) ∧
        Roomy calls (call.run engine).2

/-- The engines agree on everything that answers depend on, but for the order in which the
buckets were charged. -/
structure Alike (left right : Engine) : Prop where
  policy : right.policy = left.policy
  targetMode : right.targetMode = left.targetMode
  failClosedOnAudit : right.failClosedOnAudit = left.failClosedOnAudit
  maxTargetBuckets : right.maxTargetBuckets = left.maxTargetBuckets
  buckets : ∀ key : String,
    (right.buckets[key]?).map (·.bucket) = (left.buckets[key]?).map (·.bucket)
  daily : right.daily = left.daily
  approvals : right.approvals = left.approvals

def SameOrder (left right : ExtTreeMap String Entry) : Prop :=
  ∀ (first second : String) (entry other found late : Entry),
    left[first]? = some entry → left[second]? = some other →
    right[first]? = some found → right[second]? = some late →
    hasTag 't' first = true → hasTag 't' second = true →
    (entry.touched ≤ other.touched ↔ found.touched ≤ late.touched)

section Alike

variable {left right : Engine} {request : Request} {now : UInt64} (halk : Alike left right)
include halk

variable (key : String)

theorem Alike.agree :
    left.buckets[key]? = none ∧ right.buckets[key]? = none ∨
      ∃ entry found, left.buckets[key]? = some entry ∧ right.buckets[key]? = some found ∧
        found.bucket = entry.bucket := by
  have hsame := halk.buckets key
  cases hlt : left.buckets[key]? with
  | none =>
    rw [hlt, map_none, map_eq_none_iff] at hsame
    exact .inl ⟨rfl, hsame⟩
  | some entry =>
    rw [hlt, map_some, map_eq_some_iff] at hsame
    obtain ⟨found, hrt, hbuc⟩ := hsame
    exact .inr ⟨entry, found, rfl, hrt, hbuc⟩

theorem Alike.found (bucket : Bucket) :
    ((right.buckets[key]?).elim bucket (·.bucket)) =
      ((left.buckets[key]?).elim bucket (·.bucket)) := by
  rcases halk.agree key with ⟨hlt, hrt⟩ | ⟨entry, found, hlt, hrt, hbuc⟩
  · rw [hlt, hrt]
  · rw [hlt, hrt, elim_some, elim_some, hbuc]

theorem Alike.limited (rate : RateLimit) :
    right.limited key rate now = left.limited key rate now := by
  rw [Engine.limited, Engine.limited]
  rcases halk.agree key with ⟨hlt, hrt⟩ | ⟨entry, found, hlt, hrt, hbuc⟩
  · rw [hlt, hrt]
  · rw [hlt, hrt]
    dsimp only
    rw [hbuc]

theorem Alike.bucketDue (rate : Option RateLimit) (reason : Reason) :
    right.bucketDue key rate reason now = left.bucketDue key rate reason now := by
  cases rate with
  | none => rfl
  | some limit => rw [Engine.bucketDue.eq_2, Engine.bucketDue.eq_2, halk.limited]

theorem Alike.plan : right.plan request now = left.plan request now := by
  have hdues : ∀ rule, right.dues rule request now = left.dues rule request now := by
    intro rule
    have htgt : right.targetDue rule request now = left.targetDue rule request now := by
      rw [Engine.targetDue, Engine.targetDue]
      cases request.target with
      | none => rfl
      | some target => exact halk.bucketDue _ _ _
    have happ : right.approvalDue rule request now = left.approvalDue rule request now := by
      rw [Engine.approvalDue, halk.approvals, Engine.approvalDue]
    have hdaily : right.dailyDue rule request now = left.dailyDue rule request now := by
      rw [Engine.dailyDue, halk.daily, Engine.dailyDue]
    rw [Engine.dues, Engine.dues, htgt, happ, hdaily, halk.bucketDue]
  rw [Engine.plan, halk.policy, Engine.plan]
  cases left.policy.set.rule request.component request.capability with
  | none => rfl
  | some rule =>
    dsimp only
    rw [hdues]

theorem Alike.spend (rate : RateLimit) :
    Alike (left.spend key rate now) (right.spend key rate now) := by
  refine { halk with buckets := ?_ }
  intro other
  rw [getElem?_spend, getElem?_spend]
  split
  · rw [halk.found, map_some, map_some]
  · exact halk.buckets other

theorem Alike.charge (charge : Charge) :
    Alike (left.charge now charge) (right.charge now charge) := by
  rw [Engine.charge, Engine.charge]
  cases charge.kind with
  | bucket rate => exact halk.spend charge.key rate
  | daily =>
    refine { halk with daily := ?_ }
    dsimp only
    rw [halk.daily]
  | approval =>
    dsimp only
    rw [halk.approvals]
    cases left.approvals[charge.key]? with
    | none => exact halk
    | some state =>
      refine { halk with approvals := rfl }

theorem Alike.foldl_charge (charges : List Charge) :
    Alike (charges.foldl (Engine.charge now) left) (charges.foldl (Engine.charge now) right) := by
  induction charges generalizing left right with
  | nil => exact halk
  | cons first rest ih => exact ih (halk.charge first)

theorem Alike.prune (now : UInt64) :
    Alike (left.pruneApprovals now) (right.pruneApprovals now) := by
  refine { halk with approvals := ?_ }
  rw [Engine.pruneApprovals, halk.approvals]
  rfl

theorem Alike.evict (hsame : Engine.evicted right.maxTargetBuckets right.buckets =
      Engine.evicted left.maxTargetBuckets left.buckets) :
    Alike left.evictTargets right.evictTargets := by
  refine { halk with buckets := ?_ }
  intro key
  rw [Engine.evictTargets, Engine.evictTargets, hsame, getElem?_foldl_erase, getElem?_foldl_erase]
  split
  · rfl
  · exact halk.buckets key

theorem Alike.keys : right.buckets.keys = left.buckets.keys := by
  have hmaps : right.buckets.map (fun _ entry => entry.bucket) =
      left.buckets.map (fun _ entry => entry.bucket) := by
    ext key bucket
    rw [ExtTreeMap.getElem?_map, ExtTreeMap.getElem?_map, halk.buckets key]
  have hkeys := congrArg ExtTreeMap.keys hmaps
  rwa [ExtTreeMap.keys_map, ExtTreeMap.keys_map] at hkeys

theorem Alike.targets_length :
    (Engine.targets right.buckets).length = (Engine.targets left.buckets).length := by
  have hkeys := congrArg (List.filter (hasTag 't' ·)) halk.keys
  rw [← map_fst_targets, ← map_fst_targets] at hkeys
  have hlen := congrArg length hkeys
  rwa [length_map, length_map] at hlen

end Alike

section Order

variable {left right : Engine} {now : UInt64}

def touchedAt (buckets : ExtTreeMap String Entry) (key : String) : ℕ :=
  (buckets[key]?).elim 0 (·.touched)

theorem targets_eq_map (buckets : ExtTreeMap String Entry) :
    Engine.targets buckets =
      (buckets.keys.filter (hasTag 't' ·)).map fun key => (key, touchedAt buckets key) := by
  rw [← map_fst_targets, List.map_map]
  refine (List.map_id _).symm.trans (List.map_congr_left ?_)
  intro age hage
  obtain ⟨-, entry, hent, htouc⟩ := mem_targets.mp hage
  change age = (age.1, touchedAt buckets age.1)
  rw [touchedAt, hent, Option.elim_some, htouc]

theorem Alike.evicted_of_order (halk : Alike left right)
    (horder : SameOrder left.buckets right.buckets) :
    Engine.evicted right.maxTargetBuckets right.buckets =
      Engine.evicted left.maxTargetBuckets left.buckets := by
  have hent : ∀ {buckets : ExtTreeMap String Entry} {key : String},
      key ∈ buckets.keys.filter (hasTag 't' ·) →
      hasTag 't' key = true ∧ ∃ entry, buckets[key]? = some entry := by
    intro buckets key hkey
    obtain ⟨hmem, htag⟩ := List.mem_filter.mp hkey
    refine ⟨htag, isSome_iff_exists.mp ?_⟩
    exact mem_iff_isSome_getElem?.mp (ExtTreeMap.mem_keys.mp hmem)
  rw [Engine.evicted, Engine.evicted, halk.targets_length, halk.maxTargetBuckets,
    targets_eq_map, targets_eq_map, halk.keys]
  apply Eq.symm
  apply oldest_map_congr
  intro first hfst second hsnd
  obtain ⟨htag, entry, hlt⟩ := hent hfst
  obtain ⟨hoth, other, hleftOther⟩ := hent hsnd
  rw [← halk.keys] at hfst hsnd
  obtain ⟨-, found, hrt⟩ := hent hfst
  obtain ⟨-, late, hrightLate⟩ := hent hsnd
  rw [touchedAt, touchedAt, touchedAt, touchedAt, hlt, hleftOther, hrt, hrightLate]
  exact horder first second entry other found late hlt hleftOther hrt hrightLate htag hoth

variable (horder : SameOrder left.buckets right.buckets)
include horder

theorem SameOrder.spend (hlt : Recent left) (hrt : Recent right) (key : String) (rate : RateLimit) :
    SameOrder (left.spend key rate now).buckets (right.spend key rate now).buckets := by
  intro first second entry other found late hent hoth hfnd hlate htag hsecondTag
  rw [getElem?_spend] at hent hoth hfnd hlate
  split at hent
  · next hfst =>
    rw [if_pos hfst] at hfnd
    cases hent
    cases hfnd
    split at hoth
    · next hsnd =>
      rw [if_pos hsnd] at hlate
      cases hoth
      cases hlate
      exact iff_of_true (Nat.le_refl _) (Nat.le_refl _)
    rename_i hsnd
    rw [if_neg hsnd] at hlate
    have holder := hlt second other hoth
    have hltr := hrt second late hlate
    exact iff_of_false (Nat.not_le_of_lt (Nat.lt_succ_of_le holder))
      (Nat.not_le_of_lt (Nat.lt_succ_of_le hltr))
  rename_i hfst
  rw [if_neg hfst] at hfnd
  split at hoth
  · next hsnd =>
    rw [if_pos hsnd] at hlate
    cases hoth
    cases hlate
    exact iff_of_true (Nat.le_succ_of_le (hlt first entry hent))
      (Nat.le_succ_of_le (hrt first found hfnd))
  · next hsnd =>
    rw [if_neg hsnd] at hlate
    exact horder first second entry other found late hent hoth hfnd hlate htag hsecondTag

theorem SameOrder.charge (hlt : Recent left)
    (hrt : Recent right) (happ : right.approvals = left.approvals) (charge : Charge) :
    SameOrder (left.charge now charge).buckets (right.charge now charge).buckets := by
  rw [Engine.charge, Engine.charge]
  cases charge.kind with
  | bucket rate => exact horder.spend hlt hrt charge.key rate
  | daily => exact horder
  | approval =>
    dsimp only
    rw [happ]
    cases left.approvals[charge.key]? with
    | none | some => exact horder

omit horder in
theorem Recent.charge (hrcnt : Recent left) (charge : Charge) :
    Recent (left.charge now charge) := by
  rw [Engine.charge]
  cases charge.kind with
  | bucket rate => exact hrcnt.spend charge.key rate
  | daily => exact hrcnt
  | approval =>
    dsimp only
    cases left.approvals[charge.key]? with
    | none | some => exact hrcnt

theorem SameOrder.foldl_charge (halk : Alike left right) (hlt : Recent left) (hrt : Recent right)
    (charges : List Charge) :
    SameOrder (charges.foldl (Engine.charge now) left).buckets
      (charges.foldl (Engine.charge now) right).buckets := by
  induction charges generalizing left right with
  | nil => exact horder
  | cons first rest ih =>
    exact ih (horder.charge hlt hrt halk.approvals first) (halk.charge first)
      (hlt.charge first) (hrt.charge first)

theorem SameOrder.evict : SameOrder left.evictTargets.buckets right.evictTargets.buckets := by
  have hkept : ∀ {engine : Engine} {key : String} {entry : Entry},
      engine.evictTargets.buckets[key]? = some entry → engine.buckets[key]? = some entry := by
    intro engine key entry hent
    rcases @getElem?_evictTargets engine key with hsame | ⟨-, hnone⟩
    · exact hsame.symm.trans hent
    · cases hnone.symm.trans hent
  intro first second entry other found late hent hoth hfnd hlate
  exact horder first second entry other found late (hkept hent) (hkept hoth) (hkept hfnd)
    (hkept hlate)

end Order

section Steps

variable {left right : Engine} {now : UInt64}

def Keeps (left right : Engine) (charges : List Charge) (now : UInt64) : Prop :=
  SameOrder left.buckets right.buckets ∧ Recent left ∧ Recent right ∨
    (charges.foldl (Engine.charge now) left).targetBucketCount ≤ left.maxTargetBuckets

theorem evicted_of_room {engine : Engine} {max : ℕ} (hroom : engine.targetBucketCount ≤ max) :
    Engine.evicted max engine.buckets = [] := by
  rw [targetBucketCount_eq] at hroom
  rw [Engine.evicted, Nat.sub_eq_zero_of_le hroom, oldest_zero]

variable (charges : List Charge)

theorem max_foldl_charge :
    (charges.foldl (Engine.charge now) left).maxTargetBuckets = left.maxTargetBuckets := by
  induction charges generalizing left with
  | nil => rfl
  | cons first rest ih =>
    rw [foldl_cons, ih, Engine.charge]
    cases first.kind with
    | bucket | daily => rfl
    | approval =>
      dsimp only
      cases left.approvals[first.key]? with
      | none | some => rfl

variable (halk : Alike left right)
include halk

theorem Alike.commit (hks : Keeps left right charges now) :
    Alike (left.commit charges now) (right.commit charges now) ∧
      (SameOrder left.buckets right.buckets → Recent left → Recent right →
        SameOrder (left.commit charges now).buckets (right.commit charges now).buckets) := by
  have hcgd := @Alike.foldl_charge left right now halk charges
  apply And.intro
  · apply Alike.evict (hcgd.prune now)
    rcases hks with ⟨horder, hlt, hrt⟩ | hroom
    · exact Alike.evicted_of_order (hcgd.prune now)
        (horder.foldl_charge halk hlt hrt charges)
    have hcnt : ((charges.foldl (Engine.charge now) right).pruneApprovals now).targetBucketCount ≤
        left.maxTargetBuckets := by
      have hlen := hcgd.targets_length
      rw [← targetBucketCount_eq, ← targetBucketCount_eq] at hlen
      exact hlen ▸ hroom
    have hmax : ((charges.foldl (Engine.charge now) left).pruneApprovals now).maxTargetBuckets =
        left.maxTargetBuckets := max_foldl_charge charges
    rw [(hcgd.prune now).maxTargetBuckets, hmax, evicted_of_room hcnt]
    exact (@evicted_of_room ((charges.foldl (Engine.charge now) left).pruneApprovals now) _
      hroom).symm
  · intro horder hlt hrt
    exact (horder.foldl_charge halk hlt hrt charges).evict

omit halk in
theorem alike_advance (engine : Engine) (now : UInt64) : Alike engine (engine.advance now) :=
  ⟨rfl, rfl, rfl, rfl, fun _ => rfl, rfl, rfl⟩

theorem Alike.advance (now : UInt64) : Alike (left.advance now) (right.advance now) := { halk with }

theorem Alike.audit (request : Request) (decision : Decision) (sink : AuditSink) :
    (right.audit request now decision sink).decision =
        (left.audit request now decision sink).decision ∧
      (right.audit request now decision sink).written =
        (left.audit request now decision sink).written ∧
      Alike (left.audit request now decision sink).engine
        (right.audit request now decision sink).engine := by
  rw [Engine.audit, halk.policy, halk.targetMode, halk.failClosedOnAudit, Engine.audit]
  dsimp only
  split
  · cases sink (AuditRecord.new now request decision left.targetMode) with
    | ok written => exact ⟨rfl, rfl, halk⟩
    | error fault =>
      exact ⟨rfl, rfl, { halk with policy := rfl, targetMode := rfl, failClosedOnAudit := rfl }⟩
  · exact ⟨rfl, rfl, halk⟩

omit halk in
theorem audit_alike {request : Request} (decision : Decision) (sink : AuditSink) :
    Alike left ((left.advance now).audit request now decision sink).engine := by
  rw [Engine.audit]
  dsimp only
  split
  · split
    · exact alike_advance left now
    · exact ⟨rfl, rfl, rfl, rfl, fun _ => rfl, rfl, rfl⟩
  · exact alike_advance left now

omit halk in
theorem room_of_crowded {other : Engine} {request : Request} (halk : Alike left other)
    (hroom : left.crowded request now = false) :
    ((left.plan request now).charges.foldl (Engine.charge now) other).targetBucketCount ≤
      other.maxTargetBuckets := by
  have hcnt := (@Alike.foldl_charge left other now halk
    (left.plan request now).charges).targets_length
  rw [← targetBucketCount_eq, ← targetBucketCount_eq] at hcnt
  rw [hcnt, halk.maxTargetBuckets]
  exact Nat.not_lt.mp (of_decide_eq_false hroom)

theorem Alike.call (hlt : Sound left) (hrt : Sound right) (call : Call)
    (hks : SameOrder left.buckets right.buckets ∨
      ∀ request now, call.allowed left = true → call.request? = some request →
        call.reading = some now → left.crowded request now = false) :
    (call.run right).1 = (call.run left).1 ∧ Alike (call.run left).2 (call.run right).2 ∧
      (SameOrder left.buckets right.buckets →
        SameOrder (call.run left).2.buckets (call.run right).2.buckets) := by
  cases call with
  | check request now =>
    change Answer.decision (right.check request now).1 = Answer.decision (left.check request now).1 ∧
      Alike (left.check request now).2 (right.check request now).2 ∧
      (SameOrder left.buckets right.buckets →
        SameOrder (left.check request now).2.buckets (right.check request now).2.buckets)
    have hkept : (left.plan request now).decision = .allow →
        Keeps (left.advance now) (right.advance now) (left.plan request now).charges now := by
      intro hall
      rcases hks with horder | hroom
      · exact Or.inl ⟨horder, hlt.recent, hrt.recent⟩
      apply Or.inr
      apply room_of_crowded (alike_advance left now)
      apply hroom request now ?_ rfl rfl
      apply decide_eq_true
      rw [check_eq, if_pos hall]
    rw [check_eq, check_eq, halk.plan]
    split
    · next hall =>
      obtain ⟨haft, horder⟩ := (halk.advance now).commit _ (hkept hall)
      exact ⟨rfl, haft, fun hsame => horder hsame hlt.recent hrt.recent⟩
    · exact ⟨rfl, halk.advance now, fun hsame => hsame⟩
  | peek request now =>
    refine ⟨?_, halk, fun hsame => hsame⟩
    change Answer.decision (right.plan request now).decision = _
    rw [halk.plan]
    rfl
  | enforce request now sink =>
    obtain ⟨hdec, hwrn, haud⟩ := @Alike.audit (left.advance now) (right.advance now) now
      (halk.advance now) request (left.plan request now).decision sink
    obtain ⟨-, hmax, htick, hbud⟩ := @audit_engine (left.advance now) request now sink
      (left.plan request now).decision
    obtain ⟨-, hotherMax, hotherTick, hoth⟩ := @audit_engine (right.advance now) request now sink
      (left.plan request now).decision
    have hltr := (hlt.of_same hbud.buckets htick hmax).recent
    have hrtr := (hrt.of_same hoth.buckets hotherTick hotherMax).recent
    have hkept : ((left.advance now).audit request now (left.plan request now).decision
          sink).decision = .allow →
        Keeps ((left.advance now).audit request now (left.plan request now).decision sink).engine
          ((right.advance now).audit request now (left.plan request now).decision sink).engine
          (left.plan request now).charges now := by
      intro hall
      rcases hks with horder | hroom
      · refine Or.inl ⟨?_, hltr, hrtr⟩
        rw [hbud.buckets, hoth.buckets]
        exact horder
      apply Or.inr
      have hset := @audit_alike left now request (left.plan request now).decision sink
      apply room_of_crowded hset
      apply hroom request now ?_ rfl rfl
      apply decide_eq_true
      rw [enforce_eq, if_pos hall]
      exact hall
    change Answer.enforced (right.enforce request now sink).decision
          (right.enforce request now sink).written =
        Answer.enforced (left.enforce request now sink).decision
          (left.enforce request now sink).written ∧
      Alike (left.enforce request now sink).engine (right.enforce request now sink).engine ∧
      (SameOrder left.buckets right.buckets →
        SameOrder (left.enforce request now sink).engine.buckets
          (right.enforce request now sink).engine.buckets)
    rw [enforce_eq, enforce_eq, halk.plan, hdec]
    split
    · next hall =>
      obtain ⟨haft, horder⟩ := haud.commit _ (hkept hall)
      dsimp only
      rw [hdec, hwrn]
      refine ⟨rfl, haft, fun hsame => horder ?_ hltr hrtr⟩
      rw [hbud.buckets, hoth.buckets]
      exact hsame
    rw [hdec, hwrn]
    refine ⟨rfl, haud, fun hsame => ?_⟩
    rw [hbud.buckets, hoth.buckets]
    exact hsame
  | approve request now ttl =>
    have hst : (right.approve request now ttl).1 = (left.approve request now ttl).1 := by
      rw [Engine.approve, halk.approvals, Engine.approve]
    refine ⟨congrArg Answer.approved hst, ?_, fun hsame => hsame⟩
    refine { halk with approvals := ?_ }
    change (right.approve request now ttl).2.approvals = (left.approve request now ttl).2.approvals
    rw [Engine.approve, halk.approvals, Engine.approve]
  | revokeApprovals component capability =>
    refine ⟨rfl, ?_, fun hsame => hsame⟩
    refine { halk with approvals := ?_ }
    change (right.revokeApprovals component capability).approvals =
      (left.revokeApprovals component capability).approvals
    rw [Engine.revokeApprovals, halk.approvals, Engine.revokeApprovals]

theorem Alike.answers (hlt : Sound left) (hrt : Sound right)
    {calls : List Call} (hks : SameOrder left.buckets right.buckets ∨ Roomy calls left) :
    Engine.answers calls right = Engine.answers calls left := by
  induction calls generalizing left right with
  | nil => rfl
  | cons call calls ih =>
    obtain ⟨hans, haft, horder⟩ := halk.call hlt hrt call (by
      rcases hks with hsame | hroomy
      · exact .inl hsame
      · exact .inr hroomy.1)
    rw [Engine.answers, Engine.answers, hans]
    congr 1
    apply ih haft (hlt.call call) (hrt.call call)
    rcases hks with hsame | hroomy
    · exact .inl (horder hsame)
    · exact .inr hroomy.2

end Steps

section Tags

variable {engine : Engine}

structure Tagged (engine : Engine) : Prop where
  buckets : ∀ key ∈ engine.buckets, hasTag 'g' key = true ∨ hasTag 't' key = true
  daily : ∀ key ∈ engine.daily, hasTag 'd' key = true
  approvals : ∀ key ∈ engine.approvals, hasTag 'a' key = true

def Charge.tagged (charge : Charge) : Bool :=
  match charge.kind with
  | .bucket _ => hasTag 'g' charge.key || hasTag 't' charge.key
  | .daily => hasTag 'd' charge.key
  | .approval => true

theorem Tagged.charge {now : UInt64} {charge : Charge} (htag : Tagged engine)
    (hchar : charge.tagged = true) : Tagged (engine.charge now charge) := by
  rw [Engine.charge]
  rw [Charge.tagged] at hchar
  split
  · next rate hkind =>
    rw [hkind] at hchar
    refine { htag with buckets := ?_ }
    intro key hkey
    rcases mem_insert.mp hkey with hsame | hkey
    · rw [← Std.compare_eq_iff_eq.mp hsame]
      exact Bool.or_eq_true_iff.mp hchar
    · exact htag.buckets key hkey
  · next hkind =>
    rw [hkind] at hchar
    refine { htag with daily := ?_ }
    intro key hkey
    rcases mem_insert.mp hkey with hsame | hkey
    · rw [← Std.compare_eq_iff_eq.mp hsame]
      exact hchar
    · exact htag.daily key hkey
  split
  · exact htag
  rename_i state hst
  refine { htag with approvals := ?_ }
  intro key hkey
  rcases mem_insert.mp hkey with hsame | hkey
  · rw [← Std.compare_eq_iff_eq.mp hsame]
    apply htag.approvals
    exact mem_iff_isSome_getElem?.mpr (isSome_iff_exists.mpr ⟨state, hst⟩)
  · exact htag.approvals key hkey

theorem hasTag_dailyKey (tag : Char) {request : Request} :
    hasTag tag (dailyKey request) = (tag == 'd') :=
  hasTag_joined rfl

theorem hasTag_approvalKey (tag : Char) {component capability : String} {target : Option String} :
    hasTag tag (approvalKey component capability target) = (tag == 'a') :=
  hasTag_joined rfl

theorem tagged_plan {request : Request} {now : UInt64}
    (hall : (engine.plan request now).decision = .allow) :
    ∀ charge ∈ (engine.plan request now).charges, charge.tagged = true := by
  obtain ⟨used, hcharg, -⟩ := plan_allow hall
  intro charge hchar
  rw [hcharg, chargesOf, mem_append, mem_append] at hchar
  rcases hchar with (hused | hctr) | hbuc
  · obtain ⟨key, -, rfl⟩ := List.mem_map.mp hused
    rfl
  · obtain ⟨key, hkey, rfl⟩ := List.mem_map.mp hctr
    rw [Policy.countersFor] at hkey
    cases hrule : engine.policy.set.rule request.component request.capability with
    | none =>
      rw [hrule] at hkey
      cases hkey
    | some rule =>
      rw [hrule, elim_some, mem_toList, map_eq_some_iff] at hkey
      obtain ⟨cap, -, rfl⟩ := hkey
      exact hasTag_dailyKey 'd'
  obtain ⟨due, hdue, rfl⟩ := List.mem_map.mp hbuc
  rcases @bucketsFor_cases engine request with ⟨hkeys, -⟩ |
    ⟨capability, target, rate, heq, -, hkeys⟩
  · change (hasTag 'g' due.1 || hasTag 't' due.1) = true
    rw [hkeys due hdue, hasTag_capabilityKey]
    rfl
  change (hasTag 'g' due.1 || hasTag 't' due.1) = true
  rw [heq, mem_append, mem_singleton] at hdue
  rcases hdue with hown | htgt
  · rw [hkeys due hown, hasTag_capabilityKey]
    rfl
  · rw [htgt, hasTag_targetKey, hasTag_targetKey]
    rfl

theorem Tagged.evictTargets (htag : Tagged engine) : Tagged engine.evictTargets := by
  refine { htag with buckets := ?_ }
  intro key hkey
  apply htag.buckets
  rw [mem_iff_isSome_getElem?] at hkey ⊢
  rcases @getElem?_evictTargets engine key with hsame | ⟨-, hnone⟩
  · rw [← hsame]
    exact hkey
  · rw [hnone] at hkey
    cases hkey

theorem Tagged.commit {charges : List Charge} (htag : Tagged engine)
    (hcharg : ∀ charge ∈ charges, charge.tagged = true) (now : UInt64) :
    Tagged (engine.commit charges now) := by
  have hcgd : Tagged (charges.foldl (Engine.charge now) engine) := by
    apply foldlRecOn (motive := Tagged)
    · exact htag
    · intro reached hrch charge hchar
      exact hrch.charge (hcharg charge hchar)
  apply Tagged.evictTargets
  refine { hcgd with approvals := ?_ }
  intro key hkey
  exact hcgd.approvals key (ExtTreeMap.mem_of_mem_filter hkey)

theorem mem_restoredBuckets {buckets : List (String × Bucket)} :
    ∀ key ∈ Engine.restoredBuckets buckets, key ∈ buckets.map Prod.fst := by
  rw [Engine.restoredBuckets]
  apply List.foldlRecOn (motive := fun restored : ExtTreeMap String Entry compare =>
    ∀ key ∈ restored, key ∈ buckets.map Prod.fst)
  · intro key hkey
    exact absurd hkey ExtTreeMap.not_mem_empty
  intro restored hrstd saved hsaved key hkey
  rcases ExtTreeMap.mem_insert.mp hkey with hsame | hkey
  · rw [← Std.compare_eq_iff_eq.mp hsame]
    apply List.mem_map_of_mem
    exact List.mem_of_getElem? (List.mem_zipIdx_iff_getElem?.mp hsaved)
  · exact hrstd key hkey

theorem Tagged.restore {snapshot : StateSnapshot} {restored : Engine}
    (hrst : engine.restore snapshot = .ok restored) : Tagged restored := by
  rw [restore_ok hrst]
  rw [Engine.restore] at hrst
  split at hrst
  · cases hrst
  split at hrst
  · cases hrst
  obtain ⟨⟨⟩, hbuc, hrst⟩ := bind_eq_ok.mp hrst
  obtain ⟨⟨⟩, hdaily, hrst⟩ := bind_eq_ok.mp hrst
  obtain ⟨⟨⟩, happ, -⟩ := bind_eq_ok.mp hrst
  apply Tagged.evictTargets
  constructor
  · intro key hkey
    obtain ⟨saved, hsaved, rfl⟩ := List.mem_map.mp (mem_restoredBuckets key hkey)
    have hchk := forM_eq_ok.mp hbuc saved hsaved
    split at hchk
    · next htag => exact Bool.or_eq_true_iff.mp htag
    · cases hchk
  · intro key hkey
    obtain ⟨counter, hctr⟩ := isSome_iff_exists.mp (mem_iff_isSome_getElem?.mp hkey)
    have hchk := forM_eq_ok.mp hdaily (key, counter) (mem_toList_iff_getElem?_eq_some.mpr hctr)
    rw [Engine.checkDaily] at hchk
    split at hchk
    · cases hchk
    · next htag =>
      rw [Bool.not_eq_true', Bool.not_eq_false] at htag
      exact htag
  intro key hkey
  obtain ⟨state, hst⟩ := isSome_iff_exists.mp (mem_iff_isSome_getElem?.mp hkey)
  have hchk := forM_eq_ok.mp happ (key, state) (mem_toList_iff_getElem?_eq_some.mpr hst)
  split at hchk
  · next htag => exact htag
  · cases hchk

theorem Tagged.of_budgets {other : Engine} (htag : Tagged engine)
    (hbud : SameBudgets engine other) : Tagged other := by
  constructor
  · rw [hbud.buckets]
    exact htag.buckets
  · rw [hbud.daily]
    exact htag.daily
  · rw [hbud.approvals]
    exact htag.approvals

theorem Tagged.call (htag : Tagged engine) (call : Call) : Tagged (call.run engine).2 := by
  cases call with
  | check request now =>
    change Tagged (engine.check request now).2
    rw [check_eq]
    split
    · next hall =>
      exact (@Tagged.of_budgets engine (engine.advance now) htag ⟨rfl, rfl, rfl⟩).commit
        (tagged_plan hall) now
    · exact htag.of_budgets ⟨rfl, rfl, rfl⟩
  | peek request now => exact htag
  | enforce request now sink =>
    have hadv := @Tagged.of_budgets engine (engine.advance now) htag ⟨rfl, rfl, rfl⟩
    have haud := hadv.of_budgets (@audit_engine (engine.advance now) request now sink
      (engine.plan request now).decision).2.2.2
    change Tagged (engine.enforce request now sink).engine
    rw [enforce_eq]
    split
    · next hall => exact haud.commit (tagged_plan (audit_allow hall).1) now
    · exact haud
  | approve request now ttl =>
    refine { htag with approvals := ?_ }
    intro key hkey
    rcases mem_insert.mp hkey with hsame | hkey
    · rw [← Std.compare_eq_iff_eq.mp hsame]
      exact hasTag_approvalKey 'a'
    · exact htag.approvals key hkey
  | revokeApprovals component capability =>
    refine { htag with approvals := ?_ }
    intro key hkey
    exact htag.approvals key (ExtTreeMap.mem_of_mem_filter hkey)

theorem Tagged.of_empty {other : Engine} (hbuc : other.buckets = ∅) (hdaily : other.daily = ∅)
    (happ : other.approvals = ∅) : Tagged other := by
  constructor
  · rw [hbuc]
    exact fun key hkey => absurd hkey not_mem_empty
  · rw [hdaily]
    exact fun key hkey => absurd hkey not_mem_empty
  · rw [happ]
    exact fun key hkey => absurd hkey not_mem_empty

theorem Tagged.step (htag : Tagged engine) (operation : Operation) :
    Tagged (engine.step operation) := by
  cases operation with
  | call call => exact htag.call call
  | setPolicy set =>
    rw [Engine.step, Engine.setPolicy]
    split
    · exact htag.of_budgets ⟨rfl, rfl, rfl⟩
    · exact htag
  | setTargetMode | setFailClosedOnAudit => exact htag.of_budgets ⟨rfl, rfl, rfl⟩
  | setMaxTargetBuckets count => exact Tagged.evictTargets (htag.of_budgets ⟨rfl, rfl, rfl⟩)
  | restore snapshot =>
    rw [Engine.step]
    cases hrst : engine.restore snapshot with
    | error fault => exact htag
    | ok restored => exact Tagged.restore hrst
  | clearState => exact Tagged.of_empty rfl rfl rfl
  | takeAuditErrors => exact htag.of_budgets ⟨rfl, rfl, rfl⟩

theorem Tagged.run (policy : Policy) (operations : List Operation) :
    Tagged ((Engine.new policy).run operations) := by
  rw [Engine.run]
  apply foldlRecOn (motive := Tagged)
  · exact Tagged.of_empty rfl rfl rfl
  · intro engine htag operation _
    exact htag.step operation

end Tags

section Restoring

variable {engine : Engine}

theorem getElem?_foldl_insert (saved : List ((String × Bucket) × ℕ))
    (hndp : (saved.map fun entry => entry.1.1).Nodup) (start : ExtTreeMap String Entry)
    (key : String) :
    (∃ entry ∈ saved, entry.1.1 = key ∧
      (saved.foldl (fun restored entry => restored.insert entry.1.1 ⟨entry.1.2, entry.2 + 1⟩)
        start)[key]? = some (Entry.mk entry.1.2 (entry.2 + 1))) ∨
      key ∉ saved.map (fun entry => entry.1.1) ∧
        (saved.foldl (fun restored entry => restored.insert entry.1.1 ⟨entry.1.2, entry.2 + 1⟩)
          start)[key]? = start[key]? := by
  induction saved generalizing start with
  | nil => exact Or.inr ⟨List.not_mem_nil, rfl⟩
  | cons first rest ih =>
    rw [List.map_cons, List.nodup_cons] at hndp
    rw [List.foldl_cons]
    rcases ih hndp.2 (start.insert first.1.1 ⟨first.1.2, first.2 + 1⟩) with
      ⟨entry, hent, hkey, hfnd⟩ | ⟨habs, hfnd⟩
    · exact Or.inl ⟨entry, List.mem_cons_of_mem _ hent, hkey, hfnd⟩
    rw [hfnd]
    by_cases hkey : first.1.1 = key
    · refine Or.inl ⟨first, List.mem_cons_self, hkey, ?_⟩
      rw [← hkey]
      exact ExtTreeMap.getElem?_insert_self
    refine Or.inr ⟨?_, ?_⟩
    · rw [List.map_cons, List.mem_cons, not_or]
      exact ⟨fun heq => hkey heq.symm, habs⟩
    · exact getElem?_insert_of_ne hkey

theorem getElem?_restoredBuckets (buckets : ExtTreeMap String Bucket) (key : String) :
    (∃ place bucket, buckets.toList[place]? = some (key, bucket) ∧
      (Engine.restoredBuckets buckets.toList)[key]? = some ⟨bucket, place + 1⟩) ∨
      buckets[key]? = none ∧ (Engine.restoredBuckets buckets.toList)[key]? = none := by
  have hkeys : (buckets.toList.zipIdx.map fun entry => entry.1.1) = buckets.keys := by
    rw [← ExtTreeMap.map_fst_toList_eq_keys]
    conv_rhs => rw [← List.zipIdx_map_fst 0 buckets.toList, List.map_map]
    rfl
  have hndp : (buckets.toList.zipIdx.map fun entry => entry.1.1).Nodup := by
    rw [hkeys]
    exact ExtTreeMap.nodup_keys
  rw [Engine.restoredBuckets]
  rcases getElem?_foldl_insert buckets.toList.zipIdx hndp ∅ key with
    ⟨⟨⟨name, bucket⟩, place⟩, hent, hname, hfnd⟩ | ⟨habs, hfnd⟩
  · dsimp only at hname
    rw [hname] at hent
    exact Or.inl ⟨place, bucket, List.mem_zipIdx_iff_getElem?.mp hent, hfnd⟩
  · apply Or.inr
    rw [hkeys, ExtTreeMap.mem_keys, ExtTreeMap.mem_iff_isSome_getElem?] at habs
    exact ⟨Option.not_isSome_iff_eq_none.mp habs, hfnd.trans ExtTreeMap.getElem?_empty⟩

def Engine.reloaded (engine : Engine) : Engine :=
  { engine.anew with
    buckets := Engine.restoredBuckets engine.snapshot.buckets.toList
    daily := engine.daily
    approvals := engine.approvals
    tick := engine.snapshot.buckets.size
    lastNow := if (0 : UInt64) < engine.lastNow then engine.lastNow else 0 }

theorem alike_reloaded : Alike engine engine.reloaded := by
  refine ⟨rfl, rfl, rfl, rfl, ?_, rfl, rfl⟩
  intro key
  change ((Engine.restoredBuckets engine.snapshot.buckets.toList)[key]?).map (·.bucket) = _
  rcases getElem?_restoredBuckets engine.snapshot.buckets key with
    ⟨place, bucket, hplace, hfnd⟩ | ⟨hnone, hfnd⟩
  · have hbuc : engine.snapshot.buckets[key]? = some bucket :=
      ExtTreeMap.mem_toList_iff_getElem?_eq_some.mp (List.mem_of_getElem? hplace)
    rw [Engine.snapshot, ExtTreeMap.getElem?_map] at hbuc
    rw [hfnd, hbuc, Option.map_some]
  · rw [Engine.snapshot, ExtTreeMap.getElem?_map] at hnone
    rw [hfnd, hnone, Option.map_none]

theorem sameOrder_reloaded (horder : engine.InOrder) :
    SameOrder engine.buckets engine.reloaded.buckets := by
  rw [Engine.InOrder, targets_eq_map, List.pairwise_map, List.pairwise_filter,
    List.pairwise_iff_getElem] at horder
  have hplcd : ∀ {key : String} {found : Entry}, engine.reloaded.buckets[key]? = some found →
      ∃ (place : ℕ) (hplace : place < engine.buckets.keys.length),
        engine.buckets.keys[place] = key ∧ found.touched = place + 1 := by
    intro key found hkey
    rcases getElem?_restoredBuckets engine.snapshot.buckets key with
      ⟨place, bucket, hplace, hfnd⟩ | ⟨-, hnone⟩
    · have hkeys : engine.buckets.keys[place]? = some key := by
        have hmap : engine.snapshot.buckets.keys = engine.buckets.keys := ExtTreeMap.keys_map
        rw [← hmap, ← ExtTreeMap.map_fst_toList_eq_keys, List.getElem?_map, hplace, Option.map_some]
      obtain ⟨hlen, hat⟩ := List.getElem?_eq_some_iff.mp hkeys
      cases hfnd.symm.trans hkey
      exact ⟨place, hlen, hat, rfl⟩
    · cases hnone.symm.trans hkey
  intro first second entry other found late hent hoth hfnd hlate htag hsecondTag
  obtain ⟨place, hplace, hfst, htouc⟩ := hplcd hfnd
  obtain ⟨later, hltr, hsnd, hlateTouched⟩ := hplcd hlate
  have hat : touchedAt engine.buckets first = entry.touched := by
    rw [touchedAt, hent, Option.elim_some]
  have hatOther : touchedAt engine.buckets second = other.touched := by
    rw [touchedAt, hoth, Option.elim_some]
  rw [htouc, hlateTouched]
  rcases Nat.lt_trichotomy place later with hless | heq | hmore
  · have hbef := horder place later hplace hltr hless
      (by rw [hfst]; exact htag) (by rw [hsnd]; exact hsecondTag)
    rw [hfst, hsnd, hat, hatOther] at hbef
    exact iff_of_true (Nat.le_of_lt hbef) (Nat.succ_le_succ (Nat.le_of_lt hless))
  · cases heq
    cases hfst.symm.trans hsnd
    cases hent.symm.trans hoth
    exact iff_of_true (Nat.le_refl _) (Nat.le_refl _)
  have hbef := horder later place hltr hplace hmore
    (by rw [hsnd]; exact hsecondTag) (by rw [hfst]; exact htag)
  rw [hfst, hsnd, hat, hatOther] at hbef
  exact iff_of_false (Nat.not_le_of_lt hbef) (Nat.not_le_of_lt (Nat.succ_lt_succ hmore))

theorem restore_eq_ok {restored : Engine}
    (hrst : engine.anew.restore engine.snapshot = .ok restored) :
    restored = engine.reloaded.evictTargets :=
  restore_ok hrst

theorem restore_isSome_iff (htagg : Tagged engine) :
    (engine.anew.restore engine.snapshot).toOption.isSome = true ↔ engine.Fits := by
  have hsch : ¬ engine.snapshot.schema ≠ stateSchema := not_not.mpr rfl
  have hsize : engine.snapshot.buckets.size = engine.buckets.size := ExtTreeMap.size_map
  have hbuc : (engine.snapshot.buckets.toList.forM fun entry =>
      if hasTag 'g' entry.1 || hasTag 't' entry.1 then (.ok () : Except StateError Unit)
      else .error (.bucketKey entry.1)) = .ok () := by
    apply forM_eq_ok.mpr
    intro entry hent
    have hkey : entry.1 ∈ engine.buckets := by
      rw [ExtTreeMap.mem_iff_isSome_getElem?]
      have hfnd := ExtTreeMap.mem_toList_iff_getElem?_eq_some.mp hent
      rw [Engine.snapshot, ExtTreeMap.getElem?_map, Option.map_eq_some_iff] at hfnd
      exact Option.isSome_iff_exists.mpr (hfnd.imp fun _ => And.left)
    rw [if_pos (Bool.or_eq_true_iff.mpr (htagg.buckets entry.1 hkey))]
  have happ : (engine.snapshot.approvals.toList.forM fun entry =>
      if hasTag 'a' entry.1 then (.ok () : Except StateError Unit)
      else .error (.approvalKey entry.1)) = .ok () := by
    apply forM_eq_ok.mpr
    intro entry hent
    have hkey : entry.1 ∈ engine.approvals := by
      rw [ExtTreeMap.mem_iff_isSome_getElem?]
      exact Option.isSome_iff_exists.mpr ⟨_, ExtTreeMap.mem_toList_iff_getElem?_eq_some.mp hent⟩
    rw [if_pos (htagg.approvals entry.1 hkey)]
  have hdaily : engine.snapshot.daily.toList.forM Engine.checkDaily = .ok () ↔
      ∀ (key : String) (counter : DailyCounter), engine.daily[key]? = some counter →
        ¬ (counter.day = 0 ∧ 0 < counter.count) := by
    rw [forM_eq_ok]
    apply Iff.intro
    · intro hall key counter hctr hzero
      have hchk := hall (key, counter) (ExtTreeMap.mem_toList_iff_getElem?_eq_some.mpr hctr)
      rw [Engine.checkDaily, if_pos hzero] at hchk
      split at hchk
      · cases hchk
      · cases hchk
    intro hall entry hent
    have hctr := ExtTreeMap.mem_toList_iff_getElem?_eq_some.mp hent
    have htag := htagg.daily entry.1 (ExtTreeMap.mem_iff_isSome_getElem?.mpr
      (Option.isSome_iff_exists.mpr ⟨_, hctr⟩))
    rw [Engine.checkDaily, htag, if_neg (hall entry.1 entry.2 hctr)]
    rfl
  rw [Engine.restore]
  apply Iff.intro
  · intro hsome
    obtain ⟨restored, hrstd⟩ := Option.isSome_iff_exists.mp hsome
    cases hok : engine.anew.restore engine.snapshot with
    | error fault =>
      rw [Engine.restore] at hok
      rw [hok] at hrstd
      cases hrstd
    | ok reached =>
      rw [Engine.restore, if_neg hsch] at hok
      split at hok
      · cases hok
      rename_i hfew
      obtain ⟨⟨⟩, -, hok⟩ := bind_eq_ok.mp hok
      obtain ⟨⟨⟩, hctrs, -⟩ := bind_eq_ok.mp hok
      rw [hsize] at hfew
      exact ⟨Nat.not_lt.mp hfew, hdaily.mp hctrs⟩
  intro hfits
  have hfew : ¬ max (min (engine.anew.maxTargetBuckets * 2) usizeMax) 64 <
      engine.snapshot.buckets.size := by
    rw [hsize]
    exact Nat.not_lt.mpr hfits.buckets
  rw [if_neg hsch, if_neg hfew]
  simp only [hbuc, hdaily.mpr hfits.daily, happ]
  rfl

theorem alike_restored (hsound : Sound engine) {restored : Engine}
    (hrst : engine.anew.restore engine.snapshot = .ok restored) :
    Alike engine restored ∧ (engine.InOrder → SameOrder engine.buckets restored.buckets) := by
  have halk := @alike_reloaded engine
  have hcnt : engine.reloaded.targetBucketCount ≤ engine.reloaded.maxTargetBuckets := by
    rw [targetBucketCount_eq, halk.targets_length, ← targetBucketCount_eq]
    exact hsound.bounded
  have hkept : engine.reloaded.evictTargets = engine.reloaded := by
    rw [Engine.evictTargets, evicted_of_room hcnt]
    rfl
  rw [restore_eq_ok hrst, hkept]
  exact ⟨halk, sameOrder_reloaded⟩

end Restoring

/-- At every engine that is reached: a restore takes the engine's own snapshot exactly when its
buckets and counters are within the bounds, and what is restored answers as the original would,
as long as the buckets were charged in the order of their keys or none has to be dropped. -/
theorem restore_faithful (policy : Policy) (operations : List Operation) :
    ((((Engine.new policy).run operations).anew.restore
        ((Engine.new policy).run operations).snapshot).toOption.isSome = true ↔
      ((Engine.new policy).run operations).Fits) ∧
    ∀ restored calls,
      ((Engine.new policy).run operations).anew.restore
        ((Engine.new policy).run operations).snapshot = .ok restored →
      ((Engine.new policy).run operations).InOrder ∨
        Roomy calls ((Engine.new policy).run operations) →
      Engine.answers calls restored =
        Engine.answers calls ((Engine.new policy).run operations) := by
  have hsound := Sound.run policy operations
  refine ⟨restore_isSome_iff (Tagged.run policy operations), ?_⟩
  intro restored calls hrestore hkeeps
  obtain ⟨halike, horder⟩ := alike_restored hsound hrestore
  have hrestored : Sound restored := by
    refine @Sound.restore ((Engine.new policy).run operations).anew ?_ _ _ hrestore
    exact Sound.of_empty hsound.room rfl
  exact halike.answers hsound hrestored (hkeeps.imp_left horder)

section Reorder

/-- One call a minute on each target of `x`, and one a day of `y`. -/
def targetPolicy : Policy where
  set := ⟨1, [], (∅ : ExtTreeMap String ComponentPolicy).insert "c"
    ⟨((∅ : ExtTreeMap String Rule).insert "x"
      ⟨.allow, [], [], none, false, none, some ⟨1, none⟩, [], none⟩).insert "y"
      ⟨.allow, [], [], none, false, none, none, [], some 1⟩⟩⟩
  valid := by decide +kernel

def checkOf (target : String) : Call :=
  .check ⟨"c", "x", some target⟩ 0

def twoTargets : Engine :=
  (Engine.new targetPolicy).run [.setMaxTargetBuckets 2, .call (checkOf "a"), .call (checkOf "b")]

instance (engine : Engine) : Decidable engine.InOrder :=
  inferInstanceAs (Decidable (List.Pairwise _ _))

/-- Targets that are charged in the order of their keys are answered as before. -/
theorem restore_faithful_ordered :
    ((Engine.new targetPolicy).run
        [.call (checkOf "b"), .call (checkOf "a")]).Fits ∧
      ∀ restored, ((Engine.new targetPolicy).run
            [.call (checkOf "b"), .call (checkOf "a")]).anew.restore
          ((Engine.new targetPolicy).run [.call (checkOf "b"), .call (checkOf "a")]).snapshot =
          .ok restored →
        Engine.answers [checkOf "a", checkOf "d"] restored =
          Engine.answers [checkOf "a", checkOf "d"]
            ((Engine.new targetPolicy).run [.call (checkOf "b"), .call (checkOf "a")]) :=
  ⟨(restore_faithful targetPolicy [.call (checkOf "b"), .call (checkOf "a")]).1.mp
      (by decide +kernel),
    fun restored hrestore =>
      (restore_faithful targetPolicy [.call (checkOf "b"), .call (checkOf "a")]).2 restored _ hrestore
        (.inl (by decide +kernel))⟩

/-- The original drops the first target for a third; the engine restored from its snapshot
drops the second, and refuses the first.  A count made on the first day is not restored. -/
theorem restored_answers_otherwise :
    (∃ restored, twoTargets.anew.restore twoTargets.snapshot = .ok restored ∧
      Engine.answers [checkOf "d", checkOf "a"] twoTargets =
        [.decision .allow, .decision .allow] ∧
      Engine.answers [checkOf "d", checkOf "a"] restored ≠
        Engine.answers [checkOf "d", checkOf "a"] twoTargets) ∧
      (((Engine.new targetPolicy).run [.call (.check ⟨"c", "y", none⟩ 0)]).anew.restore
        ((Engine.new targetPolicy).run [.call (.check ⟨"c", "y", none⟩ 0)]).snapshot).toOption.isSome
        = false := by
  have hsome : (twoTargets.anew.restore twoTargets.snapshot).toOption.isSome = true := by
    decide +kernel
  cases hrestore : twoTargets.anew.restore twoTargets.snapshot with
  | error fault =>
    rw [hrestore] at hsome
    cases hsome
  | ok restored =>
    refine ⟨⟨restored, rfl, ?_, ?_⟩, ?_⟩
    · decide +kernel
    · rw [restore_eq_ok hrestore]
      decide +kernel
    · decide +kernel

end Reorder

end WasmAgent.Grant
