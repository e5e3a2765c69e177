import WasmAgent.Grant.Restoring

/-!
# How long a refused call has to wait

In every engine a host can come to, a call that is refused for a limit is refused until the wait it
was told is over, and then no longer for that limit.
-/

namespace WasmAgent.Grant

open Option Std.ExtTreeMap Std WasmAgent.Core

inductive Reached : Engine → Prop where
  | new (policy : Policy) : Reached (Engine.new policy)
  | step {engine : Engine} (operation : Operation) (reached : Reached engine)
      (keeps : ∀ snapshot, operation ≠ .restore snapshot) : Reached (engine.step operation)
  | restore {engine other : Engine} (reached : Reached engine) (saved : Reached other) :
      Reached (engine.step (.restore other.snapshot))

/-- What a refusal tells at a reading is how long the limit refuses the call, as long as nothing is
charged. -/
structure ExactWait (engine : Engine) (request : Request) (now delay : UInt64) (reason : Reason) :
    Prop where
  refused : ∀ later : Engine, ∀ reading, later.policy = engine.policy →
    later.buckets = engine.buckets → later.daily = engine.daily → now ≤ reading →
    reading.toNat < now.toNat + delay.toNat → (later.check request reading).1 ≠ .allow
  after : ∀ later : Engine, ∀ reading, later.policy = engine.policy →
    later.buckets = engine.buckets → later.daily = engine.daily →
    reading.toNat = now.toNat + delay.toNat →
    ∀ wait, (later.check request reading).1 ≠ .rateLimited wait reason

/-- No bucket was charged after the last reading of the clock. -/
def Timely (engine : Engine) : Prop :=
  ∀ (key : String) (entry : Entry), engine.buckets[key]? = some entry →
    entry.bucket.lastMs ≤ engine.lastNow

section Clock

variable {engine : Engine} {now : UInt64}

theorem lastMs_take (bucket : Bucket) (rate : RateLimit) :
    (bucket.take rate now).1.lastMs.toNat = max bucket.lastMs.toNat now.toNat := by
  have hall : ∀ result, bucket.take? rate now = some result →
      result.1.lastMs = (bucket.refill rate now).lastMs := by
    intro result htake
    rw [Bucket.take?] at htake
    split at htake
    all_goals
      obtain ⟨_, -, rfl⟩ := map_eq_some_iff.mp htake
      rfl
  rw [Bucket.take, hall _ (some_get _).symm, (bucket.toNat_refill rate now).2]

theorem Timely.of_same {other : Engine} (htim : Timely engine)
    (hbuc : other.buckets = engine.buckets) (hlast : engine.lastNow ≤ other.lastNow) :
    Timely other := by
  intro key entry hent
  exact UInt64.le_trans (htim key entry (hbuc ▸ hent)) hlast

theorem Timely.evictTargets (htim : Timely engine) : Timely engine.evictTargets := by
  intro key entry hent
  rcases @getElem?_evictTargets engine key with hsame | ⟨-, hnone⟩
  · exact htim key entry (hsame.symm.trans hent)
  · cases hnone.symm.trans hent

theorem Timely.charge (htim : Timely engine) (hnow : now ≤ engine.lastNow) (charge : Charge) :
    Timely (engine.charge now charge) ∧ (engine.charge now charge).lastNow = engine.lastNow := by
  rw [Engine.charge]
  split
  · next rate hkind =>
    refine ⟨?_, rfl⟩
    intro key entry hent
    rw [getElem?_spend] at hent
    change entry.bucket.lastMs ≤ engine.lastNow
    split at hent
    · cases hent
      rw [UInt64.le_iff_toNat_le] at hnow ⊢
      rw [lastMs_take]
      apply Nat.max_le.mpr ⟨?_, hnow⟩
      cases hfnd : engine.buckets[charge.key]? with
      | none => exact hnow
      | some found => exact UInt64.le_iff_toNat_le.mp (htim _ _ hfnd)
    · exact htim key entry hent
  · exact ⟨htim.of_same rfl (UInt64.le_refl _), rfl⟩
  · split
    · exact ⟨htim, rfl⟩
    · exact ⟨htim.of_same rfl (UInt64.le_refl _), rfl⟩

theorem Timely.commit (htim : Timely engine) (hnow : now ≤ engine.lastNow)
    (charges : List Charge) : Timely (engine.commit charges now) := by
  have hcgd : Timely (charges.foldl (Engine.charge now) engine) ∧
      (charges.foldl (Engine.charge now) engine).lastNow = engine.lastNow := by
    apply List.foldlRecOn (motive := fun reached : Engine =>
      Timely reached ∧ reached.lastNow = engine.lastNow)
    · exact ⟨htim, rfl⟩
    · intro reached hrch charge _
      have hstep := hrch.1.charge (hrch.2.symm ▸ hnow) charge
      exact ⟨hstep.1, hstep.2.trans hrch.2⟩
  exact (hcgd.1.of_same rfl (UInt64.le_refl _)).evictTargets

theorem le_advance : engine.lastNow ≤ (engine.advance now).lastNow ∧
    now ≤ (engine.advance now).lastNow := by
  simp only [Engine.advance, UInt64.le_iff_toNat_le]
  split
  · next hltr =>
    rw [UInt64.lt_iff_toNat_lt] at hltr
    omega
  · next hearl =>
    rw [UInt64.lt_iff_toNat_lt] at hearl
    omega

theorem lastNow_audit (request : Request) (decision : Decision) (sink : AuditSink) :
    (engine.audit request now decision sink).engine.lastNow = engine.lastNow := by
  simp only [Engine.audit]
  repeat' split
  all_goals rfl

theorem Timely.call (htim : Timely engine) (call : Call) : Timely (call.run engine).2 := by
  cases call with
  | check request now =>
    have hadv : Timely (engine.advance now) := htim.of_same rfl le_advance.1
    change Timely (engine.check request now).2
    rw [check_eq]
    split
    · exact hadv.commit le_advance.2 _
    · exact hadv
  | peek => exact htim
  | enforce request now sink =>
    have hlast := @lastNow_audit (engine.advance now) now request
      (engine.plan request now).decision sink
    have hadv : Timely (engine.advance now) := htim.of_same rfl le_advance.1
    have haud := hadv.of_same (audit_engine _).2.2.2.buckets (UInt64.le_of_eq hlast.symm)
    change Timely (engine.enforce request now sink).engine
    rw [enforce_eq]
    split
    · exact haud.commit (hlast ▸ le_advance.2) _
    · exact haud
  | approve | revokeApprovals => exact htim.of_same rfl (UInt64.le_refl _)

theorem Timely.restore {other restored : Engine} (hoth : Timely other)
    (hrst : engine.restore other.snapshot = .ok restored) : Timely restored := by
  rw [restore_ok hrst]
  apply Timely.evictTargets
  intro key entry hent
  rcases getElem?_restoredBuckets other.snapshot.buckets key with
    ⟨place, bucket, hplace, hfnd⟩ | ⟨-, hnone⟩
  · cases hfnd.symm.trans hent
    have hbuc : (other.buckets.map fun _ entry => entry.bucket)[key]? = some bucket :=
      mem_toList_iff_getElem?_eq_some.mp (List.mem_of_getElem? hplace)
    rw [getElem?_map, map_eq_some_iff] at hbuc
    obtain ⟨saved, hsaved, rfl⟩ := hbuc
    exact UInt64.le_trans (hoth key saved hsaved) (@le_advance engine other.lastNow).2
  · cases hnone.symm.trans hent

theorem Reached.timely (hrch : Reached engine) : Timely engine := by
  induction hrch with
  | new policy =>
    intro key entry hent
    cases (getElem?_empty (a := key)).symm.trans hent
  | step operation hbef hks ih =>
    cases operation with
    | call call => exact ih.call call
    | setPolicy set =>
      rw [Engine.step, Engine.setPolicy]
      split
      · exact ih.of_same rfl (UInt64.le_refl _)
      · exact ih
    | setMaxTargetBuckets count =>
      apply Timely.evictTargets
      exact ih.of_same rfl (UInt64.le_refl _)
    | restore snapshot => exact absurd rfl (hks snapshot)
    | clearState =>
      intro key entry hent
      cases (getElem?_empty (a := key)).symm.trans hent
    | setTargetMode | setFailClosedOnAudit | takeAuditErrors =>
      exact ih.of_same rfl (UInt64.le_refl _)
  | restore hbef hsaved ih ihsaved =>
    rw [Engine.step]
    cases hrst : Engine.restore _ _ with
    | error fault => exact ih
    | ok restored => exact ihsaved.restore hrst

end Clock

section Delays

variable {engine later : Engine} {request : Request} {rule : Rule} {rate : RateLimit}
  {bucket : Bucket} {now reading delay : UInt64} {reason : Reason} {decision : Decision}

/-- The wait is the least number of milliseconds that bring in what is missing of a token. -/
theorem toNat_retryAfterMs (hsound : rate.Sound) (hshrt : (bucket.available rate now).toNat < 60000)
    (span : ℕ) :
    (bucket.retryAfterMs rate now).toNat ≤ span ↔
      60000 ≤ (bucket.available rate now).toNat + span * rate.perMinute.toNat := by
  have hmin := hsound.perMinute
  have hnon : rate.perMinute ≠ 0 := by
    intro hzero
    simp [hzero] at hmin
  have hmis : (saturatingSub unitsPerToken
      (lesser (bucket.available rate now) unitsPerToken)).toNat =
        60000 - (bucket.available rate now).toNat := by
    rw [toNat_saturatingSub, toNat_lesser]
    change 60000 - min _ 60000 = _
    rw [Nat.min_eq_left (Nat.le_of_lt hshrt)]
  have hall : ∀ wait, retryAfterMs? (bucket.available rate now) rate = some wait →
      wait.toNat = (60000 - (bucket.available rate now).toNat + rate.perMinute.toNat - 1) /
        rate.perMinute.toNat := by
    intro wait hwait
    have hbound := rate.perMinute.toNat_lt
    rw [retryAfterMs?] at hwait
    rw [if_neg, divCeil, if_neg (divisor_ne_zero rate), Option.some.injEq] at hwait
    · rw [← hwait, hmis, divisor, if_neg hnon, UInt32.toNat_toUInt64]
      apply UInt64.toNat_ofNat_of_lt'
      apply Nat.lt_of_le_of_lt (Nat.div_le_self _ _)
      change _ < 2 ^ 64
      omega
    intro hnone
    rw [hnone] at hmis
    change 0 = _ at hmis
    omega
  rw [Bucket.retryAfterMs, Grant.retryAfterMs, hall _ (some_get _).symm,
    Nat.div_le_iff_le_mul_add_pred hmin, Nat.mul_comm]
  omega

/-- A bucket whose clock is not ahead has a token when the wait is over, and not before. -/
theorem limited_after {key : String} (hsound : rate.Sound) (htim : Timely engine)
    (hnow : engine.lastNow ≤ now) (hlmd : engine.limited key rate now = some delay)
    (hrdg : now ≤ reading) :
    engine.limited key rate reading = none ↔ now.toNat + delay.toNat ≤ reading.toNat := by
  have hcap := hsound.capacity
  rw [limited_eq_none_iff hsound, Engine.unitsAt]
  rw [Engine.limited] at hlmd
  split at hlmd
  · cases hlmd
  rename_i entry hent
  split at hlmd
  · cases hlmd
  rename_i hemp
  cases hlmd
  rw [Bucket.tokens_pos_iff, Nat.not_le] at hemp
  have hlast := UInt64.le_iff_toNat_le.mp (UInt64.le_trans (htim key entry hent) hnow)
  rw [UInt64.le_iff_toNat_le] at hrdg
  have hwait := toNat_retryAfterMs hsound hemp (reading.toNat - now.toNat)
  have hspan : (reading.toNat - entry.bucket.lastMs.toNat) * rate.perMinute.toNat =
      (now.toNat - entry.bucket.lastMs.toNat) * rate.perMinute.toNat +
        (reading.toNat - now.toNat) * rate.perMinute.toNat := by
    rw [← Nat.add_mul]
    congr 1
    omega
  rw [Bucket.toNat_available] at hemp hwait
  rw [hent, elim_some, Bucket.toNat_available, hspan]
  omega

theorem bucketDue_after {key : String} {rates : Option RateLimit}
    (hsound : ∀ limit ∈ rates, limit.Sound) (htim : Timely engine) (hnow : engine.lastNow ≤ now)
    (hdue : engine.bucketDue key rates reason now = .error (.rateLimited delay reason))
    (hrdg : now ≤ reading) :
    (∃ charges, engine.bucketDue key rates reason reading = .ok charges) ↔
      now.toNat + delay.toNat ≤ reading.toNat := by
  cases rates with
  | none => cases hdue
  | some rate =>
    rw [Engine.bucketDue.eq_2] at hdue
    cases hlmd : engine.limited key rate now with
    | none => simp [hlmd] at hdue
    | some wait =>
      simp only [hlmd, Except.error.injEq, Decision.rateLimited.injEq, and_true] at hdue
      subst hdue
      rw [← limited_after (hsound rate rfl) htim hnow hlmd hrdg, Engine.bucketDue.eq_2]
      cases engine.limited key rate reading <;> simp

theorem dayOf_eq_iff (hrdg : now ≤ reading) :
    dayOf now = dayOf reading ↔ reading.toNat < now.toNat + (msUntilNextDay now).toNat := by
  have hwait : (msUntilNextDay now).toNat = 86400000 - now.toNat % 86400000 := by
    have hmod : (now % dayMs).toNat = now.toNat % 86400000 := UInt64.toNat_mod _ _
    rw [msUntilNextDay]
    split
    · next hzero =>
      rw [← hmod, hzero]
      rfl
    rw [UInt64.toNat_sub_of_le, hmod]
    · rfl
    · rw [UInt64.le_iff_toNat_le, hmod]
      exact Nat.le_of_lt (Nat.mod_lt _ (by decide))
  rw [UInt64.le_iff_toNat_le] at hrdg
  rw [← UInt64.toNat_inj, dayOf, dayOf, UInt64.toNat_div, UInt64.toNat_div, hwait]
  change now.toNat / 86400000 = reading.toNat / 86400000 ↔ _
  omega

theorem dailyDue_after (hsound : rule.Sound)
    (hdue : engine.dailyDue rule request now = .error (.rateLimited delay .dailyCapReached))
    (hrdg : now ≤ reading) :
    (∃ charges, engine.dailyDue rule request reading = .ok charges) ↔
      now.toNat + delay.toNat ≤ reading.toNat := by
  rw [Engine.dailyDue] at hdue ⊢
  split at hdue
  · cases hdue
  rename_i cap hcap
  dsimp only at hdue ⊢
  split at hdue
  · next hrch =>
    cases hdue
    rw [← Nat.not_lt, ← dayOf_eq_iff hrdg]
    have hpos : ¬ cap ≤ 0 := by
      intro hzero
      apply hsound.dailyCap
      rw [hcap, UInt32.le_antisymm hzero (UInt32.zero_le)]
    cases hfnd : engine.daily[dailyKey request]? with
    | none =>
      rw [hfnd] at hrch
      exact absurd hrch hpos
    | some counter =>
      rw [hfnd, elim_some, DailyCounter.countOn] at hrch
      rw [elim_some, DailyCounter.countOn]
      split at hrch
      · next hday =>
        rw [hday]
        by_cases hsame : dayOf now = dayOf reading
        · rw [if_pos hsame, if_pos hrch]
          refine iff_of_false ?_ (not_not_intro hsame)
          rintro ⟨_, hok⟩
          cases hok
        · rw [if_neg hsame, if_neg hpos]
          exact iff_of_true ⟨_, rfl⟩ hsame
      · exact absurd hrch hpos
  · cases hdue

theorem limitDue_after (hsound : rule.Sound) (htim : Timely engine) (hnow : engine.lastNow ≤ now)
    (hdue : engine.limitDue rule request now reason = .error (.rateLimited delay reason))
    (hrdg : now ≤ reading) :
    (∃ charges, engine.limitDue rule request reading reason = .ok charges) ↔
      now.toNat + delay.toNat ≤ reading.toNat := by
  cases reason with
  | dailyCapReached => exact dailyDue_after hsound hdue hrdg
  | capabilityRateLimited =>
    exact bucketDue_after (capabilityRate_sound hsound _) htim hnow hdue hrdg
  | targetRateLimited =>
    rw [Engine.limitDue, Engine.targetDue] at hdue ⊢
    split at hdue
    · cases hdue
    · exact bucketDue_after (targetRate_sound hsound _) htim hnow hdue hrdg
  | _ => cases hdue

theorem limitDue_of_dues {charges : List Charge}
    (hdues : engine.dues rule request now = .ok charges) (reason : Reason) :
    ∃ due, engine.limitDue rule request now reason = .ok due := by
  rw [Engine.dues] at hdues
  obtain ⟨approval, -, hdues⟩ := bind_eq_ok.mp hdues
  obtain ⟨daily, hdaily, hdues⟩ := bind_eq_ok.mp hdues
  obtain ⟨capability, hcap, hdues⟩ := bind_eq_ok.mp hdues
  obtain ⟨target, htgt, hdues⟩ := bind_eq_ok.mp hdues
  cases reason with
  | dailyCapReached => exact ⟨daily, hdaily⟩
  | capabilityRateLimited => exact ⟨capability, hcap⟩
  | targetRateLimited => exact ⟨target, htgt⟩
  | _ => exact ⟨[], rfl⟩

theorem plan_limited (href : (engine.plan request now).decision = .rateLimited delay reason) :
    ∃ rule, engine.policy.set.rule request.component request.capability = some rule ∧
      engine.limitDue rule request now reason = .error (.rateLimited delay reason) := by
  rw [Engine.plan] at href
  split at href
  · split at href <;> cases href
  rename_i rule hrule
  refine ⟨rule, hrule, ?_⟩
  split at href
  · cases href
  split at href
  · next hdues =>
    subst href
    rcases dues_error hdues with h | ⟨_, _, h, hdue⟩
    · cases h
    · cases h
      exact hdue
  · cases href

theorem limitDue_of_plan
    (hrule : engine.policy.set.rule request.component request.capability = some rule)
    (hall : (engine.plan request now).decision = .allow) (reason : Reason) :
    ∃ due, engine.limitDue rule request now reason = .ok due := by
  rw [Engine.plan, hrule] at hall
  dsimp only at hall
  split at hall
  · cases hall
  split at hall
  · next hdues =>
    subst hall
    rcases dues_error hdues with h | ⟨_, _, h, _⟩ <;> cases h
  · next hdues => exact limitDue_of_dues hdues reason

theorem limitDue_congr (hbuc : later.buckets = engine.buckets)
    (hdaily : later.daily = engine.daily) :
    later.limitDue rule request now reason = engine.limitDue rule request now reason := by
  cases reason <;>
    simp [Engine.limitDue, Engine.dailyDue, Engine.targetDue, Engine.bucketDue, Engine.limited, hbuc, hdaily]

/-- The wait that a refusal tells is exact in every engine that a host can come to, at readings of
a clock that does not go back. -/
theorem retry_after_exact (hreached : Reached engine) (hclock : engine.lastNow ≤ now)
    (hrefused : (engine.check request now).1 = .rateLimited delay reason) :
    ExactWait engine request now delay reason := by
  rw [fst_check] at hrefused
  obtain ⟨rule, hrule, hdue⟩ := plan_limited hrefused
  have hafter {reading : UInt64} := @limitDue_after engine request rule now reading delay reason
    (engine.policy.rule_sound hrule).1 hreached.timely hclock hdue
  constructor
  · intro later reading hpolicy hbuckets hdaily hreading hbefore hallow
    rw [fst_check] at hallow
    have hfree := limitDue_of_plan (hpolicy ▸ hrule) hallow reason
    rw [limitDue_congr hbuckets hdaily, hafter hreading] at hfree
    omega
  intro later reading hpolicy hbuckets hdaily hend wait hstill
  rw [fst_check] at hstill
  obtain ⟨other, hother, hlimited⟩ := plan_limited hstill
  rw [hpolicy, hrule, Option.some.injEq] at hother
  subst hother
  have hreading : now ≤ reading := by
    rw [UInt64.le_iff_toNat_le]
    omega
  obtain ⟨charges, hfree⟩ := (hafter hreading).mpr (Nat.le_of_eq hend.symm)
  rw [limitDue_congr hbuckets hdaily, hfree] at hlimited
  cases hlimited

/-- Twenty seconds after a call at one a minute, the wait is forty seconds. -/
theorem retry_after_minute :
    ExactWait ((Engine.new minutePolicy).step (.call (.check minuteRequest 0))) minuteRequest 20000
      40000 .capabilityRateLimited :=
  retry_after_exact (.step _ (.new _) nofun) (by decide +kernel) (by decide +kernel)

end Delays

end WasmAgent.Grant
