import WasmAgent.Core.Maps
import WasmAgent.Grant.Engine

/-!
# Decisions and what they charge

A call that is not let through changes no budget.  A call that is let through takes one
token of each bucket that applies to it, one of the day's count and one use of an approval,
and the target buckets that are over the maximum afterwards are dropped, the least recently
charged first.
-/

namespace WasmAgent.Grant

open Std.ExtTreeMap List Option Std.ExtTreeMap Std WasmAgent.Core

section Keys

theorem toList_joined (first second : String) (rest : List String) :
    (joined (first :: second :: rest)).toList =
      first.toList ++ sep :: (joined (second :: rest)).toList := by
  rw [joined, joined, String.toList_ofList, String.toList_ofList, map_cons, map_cons]
  rfl

theorem joined_singleton (name : String) : joined [name] = name := by
  rw [joined]
  change String.ofList (name.toList ++ []) = name
  rw [append_nil, String.ofList_toList]

theorem hasTag_joined {tag first : Char} {head second : String} {rest : List String}
    (hhead : head.toList = [first]) :
    hasTag tag (joined (head :: second :: rest)) = (tag == first) := by
  rw [hasTag, toList_joined, hhead]
  change (tag == first && (sep == sep && true)) = _
  rw [beq_self_eq_true, Bool.and_true, Bool.and_true]

@[simp]
theorem hasTag_capabilityKey (tag : Char) (request : Request) :
    hasTag tag (capabilityKey request) = (tag == 'g') :=
  hasTag_joined rfl

@[simp]
theorem hasTag_targetKey (tag : Char) (request : Request) (target : String) :
    hasTag tag (targetKey request target) = (tag == 't') :=
  hasTag_joined rfl

theorem hasTag_unique {first second : Char} {key : String} (hfst : hasTag first key = true)
    (hsnd : hasTag second key = true) : first = second := by
  rw [hasTag, isPrefixOf_iff_prefix] at hfst hsnd
  obtain ⟨rest, hrest⟩ := hfst
  obtain ⟨other, hoth⟩ := hsnd
  exact (List.cons.inj (hrest.trans hoth.symm)).1

end Keys

section Eviction

variable {engine : Engine} {buckets : ExtTreeMap String Entry} {key : String}

theorem foldl_erase_eq_filter (keys : List String) :
    keys.foldl ExtTreeMap.erase buckets = buckets.filter fun key _ => key ∉ keys := by
  ext key entry
  rw [getElem?_foldl_erase, getElem?_filter']
  by_cases hkey : key ∈ keys
  · rw [if_pos hkey, filter_eq_none_iff.mpr]
    intro found _
    simpa using hkey
  rw [if_neg hkey]
  cases buckets[key]? with
  | none => rfl
  | some found => rw [filter_some, if_pos (decide_eq_true hkey)]

theorem mem_targets {age : ℕ} :
    (key, age) ∈ Engine.targets buckets ↔
      hasTag 't' key = true ∧ ∃ entry, buckets[key]? = some entry ∧ entry.touched = age := by
  rw [Engine.targets, List.mem_map]
  apply Iff.intro
  · rintro ⟨⟨found, entry⟩, hmem, heq⟩
    obtain ⟨rfl, rfl⟩ := Prod.mk.inj heq
    obtain ⟨hmem, htag⟩ := List.mem_filter.mp hmem
    exact ⟨htag, entry, mem_toList_iff_getElem?_eq_some.mp hmem, rfl⟩
  · rintro ⟨htag, entry, hent, rfl⟩
    exact ⟨(key, entry), List.mem_filter.mpr ⟨mem_toList_iff_getElem?_eq_some.mpr hent, htag⟩, rfl⟩

theorem map_fst_targets :
    (Engine.targets buckets).map Prod.fst = buckets.keys.filter (hasTag 't' ·) := by
  rw [Engine.targets, List.map_map, ← ExtTreeMap.map_fst_toList_eq_keys, List.filter_map]
  rfl

theorem nodup_targets : ((Engine.targets buckets).map Prod.fst).Nodup := by
  rw [map_fst_targets]
  exact nodup_keys.filter _

theorem targets_filter (keys : List String) :
    Engine.targets (buckets.filter fun key _ => key ∉ keys) =
      (Engine.targets buckets).filter fun age => age.1 ∉ keys := by
  rw [Engine.targets, ExtTreeMap.toList_filter, List.filter_filter, Engine.targets,
    List.filter_map, List.filter_filter]
  congr 1
  apply List.filter_congr
  intro entry _
  rw [Bool.and_comm]
  rfl

theorem targetBucketCount_eq :
    engine.targetBucketCount = (Engine.targets engine.buckets).length := by
  rw [Engine.targets, length_map]
  rfl

theorem hasTag_of_evicted {max : ℕ} (hkey : key ∈ Engine.evicted max buckets) :
    hasTag 't' key = true := by
  have hmem := mem_of_mem_oldest hkey
  rw [map_fst_targets] at hmem
  exact (List.mem_filter.mp hmem).2

theorem getElem?_evictTargets :
    engine.evictTargets.buckets[key]? = engine.buckets[key]? ∨
      hasTag 't' key = true ∧ engine.evictTargets.buckets[key]? = none := by
  rw [Engine.evictTargets, getElem?_foldl_erase]
  split
  · next hevic => exact .inr ⟨hasTag_of_evicted hevic, rfl⟩
  · exact .inl rfl

theorem getElem?_evictTargets_of_not_tag (htag : hasTag 't' key = false) :
    engine.evictTargets.buckets[key]? = engine.buckets[key]? := by
  rcases @getElem?_evictTargets engine key with hsame | ⟨htgt, -⟩
  · exact hsame
  · cases htag.symm.trans htgt

theorem targetBucketCount_evictTargets :
    engine.evictTargets.targetBucketCount ≤ engine.maxTargetBuckets := by
  rw [targetBucketCount_eq, Engine.evictTargets, foldl_erase_eq_filter, targets_filter,
    Engine.evicted, length_filter_oldest nodup_targets]
  omega

theorem getElem?_evictTargets_newest {entry : Entry} (hroom : 0 < engine.maxTargetBuckets)
    (hent : engine.buckets[key]? = some entry)
    (hnew : ∀ other found, engine.buckets[other]? = some found → other ≠ key →
      found.touched < entry.touched) :
    engine.evictTargets.buckets[key]? = some entry := by
  rw [Engine.evictTargets, getElem?_foldl_erase, if_neg, hent]
  intro hevic
  have htag := hasTag_of_evicted hevic
  have hmem := mem_targets.mpr ⟨htag, entry, hent, rfl⟩
  apply newest_notMem_oldest nodup_targets hmem ?_ ?_ hevic
  · rintro ⟨other, age⟩ hoth hne
    obtain ⟨-, found, hfnd, rfl⟩ := mem_targets.mp hoth
    exact hnew other found hfnd hne
  · have hpos := length_pos_of_mem hmem
    omega

end Eviction

section Readings

namespace Engine

variable (engine : Engine)

def unitsAt (key : String) (rate : RateLimit) (now : UInt64) : ℕ :=
  (((engine.buckets[key]?).elim (Bucket.full rate now) (·.bucket)).available rate now).toNat

def countAt (key : String) (now : UInt64) : ℕ := ((engine.daily[key]?).elim 0 (·.countOn now)).toNat

def usesAt (key : String) (now : UInt64) : ℕ :=
  ((engine.approvals[key]?).filter (·.validAt now)).elim 0 (·.uses.toNat)

end Engine

namespace Policy

variable (policy : Policy) (request : Request)

def bucketsFor : List (String × RateLimit) :=
  (policy.set.rule request.component request.capability).elim [] fun rule =>
    ((rule.capabilityRate request.target).map (capabilityKey request, ·)).toList ++
      (request.target.bind fun target =>
        (rule.targetRate request.target).map (targetKey request target, ·)).toList

def countersFor : List String :=
  (policy.set.rule request.component request.capability).elim [] fun rule =>
    (rule.dailyCap.map fun _ => dailyKey request).toList

def needsApproval : Bool :=
  (policy.set.rule request.component request.capability).any (·.requireApproval)

end Policy

structure SameBudgets (before after : Engine) : Prop where
  buckets : after.buckets = before.buckets
  daily : after.daily = before.daily
  approvals : after.approvals = before.approvals

/-- Each budget that applies was charged once; approvals that have expired are gone, and
target buckets may have been dropped. -/
structure Charged (before : Engine) (request : Request) (now : UInt64) (after : Engine) : Prop where
  spent : ∀ key rate, (key, rate) ∈ before.policy.bucketsFor request →
    after.unitsAt key rate now + 60000 = before.unitsAt key rate now
  otherBuckets : ∀ key, key ∉ (before.policy.bucketsFor request).map Prod.fst →
    after.buckets[key]? = before.buckets[key]? ∨ hasTag 't' key = true ∧ after.buckets[key]? = none
  counted : ∀ key ∈ before.policy.countersFor request,
    after.countAt key now = before.countAt key now + 1
  otherCounters : ∀ key, key ∉ before.policy.countersFor request →
    after.daily[key]? = before.daily[key]?
  approvals : ∃ used : List String,
    used.length = (if before.policy.needsApproval request then 1 else 0) ∧
    (∀ key ∈ used,
      (key = approvalKey request.component request.capability request.target ∨
        key = approvalKey request.component request.capability none) ∧
      after.usesAt key now + 1 = before.usesAt key now) ∧
    ∀ key, key ∉ used → after.approvals[key]? = (before.approvals[key]?).filter (·.validAt now)

end Readings

section Planning

variable {engine : Engine} {rule : Rule} {request : Request} {now : UInt64} {charges : List Charge}

theorem limited_eq_none_iff {key : String} {rate : RateLimit} (hsound : rate.Sound) :
    engine.limited key rate now = none ↔ 60000 ≤ engine.unitsAt key rate now := by
  rw [Engine.limited, Engine.unitsAt]
  cases engine.buckets[key]? with
  | none =>
    have hcap := hsound.capacity
    have hfull := Bucket.toNat_available_full rate now
    apply iff_of_true rfl
    rw [elim_none, hfull]
    omega
  | some entry =>
    dsimp only
    rw [elim_some, ← Bucket.tokens_pos_iff]
    split
    · next htks => exact iff_of_true rfl htks
    · next hemp => exact iff_of_false (some_ne_none _) hemp

variable {rate : Option RateLimit}

theorem bucketDue_ok {key : String} {reason : Reason} (hsound : ∀ limit ∈ rate, limit.Sound)
    (hdue : engine.bucketDue key rate reason now = .ok charges) :
    charges = rate.toList.map (fun limit => ⟨key, .bucket limit⟩) ∧
      ∀ limit ∈ rate, 60000 ≤ engine.unitsAt key limit now := by
  cases rate with
  | none =>
    cases hdue
    exact ⟨rfl, nofun⟩
  | some limit =>
    rw [Engine.bucketDue.eq_2] at hdue
    split at hdue
    · cases hdue
    rename_i hlmd
    cases hdue
    refine ⟨rfl, ?_⟩
    rintro other ⟨⟩
    exact (limited_eq_none_iff (hsound _ rfl)).mp hlmd

theorem dailyDue_ok (hdue : engine.dailyDue rule request now = .ok charges) :
    charges = (rule.dailyCap.map fun _ => dailyKey request).toList.map (⟨·, .daily⟩) ∧
      ∀ cap ∈ rule.dailyCap, (engine.daily[dailyKey request]?).elim 0 (·.countOn now) < cap := by
  rw [Engine.dailyDue] at hdue
  split at hdue
  · next hcap =>
    cases hdue
    rw [hcap]
    exact ⟨rfl, nofun⟩
  rename_i cap hcap
  dsimp only at hdue
  split at hdue
  · cases hdue
  rename_i hbelow
  cases hdue
  rw [hcap]
  refine ⟨rfl, ?_⟩
  rintro other ⟨⟩
  exact UInt32.not_le.mp hbelow

theorem approvalDue_ok (hdue : engine.approvalDue rule request now = .ok charges) :
    ∃ used : List String, charges = used.map (⟨·, .approval⟩) ∧
      used.length = (if rule.requireApproval then 1 else 0) ∧
      ∀ key ∈ used,
        (key = approvalKey request.component request.capability request.target ∨
          key = approvalKey request.component request.capability none) ∧
        ∃ state, engine.approvals[key]? = some state ∧ state.validAt now = true := by
  rw [Engine.approvalDue] at hdue
  split at hdue
  · next hfree =>
    cases hdue
    rw [Bool.not_eq_true'] at hfree
    rw [hfree]
    exact ⟨[], rfl, rfl, nofun⟩
  rename_i hneed
  rw [Bool.not_eq_true', Bool.not_eq_false] at hneed
  rw [hneed]
  split at hdue
  · next hspec =>
    cases hdue
    refine ⟨[_], rfl, rfl, ?_⟩
    intro key hkey
    rw [mem_singleton.mp hkey]
    exact ⟨.inl rfl, (Option.any_eq_true _ _).mp hspec⟩
  split at hdue
  · next hwide =>
    cases hdue
    refine ⟨[_], rfl, rfl, ?_⟩
    intro key hkey
    rw [mem_singleton.mp hkey]
    exact ⟨.inr rfl, (Option.any_eq_true _ _).mp (Bool.and_eq_true_iff.mp hwide).2⟩
  · cases hdue

theorem bucketDue_error {key : String} {reason : Reason}
    {decision : Decision} (hdue : engine.bucketDue key rate reason now = .error decision) :
    ∃ delay, decision = .rateLimited delay reason := by
  cases rate with
  | none => cases hdue
  | some limit =>
    rw [Engine.bucketDue.eq_2] at hdue
    split at hdue
    · cases hdue
      exact ⟨_, rfl⟩
    · cases hdue

def Engine.limitDue (engine : Engine) (rule : Rule) (request : Request) (now : UInt64) :
    Reason → Except Decision (List Charge)
  | .dailyCapReached => engine.dailyDue rule request now
  | .capabilityRateLimited =>
      engine.bucketDue (capabilityKey request) (rule.capabilityRate request.target)
        .capabilityRateLimited now
  | .targetRateLimited => engine.targetDue rule request now
  | _ => .ok []

theorem dues_error {decision : Decision} (hdues : engine.dues rule request now = .error decision) :
    decision = .needsApproval .approvalRequired ∨ ∃ delay reason,
      decision = .rateLimited delay reason ∧
        engine.limitDue rule request now reason = .error decision := by
  rw [Engine.dues] at hdues
  cases happ : engine.approvalDue rule request now with
  | error refused =>
    rw [happ, error_bind] at hdues
    cases hdues
    simp only [Engine.approvalDue] at happ
    repeat' split at happ
    all_goals cases happ
    exact .inl rfl
  | ok approval =>
    right
    rw [happ, ok_bind] at hdues
    cases hdaily : engine.dailyDue rule request now with
    | error refused =>
      rw [hdaily, error_bind] at hdues
      cases hdues
      refine ⟨msUntilNextDay now, .dailyCapReached, ?_, hdaily⟩
      simp only [Engine.dailyDue] at hdaily
      repeat' split at hdaily
      all_goals cases hdaily
      rfl
    | ok daily =>
      rw [hdaily, ok_bind] at hdues
      cases hcap : engine.bucketDue (capabilityKey request)
          (rule.capabilityRate request.target) .capabilityRateLimited now with
      | error refused =>
        rw [hcap, error_bind] at hdues
        cases hdues
        obtain ⟨delay, rfl⟩ := bucketDue_error hcap
        exact ⟨delay, .capabilityRateLimited, rfl, hcap⟩
      | ok capability =>
        rw [hcap, ok_bind] at hdues
        cases htgt : engine.targetDue rule request now with
        | error refused =>
          rw [htgt, error_bind] at hdues
          cases hdues
          have hdue := htgt
          rw [Engine.targetDue] at hdue
          split at hdue
          · cases hdue
          · obtain ⟨delay, rfl⟩ := bucketDue_error hdue
            exact ⟨delay, .targetRateLimited, rfl, htgt⟩
        | ok target =>
          rw [htgt, ok_bind] at hdues
          cases hdues

theorem capabilityRate_sound (hsound : rule.Sound) (target : Option String) :
    ∀ limit ∈ rule.capabilityRate target, limit.Sound := by
  intro limit hlim
  rw [Rule.capabilityRate] at hlim
  split at hlim
  · cases hlim
  · exact hsound.rate limit hlim

theorem targetRate_sound (hsound : rule.Sound) (target : Option String) :
    ∀ limit ∈ rule.targetRate target, limit.Sound := by
  intro limit hlim
  rw [Rule.targetRate] at hlim
  split at hlim
  · next override hover =>
    cases hlim
    rw [Rule.override, bind_eq_some_iff] at hover
    obtain ⟨name, -, hfnd⟩ := hover
    exact hsound.targetRates override (mem_of_find?_eq_some hfnd)
  · exact hsound.perTarget limit hlim

def chargesOf (used counters : List String) (buckets : List (String × RateLimit)) : List Charge :=
  used.map (⟨·, .approval⟩) ++ counters.map (⟨·, .daily⟩) ++
    buckets.map fun due => ⟨due.1, .bucket due.2⟩

/-- What a call that is to go ahead will be charged, and that all of it is there. -/
structure Planned (engine : Engine) (request : Request) (now : UInt64) (used : List String) :
    Prop where
  length : used.length = (if engine.policy.needsApproval request then 1 else 0)
  approval : ∀ key ∈ used,
    (key = approvalKey request.component request.capability request.target ∨
      key = approvalKey request.component request.capability none) ∧
    ∃ state, engine.approvals[key]? = some state ∧ state.validAt now = true
  counter : ∀ key ∈ engine.policy.countersFor request,
    ∃ cap, (engine.daily[key]?).elim 0 (·.countOn now) < cap
  bucket : ∀ key rate, (key, rate) ∈ engine.policy.bucketsFor request →
    60000 ≤ engine.unitsAt key rate now

theorem dues_ok (hrule : engine.policy.set.rule request.component request.capability = some rule)
    (hdues : engine.dues rule request now = .ok charges) :
    ∃ used, charges = chargesOf used (engine.policy.countersFor request)
      (engine.policy.bucketsFor request) ∧ Planned engine request now used := by
  have hsound := (engine.policy.rule_sound hrule).1
  rw [Engine.dues] at hdues
  obtain ⟨approval, happ, hdues⟩ := bind_eq_ok.mp hdues
  obtain ⟨daily, hdaily, hdues⟩ := bind_eq_ok.mp hdues
  obtain ⟨capability, hcapab, hdues⟩ := bind_eq_ok.mp hdues
  obtain ⟨target, htgt, hdues⟩ := bind_eq_ok.mp hdues
  cases hdues
  obtain ⟨used, rfl, hlen, hvld⟩ := approvalDue_ok happ
  obtain ⟨rfl, hbelow⟩ := dailyDue_ok hdaily
  obtain ⟨rfl, hroom⟩ := bucketDue_ok (capabilityRate_sound hsound _) hcapab
  have hneeds : engine.policy.needsApproval request = rule.requireApproval := by
    rw [Policy.needsApproval, hrule, any_some]
  have hctrs : engine.policy.countersFor request =
      (rule.dailyCap.map fun _ => dailyKey request).toList := by
    rw [Policy.countersFor, hrule, elim_some]
  have hbuc : ∃ targets : List (String × RateLimit),
      target = targets.map (fun due => ⟨due.1, .bucket due.2⟩) ∧
      (∀ key rate, (key, rate) ∈ targets → 60000 ≤ engine.unitsAt key rate now) ∧
      engine.policy.bucketsFor request =
        ((rule.capabilityRate request.target).map (capabilityKey request, ·)).toList ++
          targets := by
    rw [Policy.bucketsFor, hrule, elim_some]
    rw [Engine.targetDue] at htgt
    split at htgt
    · next hnone =>
      cases htgt
      rw [hnone]
      exact ⟨[], rfl, nofun, rfl⟩
    rename_i name hname
    obtain ⟨rfl, henough⟩ := bucketDue_ok (targetRate_sound hsound _) htgt
    rw [hname] at henough ⊢
    refine ⟨((rule.targetRate (some name)).map (targetKey request name, ·)).toList, ?_, ?_, rfl⟩
    · cases rule.targetRate (some name) with
      | none | some => rfl
    intro key rate hmem
    rw [mem_toList, map_eq_some_iff] at hmem
    obtain ⟨limit, hlim, hsame⟩ := hmem
    cases hsame
    exact henough rate hlim
  obtain ⟨targets, rfl, htar, hbuc⟩ := hbuc
  refine ⟨used, ?_, ?_, hvld, ?_, ?_⟩
  · rw [chargesOf, hctrs, hbuc, map_append, ← append_assoc]
    congr 2
    cases rule.capabilityRate request.target with
    | none | some => rfl
  · rw [hneeds]
    exact hlen
  · intro key hkey
    rw [hctrs, mem_toList, map_eq_some_iff] at hkey
    obtain ⟨cap, hcap, rfl⟩ := hkey
    exact ⟨cap, hbelow cap hcap⟩
  intro key rate hmem
  rw [hbuc, mem_append] at hmem
  rcases hmem with hmem | hmem
  · rw [mem_toList, map_eq_some_iff] at hmem
    obtain ⟨limit, hlim, hsame⟩ := hmem
    cases hsame
    exact hroom rate hlim
  · exact htar key rate hmem

theorem plan_allow (hall : (engine.plan request now).decision = .allow) :
    ∃ used, (engine.plan request now).charges = chargesOf used
      (engine.policy.countersFor request) (engine.policy.bucketsFor request) ∧
      Planned engine request now used := by
  rw [Engine.plan] at hall ⊢
  split at hall
  · next hrule =>
    have hneeds : engine.policy.needsApproval request = false := by
      rw [Policy.needsApproval, hrule, any_none]
    have hctrs : engine.policy.countersFor request = [] := by
      rw [Policy.countersFor, hrule, elim_none]
    have hbuc : engine.policy.bucketsFor request = [] := by
      rw [Policy.bucketsFor, hrule, elim_none]
    refine ⟨[], ?_, ?_, nofun, ?_, ?_⟩
    · rw [hctrs, hbuc]
      split
      · rfl
      · rfl
    · rw [hneeds]
      rfl
    · rw [hctrs]
      exact nofun
    · rw [hbuc]
      exact nofun
  rename_i rule hrule
  split at hall
  · cases hall
  rename_i href
  split at hall
  · next decision hdues =>
    cases hall
    rcases dues_error hdues with h | ⟨_, _, h, _⟩ <;> cases h
  · next charges hdues => exact dues_ok hrule hdues

end Planning

structure SameSettings (before after : Engine) : Prop where
  policy : after.policy = before.policy
  targetMode : after.targetMode = before.targetMode
  failClosedOnAudit : after.failClosedOnAudit = before.failClosedOnAudit
  maxTargetBuckets : after.maxTargetBuckets = before.maxTargetBuckets
  lastNow : after.lastNow = before.lastNow
  auditErrors : after.auditErrors = before.auditErrors

theorem SameSettings.refl (engine : Engine) : SameSettings engine engine :=
  ⟨rfl, rfl, rfl, rfl, rfl, rfl⟩

theorem SameSettings.trans {first second third : Engine} (hfst : SameSettings first second)
    (hsnd : SameSettings second third) : SameSettings first third :=
  ⟨hsnd.policy.trans hfst.policy, hsnd.targetMode.trans hfst.targetMode,
    hsnd.failClosedOnAudit.trans hfst.failClosedOnAudit,
    hsnd.maxTargetBuckets.trans hfst.maxTargetBuckets, hsnd.lastNow.trans hfst.lastNow,
    hsnd.auditErrors.trans hfst.auditErrors⟩

def Recent (engine : Engine) : Prop :=
  ∀ (key : String) (entry : Entry), engine.buckets[key]? = some entry → entry.touched ≤ engine.tick

section Charging

variable {engine : Engine} {now : UInt64}

theorem getElem?_spend (key other : String) (rate : RateLimit) :
    (engine.spend key rate now).buckets[other]? =
      if key = other then
        some ⟨((((engine.buckets[key]?).elim (Bucket.full rate now) (·.bucket))).take rate now).1,
          engine.tick + 1⟩
      else engine.buckets[other]? := by
  rw [Engine.spend]
  split
  · next hsame => rw [← hsame, ExtTreeMap.getElem?_insert_self]
  · next hoth => exact getElem?_insert_of_ne hoth

/-- The bucket a call finds, after a token was taken of it. -/
def taken (engine : Engine) (key : String) (rate : RateLimit) (now : UInt64) : Bucket :=
  (((engine.buckets[key]?).elim (Bucket.full rate now) (·.bucket)).take rate now).1

theorem unitsAt_of_taken {after : Engine} {key : String} {rate : RateLimit} {touched : ℕ}
    (htkn : after.buckets[key]? = some ⟨taken engine key rate now, touched⟩)
    (htks : 60000 ≤ engine.unitsAt key rate now) :
    after.unitsAt key rate now + 60000 = engine.unitsAt key rate now := by
  obtain ⟨hunits, hlast⟩ := Bucket.take_of_tokens htks
  have hcap : engine.unitsAt key rate now ≤ rate.capacity.toNat * 60000 := by
    rw [Engine.unitsAt, Bucket.toNat_available]
    exact Nat.min_le_right _ _
  have hstill : after.unitsAt key rate now =
      min (taken engine key rate now).units.toNat (rate.capacity.toNat * 60000) := by
    rw [Engine.unitsAt, htkn, elim_some, Bucket.toNat_available, taken, hlast,
      Nat.sub_eq_zero_of_le (Nat.le_max_right _ _), Nat.zero_mul, Nat.add_zero]
  have hless : (taken engine key rate now).units.toNat + 60000 = engine.unitsAt key rate now :=
    hunits
  rw [hstill]
  omega

theorem Recent.spend (hrcnt : Recent engine) (key : String) (rate : RateLimit) :
    Recent (engine.spend key rate now) := by
  intro other entry hent
  rw [getElem?_spend] at hent
  split at hent
  · cases hent
    exact Nat.le_refl _
  · exact Nat.le_succ_of_le (hrcnt other entry hent)

theorem spend_settings (key : String) (rate : RateLimit) :
    SameSettings engine (engine.spend key rate now) :=
  ⟨rfl, rfl, rfl, rfl, rfl, rfl⟩

def spendAll (now : UInt64) (engine : Engine) (due : String × RateLimit) : Engine :=
  engine.spend due.1 due.2 now

variable {buckets : List (String × RateLimit)}

theorem getElem?_foldl_spend_other {key : String} (hkey : key ∉ buckets.map Prod.fst) :
    (buckets.foldl (spendAll now) engine).buckets[key]? = engine.buckets[key]? := by
  induction buckets generalizing engine with
  | nil => rfl
  | cons first rest ih =>
    rw [map_cons, mem_cons, not_or] at hkey
    rw [foldl_cons, ih hkey.2, spendAll, getElem?_spend, if_neg (Ne.symm hkey.1)]

theorem getElem?_foldl_spend {key : String} {rate : RateLimit}
    (hndp : (buckets.map Prod.fst).Nodup) (hdue : (key, rate) ∈ buckets) :
    ∃ touched, (buckets.foldl (spendAll now) engine).buckets[key]? =
      some ⟨taken engine key rate now, touched⟩ := by
  induction buckets generalizing engine with
  | nil => cases hdue
  | cons first rest ih =>
    rw [map_cons, nodup_cons] at hndp
    rw [foldl_cons]
    rcases mem_cons.mp hdue with hsame | hltr
    · rw [← hsame] at hndp
      rw [← hsame, getElem?_foldl_spend_other hndp.1, spendAll, getElem?_spend, if_pos rfl]
      exact ⟨_, rfl⟩
    have hoth : first.1 ≠ key := by
      intro hsame
      rw [hsame] at hndp
      exact hndp.1 (List.mem_map.mpr ⟨(key, rate), hltr, rfl⟩)
    have hsta : taken (spendAll now engine first) key rate now = taken engine key rate now := by
      rw [taken, spendAll, getElem?_spend, if_neg hoth, taken]
    rw [← hsta]
    exact ih hndp.2 hltr

theorem Recent.foldl_spend (hrcnt : Recent engine) (buckets : List (String × RateLimit)) :
    Recent (buckets.foldl (spendAll now) engine) := by
  induction buckets generalizing engine with
  | nil => exact hrcnt
  | cons first rest ih => exact ih (hrcnt.spend first.1 first.2)

theorem foldl_spend_frame (buckets : List (String × RateLimit)) :
    SameSettings engine (buckets.foldl (spendAll now) engine) ∧
      (buckets.foldl (spendAll now) engine).daily = engine.daily ∧
      (buckets.foldl (spendAll now) engine).approvals = engine.approvals := by
  induction buckets generalizing engine with
  | nil => exact ⟨.refl _, rfl, rfl⟩
  | cons first rest ih =>
    obtain ⟨hset, hdaily, happ⟩ := @ih (spendAll now engine first)
    exact ⟨(spend_settings first.1 first.2).trans hset, hdaily, happ⟩

theorem foldl_charge_frame {charges : List Charge}
    (hkind : ∀ charge ∈ charges, ∀ rate, charge.kind ≠ .bucket rate) :
    SameSettings engine (charges.foldl (Engine.charge now) engine) ∧
      (charges.foldl (Engine.charge now) engine).buckets = engine.buckets ∧
      (charges.foldl (Engine.charge now) engine).tick = engine.tick := by
  induction charges generalizing engine with
  | nil => exact ⟨.refl _, rfl, rfl⟩
  | cons first rest ih =>
    have hfst : SameSettings engine (engine.charge now first) ∧
        (engine.charge now first).buckets = engine.buckets ∧
        (engine.charge now first).tick = engine.tick := by
      rw [Engine.charge]
      split
      · next rate hrate => exact absurd hrate (hkind first mem_cons_self rate)
      · exact ⟨⟨rfl, rfl, rfl, rfl, rfl, rfl⟩, rfl, rfl⟩
      · split
        · exact ⟨.refl _, rfl, rfl⟩
        · exact ⟨⟨rfl, rfl, rfl, rfl, rfl, rfl⟩, rfl, rfl⟩
    obtain ⟨hset, hbuc, htick⟩ :=
      @ih (engine.charge now first) (fun charge hmem => hkind charge (mem_cons_of_mem _ hmem))
    exact ⟨hfst.1.trans hset, hbuc.trans hfst.2.1, htick.trans hfst.2.2⟩

theorem Recent.foldl_spend_last (hrcnt : Recent engine) (earlier : List (String × RateLimit))
    (key : String) (rate : RateLimit) :
    ∃ entry, ((earlier ++ [(key, rate)]).foldl (spendAll now) engine).buckets[key]? = some entry ∧
      ∀ other found,
        ((earlier ++ [(key, rate)]).foldl (spendAll now) engine).buckets[other]? = some found →
        other ≠ key → found.touched < entry.touched := by
  rw [foldl_append]
  change ∃ entry, ((earlier.foldl (spendAll now) engine).spend key rate now).buckets[key]? =
      some entry ∧ ∀ other found,
        ((earlier.foldl (spendAll now) engine).spend key rate now).buckets[other]? = some found →
        other ≠ key → found.touched < entry.touched
  refine ⟨_, (getElem?_spend key key rate).trans (if_pos rfl), ?_⟩
  intro other found hfnd hoth
  rw [getElem?_spend, if_neg (Ne.symm hoth)] at hfnd
  exact Nat.lt_succ_of_le (hrcnt.foldl_spend earlier other found hfnd)

theorem usesAt_insert {key : String} {state : ApprovalState}
    (hst : engine.approvals[key]? = some state) (hvld : state.validAt now = true) :
    Engine.usesAt { engine with
      approvals := engine.approvals.insert key
        { state with uses := if state.uses = 0 then 0 else state.uses - 1 } } key now + 1 =
      engine.usesAt key now := by
  have hparts := Bool.and_eq_true_iff.mp hvld
  have huses : 0 < state.uses := of_decide_eq_true hparts.1
  have hpos : 0 < state.uses.toNat := UInt32.lt_iff_toNat_lt.mp huses
  have hone : (1 : UInt32) ≤ state.uses := UInt32.le_iff_toNat_le.mpr hpos
  have hless : (state.uses - 1).toNat = state.uses.toNat - 1 := UInt32.toNat_sub_of_le _ _ hone
  have hnon : state.uses ≠ 0 := by
    intro hzero
    rw [hzero] at hpos
    exact Nat.lt_irrefl 0 hpos
  rw [Engine.usesAt, getElem?_insert_self, if_neg hnon, Engine.usesAt, hst,
    filter_some, filter_some, if_pos hvld, elim_some]
  by_cases hlast : 0 < state.uses - 1
  · rw [if_pos, elim_some, hless]
    · omega
    · exact Bool.and_eq_true_iff.mpr ⟨decide_eq_true hlast, hparts.2⟩
  rw [if_neg, elim_none]
  · rw [UInt32.lt_iff_toNat_lt, hless] at hlast
    change ¬ 0 < _ at hlast
    omega
  · intro hstill
    exact hlast (of_decide_eq_true (Bool.and_eq_true_iff.mp hstill).1)

theorem foldl_approvals {used : List String} (hlen : used.length ≤ 1)
    (hvld : ∀ key ∈ used, ∃ state, engine.approvals[key]? = some state ∧ state.validAt now = true) :
    (∀ key ∈ used,
      ((used.map (⟨·, .approval⟩)).foldl (Engine.charge now) engine).usesAt key now + 1 =
        engine.usesAt key now) ∧
    (∀ key, key ∉ used →
      ((used.map (⟨·, .approval⟩)).foldl (Engine.charge now) engine).approvals[key]? =
        engine.approvals[key]?) ∧
    ((used.map (⟨·, .approval⟩)).foldl (Engine.charge now) engine).daily = engine.daily := by
  match used with
  | [] => exact ⟨nofun, fun _ _ => rfl, rfl⟩
  | [key] =>
    obtain ⟨state, hst, hstill⟩ := hvld key List.mem_cons_self
    have hchar : ([key].map (⟨·, .approval⟩)).foldl (Engine.charge now) engine =
        { engine with
          approvals := engine.approvals.insert key
            { state with uses := if state.uses = 0 then 0 else state.uses - 1 } } := by
      rw [List.map_singleton, List.foldl_cons, List.foldl_nil, Engine.charge]
      dsimp only
      rw [hst]
    rw [hchar]
    refine ⟨?_, ?_, rfl⟩
    · intro other hoth
      rw [List.mem_singleton.mp hoth]
      exact usesAt_insert hst hstill
    intro other hoth
    dsimp only
    exact getElem?_insert_of_ne fun hsame => hoth (List.mem_singleton.mpr hsame.symm)
  | first :: second :: rest => exact absurd hlen (by simp)

theorem foldl_counters {counters : List String} (hlen : counters.length ≤ 1)
    (hbelow : ∀ key ∈ counters, ∃ cap, (engine.daily[key]?).elim 0 (·.countOn now) < cap) :
    (∀ key ∈ counters,
      ((counters.map (⟨·, .daily⟩)).foldl (Engine.charge now) engine).countAt key now =
        engine.countAt key now + 1) ∧
    (∀ key, key ∉ counters →
      ((counters.map (⟨·, .daily⟩)).foldl (Engine.charge now) engine).daily[key]? =
        engine.daily[key]?) ∧
    ((counters.map (⟨·, .daily⟩)).foldl (Engine.charge now) engine).approvals =
      engine.approvals := by
  match counters with
  | [] => exact ⟨nofun, fun _ _ => rfl, rfl⟩
  | [key] =>
    obtain ⟨cap, hcap⟩ := hbelow key List.mem_cons_self
    have hchar : ([key].map (⟨·, .daily⟩)).foldl (Engine.charge now) engine =
        { engine with
          daily := engine.daily.insert key
            (((engine.daily[key]?).getD (DailyCounter.new (dayOf now))).bump now) } := rfl
    rw [hchar]
    refine ⟨?_, ?_, rfl⟩
    · intro other hoth
      rw [List.mem_singleton.mp hoth, Engine.countAt, ExtTreeMap.getElem?_insert_self,
        Option.elim_some, Engine.countAt]
      cases hfnd : engine.daily[key]? with
      | none =>
        rw [hfnd] at hcap
        have hnew : (DailyCounter.new (dayOf now)).countOn now < cap := by
          rw [DailyCounter.countOn_new]
          exact hcap
        rw [Option.getD_none, DailyCounter.countOn_bump hnew, DailyCounter.countOn_new]
        rfl
      | some counter =>
        rw [hfnd] at hcap
        rw [Option.getD_some, DailyCounter.countOn_bump hcap, Option.elim_some]
    intro other hoth
    dsimp only
    exact getElem?_insert_of_ne fun hsame => hoth (List.mem_singleton.mpr hsame.symm)
  | first :: second :: rest => exact absurd hlen (by simp)

end Charging

section Committing

variable {engine : Engine} {request : Request} {now : UInt64} {used : List String}

/-- The state after the charges of a plan, before the expired and the surplus are dropped. -/
def charged (engine : Engine) (request : Request) (now : UInt64) (used : List String) : Engine :=
  (chargesOf used (engine.policy.countersFor request) (engine.policy.bucketsFor request)).foldl
    (Engine.charge now) engine

def counted (engine : Engine) (request : Request) (now : UInt64) (used : List String) : Engine :=
  ((engine.policy.countersFor request).map (⟨·, .daily⟩)).foldl (Engine.charge now)
    ((used.map (⟨·, .approval⟩)).foldl (Engine.charge now) engine)

theorem charged_eq :
    charged engine request now used =
      (engine.policy.bucketsFor request).foldl (spendAll now)
        (counted engine request now used) := by
  rw [charged, chargesOf, foldl_append, foldl_append, foldl_map (l :=
    engine.policy.bucketsFor request)]
  rfl

theorem counted_frame :
    SameSettings engine (counted engine request now used) ∧
      (counted engine request now used).buckets = engine.buckets ∧
      (counted engine request now used).tick = engine.tick := by
  have happ := @foldl_charge_frame engine now (used.map (⟨·, .approval⟩)) (by
    intro charge hchar rate hrate
    obtain ⟨name, -, rfl⟩ := List.mem_map.mp hchar
    cases hrate)
  have hctrs := @foldl_charge_frame
    ((used.map (⟨·, .approval⟩)).foldl (Engine.charge now) engine) now
    ((engine.policy.countersFor request).map (⟨·, .daily⟩)) (by
      intro charge hchar rate hrate
      obtain ⟨name, -, rfl⟩ := List.mem_map.mp hchar
      cases hrate)
  exact ⟨happ.1.trans hctrs.1, hctrs.2.1.trans happ.2.1, hctrs.2.2.trans happ.2.2⟩

theorem charged_settings : SameSettings engine (charged engine request now used) := by
  rw [charged_eq]
  exact counted_frame.1.trans (foldl_spend_frame _).1

theorem Recent.counted (hrcnt : Recent engine) : Recent (counted engine request now used) := by
  intro key entry hent
  rw [counted_frame.2.1] at hent
  rw [counted_frame.2.2]
  exact hrcnt key entry hent

theorem Recent.charged (hrcnt : Recent engine) : Recent (charged engine request now used) := by
  rw [charged_eq]
  exact hrcnt.counted.foldl_spend _

theorem length_countersFor : (engine.policy.countersFor request).length ≤ 1 := by
  rw [Policy.countersFor]
  cases engine.policy.set.rule request.component request.capability with
  | none => exact Nat.zero_le 1
  | some rule =>
    rw [elim_some]
    cases rule.dailyCap with
    | none => exact Nat.zero_le 1
    | some cap => exact Nat.le_refl 1

theorem bucketsFor_cases :
    (∀ due ∈ engine.policy.bucketsFor request, due.1 = capabilityKey request) ∧
        (engine.policy.bucketsFor request).length ≤ 1 ∨
      ∃ capability target rate, engine.policy.bucketsFor request =
          capability ++ [(targetKey request target, rate)] ∧ capability.length ≤ 1 ∧
        ∀ due ∈ capability, due.1 = capabilityKey request := by
  have hown : ∀ rate : Option RateLimit,
      (∀ due ∈ (rate.map (capabilityKey request, ·)).toList, due.1 = capabilityKey request) ∧
        (rate.map (capabilityKey request, ·)).toList.length ≤ 1 := by
    intro rate
    cases rate with
    | none => exact ⟨nofun, Nat.zero_le 1⟩
    | some limit =>
      refine ⟨?_, Nat.le_refl 1⟩
      intro due hdue
      rw [mem_toList] at hdue
      cases hdue
      rfl
  rw [Policy.bucketsFor]
  cases engine.policy.set.rule request.component request.capability with
  | none => exact Or.inl ⟨nofun, Nat.zero_le 1⟩
  | some rule =>
    rw [elim_some]
    obtain ⟨hkeys, hlen⟩ := hown (rule.capabilityRate request.target)
    cases request.target with
    | none =>
      apply Or.inl
      rw [bind_none, toList_none, append_nil]
      exact hown (rule.capabilityRate none)
    | some target =>
      rw [bind_some]
      cases rule.targetRate (some target) with
      | none =>
        apply Or.inl
        rw [map_none, toList_none, append_nil]
        exact hown (rule.capabilityRate (some target))
      | some rate =>
        exact Or.inr ⟨_, target, rate, rfl, (hown (rule.capabilityRate (some target))).2,
          (hown (rule.capabilityRate (some target))).1⟩

theorem nodup_bucketsFor : ((engine.policy.bucketsFor request).map Prod.fst).Nodup := by
  have hshrt : ∀ buckets : List (String × RateLimit), buckets.length ≤ 1 →
      (buckets.map Prod.fst).Nodup := by
    intro buckets hlen
    match buckets with
    | [] => exact nodup_nil
    | [due] => exact nodup_singleton _
    | first :: second :: rest => exact absurd hlen (by simp)
  rcases @bucketsFor_cases engine request with ⟨-, hlen⟩ | ⟨capability, target, rate, heq, hlen, hkeys⟩
  · exact hshrt _ hlen
  rw [heq, map_append, nodup_append]
  refine ⟨hshrt _ hlen, nodup_singleton _, ?_⟩
  intro key hkey other hoth hsame
  obtain ⟨due, hdue, rfl⟩ := List.mem_map.mp hkey
  rw [hkeys due hdue, mem_singleton.mp hoth] at hsame
  have htags := congrArg (hasTag 'g') hsame
  rw [hasTag_capabilityKey, hasTag_targetKey] at htags
  cases htags

theorem getElem?_evict_charged (hrcnt : Recent engine) (hroom : 0 < engine.maxTargetBuckets)
    {key : String} {rate : RateLimit} (hdue : (key, rate) ∈ engine.policy.bucketsFor request) :
    ((charged engine request now used).pruneApprovals now).evictTargets.buckets[key]? =
      (charged engine request now used).buckets[key]? := by
  rcases @bucketsFor_cases engine request with ⟨hkeys, -⟩ | ⟨capability, target, limit, heq, -, hkeys⟩
  · have hkey : key = capabilityKey request := hkeys _ hdue
    apply getElem?_evictTargets_of_not_tag
    rw [hkey, hasTag_capabilityKey]
    rfl
  rw [heq, mem_append, mem_singleton] at hdue
  rcases hdue with hown | htgt
  · have hkey : key = capabilityKey request := hkeys _ hown
    apply getElem?_evictTargets_of_not_tag
    rw [hkey, hasTag_capabilityKey]
    rfl
  cases htgt
  obtain ⟨entry, hent, hnew⟩ := (@Recent.counted engine request now used
    hrcnt).foldl_spend_last capability (targetKey request target) rate
  rw [← heq, ← charged_eq] at hent hnew
  rw [hent]
  apply getElem?_evictTargets_newest ?_ hent hnew
  rw [charged_settings.maxTargetBuckets]
  exact hroom

theorem getElem?_commit (hrcnt : Recent engine) (hroom : 0 < engine.maxTargetBuckets)
    {key : String} {rate : RateLimit} (hdue : (key, rate) ∈ engine.policy.bucketsFor request) :
    ∃ touched, (engine.commit (chargesOf used (engine.policy.countersFor request)
        (engine.policy.bucketsFor request)) now).buckets[key]? =
      some ⟨taken engine key rate now, touched⟩ := by
  have hsta : taken (counted engine request now used) key rate now = taken engine key rate now := by
    rw [taken, counted_frame.2.1, taken]
  obtain ⟨touched, htkn⟩ := @getElem?_foldl_spend (counted engine request now used) now _ key rate
    (@nodup_bucketsFor engine request) hdue
  rw [← charged_eq, ← getElem?_evict_charged hrcnt hroom hdue, hsta] at htkn
  exact ⟨touched, htkn⟩

theorem commit_charged (hplnd : Planned engine request now used) (hrcnt : Recent engine)
    (hroom : 0 < engine.maxTargetBuckets) :
    Charged engine request now
      (engine.commit (chargesOf used (engine.policy.countersFor request)
        (engine.policy.bucketsFor request)) now) := by
  have hused : used.length ≤ 1 := by
    rw [hplnd.length]
    split
    · exact Nat.le_refl 1
    · exact Nat.zero_le 1
  obtain ⟨huses, hotherUses, hdaily⟩ := @foldl_approvals engine now used hused
    (fun key hkey => (hplnd.approval key hkey).2)
  obtain ⟨hcoun, hotherCounts, happ⟩ := @foldl_counters
    ((used.map (⟨·, .approval⟩)).foldl (Engine.charge now) engine) now
    (engine.policy.countersFor request) length_countersFor (by
      rw [hdaily]
      exact hplnd.counter)
  have hframe := @foldl_spend_frame (counted engine request now used) now
    (engine.policy.bucketsFor request)
  rw [← charged_eq] at hframe
  change Charged engine request now
    ((charged engine request now used).pruneApprovals now).evictTargets
  constructor
  · intro key rate hdue
    obtain ⟨touched, htkn⟩ := @getElem?_commit engine request now used hrcnt hroom key rate hdue
    exact unitsAt_of_taken htkn (hplnd.bucket key rate hdue)
  · intro key hkey
    rcases @getElem?_evictTargets ((charged engine request now used).pruneApprovals now) key with
      hsame | hdrp
    · apply Or.inl
      rw [hsame]
      change (charged engine request now used).buckets[key]? = _
      rw [charged_eq, getElem?_foldl_spend_other hkey, counted_frame.2.1]
    · exact Or.inr hdrp
  · intro key hkey
    have hbef : ((used.map (⟨·, .approval⟩)).foldl (Engine.charge now) engine).countAt key now =
        engine.countAt key now := by
      rw [Engine.countAt, hdaily, Engine.countAt]
    change (charged engine request now used).countAt key now = _
    rw [Engine.countAt, hframe.2.1, ← hbef]
    exact hcoun key hkey
  · intro key hkey
    change (charged engine request now used).daily[key]? = _
    rw [hframe.2.1]
    exact (hotherCounts key hkey).trans (by rw [hdaily])
  have hprn : ∀ key : String,
      ((charged engine request now used).approvals.filter
        fun _ state => state.validAt now)[key]? =
        (((used.map (⟨·, .approval⟩)).foldl (Engine.charge now) engine).approvals[key]?).filter
          (ApprovalState.validAt · now) := by
    intro key
    rw [hframe.2.2, ExtTreeMap.getElem?_filter']
    rw [counted, happ]
  refine ⟨used, hplnd.length, ?_, ?_⟩
  · intro key hkey
    refine ⟨(hplnd.approval key hkey).1, ?_⟩
    have hstill : Engine.usesAt (((charged engine request now used).pruneApprovals
        now).evictTargets) key now =
        ((used.map (⟨·, .approval⟩)).foldl (Engine.charge now) engine).usesAt key now := by
      rw [Engine.usesAt, Engine.evictTargets, Engine.pruneApprovals, hprn,
        Option.filter_filter, Engine.usesAt]
      congr 2
      funext state
      exact Bool.and_self _
    rw [hstill]
    exact huses key hkey
  · intro key hkey
    rw [Engine.evictTargets, Engine.pruneApprovals, hprn, hotherUses key hkey]

end Committing

end WasmAgent.Grant
