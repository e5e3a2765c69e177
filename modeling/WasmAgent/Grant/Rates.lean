import WasmAgent.Grant.Decisions

/-!
# How many calls a rate lets through

A bucket lets through what it holds when full and what flows in while its clock goes
forward.  Its clock starts where the bucket is made; from there the calls charged to it stay
below the capacity and the rate times the time that has passed since.
-/

namespace WasmAgent.Grant

open List Option Std WasmAgent.Core

namespace Call

def reading : Call → Option UInt64
  | check _ now => some now
  | enforce _ now _ => some now
  | _ => none

def request? : Call → Option Request
  | check request _ => some request
  | enforce request _ _ => some request
  | _ => none

def allowed (engine : Engine) : Call → Bool
  | check request now => (engine.check request now).1 = .allow
  | enforce request now sink => (engine.enforce request now sink).decision = .allow
  | _ => false

def spends (engine : Engine) (key : String) (call : Call) : Bool :=
  call.allowed engine &&
    call.request?.any fun request => (engine.policy.bucketsFor request).any (·.1 == key)

end Call

/-- How many of the calls are charged to the bucket. -/
def spent (key : String) : List Call → Engine → ℕ
  | [], _ => 0
  | call :: calls, engine =>
      (if call.spends engine key then 1 else 0) + spent key calls (call.run engine).2

def largest : List Call → ℕ
  | [] => 0
  | call :: calls => max (call.reading.elim 0 (·.toNat)) (largest calls)

/-- No call is charged to the bucket at a reading before `first`, unless the bucket's clock
is past `first` already. -/
def Anchored (key : String) (first : UInt64) : List Call → Engine → Prop
  | [], _ => True
  | call :: calls, engine =>
      (call.spends engine key = true →
        first.toNat ≤ call.reading.elim 0 (·.toNat) ∨
          ∃ entry, engine.buckets[key]? = some entry ∧ first ≤ entry.bucket.lastMs) ∧
        Anchored key first calls (call.run engine).2

variable {request : Request}

section Keys

theorem isControl_sep : isControl sep = true := by
  decide

theorem joined_inj {policy : Policy} {other : Request} {rule : Rule} {tag : String}
    (hrule : policy.set.rule request.component request.capability = some rule)
    (hsame : joined [tag, request.component, request.capability] =
      joined [tag, other.component, other.capability]) :
    request.component = other.component ∧ request.capability = other.capability := by
  have hcln : ∀ {name : String}, (∀ char ∈ name.toList, isControl char = false) →
      sep ∉ name.toList := by
    intro name hname hsep
    cases isControl_sep.symm.trans (hname sep hsep)
  obtain ⟨-, hcomp, hcap⟩ := policy.rule_sound hrule
  have hlists := congrArg String.toList hsame
  rw [toList_joined, toList_joined, toList_joined, toList_joined, joined_singleton,
    joined_singleton] at hlists
  have hrest := (List.cons.inj (append_cancel_left hlists)).2
  obtain ⟨hfst, -, hsnd⟩ := (append_cons_inj_of_notMem (hcln hcomp) (hcln hcap)).mp hrest
  exact ⟨String.toList_inj.mp hfst, String.toList_inj.mp hsnd⟩

theorem rate_of_bucketsFor {policy : Policy} {own : Request} {rule : Rule} {key : String}
    {rate limit : RateLimit} (hkey : key = capabilityKey own)
    (hrule : policy.set.rule own.component own.capability = some rule)
    (hrate : rule.rate = some rate) (hdue : (key, limit) ∈ policy.bucketsFor request) :
    limit = rate := by
  rw [Policy.bucketsFor] at hdue
  cases hfnd : policy.set.rule request.component request.capability with
  | none =>
    rw [hfnd] at hdue
    cases hdue
  | some found =>
    rw [hfnd, elim_some, mem_append, mem_toList, mem_toList] at hdue
    rcases hdue with hown | htgt
    · obtain ⟨other, hoth, hsame⟩ := map_eq_some_iff.mp hown
      obtain ⟨hsameKey, hsameRate⟩ := Prod.mk.inj hsame
      have hnames := joined_inj hfnd (hsameKey.trans hkey)
      have hsameRule : found = rule := by
        rw [hnames.1, hnames.2, hrule] at hfnd
        exact (Option.some.inj hfnd).symm
      rw [hsameRule, Rule.capabilityRate] at hoth
      split at hoth
      · cases hoth
      · rw [hrate] at hoth
        exact hsameRate.symm.trans (Option.some.inj hoth).symm
    obtain ⟨target, -, hlim⟩ := bind_eq_some_iff.mp htgt
    obtain ⟨other, -, hsame⟩ := map_eq_some_iff.mp hlim
    have htags := congrArg (hasTag 'g') ((Prod.mk.inj hsame).1.trans hkey)
    rw [hasTag_targetKey, hasTag_capabilityKey] at htags
    cases htags

end Keys

section Steps

variable {engine : Engine} {call : Call} {key : String}

theorem commit_policy {now : UInt64} {other : Engine} (hpol : other.policy = engine.policy)
    (hall : (engine.plan request now).decision = .allow) :
    (other.commit (engine.plan request now).charges now).policy = engine.policy := by
  obtain ⟨used, hchar, -⟩ := plan_allow hall
  rw [hchar, ← hpol]
  exact (@charged_settings other request now used).policy

theorem policy_call (call : Call) : (call.run engine).2.policy = engine.policy := by
  cases call with
  | check request now =>
    change (engine.check request now).2.policy = _
    rw [check_eq]
    split
    · next hall => exact commit_policy rfl hall
    · rfl
  | peek request now => rfl
  | enforce request now sink =>
    change (engine.enforce request now sink).engine.policy = _
    rw [enforce_eq]
    split
    · next hall => exact commit_policy (audit_engine _).1 (audit_allow hall).1
    · exact (audit_engine _).1
  | approve | revokeApprovals => rfl

structure Spent (engine : Engine) (key : String) (rate : RateLimit) (now : UInt64)
    (after : Engine) : Prop where
  tokens : 60000 ≤ engine.unitsAt key rate now
  taken : ∃ touched, after.buckets[key]? = some ⟨taken engine key rate now, touched⟩

theorem commit_spent {now : UInt64} {other : Engine} {rate : RateLimit}
    (hpol : other.policy = engine.policy) (hmax : other.maxTargetBuckets = engine.maxTargetBuckets)
    (hbuc : other.buckets = engine.buckets) (htick : other.tick = engine.tick)
    (hsound : Sound engine) (hall : (engine.plan request now).decision = .allow)
    (hdue : (key, rate) ∈ engine.policy.bucketsFor request) :
    Spent engine key rate now (other.commit (engine.plan request now).charges now) := by
  obtain ⟨used, hchar, hplnd⟩ := plan_allow hall
  have hoth := hsound.of_same hbuc htick hmax
  rw [← hpol] at hdue
  obtain ⟨touched, htkn⟩ := @getElem?_commit other request now used hoth.recent hoth.room key
    rate hdue
  have hsta : taken other key rate now = taken engine key rate now := by
    rw [taken, hbuc, taken]
  refine ⟨hplnd.bucket key rate (hpol ▸ hdue), touched, ?_⟩
  rw [hchar, ← hpol, htkn, hsta]

variable {buckets : List (String × RateLimit)}

theorem mem_of_any (hany : buckets.any (·.1 == key) = true) : ∃ rate, (key, rate) ∈ buckets := by
  obtain ⟨due, hdue, hsame⟩ := List.any_eq_true.mp hany
  exact ⟨due.2, by rw [← beq_iff_eq.mp hsame]; exact hdue⟩

theorem not_mem_of_any (hany : buckets.any (·.1 == key) = false) : key ∉ buckets.map Prod.fst := by
  intro hmem
  obtain ⟨due, hdue, hsame⟩ := List.mem_map.mp hmem
  exact List.any_eq_false.mp hany due hdue (beq_iff_eq.mpr hsame)

theorem call_commits (halwd : call.allowed engine = true) :
    ∃ request now other, call.request? = some request ∧ call.reading = some now ∧
      (engine.plan request now).decision = .allow ∧ other.policy = engine.policy ∧
      other.maxTargetBuckets = engine.maxTargetBuckets ∧ other.tick = engine.tick ∧
      SameBudgets engine other ∧
      (call.run engine).2 = other.commit (engine.plan request now).charges now := by
  cases call with
  | check request now =>
    have hall := of_decide_eq_true halwd
    rw [fst_check] at hall
    refine ⟨request, now, engine.advance now, rfl, rfl, hall, rfl, rfl, rfl, ⟨rfl, rfl, rfl⟩, ?_⟩
    change (engine.check request now).2 = _
    rw [check_eq, if_pos hall]
  | enforce request now sink =>
    have hdec := of_decide_eq_true halwd
    have haudit : ((engine.advance now).audit request now (engine.plan request now).decision
        sink).decision = .allow := by
      rw [enforce_eq] at hdec
      split at hdec
      · next haudit => exact haudit
      · exact hdec
    obtain ⟨hpol, hmax, htick, hbud⟩ := @audit_engine (engine.advance now) request now sink
      (engine.plan request now).decision
    refine ⟨request, now, _, rfl, rfl, (audit_allow haudit).1, hpol, hmax, htick, { hbud with }, ?_⟩
    change (engine.enforce request now sink).engine = _
    rw [enforce_eq, if_pos haudit]
  | peek | approve | revokeApprovals => cases halwd

variable (hsound : Sound engine)
include hsound

theorem call_spends (hspen : call.spends engine key = true) :
    ∃ rate now request, call.reading = some now ∧
      (key, rate) ∈ engine.policy.bucketsFor request ∧
      Spent engine key rate now (call.run engine).2 := by
  rw [Call.spends, Bool.and_eq_true] at hspen
  obtain ⟨request, now, other, hreq, hrdg, hall, hpol, hmax, htick, hbud, hrun⟩ :=
    call_commits hspen.1
  rw [hreq, any_some] at hspen
  obtain ⟨rate, hdue⟩ := mem_of_any hspen.2
  refine ⟨rate, now, request, hrdg, hdue, ?_⟩
  rw [hrun]
  exact commit_spent hpol hmax hbud.buckets htick hsound hall hdue

theorem call_charges (halwd : call.allowed engine = true) :
    ∃ request now, call.request? = some request ∧ call.reading = some now ∧
      (engine.plan request now).decision = .allow ∧
      Charged engine request now (call.run engine).2 := by
  obtain ⟨request, now, other, hreq, hrdg, hall, hpol, hmax, htick, hbud, hrun⟩ :=
    call_commits halwd
  refine ⟨request, now, hreq, hrdg, hall, ?_⟩
  rw [hrun]
  exact (commit_planned hpol hmax hbud htick hsound hall).1

theorem call_refuses (href : call.allowed engine = false) :
    (call.run engine).2.buckets = engine.buckets ∧ (call.run engine).2.daily = engine.daily := by
  cases call with
  | check request now =>
    have hsame := (hsound.check request now).2.1 (of_decide_eq_false href)
    exact ⟨hsame.buckets, hsame.daily⟩
  | enforce request now sink =>
    have hsame := (hsound.enforce request now sink).2.1 (of_decide_eq_false href)
    exact ⟨hsame.buckets, hsame.daily⟩
  | peek | approve | revokeApprovals => exact ⟨rfl, rfl⟩

theorem call_spares (htag : hasTag 't' key = false) (hspar : call.spends engine key = false) :
    (call.run engine).2.buckets[key]? = engine.buckets[key]? := by
  cases halwd : call.allowed engine with
  | false => rw [(call_refuses hsound halwd).1]
  | true =>
    obtain ⟨request, now, hreq, -, -, hcgd⟩ := call_charges hsound halwd
    rw [Call.spends, halwd, Bool.true_and, hreq, any_some] at hspar
    rcases hcgd.otherBuckets key (not_mem_of_any hspar) with hsame | ⟨htgt, -⟩
    · exact hsame
    · cases htag.symm.trans htgt

end Steps

section Bounds

variable {engine : Engine} {calls : List Call} {own : Request} {rule : Rule} {rate : RateLimit}

theorem spent_le_held (hsound : Sound engine)
    (hrule : engine.policy.set.rule own.component own.capability = some rule)
    (hrate : rule.rate = some rate) {entry : Entry}
    (hent : engine.buckets[capabilityKey own]? = some entry) :
    spent (capabilityKey own) calls engine * 60000 ≤
      min entry.bucket.units.toNat (rate.capacity.toNat * 60000) +
        (largest calls - entry.bucket.lastMs.toNat) * rate.perMinute.toNat := by
  induction calls generalizing engine entry with
  | nil =>
    rw [spent, Nat.zero_mul]
    exact Nat.zero_le _
  | cons call calls ih =>
    have haft := hrule
    rw [← @policy_call engine call] at haft
    rw [spent, largest]
    by_cases hspen : call.spends engine (capabilityKey own) = true
    · obtain ⟨limit, now, request, hrdg, hdue, htks, touched, htkn⟩ :=
        call_spends hsound hspen
      rw [rate_of_bucketsFor rfl hrule hrate hdue] at htks htkn
      have hrest := ih (hsound.call call) haft htkn
      rw [Engine.unitsAt, hent, elim_some] at htks
      obtain ⟨hunits, hlast⟩ := Bucket.take_of_tokens htks
      dsimp only at hrest
      rw [taken, hent, elim_some, hlast] at hrest
      rw [Bucket.toNat_available] at hunits
      rw [if_pos hspen, hrdg, elim_some]
      -- What flows in before this call and after it is what flows in over all.
      have hflow : (now.toNat - entry.bucket.lastMs.toNat) +
          (largest calls - max entry.bucket.lastMs.toNat now.toNat) ≤
          max now.toNat (largest calls) - entry.bucket.lastMs.toNat := by
        omega
      have hmul := Nat.mul_le_mul_right rate.perMinute.toNat hflow
      rw [Nat.add_mul] at hmul
      rw [Nat.add_mul, Nat.one_mul]
      omega
    rw [Bool.not_eq_true] at hspen
    have hsame := call_spares hsound (hasTag_capabilityKey 't' own) hspen
    have hrest := ih (hsound.call call) haft (hsame.trans hent)
    rw [hspen, if_neg Bool.false_ne_true, Nat.zero_add]
    apply Nat.le_trans hrest
    apply Nat.add_le_add_left
    apply Nat.mul_le_mul_right
    omega

theorem spent_le (hsound : Sound engine)
    (hrule : engine.policy.set.rule own.component own.capability = some rule)
    (hrate : rule.rate = some rate) {first : UInt64}
    (hanc : Anchored (capabilityKey own) first calls engine) :
    spent (capabilityKey own) calls engine * 60000 ≤
      rate.capacity.toNat * 60000 + (largest calls - first.toNat) * rate.perMinute.toNat := by
  induction calls generalizing engine with
  | nil =>
    rw [spent, Nat.zero_mul]
    exact Nat.zero_le _
  | cons call calls ih =>
    have haft := hrule
    rw [← @policy_call engine call] at haft
    rw [spent, largest]
    by_cases hspen : call.spends engine (capabilityKey own) = true
    · obtain ⟨limit, now, request, hrdg, hdue, htks, touched, htkn⟩ :=
        call_spends hsound hspen
      rw [rate_of_bucketsFor rfl hrule hrate hdue] at htks htkn
      have hrest := @spent_le_held (call.run engine).2 calls own rule rate (hsound.call call) haft
        hrate _ htkn
      dsimp only at hrest
      obtain ⟨hunits, hlast⟩ := Bucket.take_of_tokens htks
      rw [Bucket.toNat_available] at hunits
      have hsta : first.toNat ≤ (taken engine (capabilityKey own) rate now).lastMs.toNat := by
        rw [taken, hlast]
        rcases hanc.1 hspen with hltr | ⟨entry, hent, hclock⟩
        · rw [hrdg, elim_some] at hltr
          exact Nat.le_trans hltr (Nat.le_max_right _ _)
        · rw [hent, elim_some]
          exact Nat.le_trans (UInt64.le_iff_toNat_le.mp hclock) (Nat.le_max_left _ _)
      rw [if_pos hspen, hrdg, elim_some]
      have hflow : largest calls - (taken engine (capabilityKey own) rate now).lastMs.toNat ≤
          max now.toNat (largest calls) - first.toNat := by
        omega
      have hmul := Nat.mul_le_mul_right rate.perMinute.toNat hflow
      have hless : (taken engine (capabilityKey own) rate now).units.toNat + 60000 ≤
          rate.capacity.toNat * 60000 := by
        rw [taken, hunits]
        exact Nat.min_le_right _ _
      rw [Nat.add_mul, Nat.one_mul]
      omega
    rw [Bool.not_eq_true] at hspen
    have hrest := ih (hsound.call call) haft hanc.2
    rw [hspen, if_neg Bool.false_ne_true, Nat.zero_add]
    apply Nat.le_trans hrest
    apply Nat.add_le_add_left
    apply Nat.mul_le_mul_right
    omega

/-- In every run of calls that are anchored at the first reading, a capability's bucket is
charged at most its capacity and its rate times the time from the first reading to the
largest; and for every rate, bucket and reading no arithmetic panics or loses units. -/
theorem rate_bounded (policy : Policy) (operations : List Operation) (calls : List Call)
    (own : Request) (rate : RateLimit) (bucket : Bucket) (now : UInt64) :
    (∀ (rule : Rule) (first : UInt64),
      ((Engine.new policy).run operations).policy.set.rule own.component own.capability =
        some rule →
      rule.rate = some rate →
      (calls.filterMap Call.reading).head? = some first →
      Anchored (capabilityKey own) first calls ((Engine.new policy).run operations) →
      spent (capabilityKey own) calls ((Engine.new policy).run operations) ≤
        rate.capacity.toNat +
          (largest calls - first.toNat) * rate.perMinute.toNat / 60000) ∧
    (bucket.take? rate now).isSome = true ∧
      (retryAfterMs? (bucket.available rate now) rate).isSome = true ∧
      (bucket.available rate now).toNat =
        min (bucket.units.toNat + (now.toNat - bucket.lastMs.toNat) * rate.perMinute.toNat)
          (rate.capacity.toNat * 60000) := by
  apply And.intro
  · intro rule first hrule hrate _ hanchored
    have hbound := spent_le (Sound.run policy operations) hrule hrate hanchored
    omega
  · exact ⟨bucket.take?_isSome rate now, retryAfterMs?_isSome _ rate,
      bucket.toNat_available rate now⟩

end Bounds

section Minute

def minuteRule : Rule := ⟨.allow, [], [], none, false, some ⟨1, none⟩, none, [], none⟩

def minutePolicy : Policy where
  set := ⟨1, [], (∅ : ExtTreeMap String ComponentPolicy).insert "c"
    ⟨(∅ : ExtTreeMap String Rule).insert "x" minuteRule⟩⟩
  valid := by decide +kernel

def minuteRequest : Request := ⟨"c", "x", none⟩

/-- A clock that goes forward lets through a second call after a minute. -/
theorem rate_bounded_minute :
    spent (capabilityKey minuteRequest) [.check minuteRequest 0, .check minuteRequest 60000]
      ((Engine.new minutePolicy).run []) ≤ 1 + (60000 - 0) * 1 / 60000 :=
  (rate_bounded minutePolicy [] [.check minuteRequest 0, .check minuteRequest 60000] minuteRequest
    ⟨1, none⟩ (Bucket.full ⟨1, none⟩ 0) 0).1 minuteRule 0 (by decide +kernel) rfl rfl
    ⟨fun _ => Or.inl (Nat.le_refl 0), fun _ => Or.inl (Nat.zero_le _), trivial⟩

/-- A bucket that is made while the clock is set back lets through two calls at one a minute,
though the largest reading is the first. -/
theorem clock_set_back_spends_twice : let calls : List Call :=
      [.check ⟨"c", "y", none⟩ 60000, .check minuteRequest 0, .check minuteRequest 60000]
    (calls.filterMap Call.reading).head? = some 60000 ∧ largest calls = 60000 ∧
      spent (capabilityKey minuteRequest) calls (Engine.new minutePolicy) = 2 ∧
      ¬ spent (capabilityKey minuteRequest) calls (Engine.new minutePolicy) ≤
        1 + (largest calls - 60000) * 1 / 60000 := by
  decide +kernel

end Minute

end WasmAgent.Grant
