import WasmAgent.Grant.Rates

/-!
# How many calls a daily cap lets through

A counter knows one day.  As long as no reading comes back to a day that the counter has left, at
most as many calls of a day are let through as the cap says.
-/

namespace WasmAgent.Grant

open List Option Std WasmAgent.Core

def Call.asks (own : Request) (call : Call) : Bool :=
  call.request?.any fun request =>
    request.component = own.component ∧ request.capability = own.capability

def allowedOn (own : Request) (day : UInt64) : List Call → Engine → ℕ
  | [], _ => 0
  | call :: calls, engine =>
      (if call.allowed engine && call.asks own && call.reading.any (dayOf · = day) then 1 else 0) +
        allowedOn own day calls (call.run engine).2

def standsAt (own : Request) (engine : Engine) (day : UInt64) : Prop :=
  ∃ counter, engine.daily[dailyKey own]? = some counter ∧ counter.day = day

def Unreturned (own : Request) : List UInt64 → List Call → Engine → Prop
  | _, [], _ => True
  | days, call :: calls, engine =>
      (∀ now, call.asks own = true → call.reading = some now → dayOf now ∈ days →
        standsAt own engine (dayOf now)) ∧
      Unreturned own
        (if call.allowed engine && call.asks own then call.reading.toList.map dayOf ++ days
          else days)
        calls (call.run engine).2

def countOf (own : Request) (engine : Engine) (day : UInt64) : ℕ :=
  (engine.daily[dailyKey own]?).elim 0 fun counter =>
    if counter.day = day then counter.count.toNat else 0

section Caps

variable {engine : Engine} {own : Request} {rule : Rule} {cap : UInt32} {call : Call}

theorem countOf_dayOf (now : UInt64) :
    countOf own engine (dayOf now) = engine.countAt (dailyKey own) now := by
  rw [countOf, Engine.countAt]
  cases engine.daily[dailyKey own]? with
  | none => rfl
  | some counter =>
    rw [elim_some, elim_some, DailyCounter.countOn]
    split <;> rfl

theorem countOf_eq_zero {day : UInt64} (hstds : ¬ standsAt own engine day) :
    countOf own engine day = 0 := by
  rw [countOf]
  cases hfnd : engine.daily[dailyKey own]? with
  | none => rfl
  | some counter =>
    rw [elim_some, if_neg]
    exact fun hday => hstds ⟨counter, hfnd, hday⟩

theorem countAt_lt_of_allow {request : Request} {now : UInt64}
    (hrule : engine.policy.set.rule request.component request.capability = some rule)
    (hcap : rule.dailyCap = some cap) (hall : (engine.plan request now).decision = .allow) :
    engine.countAt (dailyKey request) now < cap.toNat := by
  rw [Engine.plan, hrule] at hall
  dsimp only at hall
  split at hall
  · cases hall
  split at hall
  · next decision hdues =>
    cases hall
    rcases dues_error hdues with h | ⟨_, _, h, _⟩ <;> cases h
  rename_i charges hdues
  obtain ⟨_, _, hdues⟩ := bind_eq_ok.mp hdues
  obtain ⟨_, hdaily, _⟩ := bind_eq_ok.mp hdues
  exact UInt32.lt_iff_toNat_lt.mp ((dailyDue_ok hdaily).2 cap hcap)

theorem call_counts (hsound : Sound engine)
    (hrule : engine.policy.set.rule own.component own.capability = some rule)
    (hcap : rule.dailyCap = some cap) (halwd : call.allowed engine = true)
    (hasks : call.asks own = true) :
    ∃ now, call.reading = some now ∧ countOf own engine (dayOf now) < cap.toNat ∧
      countOf own (call.run engine).2 (dayOf now) = countOf own engine (dayOf now) + 1 := by
  obtain ⟨request, now, hreq, hrdg, hall, hcgd⟩ := call_charges hsound halwd
  rw [Call.asks, hreq, any_some, decide_eq_true_iff] at hasks
  have hkey : dailyKey request = dailyKey own := by rw [dailyKey, hasks.1, hasks.2, dailyKey]
  rw [← hasks.1, ← hasks.2] at hrule
  refine ⟨now, hrdg, ?_, ?_⟩
  · rw [countOf_dayOf, ← hkey]
    exact countAt_lt_of_allow hrule hcap hall
  · rw [countOf_dayOf, countOf_dayOf, ← hkey]
    apply hcgd.counted
    simp [Policy.countersFor, hrule, hcap]

theorem call_uncounted (hsound : Sound engine)
    (hoth : (call.allowed engine && call.asks own) = false) :
    (call.run engine).2.daily[dailyKey own]? = engine.daily[dailyKey own]? := by
  cases halwd : call.allowed engine with
  | false => rw [(call_refuses hsound halwd).2]
  | true =>
    obtain ⟨request, now, hreq, -, -, hcgd⟩ := call_charges hsound halwd
    rw [halwd, Bool.true_and, Call.asks, hreq, any_some, decide_eq_false_iff_not] at hoth
    apply hcgd.otherCounters
    intro hkey
    rw [Policy.countersFor] at hkey
    cases hfnd : engine.policy.set.rule request.component request.capability with
    | none =>
      rw [hfnd] at hkey
      cases hkey
    | some found =>
      rw [hfnd, elim_some, mem_toList, map_eq_some_iff] at hkey
      obtain ⟨_, -, hsame⟩ := hkey
      exact hoth (joined_inj hfnd hsame)

theorem allowedOn_le {days : List UInt64} {calls : List Call} (hsound : Sound engine)
    (hrule : engine.policy.set.rule own.component own.capability = some rule)
    (hcap : rule.dailyCap = some cap) (hunr : Unreturned own days calls engine)
    (hdays : ∀ day, standsAt own engine day → day ∈ days)
    (hcoun : ∀ day, countOf own engine day ≤ cap.toNat) (day : UInt64) :
    (day ∈ days → ¬ standsAt own engine day → allowedOn own day calls engine = 0) ∧
      allowedOn own day calls engine + countOf own engine day ≤ cap.toNat := by
  induction calls generalizing days engine with
  | nil => exact ⟨fun _ _ => rfl, (Nat.zero_add _).symm ▸ hcoun day⟩
  | cons call calls ih =>
    have haft := hrule
    rw [← @policy_call engine call] at haft
    obtain ⟨hnow, hrest⟩ := hunr
    rw [allowedOn]
    cases hcntd : call.allowed engine && call.asks own with
    | false =>
      rw [hcntd, if_neg Bool.false_ne_true] at hrest
      have hsame := call_uncounted hsound hcntd
      have hstds (day : UInt64) : standsAt own (call.run engine).2 day ↔ standsAt own engine day := by
        rw [standsAt, hsame, standsAt]
      have hcnt (day : UInt64) : countOf own (call.run engine).2 day = countOf own engine day := by
        rw [countOf, hsame, countOf]
      have hih := ih (hsound.call call) haft hrest (fun day h => hdays day ((hstds day).mp h))
        (fun day => hcnt day ▸ hcoun day)
      rw [hstds, hcnt] at hih
      simpa using hih
    | true =>
      obtain ⟨halwd, hasks⟩ := (Bool.and_eq_true _ _).mp hcntd
      obtain ⟨now, hrdg, hbelow, hcnt⟩ := call_counts hsound hrule hcap halwd hasks
      rw [hcntd, if_pos rfl, hrdg] at hrest
      have hstds : standsAt own (call.run engine).2 (dayOf now) := by
        by_contra hgone
        rw [countOf_eq_zero hgone] at hcnt
        cases hcnt
      have honly : ∀ day, standsAt own (call.run engine).2 day → day = dayOf now := by
        rintro _ ⟨counter, hctr, rfl⟩
        obtain ⟨other, hoth, hday⟩ := hstds
        rw [Option.some.inj (hctr.symm.trans hoth), hday]
      obtain ⟨hgone, hroom⟩ := ih (hsound.call call) haft hrest
        (fun day h => honly day h ▸ mem_cons_self) (by
          intro other
          by_cases hoth : other = dayOf now
          · rw [hoth, hcnt]
            exact hbelow
          · rw [countOf_eq_zero (fun h => hoth (honly other h))]
            exact Nat.zero_le _)
      rw [hrdg, any_some, Bool.true_and]
      by_cases hday : day = dayOf now
      · subst hday
        rw [decide_eq_true rfl, if_pos rfl]
        exact ⟨fun hmem hlt => absurd (hnow now hasks hrdg hmem) hlt, by omega⟩
      rw [decide_eq_false (Ne.symm hday), if_neg Bool.false_ne_true, Nat.zero_add]
      have hlt := fun hmem => hgone (mem_cons_of_mem _ hmem) (hday ∘ honly day)
      refine ⟨fun hmem _ => hlt hmem, ?_⟩
      by_cases hat : standsAt own engine day
      · rw [hlt (hdays day hat), Nat.zero_add]
        exact hcoun day
      · rw [countOf_eq_zero hat]
        omega

/-- In every run in which no reading of the capability's uses comes back to a day that its counter
has left, at most as many uses are let through on a day as the cap says. -/
theorem daily_cap_of_run (policy : Policy) {own : Request} {rule : Rule} {cap : UInt32}
    (hrule : policy.set.rule own.component own.capability = some rule)
    (hcap : rule.dailyCap = some cap) {calls : List Call}
    (hunreturned : Unreturned own [] calls (Engine.new policy)) (day : UInt64) :
    allowedOn own day calls (Engine.new policy) ≤ cap.toNat := by
  have hnone : (Engine.new policy).daily[dailyKey own]? = none := ExtTreeMap.getElem?_empty
  have hleft (day : UInt64) : ¬ standsAt own (Engine.new policy) day := by
    rintro ⟨counter, hcounter, _⟩
    cases hnone.symm.trans hcounter
  have hroom := (allowedOn_le (Sound.new policy) hrule hcap hunreturned
    (fun day hat => absurd hat (hleft day))
    (fun day => countOf_eq_zero (hleft day) ▸ Nat.zero_le _) day).2
  exact Nat.le_trans (Nat.le_add_right _ _) hroom

end Caps

section Midnight

def dayRule : Rule := ⟨.allow, [], [], none, false, none, none, [], some 1⟩

def dayPolicy : Policy where
  set := ⟨1, [], (∅ : ExtTreeMap String ComponentPolicy).insert "c"
    ⟨(∅ : ExtTreeMap String Rule).insert "x" dayRule⟩⟩
  valid := by decide +kernel

def useAt (now : UInt64) : Call :=
  .check minuteRequest now

/-- A second use on one day is refused. -/
theorem daily_cap_two_days :
    allowedOn minuteRequest 1 [useAt 86400000, useAt 86400001] (Engine.new dayPolicy) ≤ 1 := by
  apply @daily_cap_of_run dayPolicy minuteRequest dayRule 1 (by decide +kernel) rfl
  refine ⟨fun _ _ _ hmem => absurd hmem not_mem_nil, ?_, trivial⟩
  rintro _ _ ⟨⟩ _
  exact ⟨⟨1, 1⟩, by decide +kernel, by decide +kernel⟩

/-- The clock goes back over midnight and forward again: two uses on a day at one a day. -/
theorem midnight_twice :
    (dayPolicy.set.rule "c" "x").bind Rule.dailyCap = some 1 ∧
      ¬ allowedOn minuteRequest 1 [useAt 86400000, useAt 86399999, useAt 86400000]
        (Engine.new dayPolicy) ≤ 1 := by
  decide +kernel

end Midnight

end WasmAgent.Grant
