import WasmAgent.Grant.Charges

/-!
# What a decision does

In every state an engine can come to: a dry run tells what a check would answer; a call that
is refused changes no budget; a call that is let through is charged once for all that
applies; a sensitive call is not let through unless its record was written; and only target
buckets are ever dropped.
-/

namespace WasmAgent.Grant

open Std.ExtTreeMap Std WasmAgent.Core

/-- What is kept by everything that happens to an engine. -/
structure Sound (engine : Engine) : Prop where
  room : 0 < engine.maxTargetBuckets
  recent : Recent engine
  bounded : engine.targetBucketCount ≤ engine.maxTargetBuckets

/-- The operation replaces or forgets the budgets. -/
def Operation.resets : Operation → Bool
  | .restore _ => true
  | .clearState => true
  | _ => false

structure Disciplined (engine : Engine) : Prop where
  peeks : ∀ request now, engine.peek request now = (engine.check request now).1
  refuses : ∀ request now, (engine.check request now).1 ≠ .allow →
    SameBudgets engine (engine.check request now).2
  charges : ∀ request now, (engine.check request now).1 = .allow →
    Charged engine request now (engine.check request now).2
  enforceRefuses : ∀ request now sink, (engine.enforce request now sink).decision ≠ .allow →
    SameBudgets engine (engine.enforce request now sink).engine
  enforceCharges : ∀ request now sink, (engine.enforce request now sink).decision = .allow →
    Charged engine request now (engine.enforce request now sink).engine
  audited : ∀ request now sink,
    engine.policy.set.isAudited request.component request.capability = true →
    engine.failClosedOnAudit = true → (engine.enforce request now sink).decision = .allow →
    (engine.enforce request now sink).written =
      some (AuditRecord.new now request .allow engine.targetMode, .ok ())
  unaudited : ∀ request now sink record fault,
    engine.policy.set.isAudited request.component request.capability = true →
    engine.failClosedOnAudit = true →
    (engine.enforce request now sink).written = some (record, .error fault) →
    (engine.enforce request now sink).decision ≠ .allow ∧
      SameBudgets engine (engine.enforce request now sink).engine
  keeps : ∀ operation : Operation, operation.resets = false → ∀ key, hasTag 'g' key = true →
    key ∈ engine.buckets → key ∈ (engine.step operation).buckets
  bounded : engine.targetBucketCount ≤ engine.maxTargetBuckets

section Calls

variable {engine : Engine} {request : Request} {now : UInt64} {sink : AuditSink}

theorem SameBudgets.refl (engine : Engine) : SameBudgets engine engine := ⟨rfl, rfl, rfl⟩

theorem check_eq :
    engine.check request now =
      if (engine.plan request now).decision = .allow then
        (.allow, (engine.advance now).commit (engine.plan request now).charges now)
      else ((engine.plan request now).decision, engine.advance now) := by
  rw [Engine.check]
  change (if (engine.plan request now).decision = .allow then
      ((engine.plan request now).decision,
        (engine.advance now).commit (engine.plan request now).charges now)
    else ((engine.plan request now).decision, engine.advance now)) = _
  by_cases hall : (engine.plan request now).decision = .allow
  · rw [if_pos hall, if_pos hall, hall]
  · rw [if_neg hall, if_neg hall]

theorem fst_check : (engine.check request now).1 = (engine.plan request now).decision := by
  rw [check_eq]
  split
  · next hall => exact hall.symm
  · rfl

theorem commit_planned {other : Engine} (hpol : other.policy = engine.policy)
    (hmax : other.maxTargetBuckets = engine.maxTargetBuckets)
    (hbud : SameBudgets engine other) (htick : other.tick = engine.tick)
    (hsound : Sound engine) (hall : (engine.plan request now).decision = .allow) :
    Charged engine request now (other.commit (engine.plan request now).charges now) ∧
      Sound (other.commit (engine.plan request now).charges now) := by
  obtain ⟨used, hchar, hplnd⟩ := plan_allow hall
  have hunits : ∀ key rate, other.unitsAt key rate now = engine.unitsAt key rate now := by
    intro key rate
    rw [Engine.unitsAt, hbud.buckets, Engine.unitsAt]
  have hcoun : ∀ key, other.countAt key now = engine.countAt key now := by
    intro key
    rw [Engine.countAt, hbud.daily, Engine.countAt]
  have huses : ∀ key, other.usesAt key now = engine.usesAt key now := by
    intro key
    rw [Engine.usesAt, hbud.approvals, Engine.usesAt]
  have hoth : Planned other request now used := by
    constructor
    · rw [hpol]
      exact hplnd.length
    · rw [hbud.approvals]
      exact hplnd.approval
    · rw [hpol, hbud.daily]
      exact hplnd.counter
    intro key rate hdue
    rw [hpol] at hdue
    rw [hunits]
    exact hplnd.bucket key rate hdue
  have hrcnt : Recent other := by
    intro key entry hent
    rw [hbud.buckets] at hent
    rw [htick]
    exact hsound.recent key entry hent
  have hroom : 0 < other.maxTargetBuckets := by
    rw [hmax]
    exact hsound.room
  rw [hchar, ← hpol]
  have hcgd := commit_charged hoth hrcnt hroom
  have hset := @charged_settings other request now used
  apply And.intro
  · constructor
    · intro key rate hdue
      rw [← hpol] at hdue
      rw [← hunits]
      exact hcgd.spent key rate hdue
    · intro key hkey
      rw [← hpol] at hkey
      rw [← hbud.buckets]
      exact hcgd.otherBuckets key hkey
    · intro key hkey
      rw [← hpol] at hkey
      rw [← hcoun]
      exact hcgd.counted key hkey
    · intro key hkey
      rw [← hpol] at hkey
      rw [← hbud.daily]
      exact hcgd.otherCounters key hkey
    · obtain ⟨spent, hlen, hspent, hlt⟩ := hcgd.approvals
      rw [hpol] at hlen
      refine ⟨spent, hlen, ?_, ?_⟩
      · intro key hkey
        rw [← huses]
        exact hspent key hkey
      · intro key hkey
        rw [← hbud.approvals]
        exact hlt key hkey
  constructor
  · change 0 < (charged other request now used).maxTargetBuckets
    rw [hset.maxTargetBuckets]
    exact hroom
  · intro key entry hent
    rcases @getElem?_evictTargets ((charged other request now used).pruneApprovals now) key with
      hsame | ⟨-, hnone⟩
    · exact hrcnt.charged key entry (hsame.symm.trans hent)
    · cases hnone.symm.trans hent
  · exact targetBucketCount_evictTargets

theorem audit_engine (decision : Decision) :
    (engine.audit request now decision sink).engine.policy = engine.policy ∧
      (engine.audit request now decision sink).engine.maxTargetBuckets = engine.maxTargetBuckets ∧
      (engine.audit request now decision sink).engine.tick = engine.tick ∧
      SameBudgets engine (engine.audit request now decision sink).engine := by
  rw [Engine.audit]
  dsimp only
  split
  · split
    · exact ⟨rfl, rfl, rfl, .refl _⟩
    · exact ⟨rfl, rfl, rfl, ⟨rfl, rfl, rfl⟩⟩
  · exact ⟨rfl, rfl, rfl, .refl _⟩

theorem audit_allow {decision : Decision}
    (hall : (engine.audit request now decision sink).decision = .allow) :
    decision = .allow ∧
      (engine.policy.set.isAudited request.component request.capability = true →
        engine.failClosedOnAudit = true →
        (engine.audit request now decision sink).written =
          some (AuditRecord.new now request .allow engine.targetMode, .ok ())) := by
  rw [Engine.audit] at hall ⊢
  dsimp only at hall ⊢
  split at hall
  · next hwrs =>
    rw [if_pos hwrs]
    cases hsink : sink (AuditRecord.new now request decision engine.targetMode) with
    | ok written =>
      rw [hsink] at hall
      have hdec : decision = .allow := hall
      rw [hdec]
      exact ⟨rfl, fun _ _ => rfl⟩
    | error fault =>
      rw [hsink] at hall
      dsimp only at hall
      split at hall
      · cases hall
      rename_i hopen
      refine ⟨hall, ?_⟩
      intro hsen hclos
      rw [hsen, hclos] at hopen
      exact absurd rfl hopen
  rename_i hsil
  refine ⟨hall, ?_⟩
  intro hsen
  rw [hsen, Bool.true_or] at hsil
  exact absurd rfl hsil

theorem enforce_eq :
    engine.enforce request now sink =
      if ((engine.advance now).audit request now (engine.plan request now).decision sink).decision =
          .allow then
        { (engine.advance now).audit request now (engine.plan request now).decision sink with
          engine := ((engine.advance now).audit request now (engine.plan request now).decision
            sink).engine.commit (engine.plan request now).charges now }
      else (engine.advance now).audit request now (engine.plan request now).decision sink :=
  rfl

theorem Sound.enforce (hsound : Sound engine) (request : Request) (now : UInt64)
    (sink : AuditSink) :
    Sound (engine.enforce request now sink).engine ∧
      ((engine.enforce request now sink).decision ≠ .allow →
        SameBudgets engine (engine.enforce request now sink).engine) ∧
      ((engine.enforce request now sink).decision = .allow →
        Charged engine request now (engine.enforce request now sink).engine) := by
  obtain ⟨hpol, hmax, htick, hbud⟩ := @audit_engine (engine.advance now) request now sink
    (engine.plan request now).decision
  rw [enforce_eq]
  split
  · next hall =>
    have hcom := @commit_planned engine request now _ hpol hmax
      { hbud with } htick hsound (audit_allow hall).1
    exact ⟨hcom.2, fun href => absurd hall href, fun _ => hcom.1⟩
  rename_i href
  refine ⟨⟨?_, ?_, ?_⟩, ?_, ?_⟩
  · rw [hmax]
    exact hsound.room
  · intro key entry hent
    rw [hbud.buckets] at hent
    rw [htick]
    exact hsound.recent key entry hent
  · rw [targetBucketCount_eq, hbud.buckets, hmax]
    exact targetBucketCount_eq ▸ hsound.bounded
  · intro _
    exact { hbud with }
  · intro hall
    exact absurd hall href

theorem Sound.check (hsound : Sound engine) (request : Request) (now : UInt64) :
    Sound (engine.check request now).2 ∧
      ((engine.check request now).1 ≠ .allow → SameBudgets engine (engine.check request now).2) ∧
      ((engine.check request now).1 = .allow →
        Charged engine request now (engine.check request now).2) := by
  rw [check_eq]
  split
  · next hall =>
    have hcom := @commit_planned engine request now (engine.advance now) rfl rfl
      ⟨rfl, rfl, rfl⟩ rfl hsound hall
    exact ⟨hcom.2, fun href => absurd rfl href, fun _ => hcom.1⟩
  · next href =>
    exact ⟨{ hsound with }, fun _ => ⟨rfl, rfl, rfl⟩,
      fun hall => absurd hall href⟩

end Calls

section Runs

variable {engine : Engine}

theorem Sound.of_same {other : Engine} (hsound : Sound engine)
    (hbuc : other.buckets = engine.buckets) (htick : other.tick = engine.tick)
    (hmax : other.maxTargetBuckets = engine.maxTargetBuckets) : Sound other := by
  constructor
  · rw [hmax]
    exact hsound.room
  · intro key entry hent
    rw [hbuc] at hent
    rw [htick]
    exact hsound.recent key entry hent
  · rw [targetBucketCount_eq, hbuc, hmax]
    exact targetBucketCount_eq ▸ hsound.bounded

theorem Recent.evictTargets (hrcnt : Recent engine) : Recent engine.evictTargets := by
  intro key entry hent
  rcases @getElem?_evictTargets engine key with hsame | ⟨-, hnone⟩
  · exact hrcnt key entry (hsame.symm.trans hent)
  · cases hnone.symm.trans hent

theorem touched_restoredBuckets (buckets : List (String × Bucket)) :
    ∀ (key : String) (entry : Entry), (Engine.restoredBuckets buckets)[key]? = some entry →
      entry.touched ≤ buckets.length := by
  rw [Engine.restoredBuckets]
  apply List.foldlRecOn (motive := fun restored : ExtTreeMap String Entry compare =>
    ∀ (key : String) (entry : Entry), restored[key]? = some entry → entry.touched ≤ buckets.length)
  · intro key entry hent
    rw [ExtTreeMap.getElem?_empty] at hent
    cases hent
  intro restored hrstd indexed hidxd key entry hent
  obtain ⟨saved, i⟩ := indexed
  have hi : i < buckets.length := by
    obtain ⟨hi, -⟩ := List.getElem?_eq_some_iff.mp (List.mem_zipIdx_iff_getElem?.mp hidxd)
    exact hi
  dsimp only at hent
  rcases getElem?_insert_cases hent with ⟨-, rfl⟩ | ⟨-, hold⟩
  · exact hi
  · exact hrstd key entry hold

theorem restore_ok {snapshot : StateSnapshot} {restored : Engine}
    (hrst : engine.restore snapshot = .ok restored) :
    restored = Engine.evictTargets { engine with
      buckets := Engine.restoredBuckets snapshot.buckets.toList
      daily := snapshot.daily
      approvals := snapshot.approvals
      tick := snapshot.buckets.size
      lastNow := if engine.lastNow < snapshot.savedAt then snapshot.savedAt
        else engine.lastNow } := by
  rw [Engine.restore] at hrst
  split at hrst
  · cases hrst
  split at hrst
  · cases hrst
  obtain ⟨-, -, hrst⟩ := bind_eq_ok.mp hrst
  obtain ⟨-, -, hrst⟩ := bind_eq_ok.mp hrst
  obtain ⟨-, -, hrst⟩ := bind_eq_ok.mp hrst
  cases hrst
  rfl

theorem Sound.restore (hsound : Sound engine) {snapshot : StateSnapshot} {restored : Engine}
    (hrst : engine.restore snapshot = .ok restored) : Sound restored := by
  rw [restore_ok hrst]
  refine ⟨hsound.room, ?_, targetBucketCount_evictTargets⟩
  apply Recent.evictTargets
  intro key entry hent
  have htouc := touched_restoredBuckets _ key entry hent
  rw [length_toList] at htouc
  exact htouc

theorem Sound.of_empty (hroom : 0 < engine.maxTargetBuckets) (hemp : engine.buckets = ∅) :
    Sound engine := by
  refine ⟨hroom, ?_, ?_⟩
  · intro key entry hent
    rw [hemp, getElem?_empty] at hent
    cases hent
  · rw [targetBucketCount_eq, hemp]
    exact Nat.zero_le _

theorem Sound.new (policy : Policy) : Sound (Engine.new policy) := by
  refine Sound.of_empty ?_ rfl
  change 0 < 4096
  decide

theorem Sound.call (hsound : Sound engine) (call : Call) : Sound (call.run engine).2 := by
  cases call with
  | check request now => exact (hsound.check request now).1
  | peek request now => exact hsound
  | enforce request now sink => exact (hsound.enforce request now sink).1
  | approve | revokeApprovals => exact hsound.of_same rfl rfl rfl

theorem Sound.step (hsound : Sound engine) (operation : Operation) :
    Sound (engine.step operation) := by
  cases operation with
  | call call => exact hsound.call call
  | setPolicy set =>
    rw [Engine.step, Engine.setPolicy]
    split
    · exact hsound.of_same rfl rfl rfl
    · exact hsound
  | setTargetMode | setFailClosedOnAudit => exact hsound.of_same rfl rfl rfl
  | setMaxTargetBuckets count =>
    refine ⟨?_, Recent.evictTargets hsound.recent, targetBucketCount_evictTargets⟩
    exact Nat.lt_of_lt_of_le Nat.one_pos (Nat.le_max_right _ _)
  | restore snapshot =>
    rw [Engine.step]
    cases hrst : engine.restore snapshot with
    | error fault => exact hsound
    | ok restored => exact hsound.restore hrst
  | clearState => exact Sound.of_empty hsound.room rfl
  | takeAuditErrors => exact hsound.of_same rfl rfl rfl

theorem Sound.run (policy : Policy) (operations : List Operation) :
    Sound ((Engine.new policy).run operations) := by
  rw [Engine.run]
  apply List.foldlRecOn (motive := Sound)
  · exact Sound.new policy
  · intro engine hsound operation _
    exact hsound.step operation

variable {key : String}

theorem mem_evictTargets (htag : hasTag 'g' key = true)
    (hkey : key ∈ engine.buckets) : key ∈ engine.evictTargets.buckets := by
  have hoth : hasTag 't' key = false := by
    rw [← Bool.not_eq_true]
    intro htgt
    cases hasTag_unique htag htgt
  rw [mem_iff_isSome_getElem?, getElem?_evictTargets_of_not_tag hoth]
  exact mem_iff_isSome_getElem?.mp hkey

theorem mem_charge (now : UInt64) (charge : Charge) (hkey : key ∈ engine.buckets) :
    key ∈ (engine.charge now charge).buckets := by
  rw [Engine.charge]
  split
  · exact mem_insert.mpr (Or.inr hkey)
  · exact hkey
  · split
    · exact hkey
    · exact hkey

theorem mem_commit (htag : hasTag 'g' key = true) (hkey : key ∈ engine.buckets)
    (charges : List Charge) (now : UInt64) : key ∈ (engine.commit charges now).buckets := by
  have hcgd : key ∈ (charges.foldl (Engine.charge now) engine).buckets := by
    apply List.foldlRecOn (motive := fun reached : Engine => key ∈ reached.buckets)
    · exact hkey
    · intro reached hrch charge _
      exact mem_charge now charge hrch
  exact mem_evictTargets htag hcgd

theorem mem_step {operation : Operation} (hks : operation.resets = false)
    (htag : hasTag 'g' key = true) (hkey : key ∈ engine.buckets) :
    key ∈ (engine.step operation).buckets := by
  cases operation with
  | call call =>
    cases call with
    | check request now =>
      change key ∈ (engine.check request now).2.buckets
      rw [check_eq]
      split
      · exact @mem_commit (engine.advance now) key htag hkey _ now
      · exact hkey
    | peek request now => exact hkey
    | enforce request now sink =>
      have haud : key ∈ ((engine.advance now).audit request now
          (engine.plan request now).decision sink).engine.buckets := by
        rw [audit_engine _ |>.2.2.2.buckets]
        exact hkey
      change key ∈ (engine.enforce request now sink).engine.buckets
      rw [enforce_eq]
      split
      · exact mem_commit htag haud _ now
      · exact haud
    | approve | revokeApprovals => exact hkey
  | setPolicy set =>
    rw [Engine.step, Engine.setPolicy]
    split
    · exact hkey
    · exact hkey
  | setTargetMode | setFailClosedOnAudit => exact hkey
  | setMaxTargetBuckets count =>
    exact @mem_evictTargets { engine with maxTargetBuckets := max count 1 } key htag hkey
  | restore | clearState => cases hks
  | takeAuditErrors => exact hkey

theorem enforce_unwritten {request : Request} {now : UInt64} {sink : AuditSink}
    {record : AuditRecord} {fault : AuditError}
    (hsen : engine.policy.set.isAudited request.component request.capability = true)
    (hclos : engine.failClosedOnAudit = true)
    (hwrn : (engine.enforce request now sink).written = some (record, .error fault)) :
    (engine.enforce request now sink).decision ≠ .allow := by
  intro hall
  rw [enforce_eq] at hall hwrn
  split at hall
  · next haudit =>
    rw [if_pos haudit] at hwrn
    have hrec := (audit_allow haudit).2 hsen hclos
    cases hrec.symm.trans hwrn
  · next href => exact href hall

theorem enforce_written {request : Request} {now : UInt64} {sink : AuditSink}
    (hsen : engine.policy.set.isAudited request.component request.capability = true)
    (hclos : engine.failClosedOnAudit = true)
    (hall : (engine.enforce request now sink).decision = .allow) :
    (engine.enforce request now sink).written =
      some (AuditRecord.new now request .allow engine.targetMode, .ok ()) := by
  rw [enforce_eq] at hall ⊢
  split at hall
  · next haudit =>
    rw [if_pos haudit]
    exact (audit_allow haudit).2 hsen hclos
  · next href => exact absurd hall href

/-- Every engine reached from a new one, whatever happens to it, is disciplined. -/
theorem decisions_disciplined (policy : Policy) (operations : List Operation) :
    Disciplined ((Engine.new policy).run operations) := by
  have hsound := Sound.run policy operations
  constructor
  · intro request now
    exact fst_check.symm
  · intro request now
    exact (hsound.check request now).2.1
  · intro request now
    exact (hsound.check request now).2.2
  · intro request now sink
    exact (hsound.enforce request now sink).2.1
  · intro request now sink
    exact (hsound.enforce request now sink).2.2
  · intro request now sink hsensitive hclosed hallow
    exact enforce_written hsensitive hclosed hallow
  · intro request now sink record fault hsensitive hclosed hwritten
    have hrefused := enforce_unwritten hsensitive hclosed hwritten
    exact ⟨hrefused, (hsound.enforce request now sink).2.1 hrefused⟩
  · intro operation hkeeps key htag hkey
    exact mem_step hkeeps htag hkey
  · exact hsound.bounded

end Runs

end WasmAgent.Grant
