import WasmAgent.Core.Eviction
import WasmAgent.Core.Sha256
import WasmAgent.Grant.Bucket

/-!
# The grant engine

One object per node that answers checks and owns the budgets: a bucket for each
capability and for each target of one, a daily counter, and the approvals a person gave.
A check plans what it would charge, has the plan audited, and charges it when the answer
is to go ahead.
-/

namespace WasmAgent.Grant

open Std WasmAgent.Core

/-- Why a call was refused, or held. -/
inductive Reason where
  | noPolicy
  | policyDenied
  | targetDenied
  | targetNotAllowed
  | approvalRequired
  | capabilityRateLimited
  | targetRateLimited
  | dailyCapReached
  | auditUnavailable
  deriving DecidableEq

def Reason.asStr : Reason → String
  | noPolicy => "no_policy"
  | policyDenied => "policy_denied"
  | targetDenied => "target_denied"
  | targetNotAllowed => "target_not_allowed"
  | approvalRequired => "approval_required"
  | capabilityRateLimited => "capability_rate_limited"
  | targetRateLimited => "target_rate_limited"
  | dailyCapReached => "daily_cap_reached"
  | auditUnavailable => "audit_unavailable"

/-- The answer to one policy check. -/
inductive Decision where
  | allow
  | deny (reason : Reason)
  | rateLimited (retryAfterMs : UInt64) (reason : Reason)
  | needsApproval (reason : Reason)
  deriving DecidableEq

inductive DecisionCode where
  | allow
  | deny
  | rateLimited
  | needsApproval
  deriving DecidableEq

namespace Decision

def code : Decision → DecisionCode
  | allow => .allow
  | deny _ => .deny
  | rateLimited _ _ => .rateLimited
  | needsApproval _ => .needsApproval

def reasonStr : Decision → String
  | allow => "allowed"
  | deny reason => reason.asStr
  | rateLimited _ reason => reason.asStr
  | needsApproval reason => reason.asStr

def retryAfter : Decision → Option UInt64
  | rateLimited delay _ => some delay
  | _ => none

end Decision

/-- How a record names its target. -/
inductive TargetMode where
  | digest
  | redacted
  | exact
  deriving DecidableEq

def maxField : ℕ := 160

def recordSchema : UInt32 := 1

def digestHex (target : String) : String :=
  String.ofList (((Sha256.digest (utf8 target)).take 16).flatMap fun byte =>
    [Nat.digitChar (byte.toNat / 16), Nat.digitChar (byte.toNat % 16)])

def field (value : String) : String :=
  let cut := value.toList.take maxField
  String.ofList (if maxField < value.length then cut ++ ['…'] else cut)

def renderTarget (mode : TargetMode) (target : String) : String :=
  match mode with
  | .digest => "sha256:" ++ digestHex target
  | .redacted => "<redacted>"
  | .exact => field target

structure Request where
  component : String
  capability : String
  target : Option String
  deriving DecidableEq

structure AuditRecord where
  schema : UInt32
  ts : UInt64
  component : String
  capability : String
  target : String
  decision : DecisionCode
  reason : String
  retryAfter : Option UInt64
  deriving DecidableEq

def AuditRecord.new (now : UInt64) (request : Request) (decision : Decision)
    (mode : TargetMode) : AuditRecord :=
  ⟨recordSchema, now, field request.component, field request.capability,
    request.target.elim "-" (renderTarget mode), decision.code, decision.reasonStr,
    decision.retryAfter⟩

/-- Why a sink refused a record. -/
structure AuditError where
  sink : String
  detail : String
  deriving DecidableEq

abbrev AuditSink := AuditRecord → Except AuditError Unit

/-- Separates the parts of a state key. -/
def sep : Char := Char.ofNat 0x1f

def stateSchema : UInt32 := 1

def defaultMaxTargetBuckets : ℕ := 4096

def joined (parts : List String) : String :=
  String.ofList (List.intercalate [sep] (parts.map String.toList))

def capabilityKey (request : Request) : String :=
  joined ["g", request.component, request.capability]

def targetKey (request : Request) (target : String) : String :=
  joined ["t", request.component, request.capability, digestHex target]

def dailyKey (request : Request) : String := joined ["d", request.component, request.capability]

def approvalKey (component capability : String) (target : Option String) : String :=
  joined ["a", component, capability, target.elim "*" digestHex]

def hasTag (tag : Char) (key : String) : Bool := [tag, sep].isPrefixOf key.toList

/-- What a person approved. -/
structure ApprovalState where
  uses : UInt32
  expires : Option UInt64
  deriving DecidableEq

def ApprovalState.validAt (state : ApprovalState) (now : UInt64) : Bool :=
  0 < state.uses && state.expires.all (now < ·)

structure Entry where
  bucket : Bucket
  touched : ℕ
  deriving DecidableEq

inductive ChargeKind where
  | bucket (rate : RateLimit)
  | daily
  | approval
  deriving DecidableEq

structure Charge where
  key : String
  kind : ChargeKind
  deriving DecidableEq

structure Plan where
  decision : Decision
  charges : List Charge

/-- The budgets, serialisable. -/
structure StateSnapshot where
  schema : UInt32
  savedAt : UInt64
  buckets : ExtTreeMap String Bucket
  daily : ExtTreeMap String DailyCounter
  approvals : ExtTreeMap String ApprovalState

/-- Why a snapshot was refused. -/
inductive StateError where
  | schema (found : UInt32)
  | tooManyBuckets (count : ℕ)
  | bucketKey (key : String)
  | dailyKey (key : String)
  | dayZero (key : String)
  | approvalKey (key : String)
  deriving DecidableEq

structure Engine where
  policy : Policy
  targetMode : TargetMode
  failClosedOnAudit : Bool
  maxTargetBuckets : ℕ
  buckets : ExtTreeMap String Entry
  daily : ExtTreeMap String DailyCounter
  approvals : ExtTreeMap String ApprovalState
  tick : ℕ
  lastNow : UInt64
  auditErrors : List AuditError

namespace Rule

def override (rule : Rule) (target : Option String) : Option TargetRate :=
  target.bind fun target => rule.targetRates.find? (·.pattern.hits target)

def capabilityRate (rule : Rule) (target : Option String) : Option RateLimit :=
  if (rule.override target).any (·.exemptFromGlobal) then none else rule.rate

def targetRate (rule : Rule) (target : Option String) : Option RateLimit :=
  match rule.override target with
  | some override => some override.limit
  | none => rule.perTarget

/-- The reason to refuse a call whatever was used before. -/
def refusal (rule : Rule) (target : Option String) : Option Reason :=
  if rule.effect = .deny then some .policyDenied
  else if target.any (fun target => rule.deny.any (·.hits target)) then some .targetDenied
  else if !rule.allow.isEmpty && !target.any (fun target => rule.allow.any (·.hits target)) then
    some .targetNotAllowed
  else none

end Rule

namespace Engine

def new (policy : Policy) : Engine :=
  ⟨policy, .digest, true, defaultMaxTargetBuckets, ∅, ∅, ∅, 0, 0, []⟩

def limited (engine : Engine) (key : String) (rate : RateLimit) (now : UInt64) : Option UInt64 :=
  match engine.buckets[key]? with
  | none => none
  | some entry =>
      if 0 < entry.bucket.tokens rate now then none else some (entry.bucket.retryAfterMs rate now)

def approvalDue (engine : Engine) (rule : Rule) (request : Request) (now : UInt64) :
    Except Decision (List Charge) :=
  let specific := approvalKey request.component request.capability request.target
  let wide := approvalKey request.component request.capability none
  if !rule.requireApproval then .ok []
  else if engine.approvals[specific]?.any (·.validAt now) then .ok [⟨specific, .approval⟩]
  else if request.target.isSome && engine.approvals[wide]?.any (·.validAt now) then
    .ok [⟨wide, .approval⟩]
  else .error (.needsApproval .approvalRequired)

def dailyDue (engine : Engine) (rule : Rule) (request : Request) (now : UInt64) :
    Except Decision (List Charge) :=
  match rule.dailyCap with
  | none => .ok []
  | some cap =>
      let count := (engine.daily[dailyKey request]?).elim 0 (·.countOn now)
      if cap ≤ count then .error (.rateLimited (msUntilNextDay now) .dailyCapReached)
      else .ok [⟨dailyKey request, .daily⟩]

def bucketDue (engine : Engine) (key : String) (rate : Option RateLimit) (reason : Reason)
    (now : UInt64) : Except Decision (List Charge) :=
  match rate with
  | none => .ok []
  | some rate =>
      match engine.limited key rate now with
      | some delay => .error (.rateLimited delay reason)
      | none => .ok [⟨key, .bucket rate⟩]

def targetDue (engine : Engine) (rule : Rule) (request : Request) (now : UInt64) :
    Except Decision (List Charge) :=
  match request.target with
  | none => .ok []
  | some target =>
      engine.bucketDue (targetKey request target) (rule.targetRate request.target)
        .targetRateLimited now

/-- What a call under a rule would be charged, or why it is not to go ahead. -/
def dues (engine : Engine) (rule : Rule) (request : Request) (now : UInt64) :
    Except Decision (List Charge) := do
  let approval ← engine.approvalDue rule request now
  let daily ← engine.dailyDue rule request now
  let capability ← engine.bucketDue (capabilityKey request) (rule.capabilityRate request.target)
    .capabilityRateLimited now
  let target ← engine.targetDue rule request now
  .ok (approval ++ daily ++ capability ++ target)

def plan (engine : Engine) (request : Request) (now : UInt64) : Plan :=
  match engine.policy.set.rule request.component request.capability with
  | none =>
      if engine.policy.set.isSensitive request.component request.capability then
        ⟨.deny .noPolicy, []⟩
      else ⟨.allow, []⟩
  | some rule =>
      match rule.refusal request.target with
      | some reason => ⟨.deny reason, []⟩
      | none =>
          match engine.dues rule request now with
          | .error decision => ⟨decision, []⟩
          | .ok charges => ⟨.allow, charges⟩

def targets (buckets : ExtTreeMap String Entry) : List (String × ℕ) :=
  (buckets.toList.filter fun entry => hasTag 't' entry.1).map
    fun entry => (entry.1, entry.2.touched)

/-- The target buckets that are over the maximum, the least recently charged first. -/
def evicted (max : ℕ) (buckets : ExtTreeMap String Entry) : List String :=
  oldest ((targets buckets).length - max) (targets buckets)

def evictTargets (engine : Engine) : Engine :=
  { engine with
    buckets := (evicted engine.maxTargetBuckets engine.buckets).foldl ExtTreeMap.erase
      engine.buckets }

def spend (engine : Engine) (key : String) (rate : RateLimit) (now : UInt64) : Engine :=
  let bucket := (engine.buckets[key]?).elim (Bucket.full rate now) (·.bucket)
  { engine with
    tick := engine.tick + 1
    buckets := engine.buckets.insert key ⟨(bucket.take rate now).1, engine.tick + 1⟩ }

def charge (now : UInt64) (engine : Engine) (charge : Charge) : Engine :=
  match charge.kind with
  | .bucket rate => engine.spend charge.key rate now
  | .daily =>
      let counter := (engine.daily[charge.key]?).getD (DailyCounter.new (dayOf now))
      { engine with daily := engine.daily.insert charge.key (counter.bump now) }
  | .approval =>
      match engine.approvals[charge.key]? with
      | none => engine
      | some state =>
          { engine with
            approvals := engine.approvals.insert charge.key
              { state with uses := if state.uses = 0 then 0 else state.uses - 1 } }

def pruneApprovals (engine : Engine) (now : UInt64) : Engine :=
  { engine with approvals := engine.approvals.filter fun _ state => state.validAt now }

def commit (engine : Engine) (charges : List Charge) (now : UInt64) : Engine :=
  ((charges.foldl (charge now) engine).pruneApprovals now).evictTargets

def advance (engine : Engine) (now : UInt64) : Engine :=
  { engine with lastNow := if engine.lastNow < now then now else engine.lastNow }

def check (engine : Engine) (request : Request) (now : UInt64) : Decision × Engine :=
  let engine := engine.advance now
  let plan := engine.plan request now
  if plan.decision = .allow then (plan.decision, engine.commit plan.charges now)
  else (plan.decision, engine)

/-- A dry run. -/
def peek (engine : Engine) (request : Request) (now : UInt64) : Decision :=
  (engine.plan request now).decision

structure Enforced where
  decision : Decision
  written : Option (AuditRecord × Except AuditError Unit)
  engine : Engine

/-- The audit of a planned answer: the answer may become a refusal. -/
def audit (engine : Engine) (request : Request) (now : UInt64) (decision : Decision)
    (sink : AuditSink) : Enforced :=
  let sensitive := engine.policy.set.isAudited request.component request.capability
  if sensitive || decision ≠ .allow then
    let record := AuditRecord.new now request decision engine.targetMode
    match sink record with
    | .ok () => ⟨decision, some (record, .ok ()), engine⟩
    | .error fault =>
        ⟨if sensitive && engine.failClosedOnAudit then .deny .auditUnavailable else decision,
          some (record, .error fault),
          { engine with auditErrors := engine.auditErrors ++ [fault] }⟩
  else ⟨decision, none, engine⟩

def enforce (engine : Engine) (request : Request) (now : UInt64) (sink : AuditSink) : Enforced :=
  let engine := engine.advance now
  let plan := engine.plan request now
  let audited := engine.audit request now plan.decision sink
  if audited.decision = .allow then
    { audited with engine := audited.engine.commit plan.charges now }
  else audited

def approve (engine : Engine) (request : Request) (now : UInt64) (ttl : Option UInt64) :
    ApprovalState × Engine :=
  let key := approvalKey request.component request.capability request.target
  let state := (engine.approvals[key]?).getD ⟨0, none⟩
  let approved : ApprovalState :=
    ⟨if state.uses = 0xFFFFFFFF then state.uses else state.uses + 1, ttl.map (saturatingAdd now)⟩
  (approved, { engine with approvals := engine.approvals.insert key approved })

def revokeApprovals (engine : Engine) (component capability : String) : Engine :=
  let base := joined ["a", component, capability, ""]
  { engine with
    approvals := engine.approvals.filter fun key _ => !base.toList.isPrefixOf key.toList }

def setPolicy (engine : Engine) (set : PolicySet) : Except PolicyError Engine :=
  match valid : set.validate with
  | .ok _ => .ok { engine with policy := ⟨set, valid⟩ }
  | .error fault => .error fault

def setMaxTargetBuckets (engine : Engine) (count : ℕ) : Engine :=
  { engine with maxTargetBuckets := max count 1 }.evictTargets

/-- Copy of the budgets. -/
def snapshot (engine : Engine) : StateSnapshot :=
  ⟨stateSchema, engine.lastNow, engine.buckets.map fun _ entry => entry.bucket, engine.daily,
    engine.approvals⟩

/-- The buckets of a snapshot, each charged later than those of smaller keys. -/
def restoredBuckets (buckets : List (String × Bucket)) : ExtTreeMap String Entry :=
  buckets.zipIdx.foldl (fun restored saved => restored.insert saved.1.1 ⟨saved.1.2, saved.2 + 1⟩) ∅

def checkDaily (entry : String × DailyCounter) : Except StateError Unit :=
  if !hasTag 'd' entry.1 then .error (.dailyKey entry.1)
  else if entry.2.day = 0 ∧ 0 < entry.2.count then .error (.dayZero entry.1)
  else .ok ()

def restore (engine : Engine) (snapshot : StateSnapshot) : Except StateError Engine := do
  if snapshot.schema ≠ stateSchema then .error (.schema snapshot.schema)
  else if max (min (engine.maxTargetBuckets * 2) usizeMax) 64 < snapshot.buckets.size then
    .error (.tooManyBuckets snapshot.buckets.size)
  else
    snapshot.buckets.toList.forM fun entry =>
      if hasTag 'g' entry.1 || hasTag 't' entry.1 then .ok () else .error (.bucketKey entry.1)
    snapshot.daily.toList.forM checkDaily
    snapshot.approvals.toList.forM fun entry =>
      if hasTag 'a' entry.1 then .ok () else .error (.approvalKey entry.1)
    .ok { engine with
      buckets := restoredBuckets snapshot.buckets.toList
      daily := snapshot.daily
      approvals := snapshot.approvals
      tick := snapshot.buckets.size
      lastNow := if engine.lastNow < snapshot.savedAt then snapshot.savedAt
        else engine.lastNow }.evictTargets

def clearState (engine : Engine) : Engine :=
  { engine with buckets := ∅, daily := ∅, approvals := ∅, tick := 0 }

def targetBucketCount (engine : Engine) : ℕ :=
  (engine.buckets.toList.filter fun entry => hasTag 't' entry.1).length

end Engine

/-- A call a host makes while the policy and the settings stay. -/
inductive Call where
  | check (request : Request) (now : UInt64)
  | peek (request : Request) (now : UInt64)
  | enforce (request : Request) (now : UInt64) (sink : AuditSink)
  | approve (request : Request) (now : UInt64) (ttl : Option UInt64)
  | revokeApprovals (component capability : String)

inductive Answer where
  | decision (decision : Decision)
  | enforced (decision : Decision) (written : Option (AuditRecord × Except AuditError Unit))
  | approved (state : ApprovalState)
  | done
  deriving DecidableEq

def Call.run : Call → Engine → Answer × Engine
  | check request now, engine =>
      (.decision (engine.check request now).1, (engine.check request now).2)
  | peek request now, engine => (.decision (engine.peek request now), engine)
  | enforce request now sink, engine =>
      (.enforced (engine.enforce request now sink).decision
        (engine.enforce request now sink).written, (engine.enforce request now sink).engine)
  | approve request now ttl, engine =>
      (.approved (engine.approve request now ttl).1, (engine.approve request now ttl).2)
  | revokeApprovals component capability, engine =>
      (.done, engine.revokeApprovals component capability)

/-- What can happen to an engine. -/
inductive Operation where
  | call (call : Call)
  | setPolicy (set : PolicySet)
  | setTargetMode (mode : TargetMode)
  | setFailClosedOnAudit (on : Bool)
  | setMaxTargetBuckets (count : ℕ)
  | restore (snapshot : StateSnapshot)
  | clearState
  | takeAuditErrors

namespace Engine

def step (engine : Engine) : Operation → Engine
  | .call call => (call.run engine).2
  | .setPolicy set => (engine.setPolicy set).toOption.getD engine
  | .setTargetMode mode => { engine with targetMode := mode }
  | .setFailClosedOnAudit on => { engine with failClosedOnAudit := on }
  | .setMaxTargetBuckets count => engine.setMaxTargetBuckets count
  | .restore snapshot => (engine.restore snapshot).toOption.getD engine
  | .clearState => engine.clearState
  | .takeAuditErrors => { engine with auditErrors := [] }

def run (engine : Engine) (operations : List Operation) : Engine := operations.foldl step engine

def answers : List Call → Engine → List Answer
  | [], _ => []
  | call :: calls, engine => (call.run engine).1 :: answers calls (call.run engine).2

end Engine

end WasmAgent.Grant
