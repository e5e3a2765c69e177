import WasmAgent.Queue.Store

/-!
# What an operation does to one record

The record updates of the queue's operations, by name.  All of them keep the
job's identity, so its index keys and its dedupe claim stay the same.
-/

namespace WasmAgent.Queue

def indexKey (job : Job) (slot : Slot) : IndexKey :=
  ⟨job.queue, slot, 0xFFFFFFFF - job.priority, job.id⟩

def claimKey (queue : String) (dedupeKey : Option String) : Option ClaimKey :=
  dedupeKey.map (ClaimKey.mk queue)

namespace Job

def ownKey (job : Job) : Option IndexKey := job.state.slot.map (indexKey job)

/-- A job that is waiting or out with a worker. -/
def Live (job : Job) : Prop := job.state = .ready ∨ job.state = .leased

instance (job : Job) : Decidable job.Live := inferInstanceAs (Decidable (_ ∨ _))

/-- `take`: the job goes out to a worker. -/
def leasedTo (worker : String) (now leaseMs : Millis) (job : Job) : Job :=
  { job with
    state := .leased
    leaseWorker := some worker
    leaseUntil := some (saturatingAdd now leaseMs)
    updatedAt := now }

/-- `heartbeat`: the lease lasts longer. -/
def heldUntil (instant now : Millis) (job : Job) : Job :=
  { job with leaseUntil := some instant, updatedAt := now }

/-- `progress`: one more chunk. -/
def withChunk (chunk : Bytes) (now : Millis) (job : Job) : Job :=
  { job with
    progressEntries := job.progressEntries + 1
    progressBytes := job.progressBytes + chunk.length
    updatedAt := now }

/-- `settle`: the job is done. -/
def settledWith (result : Bytes) (now : Millis) (job : Job) : Job :=
  { job with
    state := .done
    result := some result
    leaseWorker := none
    leaseUntil := none
    lastError := none
    updatedAt := now }

/-- `fail_inner`, first half: the attempt is counted. -/
def failedWith (reason : String) (now : Millis) (job : Job) : Job :=
  { job with
    attempts := job.attempts + 1
    leaseWorker := none
    leaseUntil := none
    lastError := some (sanitize reason)
    updatedAt := now }

/-- `recover_leases`, first half: the lost lease is counted. -/
def lapsed (now : Millis) (job : Job) : Job :=
  { job with
    leaseExpiries := job.leaseExpiries + 1
    lastError := some "lease expired (worker did not settle)"
    leaseWorker := none
    leaseUntil := none
    updatedAt := now }

/-- `handover`, first half: the lease is gone. -/
def released (now : Millis) (job : Job) : Job :=
  { job with leaseWorker := none, leaseUntil := none, updatedAt := now }

def readyAt (instant : Millis) (job : Job) : Job :=
  { job with state := .ready, notBefore := instant }

/-- `expire_at`. -/
def expiredWith (reason : String) (now : Millis) (job : Job) : Job :=
  { job with
    state := .expired
    leaseWorker := none
    leaseUntil := none
    lastError := some (sanitize reason)
    updatedAt := now }

/-- `dead_letter`. -/
def deadWith (why : String) (keepError : Bool) (now : Millis) (job : Job) : Job :=
  { job with
    lastError := if keepError then job.lastError else some (sanitize why)
    state := .dead
    leaseWorker := none
    leaseUntil := none
    updatedAt := now }

/-- `requeue_with`. -/
def revived (policy : Policy) (now : Millis) (options : RequeueOptions) (job : Job) : Job :=
  { job with
    attempts := if options.attemptsReset then 0 else job.attempts
    leaseExpiries := if options.attemptsReset then 0 else job.leaseExpiries
    maxAttempts := (options.maxAttempts.map (max · 1)).getD job.maxAttempts
    freshUntil :=
      if options.refreshFresh then policy.defaultFreshMs.map (saturatingAdd now)
      else job.freshUntil
    state := .ready
    notBefore := now
    leaseWorker := none
    leaseUntil := none
    lastError := some "requeued"
    updatedAt := now }

/-- Two records of one job: what no operation changes is the same. -/
structure SameJob (before after : Job) : Prop where
  id : after.id = before.id
  queue : after.queue = before.queue
  payload : after.payload = before.payload
  priority : after.priority = before.priority
  dedupeKey : after.dedupeKey = before.dedupeKey
  createdAt : after.createdAt = before.createdAt

namespace SameJob

theorem refl (job : Job) : SameJob job job := ⟨rfl, rfl, rfl, rfl, rfl, rfl⟩

theorem trans {first second third : Job} (hfst : SameJob first second)
    (hsnd : SameJob second third) : SameJob first third :=
  ⟨hsnd.id.trans hfst.id, hsnd.queue.trans hfst.queue,
    hsnd.payload.trans hfst.payload, hsnd.priority.trans hfst.priority,
    hsnd.dedupeKey.trans hfst.dedupeKey, hsnd.createdAt.trans hfst.createdAt⟩

theorem indexKey_eq {before after : Job} (hsame : SameJob before after) (slot : Slot) :
    indexKey after slot = indexKey before slot := by
  rw [indexKey, indexKey, hsame.id, hsame.queue, hsame.priority]

end SameJob

section Transitions

variable (job : Job)

theorem same_leasedTo (worker : String) (now leaseMs : Millis) :
    job.SameJob (job.leasedTo worker now leaseMs) :=
  ⟨rfl, rfl, rfl, rfl, rfl, rfl⟩

theorem same_heldUntil (instant now : Millis) : job.SameJob (job.heldUntil instant now) :=
  ⟨rfl, rfl, rfl, rfl, rfl, rfl⟩

theorem same_withChunk (chunk : Bytes) (now : Millis) : job.SameJob (job.withChunk chunk now) :=
  ⟨rfl, rfl, rfl, rfl, rfl, rfl⟩

theorem same_settledWith (result : Bytes) (now : Millis) :
    job.SameJob (job.settledWith result now) :=
  ⟨rfl, rfl, rfl, rfl, rfl, rfl⟩

theorem same_revived (policy : Policy) (now : Millis) (options : RequeueOptions) :
    job.SameJob (job.revived policy now options) :=
  ⟨rfl, rfl, rfl, rfl, rfl, rfl⟩

end Transitions

def LeaseFields (job : Job) : Prop :=
  (job.leaseWorker.isSome ↔ job.state = .leased) ∧ (job.leaseUntil.isSome ↔ job.state = .leased)

end Job

/-- How a lease comes back: what the record was and what it becomes. -/
inductive Returned (policy : Policy) (job : Job) : Job → Prop where
  /-- A worker reported a failure and has attempts left. -/
  | failed (reason : String) (now : Millis)
      (hattempts : ¬ job.maxAttempts ≤ job.attempts + 1) :
      Returned policy job
        ((job.failedWith reason now).readyAt
          (saturatingAdd now (policy.retry.delayMs (job.attempts + 1))))
  /-- The lease ran out. -/
  | lapsed (now : Millis) (huntil : ¬ job.leaseUntil.any (now < ·))
      (hfresh : ¬ job.freshUntil.any (· ≤ now))
      (hlosses : ¬ policy.maxLeaseLosses < job.leaseExpiries + 1)
      (hattempts : ¬ job.maxAttempts ≤ job.attempts) :
      Returned policy job
        ((job.lapsed now).readyAt
          (saturatingAdd now (policy.retry.delayMs (predU32 (job.leaseExpiries + 1)))))
  /-- The worker's instance handed it over. -/
  | handedOver (now : Millis) (hfresh : ¬ job.freshUntil.any (· ≤ now)) :
      Returned policy job ((job.released now).readyAt now)

/-- How a job that waits ends without being done. -/
inductive EndedReady (policy : Policy) (job : Job) : Job → Prop where
  | stale (now : Millis) (hfresh : job.freshUntil.any (· ≤ now)) :
      EndedReady policy job (job.expiredWith "fresh_until passed before it ran" now)
  | exhausted (now : Millis) (hattempts : job.maxAttempts ≤ job.attempts) :
      EndedReady policy job (job.deadWith "attempts exhausted" false now)
  | lost (now : Millis) (hlosses : policy.maxLeaseLosses < job.leaseExpiries) :
      EndedReady policy job (job.deadWith "lease_lost" false now)

/-- How a job that is out with a worker ends without being done. -/
inductive EndedLease (policy : Policy) (job : Job) : Job → Prop where
  | failed (reason : String) (now : Millis)
      (hattempts : job.maxAttempts ≤ job.attempts + 1) :
      EndedLease policy job ((job.failedWith reason now).deadWith "attempts exhausted" true now)
  | stale (now : Millis) (huntil : ¬ job.leaseUntil.any (now < ·))
      (hfresh : job.freshUntil.any (· ≤ now)) :
      EndedLease policy job ((job.lapsed now).expiredWith "fresh_until passed while leased" now)
  | lost (now : Millis) (huntil : ¬ job.leaseUntil.any (now < ·))
      (hlosses : policy.maxLeaseLosses < job.leaseExpiries + 1) :
      EndedLease policy job ((job.lapsed now).deadWith "lease_lost" false now)
  | exhausted (now : Millis) (huntil : ¬ job.leaseUntil.any (now < ·))
      (hattempts : job.maxAttempts ≤ job.attempts) :
      EndedLease policy job ((job.lapsed now).deadWith "attempts exhausted" false now)
  | handedOver (now : Millis) (hfresh : job.freshUntil.any (· ≤ now)) :
      EndedLease policy job ((job.released now).expiredWith "fresh_until passed while leased" now)

namespace Returned

variable {policy : Policy} {job job' : Job}

theorem same (hret : Returned policy job job') : job.SameJob job' := by
  cases hret <;> exact ⟨rfl, rfl, rfl, rfl, rfl, rfl⟩

theorem state (hret : Returned policy job job') : job'.state = .ready := by
  cases hret <;> rfl

end Returned

namespace EndedReady

variable {policy : Policy} {job job' : Job}

theorem same (hended : EndedReady policy job job') : job.SameJob job' := by
  cases hended <;> exact ⟨rfl, rfl, rfl, rfl, rfl, rfl⟩

theorem terminal (hended : EndedReady policy job job') : job'.state.isTerminal := by
  cases hended <;> rfl

end EndedReady

namespace EndedLease

variable {policy : Policy} {job job' : Job}

theorem same (hended : EndedLease policy job job') : job.SameJob job' := by
  cases hended <;> exact ⟨rfl, rfl, rfl, rfl, rfl, rfl⟩

theorem terminal (hended : EndedLease policy job job') : job'.state.isTerminal := by
  cases hended <;> rfl

end EndedLease

/-- One step of a job's record: what any operation but `enqueue`, `requeue_with`
and `reap` can make of it. -/
inductive Evolves (policy : Policy) (job : Job) : Job → Prop where
  | append (chunk : Bytes) (now : Millis) : Evolves policy job (job.withChunk chunk now)
  | extend (instant now : Millis) (hleased : job.state = .leased) :
      Evolves policy job (job.heldUntil instant now)
  | lease (worker : String) (now leaseMs : Millis) (hready : job.state = .ready)
      (hfresh : ¬ job.freshUntil.any (· ≤ now)) (hattempts : ¬ job.maxAttempts ≤ job.attempts)
      (hlosses : ¬ policy.maxLeaseLosses < job.leaseExpiries) (hdue : ¬ now < job.notBefore) :
      Evolves policy job (job.leasedTo worker now leaseMs)
  | settle (result : Bytes) (now : Millis) (hleased : job.state = .leased) :
      Evolves policy job (job.settledWith result now)
  | back (job' : Job) (hleased : job.state = .leased) (hreturned : Returned policy job job') :
      Evolves policy job job'
  | endReady (job' : Job) (hready : job.state = .ready) (hended : EndedReady policy job job') :
      Evolves policy job job'
  | endLease (job' : Job) (hleased : job.state = .leased)
      (hended : EndedLease policy job job') : Evolves policy job job'

namespace JobState

theorem slot_eq_none_iff (state : JobState) : state.slot = none ↔ state.isTerminal := by
  cases state <;> simp [slot, isTerminal]

theorem ne_leased_of_terminal {state : JobState} (hterm : state.isTerminal) : state ≠ leased := by
  rintro rfl
  cases hterm

theorem ne_ready_of_terminal {state : JobState} (hterm : state.isTerminal) : state ≠ ready := by
  rintro rfl
  cases hterm

end JobState

namespace Evolves

variable {policy : Policy} {job job' : Job} (hevo : Evolves policy job job')
include hevo

theorem same : job.SameJob job' := by
  cases hevo with
  | append chunk now => exact job.same_withChunk chunk now
  | extend instant now => exact job.same_heldUntil instant now
  | lease worker now leaseMs => exact job.same_leasedTo worker now leaseMs
  | settle result now => exact job.same_settledWith result now
  | back _ _ hret => exact hret.same
  | endReady _ _ hended => exact hended.same
  | endLease _ _ hended => exact hended.same

theorem live (hlive : job'.Live) : job.Live := by
  cases hevo with
  | append chunk now => exact hlive
  | extend instant now hleas => exact .inr hleas
  | lease worker now leaseMs hready => exact .inl hready
  | settle result now hleas => exact .inr hleas
  | back _ hleas => exact .inr hleas
  | endReady _ hready => exact .inl hready
  | endLease _ hleas => exact .inr hleas

theorem leaseFields (hfiel : job.LeaseFields) : job'.LeaseFields := by
  cases hevo with
  | append chunk now => exact hfiel
  | extend instant now hleas =>
    refine ⟨hfiel.1, ?_⟩
    simp [Job.heldUntil, hleas]
  | lease worker now leaseMs => simp [Job.LeaseFields, Job.leasedTo]
  | settle result now => simp [Job.LeaseFields, Job.settledWith]
  | back _ _ hret =>
    cases hret <;> simp [Job.LeaseFields, Job.readyAt, Job.failedWith, Job.lapsed, Job.released]
  | endReady _ _ hended =>
    cases hended <;> simp [Job.LeaseFields, Job.expiredWith, Job.deadWith]
  | endLease _ _ hended =>
    cases hended <;> simp [Job.LeaseFields, Job.expiredWith, Job.deadWith]

end Evolves

end WasmAgent.Queue
