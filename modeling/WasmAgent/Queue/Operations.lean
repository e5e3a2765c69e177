import Mathlib.Data.List.Destutter
import Mathlib.Data.List.Sort
import WasmAgent.Queue.Transitions

/-!
# The queue's operations

Every operation of `wa-queue`, as the sequence of store calls it makes.  An
operation reads the clock once, when it starts; `sweep` reads it three times.
-/

namespace WasmAgent.Queue

open WasmAgent.Core WasmAgent.Core.Program

/-! ## Internals -/

def load (id : JobId) : Operation (Option Job) := query (.job id)

def save (job : Job) : Operation Unit := write (.putJob job)

def putIndex (job : Job) : Operation Unit :=
  match job.state.slot with
  | none => pure ()
  | some slot => write (.putIndex (indexKey job slot))

def countIndex (queue : String) (slot : Slot) : Operation ℕ := do
  let entries ← query (.indexPrefix queue slot)
  return entries.length

def nextCounter (counter : Counter) : Operation ℕ := do
  let stored ← query (.counter counter)
  let next := stored.getD 1
  write (.putCounter counter (saturatingAddU64 next 1))
  return next

def recordAlert (job : Job) (now : Millis) (kind : AlertKind) (reason : String) :
    Operation Bool := do
  let stored ← query (.alert ⟨job.id, kind⟩)
  if stored.isSome then
    return false
  else
    let seq ← nextCounter .alertSeq
    write (.putAlert ⟨seq, job.id, job.queue, kind, sanitize reason, now, .ready⟩)
    return true

def expireAt (job : Job) (now : Millis) (reason : String) : Operation Unit := do
  write (.delIndex (indexKey job .ready))
  write (.delIndex (indexKey job .leased))
  let job := job.expiredWith reason now
  save job
  let _ ← recordAlert job now .expired reason
  return ()

/-- Dead-letter a job.  `keepError` leaves the worker's own reason in place. -/
def deadLetter (job : Job) (now : Millis) (why : String) (keepError : Bool) :
    Operation Unit := do
  write (.delIndex (indexKey job .ready))
  write (.delIndex (indexKey job .leased))
  let job := job.deadWith why keepError now
  save job
  let _ ← recordAlert job now .dead (job.lastError.getD (sanitize why))
  return ()

/-- What becomes of a job whose lease ran out, its index entry gone already. -/
def recoverJob (policy : Policy) (now : Millis) (job : Job) : Operation Unit :=
  if job.freshUntil.any (· ≤ now) then
    expireAt job now "fresh_until passed while leased"
  else if policy.maxLeaseLosses < job.leaseExpiries then
    deadLetter job now "lease_lost" false
  else if job.maxAttempts ≤ job.attempts then
    deadLetter job now "attempts exhausted" false
  else do
    let job := job.readyAt (saturatingAdd now (policy.retry.delayMs (predU32 job.leaseExpiries)))
    save job
    putIndex job

/-- The body of the loop of `recover_leases`. -/
def recoverLease (policy : Policy) (queue : String) (now : Millis) (recovered : ℕ)
    (key : IndexKey) : Operation ℕ := do
  match ← load key.id with
  | none =>
      write (.delIndex key)
      return recovered
  | some job =>
      if job.queue ≠ queue ∨ job.state ≠ .leased then
        write (.delIndex key)
        return recovered
      else if job.leaseUntil.any (now < ·) then
        return recovered
      else
        write (.delIndex key)
        recoverJob policy now (job.lapsed now)
        return recovered + 1

/-- Leases that have run out go back to `ready`. -/
def recoverLeases (policy : Policy) (queue : String) (now : Millis) : Operation ℕ := do
  let keys ← query (.indexPrefix queue .leased)
  keys.foldlM (recoverLease policy queue now) 0

def holdsLease (job : Job) (worker : String) : Bool :=
  job.state = .leased ∧ job.leaseWorker = some worker

/-! ## Producer side -/

def validateEnqueue (policy : Policy) (request : EnqueueRequest) : Except QueueError Unit :=
  if !validName request.queue 64 then
    .error (.invalid s!"bad queue name {request.queue.quote}")
  else if policy.maxPayloadBytes < request.payload.length then
    .error (.tooLarge s!"payload is {request.payload.length} bytes, limit {policy.maxPayloadBytes}")
  else if request.maxAttempts.getD policy.maxAttempts = 0 then
    .error (.invalid "max_attempts must be at least 1")
  else if request.freshForMs.any (· ≤ 0) then
    .error (.invalid "fresh_for_ms must be positive")
  else if request.deadlineInMs.any (· ≤ 0) then
    .error (.invalid "deadline_in_ms must be positive")
  else if request.dedupeKey.any
      (fun key => key.isEmpty || 256 < key.utf8ByteSize || key.toList.any isControl) then
    .error (.invalid "dedupe_key must be 1..=256 bytes without control characters")
  else
    .ok ()

/-- `fresh_until` of a new job. -/
def EnqueueRequest.freshUntil (policy : Policy) (now : Millis) (request : EnqueueRequest) :
    Option Millis :=
  (request.freshForMs.or policy.defaultFreshMs).map (saturatingAdd now)

def EnqueueRequest.job (policy : Policy) (now : Millis) (request : EnqueueRequest)
    (id : JobId) : Job where
  id := id
  queue := request.queue
  payload := request.payload
  priority := request.priority
  notBefore := request.notBefore.getD now
  freshUntil := request.freshUntil policy now
  deadline := (request.deadlineInMs.or policy.defaultDeadlineMs).map (saturatingAdd now)
  maxAttempts := request.maxAttempts.getD policy.maxAttempts
  attempts := 0
  leaseExpiries := 0
  dedupeKey := request.dedupeKey
  state := .ready
  leaseWorker := none
  leaseUntil := none
  lastError := none
  result := none
  progressEntries := 0
  progressBytes := 0
  createdAt := now
  updatedAt := now

/-- The job that a dedupe claim names, if its record exists. -/
def claimHolder (claim : Option ClaimKey) : Operation (Option JobId) :=
  match claim with
  | none => pure none
  | some claim => do
      match ← query (.claim claim) with
      | none => return none
      | some id =>
          let stored ← load id
          return if stored.isSome then some id else none

def putClaim (job : Job) : Operation Unit :=
  match claimKey job.queue job.dedupeKey with
  | none => pure ()
  | some claim => write (.putClaim claim job.id)

def enqueue (policy : Policy) (now : Millis) (request : EnqueueRequest) :
    Operation (Except QueueError EnqueueOutcome) :=
  match validateEnqueue policy request with
  | .error refusal => pure (.error refusal)
  | .ok () =>
      if (request.freshUntil policy now).any (· ≤ request.notBefore.getD now) then
        pure (.error (.invalid "not_before is at or after fresh_until"))
      else do
        match ← claimHolder (claimKey request.queue request.dedupeKey) with
        | some id => return .ok ⟨id, true⟩
        | none =>
            let ready ← countIndex request.queue .ready
            if policy.maxReady ≤ ready then
              return .error (.full request.queue ready policy.maxReady)
            else
              let id ← nextCounter .id
              let job := request.job policy now id
              putClaim job
              save job
              putIndex job
              return .ok ⟨id, false⟩

def progress (policy : Policy) (now : Millis) (id : JobId) (chunk : Bytes) :
    Operation (Except QueueError ℕ) := do
  match ← load id with
  | none => return .error .notFound
  | some job =>
      if policy.maxProgressEntries ≤ job.progressEntries ∨
          policy.maxProgressBytes < saturatingAddU64 job.progressBytes chunk.length then
        return .error .progressFull
      else
        write (.putChunk ⟨id, job.progressEntries.toNat⟩ chunk)
        save (job.withChunk chunk now)
        return .ok job.progressEntries.toNat

/-! ## Worker side -/

/-- The loop of `take` over the ready entries of a queue. -/
def takeFrom (policy : Policy) (queue worker : String) (now leaseMs : Millis) :
    List IndexKey → Operation TakeOutcome
  | [] => pure .empty
  | key :: keys => do
      match ← load key.id with
      | none =>
          write (.delIndex key)
          takeFrom policy queue worker now leaseMs keys
      | some job =>
          if job.queue ≠ queue ∨ job.state ≠ .ready then
            write (.delIndex key)
            takeFrom policy queue worker now leaseMs keys
          else if job.freshUntil.any (· ≤ now) then
            expireAt job now "fresh_until passed before it ran"
            takeFrom policy queue worker now leaseMs keys
          else if job.maxAttempts ≤ job.attempts then
            deadLetter job now "attempts exhausted" false
            takeFrom policy queue worker now leaseMs keys
          else if policy.maxLeaseLosses < job.leaseExpiries then
            deadLetter job now "lease_lost" false
            takeFrom policy queue worker now leaseMs keys
          else if now < job.notBefore then
            takeFrom policy queue worker now leaseMs keys
          else
            let job := job.leasedTo worker now leaseMs
            save job
            write (.delIndex key)
            putIndex job
            return .job job

def leaseRefusal (policy : Policy) (leaseMs : Millis) : Option QueueError :=
  if leaseMs ≤ 0 ∨ policy.maxLeaseMs < leaseMs then
    some (.invalid s!"lease must be 1..={policy.maxLeaseMs} ms")
  else
    none

def take (policy : Policy) (now : Millis) (queue worker : String)
    (leaseMs : Option Millis) : Operation (Except QueueError TakeOutcome) :=
  if !validName queue 64 then
    pure (.error (.invalid s!"bad queue name {queue.quote}"))
  else if !validName worker 100 then
    pure (.error (.invalid "bad worker name"))
  else
    let lease := leaseMs.getD policy.leaseMs
    match leaseRefusal policy lease with
    | some refusal => pure (.error refusal)
    | none => do
        let _ ← recoverLeases policy queue now
        let limit := policy.limitFor queue
        let leased ← countIndex queue .leased
        if limit ≤ leased then
          return .ok (.atLimit leased limit)
        else
          let keys ← query (.indexPrefix queue .ready)
          let outcome ← takeFrom policy queue worker now lease keys
          return .ok outcome

/-- Extend a lease that `worker` holds. -/
def heartbeat (policy : Policy) (now : Millis) (id : JobId) (worker : String)
    (extendMs : Option Millis) : Operation (Except QueueError Millis) := do
  match ← load id with
  | none => return .error .notFound
  | some job =>
      if !holdsLease job worker then
        return .error .leaseLost
      else
        let extend := extendMs.getD policy.leaseMs
        match leaseRefusal policy extend with
        | some refusal => return .error refusal
        | none =>
            let instant := saturatingAdd now extend
            save (job.heldUntil instant now)
            return .ok instant

/-- The lease is gone for a caller that names itself and does not hold it. -/
def leaseLost (job : Job) (worker : Option String) : Bool :=
  job.state ≠ .leased || worker.any (fun worker => !holdsLease job worker)

def settle (policy : Policy) (now : Millis) (id : JobId) (worker : Option String)
    (result : Bytes) : Operation (Except QueueError Job) := do
  match ← load id with
  | none => return .error .notFound
  | some job =>
      if leaseLost job worker then
        return .error .leaseLost
      else if policy.maxResultBytes < result.length then
        return .error (.tooLarge s!"result is {result.length} bytes, limit {policy.maxResultBytes}")
      else
        let job := job.settledWith result now
        save job
        write (.delIndex (indexKey job .leased))
        return .ok job

def done (policy : Policy) (now : Millis) (id : JobId) (result : Bytes) :
    Operation (Except QueueError Job) :=
  settle policy now id none result

/-- Settle only if `worker` still holds the lease. -/
def doneBy (policy : Policy) (now : Millis) (id : JobId) (worker : String)
    (result : Bytes) : Operation (Except QueueError Job) :=
  settle policy now id (some worker) result

/-- Record a failure: retry with backoff, or dead-letter once the attempts are spent. -/
def failInner (policy : Policy) (now : Millis) (id : JobId) (worker : Option String)
    (reason : String) : Operation (Except QueueError FailOutcome) := do
  match ← load id with
  | none => return .error .notFound
  | some job =>
      if leaseLost job worker then
        return .error .leaseLost
      else
        let job := job.failedWith reason now
        write (.delIndex (indexKey job .leased))
        if job.maxAttempts ≤ job.attempts then
          deadLetter job now "attempts exhausted" true
          return .ok ⟨.dead, job.attempts, none, true⟩
        else
          let job := job.readyAt (saturatingAdd now (policy.retry.delayMs job.attempts))
          save job
          putIndex job
          return .ok ⟨.ready, job.attempts, some job.notBefore, false⟩

def fail (policy : Policy) (now : Millis) (id : JobId) (reason : String) :
    Operation (Except QueueError FailOutcome) :=
  failInner policy now id none reason

/-- Record a failure only if `worker` still holds the lease. -/
def failBy (policy : Policy) (now : Millis) (id : JobId) (worker reason : String) :
    Operation (Except QueueError FailOutcome) :=
  failInner policy now id (some worker) reason

def handBack (now : Millis) (job : Job) : Operation Unit :=
  if job.freshUntil.any (· ≤ now) then
    expireAt job now "fresh_until passed while leased"
  else do
    let job := job.readyAt now
    save job
    putIndex job

/-- The body of the loop of `handover`. -/
def handoverLease (queue workerPrefix : String) (now : Millis) (handed : ℕ)
    (key : IndexKey) : Operation ℕ := do
  match ← load key.id with
  | none =>
      write (.delIndex key)
      return handed
  | some job =>
      if job.queue ≠ queue ∨ job.state ≠ .leased then
        write (.delIndex key)
        return handed
      else if !job.leaseWorker.any (fun worker => workerPrefix.toList.isPrefixOf worker.toList) then
        return handed
      else
        write (.delIndex key)
        handBack now (job.released now)
        return handed + 1

def handover (now : Millis) (queue workerPrefix : String) : Operation (Except QueueError ℕ) :=
  if !validName queue 64 then
    pure (.error (.invalid s!"bad queue name {queue.quote}"))
  else if workerPrefix.isEmpty then
    pure (.error (.invalid "handover needs a worker prefix"))
  else do
    let keys ← query (.indexPrefix queue .leased)
    let handed ← keys.foldlM (handoverLease queue workerPrefix now) 0
    return .ok handed

/-! ## Freshness, sweeps, alerts -/

/-- The body of the loop of `expire_stale_at`. -/
def expireJob (now : Millis) (expired : List JobId) (job : Job) : Operation (List JobId) :=
  if job.state ≠ .ready then
    pure expired
  else if job.freshUntil.any (· ≤ now) then do
    expireAt job now "fresh_until passed before it ran"
    return expired ++ [job.id]
  else
    pure expired

/-- Drop every unleased job whose freshness has passed. -/
def expireStaleAt (now : Millis) : Operation (List JobId) := do
  let jobs ← query .jobs
  jobs.foldlM (expireJob now) []

/-- The body of the loop of `timeout_alerts`. -/
def timeoutAlert (now : Millis) (raised : ℕ) (job : Job) : Operation ℕ :=
  if job.state.isTerminal then
    pure raised
  else if job.deadline.any (· ≤ now) then do
    let fresh ← recordAlert job now .timedOut s!"not finished by deadline (state {job.state.asStr})"
    return if fresh then raised + 1 else raised
  else
    pure raised

def timeoutAlerts (now : Millis) : Operation ℕ := do
  let jobs ← query .jobs
  jobs.foldlM (timeoutAlert now) 0

/-- How long a finished record is kept. -/
def Policy.retention (policy : Policy) : JobState → Option Millis
  | .ready => none
  | .leased => none
  | .done => some policy.doneRetentionMs
  | .dead => some policy.deadRetentionMs
  | .expired => some policy.expiredRetentionMs

def releaseClaim (job : Job) : Operation Unit :=
  match claimKey job.queue job.dedupeKey with
  | none => pure ()
  | some claim => do
      let holder ← query (.claim claim)
      if holder = some job.id then write (.delClaim claim) else pure ()

/-- The body of the loop of `reap`. -/
def reapJob (policy : Policy) (now : Millis) (reaped : ℕ) (job : Job) : Operation ℕ :=
  match policy.retention job.state with
  | none => pure reaped
  | some retention =>
      if saturatingSub now job.updatedAt < retention then
        pure reaped
      else do
        let chunks ← query (.chunks job.id)
        chunks.foldlM (fun _ chunk => write (.delChunk ⟨job.id, chunk.1⟩)) ()
        releaseClaim job
        write (.delIndex (indexKey job .ready))
        write (.delIndex (indexKey job .leased))
        write (.delJob job.id)
        return reaped + 1

/-- Retire finished records older than the retention policy. -/
def reap (policy : Policy) (now : Millis) : Operation ℕ := do
  let jobs ← query .jobs
  jobs.foldlM (reapJob policy now) 0

/-- Queues that have any record, each once, in order. -/
def queueNames (jobs : List Job) : List String :=
  ((jobs.map Job.queue).insertionSort (· ≤ ·)).destutter (· ≠ ·)

def sweep (policy : Policy) (now staleNow reapNow : Millis) : Operation SweepOutcome := do
  let jobs ← query .jobs
  let leasesRecovered ← (queueNames jobs).foldlM
    (fun total queue => do
      let recovered ← recoverLeases policy queue now
      return total + recovered) 0
  let expired ← expireStaleAt staleNow
  let timedOut ← timeoutAlerts now
  let reaped ← reap policy reapNow
  return ⟨leasesRecovered, expired.length, timedOut, reaped⟩

/-- The body of the scan of `next_alerts`: the ready alerts and the dropped ones. -/
def sortAlert (policy : Policy) (now : Millis) (found : List Alert × ℕ) (alert : Alert) :
    Operation (List Alert × ℕ) :=
  if alert.state ≠ .ready then
    pure found
  else if alert.atMs < saturatingSub now policy.alerts.maxAgeMs then do
    write (.putAlert { alert with state := .dropped })
    return (found.1, found.2 + 1)
  else
    pure (found.1 ++ [alert], found.2)

def Alert.before (left right : Alert) : Prop :=
  left.atMs < right.atMs ∨ left.atMs = right.atMs ∧ left.seq ≤ right.seq

instance : DecidableRel Alert.before :=
  fun _ _ => inferInstanceAs (Decidable (_ ∨ _))

def sendAlert (items : List Alert) (alert : Alert) : Operation (List Alert) := do
  let sent := { alert with state := .sent }
  write (.putAlert sent)
  return items ++ [sent]

def nextAlerts (policy : Policy) (now : Millis) : Operation (Option AlertBatch) := do
  let last ← query .alertLast
  if last.any (saturatingSub now policy.alerts.minGapMs < ·) then
    return none
  else
    let alerts ← query .alerts
    let found ← alerts.foldlM (sortAlert policy now) ([], 0)
    if found.1.isEmpty then
      return none
    else
      let batchMax := max policy.alerts.batchMax 1
      let items ← ((found.1.insertionSort Alert.before).take batchMax).foldlM sendAlert []
      write (.putAlertLast now)
      return some ⟨items, found.1.length - batchMax, found.2⟩

/-! ## Admin -/

def requeueWith (policy : Policy) (now : Millis) (id : JobId) (options : RequeueOptions) :
    Operation (Except QueueError Job) := do
  match ← load id with
  | none => return .error .notFound
  | some job =>
      if job.state ≠ .dead then
        return .error (.invalid
          s!"only dead-lettered jobs can be requeued (job is {job.state.asStr})")
      else
        let job := job.revived policy now options
        save job
        write (.delIndex (indexKey job .leased))
        putIndex job
        return .ok job

def requeue (policy : Policy) (now : Millis) (id : JobId) : Operation (Except QueueError Job) :=
  requeueWith policy now id ⟨false, none, true⟩

def indexWanted (jobs : List Job) : List IndexKey := jobs.filterMap Job.ownKey

def dedupeWanted (jobs : List Job) : List (ClaimKey × JobId) :=
  jobs.filterMap (fun job => (claimKey job.queue job.dedupeKey).map (·, job.id))

/-- The job that a claim should name: the first that asks for it. -/
def wantedHolder (wanted : List (ClaimKey × JobId)) (claim : ClaimKey) : Option JobId :=
  (wanted.find? (fun entry => entry.1 = claim)).map Prod.snd

def removeOrphan (wanted : List IndexKey) (removed : ℕ) (key : IndexKey) : Operation ℕ :=
  if key ∈ wanted then
    pure removed
  else do
    write (.delIndex key)
    return removed + 1

def addMissing (added : ℕ) (key : IndexKey) : Operation ℕ := do
  if ← query (.hasIndex key) then
    return added
  else
    write (.putIndex key)
    return added + 1

def removeClaim (wanted : List (ClaimKey × JobId)) (removed : ℕ) (entry : ClaimKey × JobId) :
    Operation ℕ :=
  if wantedHolder wanted entry.1 = some entry.2 then
    pure removed
  else do
    write (.delClaim entry.1)
    return removed + 1

def addClaim (added : ℕ) (entry : ClaimKey × JobId) : Operation ℕ := do
  let holder ← query (.claim entry.1)
  if holder = some entry.2 then
    return added
  else
    write (.putClaim entry.1 entry.2)
    return added + 1

def repair : Operation RepairOutcome := do
  let jobs ← query .jobs
  let keys ← query .index
  let indexRemoved ← keys.foldlM (removeOrphan (indexWanted jobs)) 0
  let indexAdded ← (indexWanted jobs).foldlM addMissing 0
  let claims ← query .claims
  let dedupeRemoved ← claims.foldlM (removeClaim (dedupeWanted jobs)) 0
  let dedupeAdded ← (dedupeWanted jobs).foldlM addClaim 0
  return ⟨indexAdded, indexRemoved, dedupeAdded, dedupeRemoved⟩

/-! ## One call -/

/-- One operation with its arguments and its clock readings. -/
inductive Op where
  | enqueue (now : Millis) (request : EnqueueRequest)
  | progress (now : Millis) (id : JobId) (chunk : Bytes)
  | take (now : Millis) (queue worker : String) (leaseMs : Option Millis)
  | heartbeat (now : Millis) (id : JobId) (worker : String) (extendMs : Option Millis)
  | settle (now : Millis) (id : JobId) (worker : Option String) (result : Bytes)
  | fail (now : Millis) (id : JobId) (worker : Option String) (reason : String)
  | handover (now : Millis) (queue workerPrefix : String)
  | expireStale (now : Millis)
  | sweep (now staleNow reapNow : Millis)
  | nextAlerts (now : Millis)
  | requeue (now : Millis) (id : JobId) (options : RequeueOptions)
  | reap (now : Millis)
  | repair

namespace Op

/-- The store calls of an operation; what it returns is left out. -/
def program (policy : Policy) : Op → Operation Unit
  | .enqueue now request => discard (Queue.enqueue policy now request)
  | .progress now id chunk => discard (Queue.progress policy now id chunk)
  | .take now queue worker leaseMs => discard (Queue.take policy now queue worker leaseMs)
  | .heartbeat now id worker extendMs =>
      discard (Queue.heartbeat policy now id worker extendMs)
  | .settle now id worker result => discard (Queue.settle policy now id worker result)
  | .fail now id worker reason => discard (Queue.failInner policy now id worker reason)
  | .handover now queue workerPrefix => discard (Queue.handover now queue workerPrefix)
  | .expireStale now => discard (Queue.expireStaleAt now)
  | .sweep now staleNow reapNow => discard (Queue.sweep policy now staleNow reapNow)
  | .nextAlerts now => discard (Queue.nextAlerts policy now)
  | .requeue now id options => discard (Queue.requeueWith policy now id options)
  | .reap now => discard (Queue.reap policy now)
  | .repair => discard Queue.repair

end Op

end WasmAgent.Queue
