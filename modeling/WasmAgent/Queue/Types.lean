import Mathlib.Data.Nat.Notation

/-!
# The records of the durable queue

Jobs, alerts, requests, outcomes and the policy, as `wa-queue` declares them.
Instants are milliseconds in an `i64`; ids and sequence numbers are `u64`.
-/

namespace WasmAgent.Queue

abbrev Bytes := List UInt8

/-- A job id, allocated from the namespace's counter. -/
abbrev JobId := ℕ

/-- Milliseconds since the epoch, or a span of them. -/
abbrev Millis := Int

def u64Max : ℕ := 0xFFFFFFFFFFFFFFFF
def i64Min : Int := -0x8000000000000000
def i64Max : Int := 0x7FFFFFFFFFFFFFFF

def clampI64 (value : Int) : Int := max i64Min (min i64Max value)

/-- `i64::saturating_add`. -/
def saturatingAdd (left right : Int) : Int := clampI64 (left + right)

/-- `i64::saturating_sub`. -/
def saturatingSub (left right : Int) : Int := clampI64 (left - right)

/-- `u64::saturating_add`. -/
def saturatingAddU64 (left right : ℕ) : ℕ := min (left + right) u64Max

/-- `u32::saturating_sub(1)`. -/
def predU32 (count : UInt32) : UInt32 :=
  if count = 0 then 0 else count - 1

inductive JobState where
  | ready
  | leased
  | done
  | dead
  | expired
  deriving DecidableEq, Repr

namespace JobState

def asStr : JobState → String
  | ready => "ready"
  | leased => "leased"
  | done => "done"
  | dead => "dead"
  | expired => "expired"

def isTerminal : JobState → Bool
  | ready => false
  | leased => false
  | done => true
  | dead => true
  | expired => true

end JobState

structure Job where
  id : JobId
  queue : String
  payload : Bytes
  priority : UInt32
  notBefore : Millis
  freshUntil : Option Millis
  deadline : Option Millis
  maxAttempts : UInt32
  attempts : UInt32
  leaseExpiries : UInt32
  dedupeKey : Option String
  state : JobState
  leaseWorker : Option String
  leaseUntil : Option Millis
  lastError : Option String
  result : Option Bytes
  progressEntries : UInt32
  progressBytes : ℕ
  createdAt : Millis
  updatedAt : Millis
  deriving DecidableEq

structure EnqueueRequest where
  queue : String
  payload : Bytes
  priority : UInt32
  notBefore : Option Millis
  freshForMs : Option Millis
  maxAttempts : Option UInt32
  dedupeKey : Option String
  deadlineInMs : Option Millis
  deriving DecidableEq

def EnqueueRequest.new (queue : String) (payload : Bytes) : EnqueueRequest where
  queue := queue
  payload := payload
  priority := 0
  notBefore := none
  freshForMs := none
  maxAttempts := none
  dedupeKey := none
  deadlineInMs := none

structure EnqueueOutcome where
  id : JobId
  dedupeHit : Bool
  deriving DecidableEq, Repr

inductive TakeOutcome where
  | job (job : Job)
  | atLimit (leased limit : ℕ)
  | empty
  deriving DecidableEq

structure FailOutcome where
  state : JobState
  attempts : UInt32
  notBefore : Option Millis
  dead : Bool
  deriving DecidableEq

structure SweepOutcome where
  leasesRecovered : ℕ
  expired : ℕ
  timedOut : ℕ
  reaped : ℕ
  deriving DecidableEq, Repr

structure RepairOutcome where
  indexAdded : ℕ
  indexRemoved : ℕ
  dedupeAdded : ℕ
  dedupeRemoved : ℕ
  deriving DecidableEq, Repr

structure RequeueOptions where
  refreshFresh : Bool
  maxAttempts : Option UInt32
  attemptsReset : Bool
  deriving DecidableEq, Repr

inductive AlertKind where
  | expired
  | timedOut
  | dead
  deriving DecidableEq, Repr

/-- The byte that stands for a kind in an alert's key. -/
def AlertKind.code : AlertKind → ℕ
  | expired => 'e'.toNat
  | timedOut => 't'.toNat
  | dead => 'f'.toNat

inductive AlertState where
  | ready
  | sent
  | dropped
  deriving DecidableEq, Repr

structure Alert where
  seq : ℕ
  job : JobId
  queue : String
  kind : AlertKind
  reason : String
  atMs : Millis
  state : AlertState
  deriving DecidableEq, Repr

structure AlertBatch where
  items : List Alert
  overflow : ℕ
  dropped : ℕ
  deriving DecidableEq, Repr

/-- Anything the queue can refuse.  The store of the model neither fails nor
holds damaged records, so `Kv` and `Corrupt` do not occur. -/
inductive QueueError where
  | invalid (why : String)
  | notFound
  | leaseLost
  | tooLarge (why : String)
  | progressFull
  | full (queue : String) (ready limit : ℕ)
  deriving DecidableEq, Repr

structure RetryPolicy where
  baseMs : Millis
  maxMs : Millis

namespace RetryPolicy

/-- The doubling loop of `delay_ms`, over the passes left. -/
def doubled (maxMs : Millis) : ℕ → Millis → Millis
  | 0, delay => delay
  | passes + 1, delay =>
      if maxMs ≤ delay then delay else doubled maxMs passes (clampI64 (delay * 2))

/-- Delay after the `failures`-th failure; none after zero failures. -/
def delayMs (retry : RetryPolicy) (failures : UInt32) : Millis :=
  if failures = 0 then 0
  else min (doubled retry.maxMs (failures.toNat - 1) (max retry.baseMs 0)) retry.maxMs

end RetryPolicy

structure AlertPolicy where
  minGapMs : Millis
  batchMax : ℕ
  maxAgeMs : Millis

structure Policy where
  leaseMs : Millis
  maxLeaseMs : Millis
  retry : RetryPolicy
  maxAttempts : UInt32
  maxLeaseLosses : UInt32
  concurrency : ℕ
  queueLimits : String → Option ℕ
  defaultFreshMs : Option Millis
  defaultDeadlineMs : Option Millis
  alerts : AlertPolicy
  maxPayloadBytes : ℕ
  maxResultBytes : ℕ
  maxProgressEntries : UInt32
  maxProgressBytes : ℕ
  maxReady : ℕ
  doneRetentionMs : Millis
  deadRetentionMs : Millis
  expiredRetentionMs : Millis

/-- `Policy::default`. -/
def Policy.default : Policy where
  leaseMs := 60000
  maxLeaseMs := 3600000
  retry := ⟨5000, 3600000⟩
  maxAttempts := 5
  maxLeaseLosses := 3
  concurrency := 4
  queueLimits := fun _ => none
  defaultFreshMs := none
  defaultDeadlineMs := none
  alerts := ⟨60000, 12, 6 * 3600000⟩
  maxPayloadBytes := 1024 * 1024
  maxResultBytes := 64 * 1024
  maxProgressEntries := 1024
  maxProgressBytes := 1024 * 1024
  maxReady := 4096
  doneRetentionMs := 3600000
  deadRetentionMs := 7 * 24 * 3600000
  expiredRetentionMs := 24 * 3600000

def Policy.limitFor (policy : Policy) (queue : String) : ℕ :=
  max ((policy.queueLimits queue).getD policy.concurrency) 1

/-- Queue and worker names are idents: nothing that could forge a key boundary. -/
def validName (name : String) (limit : ℕ) : Bool :=
  !name.isEmpty && name.utf8ByteSize ≤ limit &&
    name.toList.all (fun c => c.isAlphanum || c == '-' || c == '_' || c == '.' || c == ':')

/-- `char::is_control`: the Unicode category Cc. -/
def isControl (c : Char) : Bool := c.toNat < 0x20 || (0x7f ≤ c.toNat && c.toNat < 0xa0)

/-- `char::is_whitespace`: the Unicode property White_Space. -/
def isWhitespace (c : Char) : Bool :=
  (0x09 ≤ c.toNat && c.toNat ≤ 0x0d) ||
    c.toNat ∈ [0x20, 0x85, 0xa0, 0x1680, 0x2028, 0x2029, 0x202f, 0x205f, 0x3000] ||
    (0x2000 ≤ c.toNat && c.toNat ≤ 0x200a)

/-- `str::trim`. -/
def trim (text : List Char) : List Char :=
  ((text.dropWhile isWhitespace).reverse.dropWhile isWhitespace).reverse

/-- A reason is for a log line: one line, bounded, no control characters. -/
def sanitize (reason : String) : String :=
  let cleaned := reason.toList.map (fun c => if isControl c then ' ' else c)
  let trimmed := trim cleaned
  let out := trimmed.take 200
  String.ofList (if 200 < trimmed.length then out ++ ['…'] else out)

end WasmAgent.Queue
