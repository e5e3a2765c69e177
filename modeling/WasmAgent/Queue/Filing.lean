import WasmAgent.Queue.Expiry

/-!
# What the operations record

Every operation but `next_alerts` leaves the alerts alone, or files a new one, ready, under
a key that has none and the next number.
-/

namespace WasmAgent.Queue

open Option WasmAgent.Core WasmAgent.Core.Program

def Write.Silent : Write → Prop
  | .putAlert _ => False
  | .putCounter .alertSeq _ => False
  | .putAlertLast _ => False
  | _ => True

inductive Filing (store : Store) : List Write → Prop where
  | silent (write : Write) (hsilent : write.Silent) : Filing store [write]
  | file (alert : Alert) (hready : alert.state = .ready)
      (hnew : store.alerts[alert.key]? = none) (hseq : alert.seq = store.nextAlert.getD 1) :
      Filing store [.putCounter .alertSeq (saturatingAddU64 alert.seq 1), .putAlert alert]

/-- The operation goes by blocks that leave the alerts or file one. -/
def Files {Result : Type} (operation : Operation Result) : Prop :=
  ∀ store, Chain kv Filing store (operation.writes kv store)

/-- A walk through an operation: which writes it makes, and which alerts it files. -/
structure Records {Result : Type} (allowed : Write → Prop) (operation : Operation Result) :
    Prop where
  only : Only allowed operation
  files : Files operation

namespace Records

variable {Result Next Item : Type} {operation : Operation Result} {allowed : Write → Prop}

theorem any (hrecs : Records allowed operation) : Records (fun _ => True) operation :=
  ⟨fun _ _ _ => trivial, hrecs.files⟩

theorem done (value : Result) : Records allowed (Program.done value : Operation Result) :=
  ⟨Only.done value, fun store => Chain.nil store⟩

theorem query {Reply : Type} {question : Query Reply} {next : Reply → Operation Result}
    (hnext : ∀ reply, Records allowed (next reply)) :
    Records allowed (Program.query question >>= next) :=
  ⟨Only.query fun reply => (hnext reply).only,
    fun store => (hnext (kv.answer question store)).files store⟩

theorem write {change : Write} {next : Unit → Operation Result} (hsil : change.Silent)
    (hchg : allowed change) (hnext : Records allowed (next ())) :
    Records allowed (Program.write change >>= next) := by
  refine ⟨Only.write hchg hnext.only, ?_⟩
  intro store
  rw [write_bind, writes_put]
  exact Chain.block [change] _ (Filing.silent change hsil) (hnext.files _)

theorem write_last {change : Write} (hsil : change.Silent) (hchg : allowed change) :
    Records allowed (Program.write change) :=
  ⟨Only.write_last hchg, fun _ => Chain.single (Filing.silent change hsil)⟩

theorem bind {next : Result → Operation Next} (hoper : Records allowed operation)
    (hnext : ∀ value, Records allowed (next value)) : Records allowed (operation >>= next) := by
  refine ⟨hoper.only.bind fun value => (hnext value).only, ?_⟩
  intro store
  rw [writes_bind]
  exact (hoper.files store).append ((hnext _).files _)

theorem foldlM {body : Result → Item → Operation Result}
    (hbody : ∀ value item, Records allowed (body value item)) (items : List Item)
    (value : Result) : Records allowed (items.foldlM body value) := by
  induction items generalizing value with
  | nil => exact done value
  | cons item items ih =>
    rw [List.foldlM_cons]
    exact (hbody value item).bind fun next => ih next

end Records

section Operations

variable {policy : Policy} {now : Millis} (job : Job)

theorem recordAlert_records (kind : AlertKind) (reason : String) :
    Records (Write.Plain now) (recordAlert job now kind reason) := by
  constructor
  · apply Only.query
    intro stored
    split
    · exact Only.done _
    apply Only.bind
    · rw [nextCounter]
      exact Only.query fun _ => Only.write ⟨trivial, trivial⟩ (Only.done _)
    · exact fun _ => Only.write ⟨trivial, trivial⟩ (Only.done _)
  intro store
  rw [recordAlert, query_bind, writes_ask]
  split
  · exact Chain.nil store
  rename_i hnew
  have hnone : store.alerts[(⟨job.id, kind⟩ : AlertKey)]? = none := by
    rw [Bool.not_eq_true, isSome_eq_false_iff, isNone_iff_eq_none] at hnew
    exact hnew
  exact Chain.single (Filing.file
    ⟨store.nextAlert.getD 1, job.id, job.queue, kind, sanitize reason, now, .ready⟩ rfl hnone rfl)

theorem expireAt_records {job : Job} (hstl : job.freshUntil.any (· ≤ now)) (reason : String) :
    Records (Write.Plain now) (expireAt job now reason) := by
  rw [expireAt]
  refine Records.write trivial ⟨trivial, trivial⟩ ?_
  refine Records.write trivial ⟨trivial, trivial⟩ ?_
  refine Records.write trivial ⟨fun _ => hstl, trivial⟩ ?_
  exact (recordAlert_records _ _ _).bind fun _ => Records.done _

theorem deadLetter_records (why : String) (keepError : Bool) :
    Records (Write.Plain now) (deadLetter job now why keepError) := by
  rw [deadLetter]
  refine Records.write trivial ⟨trivial, trivial⟩ ?_
  refine Records.write trivial ⟨trivial, trivial⟩ ?_
  refine Records.write trivial ⟨JobState.noConfusion, trivial⟩ ?_
  exact (recordAlert_records _ _ _).bind fun _ => Records.done _

theorem putIndex_records : Records (Write.Plain now) (putIndex job) := by
  rw [putIndex]
  split
  · exact Records.done _
  · exact Records.write_last trivial ⟨trivial, trivial⟩

theorem recoverJob_records : Records (Write.Plain now) (recoverJob policy now job) := by
  rw [recoverJob]
  split
  · next hstl => exact expireAt_records hstl _
  split
  · exact deadLetter_records _ _ _
  split
  · exact deadLetter_records _ _ _
  · exact Records.write trivial ⟨JobState.noConfusion, trivial⟩ (putIndex_records _)

theorem recoverLease_records (queue : String) (recovered : ℕ) (key : IndexKey) :
    Records (Write.Plain now) (recoverLease policy queue now recovered key) := by
  rw [recoverLease, load]
  apply Records.query
  intro stored
  split
  · exact Records.write trivial ⟨trivial, trivial⟩ (Records.done _)
  split
  · exact Records.write trivial ⟨trivial, trivial⟩ (Records.done _)
  split
  · exact Records.done _
  · exact Records.write trivial ⟨trivial, trivial⟩ ((recoverJob_records _).bind fun _ => Records.done _)

theorem recoverLeases_records (queue : String) :
    Records (Write.Plain now) (recoverLeases policy queue now) := by
  rw [recoverLeases]
  exact Records.query fun keys => Records.foldlM (fun _ _ => recoverLease_records _ _ _) keys 0

theorem countIndex_records {allowed : Write → Prop} (queue : String) (slot : Slot) :
    Records allowed (countIndex queue slot) := by
  rw [countIndex]
  exact Records.query fun _ => Records.done _

theorem claimHolder_records (claim : Option ClaimKey) :
    Records (fun _ => True) (claimHolder claim) := by
  cases claim with
  | none => exact Records.done _
  | some claim =>
    rw [claimHolder]
    apply Records.query
    intro holder
    split
    · exact Records.done _
    · rw [load]
      exact Records.query fun _ => Records.done _

theorem putClaim_records : Records (fun _ => True) (putClaim job) := by
  rw [putClaim]
  split
  · exact Records.done _
  · exact Records.write_last trivial trivial

theorem enqueue_records (request : EnqueueRequest) :
    Records (fun _ => True) (enqueue policy now request) := by
  rw [enqueue]
  split
  · exact Records.done _
  split
  · exact Records.done _
  apply (claimHolder_records _).bind
  intro holder
  split
  · exact Records.done _
  apply (countIndex_records _ _).bind
  intro ready
  split
  · exact Records.done _
  rw [nextCounter]
  apply Records.bind
  · exact Records.query fun _ => Records.write trivial trivial (Records.done _)
  intro id
  apply (putClaim_records _).bind
  intro _
  exact Records.write trivial trivial ((@putIndex_records now _).any.bind fun _ => Records.done _)

variable (id : JobId)

theorem progress_records (chunk : Bytes) :
    Records (fun _ => True) (progress policy now id chunk) := by
  rw [progress, load]
  apply Records.query
  intro stored
  split
  · exact Records.done _
  split
  · exact Records.done _
  · exact Records.write trivial trivial (Records.write trivial trivial (Records.done _))

theorem takeFrom_records (queue worker : String) (leaseMs : Millis) (keys : List IndexKey) :
    Records (Write.Plain now) (takeFrom policy queue worker now leaseMs keys) := by
  induction keys with
  | nil => exact Records.done _
  | cons key keys ih =>
    rw [takeFrom, load]
    apply Records.query
    intro stored
    split
    · exact Records.write trivial ⟨trivial, trivial⟩ ih
    split
    · exact Records.write trivial ⟨trivial, trivial⟩ ih
    split
    · next hstl => exact (expireAt_records hstl _).bind fun _ => ih
    split
    · exact (deadLetter_records _ _ _).bind fun _ => ih
    split
    · exact (deadLetter_records _ _ _).bind fun _ => ih
    split
    · exact ih
    dsimp only
    rw [save]
    refine Records.write trivial ⟨JobState.noConfusion, trivial⟩ ?_
    exact Records.write trivial ⟨trivial, trivial⟩ ((putIndex_records _).bind fun _ => Records.done _)

theorem take_records (queue worker : String) (leaseMs : Option Millis) :
    Records (Write.Plain now) (take policy now queue worker leaseMs) := by
  rw [take]
  split
  · exact Records.done _
  split
  · exact Records.done _
  dsimp only
  split
  · exact Records.done _
  apply (recoverLeases_records _).bind
  intro _
  apply (countIndex_records _ _).bind
  intro leased
  split
  · exact Records.done _
  · exact Records.query fun keys => (takeFrom_records _ _ _ keys).bind fun _ => Records.done _

theorem heartbeat_records (worker : String) (extendMs : Option Millis) :
    Records (fun _ => True) (heartbeat policy now id worker extendMs) := by
  rw [heartbeat, load]
  apply Records.query
  intro stored
  split
  · exact Records.done _
  split
  · exact Records.done _
  dsimp only
  split
  · exact Records.done _
  · exact Records.write trivial trivial (Records.done _)

variable (worker : Option String)

theorem settle_records (result : Bytes) :
    Records (Write.Plain now) (settle policy now id worker result) := by
  rw [settle, load]
  apply Records.query
  intro stored
  split
  · exact Records.done _
  split
  · exact Records.done _
  split
  · exact Records.done _
  · exact Records.write trivial ⟨JobState.noConfusion, trivial⟩
      (Records.write trivial ⟨trivial, trivial⟩ (Records.done _))

theorem failInner_records (reason : String) :
    Records (Write.Plain now) (failInner policy now id worker reason) := by
  rw [failInner, load]
  apply Records.query
  intro stored
  split
  · exact Records.done _
  split
  · exact Records.done _
  dsimp only
  refine Records.write trivial ⟨trivial, trivial⟩ ?_
  split
  · exact (deadLetter_records _ _ _).bind fun _ => Records.done _
  · exact Records.write trivial ⟨JobState.noConfusion, trivial⟩
      ((putIndex_records _).bind fun _ => Records.done _)

theorem handBack_records : Records (Write.Plain now) (handBack now job) := by
  rw [handBack]
  split
  · next hstl => exact expireAt_records hstl _
  · exact Records.write trivial ⟨JobState.noConfusion, trivial⟩ (putIndex_records _)

theorem handover_records (queue workerPrefix : String) :
    Records (Write.Plain now) (handover now queue workerPrefix) := by
  rw [handover]
  split
  · exact Records.done _
  split
  · exact Records.done _
  apply Records.query
  intro keys
  apply Records.bind _ fun _ => Records.done _
  apply Records.foldlM
  intro handed key
  rw [handoverLease, load]
  apply Records.query
  intro stored
  split
  · exact Records.write trivial ⟨trivial, trivial⟩ (Records.done _)
  split
  · exact Records.write trivial ⟨trivial, trivial⟩ (Records.done _)
  split
  · exact Records.done _
  · exact Records.write trivial ⟨trivial, trivial⟩
      ((handBack_records _).bind fun _ => Records.done _)

theorem expireStaleAt_records : Records (Write.Plain now) (expireStaleAt now) := by
  rw [expireStaleAt]
  apply Records.query
  intro jobs
  apply Records.foldlM
  intro expired job
  rw [expireJob]
  split
  · exact Records.done _
  split
  · next hstl => exact (expireAt_records hstl _).bind fun _ => Records.done _
  · exact Records.done _

theorem timeoutAlerts_records : Records (Write.Plain now) (timeoutAlerts now) := by
  rw [timeoutAlerts]
  apply Records.query
  intro jobs
  apply Records.foldlM
  intro raised job
  rw [timeoutAlert]
  split
  · exact Records.done _
  split
  · exact (recordAlert_records _ _ _).bind fun _ => Records.done _
  · exact Records.done _

theorem releaseClaim_records : Records (fun _ => True) (releaseClaim job) := by
  rw [releaseClaim]
  split
  · exact Records.done _
  apply Records.query
  intro holder
  split
  · exact Records.write_last trivial trivial
  · exact Records.done _

theorem reap_records : Records (fun _ => True) (reap policy now) := by
  rw [reap]
  apply Records.query
  intro jobs
  apply Records.foldlM
  intro reaped job
  rw [reapJob]
  split
  · exact Records.done _
  split
  · exact Records.done _
  apply Records.query
  intro chunks
  apply Records.bind
  · apply Records.foldlM
    intro _ chunk
    exact Records.write_last trivial trivial
  intro _
  apply (releaseClaim_records _).bind
  intro _
  refine Records.write trivial trivial ?_
  refine Records.write trivial trivial ?_
  exact Records.write trivial trivial (Records.done _)

theorem sweep_records (staleNow reapNow : Millis) :
    Records (fun _ => True) (sweep policy now staleNow reapNow) := by
  rw [sweep]
  apply Records.query
  intro jobs
  apply Records.bind
  · exact Records.foldlM
      (fun _ _ => (recoverLeases_records _).any.bind fun _ => Records.done _) (queueNames jobs) 0
  intro _
  apply expireStaleAt_records.any.bind
  intro _
  apply timeoutAlerts_records.any.bind
  intro _
  exact reap_records.bind fun _ => Records.done _

theorem requeueWith_records (options : RequeueOptions) :
    Records (fun _ => True) (requeueWith policy now id options) := by
  rw [requeueWith, load]
  apply Records.query
  intro stored
  split
  · exact Records.done _
  split
  · exact Records.done _
  dsimp only
  refine Records.write trivial trivial ?_
  exact Records.write trivial trivial ((@putIndex_records now _).any.bind fun _ => Records.done _)

theorem repair_records : Records (fun _ => True) repair := by
  rw [repair]
  apply Records.query
  intro jobs
  apply Records.query
  intro keys
  apply Records.bind
  · apply Records.foldlM
    intro removed key
    rw [removeOrphan]
    split
    · exact Records.done _
    · exact Records.write trivial trivial (Records.done _)
  intro indexRemoved
  apply Records.bind
  · apply Records.foldlM
    intro added key
    rw [addMissing]
    apply Records.query
    intro present
    split
    · exact Records.done _
    · exact Records.write trivial trivial (Records.done _)
  intro indexAdded
  apply Records.query
  intro claims
  apply Records.bind
  · apply Records.foldlM
    intro removed entry
    rw [removeClaim]
    split
    · exact Records.done _
    · exact Records.write trivial trivial (Records.done _)
  intro dedupeRemoved
  apply Records.bind
  · apply Records.foldlM
    intro added entry
    rw [addClaim]
    apply Records.query
    intro holder
    split
    · exact Records.done _
    · exact Records.write trivial trivial (Records.done _)
  intro dedupeAdded
  exact Records.done _

theorem Op.files (policy : Policy) {op : Op} (hoth : ∀ now, op ≠ .nextAlerts now) :
    Files (op.program policy) := by
  have hdis : ∀ {Result : Type} {allowed : Write → Prop} {operation : Operation Result},
      Records allowed operation → Files (discard operation : Operation Unit) :=
    fun hrecs => (hrecs.bind fun _ => Records.done _).files
  cases op with
  | enqueue now request => exact hdis (enqueue_records _)
  | progress now id chunk => exact hdis (progress_records _ _)
  | take now queue worker leaseMs => exact hdis (take_records _ _ _)
  | heartbeat now id worker extendMs => exact hdis (heartbeat_records _ _ _)
  | settle now id worker result => exact hdis (settle_records _ _ _)
  | fail now id worker reason => exact hdis (failInner_records _ _ _)
  | handover now queue workerPrefix => exact hdis (handover_records _ _)
  | expireStale now => exact hdis expireStaleAt_records
  | sweep now staleNow reapNow => exact hdis (sweep_records _ _)
  | nextAlerts now => exact absurd rfl (hoth now)
  | requeue now id options => exact hdis (requeueWith_records _ _)
  | reap now => exact hdis reap_records
  | repair => exact hdis repair_records

end Operations

end WasmAgent.Queue
