import WasmAgent.Core.Interleaving
import WasmAgent.Queue.Walks

/-!
# What an operation may write, whatever else runs

An operation that runs beside others sees records that change under it.
Whatever it sees, it only writes a record that continues the one it saw last
under that id, or a new one under the id it drew from the counter.
-/

namespace WasmAgent.Queue

open List Function WasmAgent.Core WasmAgent.Core.Program

structure Sighting where
  seen : JobId → Option (Option Job)
  counter : Option (Option ℕ)
  drawn : Option JobId
  made : Bool

namespace Sighting

def sees (id : JobId) (record : Option Job) (sighting : Sighting) : Sighting :=
  { sighting with seen := Function.update sighting.seen id (some record) }

@[simp]
theorem seen_sees_self (id : JobId) (record : Option Job) (sighting : Sighting) :
    (sighting.sees id record).seen id = some record := by
  exact update_self ..

@[simp]
theorem seen_sees_of_ne {id other : JobId} (hne : other ≠ id) (record : Option Job)
    (sighting : Sighting) : (sighting.sees id record).seen other = sighting.seen other := by
  exact update_of_ne hne ..

def observe {Reply : Type} (question : Query Reply) (reply : Reply) (sighting : Sighting) :
    Sighting :=
  match question, reply with
  | .job id, reply => sighting.sees id reply
  | .jobs, reply => { sighting with seen := fun id => some (reply.find? (·.id = id)) }
  | .counter .id, reply => { sighting with counter := some reply }
  | _, _ => sighting

def record (write : Write) (sighting : Sighting) : Sighting :=
  match write with
  | .putJob job =>
      { sighting.sees job.id (some job) with
        made := sighting.made || sighting.drawn = some job.id }
  | .delJob id => sighting.sees id none
  | .putCounter .id value =>
      { sighting with
        counter := some (some value)
        drawn := sighting.counter.map (·.getD 1)
        made := false }
  | _ => sighting

end Sighting

def sightings : Memory Query Write Sighting where
  blank := ⟨fun _ => none, none, none, false⟩
  observe := Sighting.observe
  record := Sighting.record

structure Continues (before after : Job) : Prop where
  same : before.SameJob after
  done : before.state = .done → after.state = .done

variable {before : Job}

theorem continues_of_ne {after : Job} (hsame : before.SameJob after)
    (hst : before.state ≠ .done) : Continues before after :=
  ⟨hsame, fun hdone => absurd hdone hst⟩

def Write.Sighted (write : Write) (sighting : Sighting) : Prop :=
  match write with
  | .putJob job =>
      (∃ before, sighting.seen job.id = some (some before) ∧ Continues before job) ∨
        sighting.drawn = some job.id ∧ sighting.made = false
  | .putCounter .id value => sighting.drawn = none ∧
      ∃ stored, sighting.counter = some stored ∧ value = saturatingAddU64 (stored.getD 1) 1
  | _ => True

/-- What a caller learns from a call, as far as it matters here. -/
inductive Report where
  | enqueued (request : EnqueueRequest) (outcome : EnqueueOutcome)
  | settled (id : JobId) (worker : Option String)
  | other
  deriving DecidableEq

/-- An operation with what its caller learns. -/
def Op.reporting (policy : Policy) : Op → Operation Report
  | .enqueue now request => do
      match ← Queue.enqueue policy now request with
      | .ok outcome => return .enqueued request outcome
      | .error _ => return .other
  | .settle now id worker result => do
      match ← Queue.settle policy now id worker result with
      | .ok _ => return .settled id worker
      | .error _ => return .other
  | op => do
      op.program policy
      return .other

def Report.Sighted (report : Report) (sighting : Sighting) : Prop :=
  match report with
  | .enqueued request ⟨id, false⟩ => sighting.drawn = some id ∧
      ∃ job, sighting.seen id = some (some job) ∧ job.queue = request.queue ∧
        job.payload = request.payload
  | .settled id _ => ∃ job, sighting.seen id = some (some job) ∧ job.state = .done
  | _ => True

/-- Legal for the queue: see `Legal`. -/
abbrev Sound {Result : Type} (post : Result → Sighting → Prop) (operation : Operation Result)
    (sighting : Sighting) : Prop :=
  Legal kv sightings Write.Sighted post operation sighting

variable {policy : Policy} {sighting : Sighting}

/-! ## Alerts and ends -/

theorem recordAlert_sound (job : Job) (now : Millis) (kind : AlertKind) (reason : String) :
    Sound (fun _ final => final = sighting) (recordAlert job now kind reason) sighting := by
  unfold recordAlert
  rw [query_bind, Sound, Legal.ask_iff]
  intro store
  split
  · rfl
  unfold nextCounter
  simp only [query_bind, ask_bind, write_bind, put_bind, pure_eq, done_bind, Legal.ask_iff]
  intro current
  exact ⟨trivial, trivial, rfl⟩

variable {job : Job}

theorem expireAt_sound {now : Millis} {reason : String} (hsame : before.SameJob job)
    (hseen : sighting.seen job.id = some (some before)) (hst : before.state ≠ .done) :
    Sound (fun _ final => ∀ id, id ≠ job.id → final.seen id = sighting.seen id)
      (expireAt job now reason) sighting := by
  unfold expireAt save
  simp only [write_bind]
  refine ⟨trivial, trivial, .inl ⟨before, hseen, ?_⟩, ?_⟩
  · exact continues_of_ne (hsame.trans ⟨rfl, rfl, rfl, rfl, rfl, rfl⟩) hst
  apply Legal.bind
  apply (recordAlert_sound _ now .expired reason).weaken
  intro _ final hfin
  subst hfin
  intro id hid
  exact Sighting.seen_sees_of_ne hid _ _

theorem deadLetter_sound {now : Millis} {why : String} {keepError : Bool}
    (hsame : before.SameJob job) (hseen : sighting.seen job.id = some (some before))
    (hst : before.state ≠ .done) :
    Sound (fun _ final => ∀ id, id ≠ job.id → final.seen id = sighting.seen id)
      (deadLetter job now why keepError) sighting := by
  unfold deadLetter save
  simp only [write_bind]
  refine ⟨trivial, trivial, .inl ⟨before, hseen, ?_⟩, ?_⟩
  · exact continues_of_ne (hsame.trans ⟨rfl, rfl, rfl, rfl, rfl, rfl⟩) hst
  apply Legal.bind
  apply (recordAlert_sound _ now .dead _).weaken
  intro _ final hfin
  subst hfin
  intro id hid
  exact Sighting.seen_sees_of_ne hid _ _

theorem back_sound (hsame : before.SameJob job) (hseen : sighting.seen job.id = some (some before))
    (hst : before.state ≠ .done) (hrdy : job.state = .ready) :
    Sound (fun _ _ => True) (do save job; putIndex job) sighting := by
  unfold save putIndex
  rw [hrdy]
  exact ⟨.inl ⟨before, hseen, continues_of_ne hsame hst⟩, trivial, trivial⟩

/-! ## Worker side -/

variable (now : Millis)

theorem recoverJob_sound (hseen : sighting.seen job.id = some (some job))
    (hls : job.state = .leased) :
    Sound (fun _ _ => True) (recoverJob policy now (job.lapsed now)) sighting := by
  have hst : job.state ≠ .done := by
    rw [hls]
    decide
  have hsame : job.SameJob (job.lapsed now) := ⟨rfl, rfl, rfl, rfl, rfl, rfl⟩
  unfold recoverJob
  split
  · exact (expireAt_sound hsame hseen hst).weaken (fun _ _ _ => trivial)
  split
  · exact (deadLetter_sound hsame hseen hst).weaken (fun _ _ _ => trivial)
  split
  · exact (deadLetter_sound hsame hseen hst).weaken (fun _ _ _ => trivial)
  have hback : ∀ instant, job.SameJob ((job.lapsed now).readyAt instant) := by
    intro instant
    exact ⟨rfl, rfl, rfl, rfl, rfl, rfl⟩
  exact back_sound (hback _) hseen hst rfl

theorem seen_loaded {store : Store} {id : JobId} {job : Job} (hjob : store.jobs[id]? = some job) :
    (sightings.observe (.job id) store.jobs[id]? sighting).seen job.id = some (some job) := by
  rw [store.jobs_id id job hjob, hjob]
  exact sighting.seen_sees_self id (some job)

variable {Result : Type} {post : Result → Sighting → Prop}

theorem load_sound {id : JobId}
    {next : Option Job → Operation Result} (hnone : ∀ after, Sound post (next none) after)
    (hsome : ∀ job after, after.seen job.id = some (some job) → job.id = id →
      Sound post (next (some job)) after) : Sound post (load id >>= next) sighting := by
  unfold load
  rw [query_bind, Sound, Legal.ask_iff]
  intro store
  rw [answer_job]
  have hload := @seen_loaded sighting store id
  cases hjob : store.jobs[id]? with
  | none => exact hnone _
  | some job =>
    rw [hjob] at hload
    exact hsome job _ (hload rfl) (store.jobs_id id job hjob)

theorem recoverLease_sound (queue : String) (now : Millis) (recovered : ℕ) (key : IndexKey) :
    Sound (fun _ _ => True) (recoverLease policy queue now recovered key) sighting := by
  unfold recoverLease
  apply load_sound
  · exact fun _ => ⟨trivial, trivial⟩
  intro job _ hseen _
  dsimp only
  split
  · exact ⟨trivial, trivial⟩
  rename_i hmat
  obtain ⟨-, hls⟩ := not_or.mp hmat
  rw [not_not] at hls
  split
  · trivial
  rw [write_bind]
  refine ⟨trivial, ?_⟩
  apply Legal.bind
  apply (recoverJob_sound now hseen hls).weaken
  intro _ _ _
  trivial

theorem recoverLeases_sound (queue : String) (now : Millis) :
    Sound (fun _ _ => True) (recoverLeases policy queue now) sighting := by
  unfold recoverLeases
  rw [query_bind, Sound, Legal.ask_iff]
  intro store
  exact Legal.foldlM (fun _ _ _ => True)
    (fun key _ recovered _ _ => recoverLease_sound queue now recovered key)
    (fun _ _ _ => trivial) _ 0 trivial

theorem takeFrom_sound (queue worker : String) (now leaseMs : Millis) (keys : List IndexKey) :
    Sound (fun _ _ => True) (takeFrom policy queue worker now leaseMs keys) sighting := by
  induction keys generalizing sighting with
  | nil => trivial
  | cons key keys ih =>
    unfold takeFrom
    apply load_sound
    · exact fun _ => ⟨trivial, ih⟩
    intro job _ hseen _
    dsimp only
    have hsame := Job.SameJob.refl job
    split
    · exact ⟨trivial, ih⟩
    rename_i hmat
    obtain ⟨-, hrdy⟩ := not_or.mp hmat
    rw [not_not] at hrdy
    have hst : job.state ≠ .done := by
      rw [hrdy]
      decide
    split
    · apply Legal.bind
      exact (expireAt_sound hsame hseen hst).weaken (fun _ _ _ => ih)
    split
    · apply Legal.bind
      exact (deadLetter_sound hsame hseen hst).weaken (fun _ _ _ => ih)
    split
    · apply Legal.bind
      exact (deadLetter_sound hsame hseen hst).weaken (fun _ _ _ => ih)
    split
    · exact ih
    · exact ⟨.inl ⟨job, hseen, continues_of_ne
        (job.same_leasedTo worker now leaseMs) hst⟩, trivial, trivial, trivial⟩

theorem take_sound (queue worker : String) (leaseMs : Option Millis) :
    Sound (fun _ _ => True) (take policy now queue worker leaseMs) sighting := by
  unfold take
  split
  · trivial
  split
  · trivial
  dsimp only
  split
  · trivial
  apply Legal.bind
  apply (recoverLeases_sound queue now).weaken
  intro _ middle _
  unfold countIndex
  rw [query_bind, ask_bind, Legal.ask_iff]
  intro store
  simp only [pure_eq, done_bind]
  split
  · trivial
  rw [query_bind, Legal.ask_iff]
  intro current
  apply Legal.bind
  apply (takeFrom_sound queue worker now _ _).weaken
  intro _ _ _
  trivial

theorem leased_of_holdsLease {worker : String} (hhld : ¬ (!holdsLease job worker) = true) :
    job.state = .leased := by
  simp only [holdsLease, Bool.not_eq_eq_eq_not, Bool.not_true, Bool.not_eq_false,
    decide_eq_true_eq] at hhld
  exact hhld.1

theorem ne_done_of_leased (hls : job.state = .leased) : job.state ≠ .done := by
  rw [hls]
  decide

variable (id : JobId)

theorem heartbeat_sound (worker : String) (extendMs : Option Millis) :
    Sound (fun _ _ => True) (heartbeat policy now id worker extendMs) sighting := by
  unfold heartbeat
  apply load_sound
  · exact fun _ => trivial
  intro job _ hseen _
  dsimp only
  split
  · trivial
  rename_i hhld
  have hst := ne_done_of_leased (leased_of_holdsLease hhld)
  split
  · trivial
  · exact ⟨.inl ⟨job, hseen, continues_of_ne (job.same_heldUntil _ now) hst⟩, trivial⟩

variable (worker : Option String)

theorem settle_sound (result : Bytes) :
    Sound (fun outcome final => ∀ job, outcome = .ok job →
        ∃ record, final.seen id = some (some record) ∧ record.state = .done)
      (settle policy now id worker result) sighting := by
  unfold settle
  apply load_sound
  · intro _ job hjob
    cases hjob
  intro job _ hseen hid
  dsimp only
  split
  · intro other hoth
    cases hoth
  rename_i hheld
  have hst := ne_done_of_leased (leased_of_not_leaseLost hheld)
  split
  · intro other hoth
    cases hoth
  refine ⟨.inl ⟨job, hseen, continues_of_ne (job.same_settledWith result now) hst⟩, trivial, ?_⟩
  intro other _
  refine ⟨job.settledWith result now, ?_, rfl⟩
  rw [← hid]
  exact Sighting.seen_sees_self job.id _ _

theorem failInner_sound (reason : String) :
    Sound (fun _ _ => True) (failInner policy now id worker reason) sighting := by
  unfold failInner
  apply load_sound
  · exact fun _ => trivial
  intro job _ hseen _
  dsimp only
  split
  · trivial
  rename_i hheld
  have hst := ne_done_of_leased (leased_of_not_leaseLost hheld)
  have hsame : job.SameJob (job.failedWith reason now) := ⟨rfl, rfl, rfl, rfl, rfl, rfl⟩
  rw [write_bind]
  refine ⟨trivial, ?_⟩
  split
  · apply Legal.bind
    apply (deadLetter_sound hsame hseen hst).weaken
    intro _ _ _
    trivial
  · exact ⟨.inl ⟨job, hseen, continues_of_ne ⟨rfl, rfl, rfl, rfl, rfl, rfl⟩ hst⟩,
      trivial, trivial⟩

theorem handoverLease_sound (queue workerPrefix : String) (now : Millis) (handed : ℕ)
    (key : IndexKey) :
    Sound (fun _ _ => True) (handoverLease queue workerPrefix now handed key) sighting := by
  unfold handoverLease
  apply load_sound
  · exact fun _ => ⟨trivial, trivial⟩
  intro job _ hseen _
  dsimp only
  split
  · exact ⟨trivial, trivial⟩
  rename_i hmat
  obtain ⟨-, hls⟩ := not_or.mp hmat
  rw [not_not] at hls
  have hst := ne_done_of_leased hls
  split
  · trivial
  rw [write_bind]
  refine ⟨trivial, ?_⟩
  apply Legal.bind
  unfold handBack
  split
  · have hsame : job.SameJob (job.released now) := ⟨rfl, rfl, rfl, rfl, rfl, rfl⟩
    apply (expireAt_sound hsame hseen hst).weaken
    intro _ _ _
    trivial
  · have hsame : job.SameJob ((job.released now).readyAt now) :=
      ⟨rfl, rfl, rfl, rfl, rfl, rfl⟩
    exact (back_sound hsame hseen hst rfl).weaken (fun _ _ _ => trivial)

theorem handover_sound (queue workerPrefix : String) :
    Sound (fun _ _ => True) (handover now queue workerPrefix) sighting := by
  unfold handover
  split
  · trivial
  split
  · trivial
  rw [query_bind, Sound, Legal.ask_iff]
  intro store
  apply Legal.bind
  exact Legal.foldlM (fun _ _ _ => True)
    (fun key _ handed _ _ => handoverLease_sound queue workerPrefix now handed key)
    (fun _ _ _ => trivial) _ 0 trivial

/-! ## Producer and admin -/

theorem progress_sound (chunk : Bytes) :
    Sound (fun _ _ => True) (progress policy now id chunk) sighting := by
  unfold progress
  apply load_sound
  · exact fun _ => trivial
  intro job _ hseen _
  dsimp only
  split
  · trivial
  · exact ⟨trivial, .inl ⟨job, hseen, job.same_withChunk chunk now, fun hdone => hdone⟩, trivial⟩

theorem requeueWith_sound (options : RequeueOptions) :
    Sound (fun _ _ => True) (requeueWith policy now id options) sighting := by
  unfold requeueWith
  apply load_sound
  · exact fun _ => trivial
  intro job _ hseen _
  dsimp only
  split
  · trivial
  rename_i hdead
  rw [not_not] at hdead
  have hst : job.state ≠ .done := by
    rw [hdead]
    decide
  exact ⟨.inl ⟨job, hseen, continues_of_ne (job.same_revived policy now options)
    hst⟩, trivial, trivial, trivial⟩


theorem claimHolder_sound (claim : Option ClaimKey) :
    Sound (fun _ final => final.drawn = sighting.drawn) (claimHolder claim) sighting := by
  unfold claimHolder
  split
  · rfl
  rw [query_bind, Sound, Legal.ask_iff]
  intro store
  split
  · rfl
  unfold load
  rw [query_bind, Legal.ask_iff]
  intro current
  rfl

theorem putClaim_sound {next : Unit → Operation Result}
    (hnext : Sound post (next ()) sighting) : Sound post (putClaim job >>= next) sighting := by
  unfold putClaim
  split
  · exact hnext
  · exact ⟨trivial, hnext⟩

theorem enqueue_sound (request : EnqueueRequest) (hblank : sighting.drawn = none) :
    Sound (fun outcome final => ∀ id, outcome = .ok ⟨id, false⟩ → final.drawn = some id ∧
        ∃ job, final.seen id = some (some job) ∧ job.queue = request.queue ∧
          job.payload = request.payload)
      (enqueue policy now request) sighting := by
  unfold enqueue
  split
  · intro id hid
    cases hid
  split
  · intro id hid
    cases hid
  apply Legal.bind
  apply (claimHolder_sound _).weaken
  intro holder middle hhldr
  cases holder with
  | some holder =>
    intro id hid
    cases hid
  | none =>
    unfold countIndex nextCounter
    rw [query_bind, ask_bind, Legal.ask_iff]
    intro store
    simp only [pure_eq, done_bind]
    split
    · intro id hid
      cases hid
    rw [query_bind, ask_bind, Legal.ask_iff]
    intro current
    simp only [write_bind, put_bind, done_bind]
    refine ⟨⟨hhldr.trans hblank, current.nextId, rfl, rfl⟩, ?_⟩
    apply putClaim_sound
    refine ⟨.inr ⟨rfl, rfl⟩, trivial, ?_⟩
    intro id hid
    cases hid
    exact ⟨rfl, _, Sighting.seen_sees_self _ _ _, rfl, rfl⟩

/-! ## Sweeps, alerts, repair -/

/-- The records of a scan that are left are as they were seen. -/
structure Ahead (jobs : List Job) (sighting : Sighting) : Prop where
  seen : ∀ job ∈ jobs, sighting.seen job.id = some (some job)
  distinct : (jobs.map Job.id).Nodup

variable {jobs : List Job}

theorem find?_of_mem (hdist : (jobs.map Job.id).Nodup) (hjob : job ∈ jobs) :
    jobs.find? (·.id = job.id) = some job := by
  induction jobs with
  | nil => cases hjob
  | cons first jobs ih =>
    obtain ⟨hfst, hrest⟩ := nodup_cons.mp hdist
    rcases mem_cons.mp hjob with rfl | hltr
    · simp
    have hne : first.id ≠ job.id := by
      intro heq
      apply hfst
      rw [heq]
      exact mem_map_of_mem hltr
    rw [find?_cons_of_neg (by simpa using hne)]
    exact ih hrest hltr

theorem Ahead.start (store : Store) :
    Ahead store.allJobs (sightings.observe .jobs store.allJobs sighting) where
  seen := by
    intro job hjob
    exact congrArg some (find?_of_mem (@Known.start store).distinct hjob)
  distinct := (@Known.start store).distinct

theorem Ahead.tail (hahead : Ahead (job :: jobs) sighting) : Ahead jobs sighting where
  seen := by
    intro other hoth
    exact hahead.seen other (mem_cons_of_mem job hoth)
  distinct := (nodup_cons.mp hahead.distinct).2

theorem expireJob_sound (now : Millis) (expired : List JobId)
    (hahead : Ahead (job :: jobs) sighting) :
    Sound (fun _ final => Ahead jobs final) (expireJob now expired job) sighting := by
  unfold expireJob
  split
  · exact hahead.tail
  rename_i hrdy
  rw [not_not] at hrdy
  have hst : job.state ≠ .done := by
    rw [hrdy]
    decide
  split
  · apply Legal.bind
    apply (expireAt_sound (Job.SameJob.refl job) (hahead.seen job mem_cons_self) hst).weaken
    intro _ final hfin
    refine ⟨?_, hahead.tail.distinct⟩
    intro other hoth
    have hne : other.id ≠ job.id := by
      intro heq
      apply (nodup_cons.mp hahead.distinct).1
      rw [← heq]
      exact mem_map_of_mem hoth
    rw [hfin other.id hne]
    exact hahead.tail.seen other hoth
  · exact hahead.tail

theorem expireStaleAt_sound : Sound (fun _ _ => True) (expireStaleAt now) sighting := by
  unfold expireStaleAt
  rw [query_bind, Sound, Legal.ask_iff]
  intro store
  exact Legal.foldlM (fun jobs _ current => Ahead jobs current)
    (fun job jobs expired current hahead => expireJob_sound now expired hahead)
    (fun _ _ _ => trivial) _ [] (Ahead.start store)

theorem timeoutAlerts_sound : Sound (fun _ _ => True) (timeoutAlerts now) sighting := by
  unfold timeoutAlerts
  rw [query_bind, Sound, Legal.ask_iff]
  intro store
  apply Legal.foldlM (fun _ _ _ => True) _ (fun _ _ _ => trivial) _ 0 trivial
  intro job _ raised current _
  unfold timeoutAlert
  split
  · trivial
  split
  · apply Legal.bind
    apply (recordAlert_sound job now _ _).weaken
    intro _ _ _
    trivial
  · trivial

theorem reapJob_sound (reaped : ℕ) (job : Job) :
    Sound (fun _ _ => True) (reapJob policy now reaped job) sighting := by
  unfold reapJob
  split
  · trivial
  split
  · trivial
  rw [query_bind, Sound, Legal.ask_iff]
  intro store
  apply Legal.bind
  apply Legal.foldlM (fun _ _ _ => True)
  · intro chunk _ _ _ _
    exact ⟨trivial, trivial⟩
  · intro _ current _
    apply Legal.bind
    have hrest : ∀ final, Sound (fun _ _ => True) (do
        write (.delIndex (indexKey job .ready))
        write (.delIndex (indexKey job .leased))
        write (.delJob job.id)
        return reaped + 1) final := by
      intro final
      exact ⟨trivial, trivial, trivial, trivial⟩
    unfold releaseClaim
    split
    · exact hrest current
    rw [query_bind, Legal.ask_iff]
    intro store
    split
    · exact ⟨trivial, hrest _⟩
    · exact hrest _
  · trivial

theorem reap_sound : Sound (fun _ _ => True) (reap policy now) sighting := by
  unfold reap
  rw [query_bind, Sound, Legal.ask_iff]
  intro store
  exact Legal.foldlM (fun _ _ _ => True)
    (fun job _ reaped _ _ => reapJob_sound now reaped job) (fun _ _ _ => trivial) _ 0 trivial

theorem sweep_sound (now staleNow reapNow : Millis) :
    Sound (fun _ _ => True) (sweep policy now staleNow reapNow) sighting := by
  unfold sweep
  rw [query_bind, Sound, Legal.ask_iff]
  intro store
  apply Legal.bind
  apply Legal.foldlM (fun _ _ _ => True)
  · intro queue _ total current _
    apply Legal.bind
    apply (recoverLeases_sound queue now).weaken
    intro _ _ _
    trivial
  · intro _ recovered _
    apply Legal.bind
    apply (expireStaleAt_sound staleNow).weaken
    intro _ expired _
    apply Legal.bind
    apply (timeoutAlerts_sound now).weaken
    intro _ timedOut _
    apply Legal.bind
    apply (reap_sound reapNow).weaken
    intro _ _ _
    trivial
  · trivial

theorem nextAlerts_sound : Sound (fun _ _ => True) (nextAlerts policy now) sighting := by
  unfold nextAlerts
  rw [query_bind, Sound, Legal.ask_iff]
  intro store
  split
  · trivial
  rw [query_bind, Legal.ask_iff]
  intro current
  apply Legal.bind
  apply Legal.foldlM (fun _ _ _ => True)
  · intro alert _ found _ _
    unfold sortAlert
    split
    · trivial
    · split
      · exact ⟨trivial, trivial⟩
      · trivial
  · intro found _ _
    split
    · trivial
    apply Legal.bind
    apply Legal.foldlM (fun _ _ _ => True)
    · intro alert _ items _ _
      exact ⟨trivial, trivial⟩
    · intro items _ _
      exact ⟨trivial, trivial⟩
    · trivial
  · trivial

theorem repair_sound : Sound (fun _ _ => True) repair sighting := by
  unfold repair
  rw [query_bind, Sound, Legal.ask_iff]
  intro store
  rw [query_bind, Legal.ask_iff]
  intro scanned
  apply Legal.bind
  apply Legal.foldlM (fun _ _ _ => True)
  · intro key _ removed _ _
    unfold removeOrphan
    split
    · trivial
    · exact ⟨trivial, trivial⟩
  · intro _ _ _
    apply Legal.bind
    apply Legal.foldlM (fun _ _ _ => True)
    · intro key _ added _ _
      unfold addMissing
      rw [query_bind, Legal.ask_iff]
      intro current
      split
      · trivial
      · exact ⟨trivial, trivial⟩
    · intro _ _ _
      rw [query_bind, Legal.ask_iff]
      intro claims
      apply Legal.bind
      apply Legal.foldlM (fun _ _ _ => True)
      · intro entry _ removed _ _
        unfold removeClaim
        split
        · trivial
        · exact ⟨trivial, trivial⟩
      · intro _ _ _
        apply Legal.bind
        apply Legal.foldlM (fun _ _ _ => True)
        · intro entry _ added _ _
          unfold addClaim
          rw [query_bind, Legal.ask_iff]
          intro current
          split
          · trivial
          · exact ⟨trivial, trivial⟩
        · intro _ _ _
          trivial
        · trivial
      · trivial
    · trivial
  · trivial

/-! ## All of them -/

theorem reporting_other {operation : Operation Result}
    (hsound : Sound (fun _ _ => True) operation sighting) :
    Sound Report.Sighted (do let _ ← (discard operation : Operation Unit); return .other)
      sighting := by
  apply Legal.bind
  apply Legal.bind
  apply hsound.weaken
  intro _ _ _
  trivial

theorem Op.sound (policy : Policy) (op : Op) :
    Sound Report.Sighted (op.reporting policy) sightings.blank := by
  cases op with
  | enqueue now request =>
    apply Legal.bind
    apply (enqueue_sound now request rfl).weaken
    intro outcome final hfin
    cases outcome with
    | error _ => trivial
    | ok outcome =>
      obtain ⟨id, dedupeHit⟩ := outcome
      cases dedupeHit with
      | true => trivial
      | false => exact hfin id rfl
  | settle now id worker result =>
    apply Legal.bind
    apply (settle_sound now id worker result).weaken
    intro outcome final hfin
    cases outcome with
    | error _ => trivial
    | ok job => exact hfin job rfl
  | progress now id chunk => exact reporting_other (progress_sound now id chunk)
  | take now queue worker leaseMs => exact reporting_other (take_sound now queue worker leaseMs)
  | heartbeat now id worker extendMs =>
    exact reporting_other (heartbeat_sound now id worker extendMs)
  | fail now id worker reason => exact reporting_other (failInner_sound now id worker reason)
  | handover now queue workerPrefix => exact reporting_other (handover_sound now queue workerPrefix)
  | expireStale now => exact reporting_other (expireStaleAt_sound now)
  | sweep now staleNow reapNow => exact reporting_other (sweep_sound now staleNow reapNow)
  | nextAlerts now => exact reporting_other (nextAlerts_sound now)
  | requeue now id options => exact reporting_other (requeueWith_sound now id options)
  | reap now => exact reporting_other (reap_sound now)
  | repair => exact reporting_other repair_sound

end WasmAgent.Queue
