import WasmAgent.Queue.Freshness

/-!
# What a job's attempts pay for

Every lease is paid for when it ends: a failure costs an attempt, a lapsed lease a
lease loss, and a handover costs nothing.  From this come the bound on how often a
job is leased, the bound on its attempts, and the fence against a worker whose
lease is gone.
-/

namespace WasmAgent.Queue

open List Option WasmAgent.Core WasmAgent.Core.Program

variable {policy : Policy} {store : Store}

/-- A step of a record that gives out no lease and pays for one that comes back. -/
structure Pays (policy : Policy) (job job' : Job) : Prop where
  evolves : Evolves policy job job'
  paid : job.state = .leased → job'.state = .ready →
    job'.attempts = job.attempts + 1 ∧ job'.leaseExpiries = job.leaseExpiries ∧
        job.attempts + 1 < job.maxAttempts ∨
      job'.attempts = job.attempts ∧ job'.leaseExpiries = job.leaseExpiries + 1 ∧
        job.leaseExpiries + 1 ≤ policy.maxLeaseLosses
  held : job'.state = .leased → job.state = .leased ∧ job'.leaseWorker = job.leaseWorker

/-- Every record comes from the record before by such steps. -/
def Follows (policy : Policy) (before after : Store) : Prop :=
  ∀ (id : JobId) (job' : Job), after.jobs[id]? = some job' →
    ∃ job, before.jobs[id]? = some job ∧ Relation.ReflTransGen (Pays policy) job job'

variable {final : Store} {job job' : Job}

namespace Follows

theorem refl (store : Store) : Follows policy store store :=
  fun _ job hjob => ⟨job, hjob, .refl⟩

theorem trans {middle : Store} (hfst : Follows policy store middle)
    (hsnd : Follows policy middle final) : Follows policy store final := by
  intro id job' hjob'
  obtain ⟨job, hjob, hstps⟩ := hsnd id job' hjob'
  obtain ⟨first, hsto, hearl⟩ := hfst id job hjob
  exact ⟨first, hsto, hearl.trans hstps⟩

theorem of_jobs (hjobs : final.jobs = store.jobs) : Follows policy store final := by
  intro id job hjob
  rw [hjobs] at hjob
  exact ⟨job, hjob, .refl⟩

theorem of_step (hjob : store.jobs[job.id]? = some job) (hpays : Pays policy job job')
    (hfin : ∀ id : JobId, final.jobs[id]? = if job.id = id then some job' else store.jobs[id]?) :
    Follows policy store final := by
  intro id after haft
  rw [hfin] at haft
  split at haft
  · rename_i hid
    subst hid
    cases haft
    exact ⟨job, hjob, .single hpays⟩
  · exact ⟨after, haft, .refl⟩

end Follows

/-! ## The steps -/

theorem pays_append (job : Job) (chunk : Bytes) (now : Millis) :
    Pays policy job (job.withChunk chunk now) where
  evolves := .append chunk now
  paid := by
    intro hleas hready
    rw [show (job.withChunk chunk now).state = job.state from rfl, hleas] at hready
    cases hready
  held := fun hleas => ⟨hleas, rfl⟩

theorem pays_extend (instant now : Millis) (hleas : job.state = .leased) :
    Pays policy job (job.heldUntil instant now) where
  evolves := .extend instant now hleas
  paid := by
    intro _ hready
    rw [show (job.heldUntil instant now).state = job.state from rfl, hleas] at hready
    cases hready
  held := fun _ => ⟨hleas, rfl⟩

theorem pays_of_terminal (hevo : Evolves policy job job') (hterm : job'.state.isTerminal) :
    Pays policy job job' where
  evolves := hevo
  paid := fun _ hready => absurd hready (JobState.ne_ready_of_terminal hterm)
  held := fun hleas => absurd hleas (JobState.ne_leased_of_terminal hterm)

theorem pays_settle (result : Bytes) (now : Millis) (hleas : job.state = .leased) :
    Pays policy job (job.settledWith result now) :=
  pays_of_terminal (.settle result now hleas) rfl

theorem pays_endReady (hready : job.state = .ready) (hended : EndedReady policy job job') :
    Pays policy job job' :=
  pays_of_terminal (.endReady job' hready hended) hended.terminal

theorem pays_endLease (hleas : job.state = .leased) (hended : EndedLease policy job job') :
    Pays policy job job' :=
  pays_of_terminal (.endLease job' hleas hended) hended.terminal

theorem pays_failed (reason : String) (now : Millis) (hleas : job.state = .leased)
    (hatt : ¬ job.maxAttempts ≤ job.attempts + 1) :
    Pays policy job ((job.failedWith reason now).readyAt
      (saturatingAdd now (policy.retry.delayMs (job.attempts + 1)))) where
  evolves := .back _ hleas (.failed reason now hatt)
  paid := fun _ _ => .inl ⟨rfl, rfl, UInt32.not_le.mp hatt⟩
  held := nofun

variable (now : Millis)

theorem pays_lapsed (hleas : job.state = .leased) (huntil : ¬ job.leaseUntil.any (now < ·))
    (hfre : ¬ job.freshUntil.any (· ≤ now)) (hlos : ¬ policy.maxLeaseLosses < job.leaseExpiries + 1)
    (hatt : ¬ job.maxAttempts ≤ job.attempts) :
    Pays policy job ((job.lapsed now).readyAt
      (saturatingAdd now (policy.retry.delayMs (predU32 (job.leaseExpiries + 1))))) where
  evolves := .back _ hleas (.lapsed now huntil hfre hlos hatt)
  paid := fun _ _ => .inr ⟨rfl, rfl, UInt32.not_lt.mp hlos⟩
  held := nofun

/-! ## The operations -/

theorem progress_follows (id : JobId) (chunk : Bytes) :
    Follows policy store ((progress policy now id chunk).final kv store) := by
  unfold progress load save
  rw [query_bind, final_ask, answer_job]
  split
  · exact Follows.refl store
  rename_i job hjob
  obtain rfl := store.jobs_id id job hjob
  split
  · exact Follows.refl store
  · apply Follows.of_step hjob (pays_append job chunk now)
    intro other
    simp [Job.withChunk]

theorem heartbeat_follows (id : JobId) (worker : String) (extendMs : Option Millis) :
    Follows policy store ((heartbeat policy now id worker extendMs).final kv store) := by
  unfold heartbeat load save
  rw [query_bind, final_ask, answer_job]
  split
  · exact Follows.refl store
  rename_i job hjob
  obtain rfl := store.jobs_id id job hjob
  split
  · exact Follows.refl store
  rename_i hhld
  have hleas : job.state = .leased := by
    simp [holdsLease] at hhld
    exact hhld.1
  dsimp only
  split
  · exact Follows.refl store
  apply Follows.of_step hjob (pays_extend _ now hleas)
  intro other
  rw [write_bind, final_put, pure_eq, final_done, jobs_apply]
  rfl

theorem settle_follows (id : JobId) (worker : Option String) (result : Bytes) :
    Follows policy store ((settle policy now id worker result).final kv store) := by
  unfold settle load save
  rw [query_bind, final_ask, answer_job]
  split
  · exact Follows.refl store
  rename_i job hjob
  obtain rfl := store.jobs_id id job hjob
  split
  · exact Follows.refl store
  rename_i hheld
  split
  · exact Follows.refl store
  · apply Follows.of_step hjob (pays_settle result now (leased_of_not_leaseLost hheld))
    intro other
    simp [Job.settledWith]

theorem failInner_follows (id : JobId) (worker : Option String) (reason : String) :
    Follows policy store ((failInner policy now id worker reason).final kv store) := by
  unfold failInner load save
  rw [query_bind, final_ask, answer_job]
  split
  · exact Follows.refl store
  rename_i job hjob
  obtain rfl := store.jobs_id id job hjob
  split
  · exact Follows.refl store
  rename_i hheld
  have hleas := leased_of_not_leaseLost hheld
  rw [write_bind, final_put]
  split
  · rename_i hatt
    apply Follows.of_step hjob (pays_endLease hleas (.failed reason now hatt))
    intro other
    rw [final_bind, pure_eq, final_done, deadLetter_jobs, jobs_apply]
    rfl
  rename_i hatt
  apply Follows.of_step hjob (pays_failed reason now hleas hatt)
  intro other
  simp [putIndex, Job.readyAt, Job.failedWith, JobState.slot, write]

theorem recoverJob_follows {now : Millis} (hjob : store.jobs[job.id]? = some job)
    (hleas : job.state = .leased) (huntil : ¬ job.leaseUntil.any (now < ·)) :
    Follows policy store ((recoverJob policy now (job.lapsed now)).final kv store) := by
  unfold recoverJob
  split
  · rename_i hfre
    apply Follows.of_step hjob (pays_endLease hleas (.stale now huntil hfre))
    intro id
    rw [expireAt_jobs]
    rfl
  rename_i hfre
  split
  · rename_i hlos
    apply Follows.of_step hjob (pays_endLease hleas (.lost now huntil hlos))
    intro id
    rw [deadLetter_jobs]
    rfl
  rename_i hlos
  split
  · rename_i hatt
    apply Follows.of_step hjob (pays_endLease hleas (.exhausted now huntil hatt))
    intro id
    rw [deadLetter_jobs]
    rfl
  rename_i hatt
  apply Follows.of_step hjob (pays_lapsed now hleas huntil hfre hlos hatt)
  intro id
  simp [save, putIndex, Job.readyAt, Job.lapsed, JobState.slot, write]

theorem recoverLease_follows (queue : String) (now : Millis) (recovered : ℕ) (key : IndexKey) :
    Follows policy store ((recoverLease policy queue now recovered key).final kv store) := by
  unfold recoverLease load
  rw [query_bind, final_ask, answer_job]
  split
  · exact Follows.of_jobs rfl
  rename_i job hjob
  obtain hid := store.jobs_id key.id job hjob
  split
  · exact Follows.of_jobs rfl
  rename_i hmat
  obtain ⟨-, hleas⟩ := not_or.mp hmat
  rw [not_not] at hleas
  split
  · exact Follows.refl store
  rename_i huntil
  rw [write_bind, final_put, final_bind, pure_eq, final_done]
  have hsto : (kv.apply (.delIndex key) store).jobs[job.id]? = some job := by
    rw [jobs_apply, hid]
    exact hjob
  exact recoverJob_follows hsto hleas huntil

theorem recoverLeases_follows (queue : String) (now : Millis) :
    Follows policy store ((recoverLeases policy queue now).final kv store) := by
  unfold recoverLeases
  rw [query_bind, final_ask]
  apply foldlM_outcome (recoverLease policy queue now) (fun _ current => Follows policy store current)
  · intro key keys recovered current hcur
    exact hcur.trans (recoverLease_follows queue now recovered key)
  · exact Follows.refl store

/-- One record scanned earlier changes, the others left are still as scanned. -/
theorem Known.rest {jobs : List Job} (hknw : Known (job :: jobs) store)
    (hoths : ∀ id : JobId, job.id ≠ id → final.jobs[id]? = store.jobs[id]?) : Known jobs final where
  stored := by
    intro other hoth
    have hid : job.id ≠ other.id := by
      intro heq
      apply (nodup_cons.mp hknw.distinct).1
      rw [heq]
      exact List.mem_map_of_mem hoth
    rw [hoths other.id hid]
    exact hknw.tail.stored other hoth
  distinct := hknw.tail.distinct

theorem expireJob_follows {job : Job} {jobs : List Job} (now : Millis) (expired : List JobId)
    (hknw : Known (job :: jobs) store) :
    Known jobs ((expireJob now expired job).final kv store) ∧
      Follows policy store ((expireJob now expired job).final kv store) := by
  unfold expireJob
  split
  · exact ⟨hknw.tail, Follows.refl store⟩
  rename_i hready
  rw [not_not] at hready
  split
  · rename_i hfre
    rw [final_bind, pure_eq, final_done]
    constructor
    · apply hknw.rest
      intro id hid
      rw [expireAt_jobs, if_neg hid]
    · apply Follows.of_step hknw.head (pays_endReady hready (.stale now hfre))
      intro id
      rw [expireAt_jobs]
  · exact ⟨hknw.tail, Follows.refl store⟩

theorem expireStaleAt_follows : Follows policy store ((expireStaleAt now).final kv store) := by
  unfold expireStaleAt
  rw [query_bind, final_ask]
  have hloop := foldlM_outcome (expireJob now)
    (fun jobs current => Known jobs current ∧ Follows policy store current)
    (by
      intro job jobs expired current hcur
      obtain ⟨hknw, hfol⟩ := hcur
      have hround := @expireJob_follows policy current job jobs now expired hknw
      exact ⟨hround.1, hfol.trans hround.2⟩)
    store.allJobs [] ⟨Known.start, Follows.refl store⟩
  exact hloop.2

theorem timeoutAlerts_jobs : ((timeoutAlerts now).final kv store).jobs = store.jobs := by
  unfold timeoutAlerts
  rw [query_bind, final_ask]
  apply foldlM_outcome (timeoutAlert now) (fun _ current => current.jobs = store.jobs)
  · intro job jobs raised current hcur
    unfold timeoutAlert
    split
    · exact hcur
    split
    · rw [final_bind, pure_eq, final_done, recordAlert_jobs]
      exact hcur
    · exact hcur
  · rfl

theorem reapJob_follows (reaped : ℕ) (job : Job) :
    Follows policy store ((reapJob policy now reaped job).final kv store) := by
  unfold reapJob
  split
  · exact Follows.refl store
  split
  · exact Follows.refl store
  rw [query_bind, final_ask, final_bind]
  have hchun := foldlM_outcome
    (fun (_ : Unit) (chunk : ℕ × Bytes) => write (Write.delChunk ⟨job.id, chunk.1⟩))
    (fun _ current => current.jobs = store.jobs)
    (by
      intro chunk chunks _ current hcur
      exact hcur)
    (kv.answer (Query.chunks job.id) store) () rfl
  have hrel : ∀ current : Store, ((releaseClaim job).final kv current).jobs = current.jobs := by
    intro current
    unfold releaseClaim
    split
    · rfl
    · rw [query_bind, final_ask]
      split <;> rfl
  rw [final_bind]
  simp only [write_bind, final_put, pure_eq, final_done]
  intro id job' hjob'
  simp only [jobs_apply] at hjob'
  split at hjob'
  · cases hjob'
  · rw [hrel, hchun] at hjob'
    exact ⟨job', hjob', .refl⟩

theorem reap_follows : Follows policy store ((reap policy now).final kv store) := by
  unfold reap
  rw [query_bind, final_ask]
  apply foldlM_outcome (reapJob policy now) (fun _ current => Follows policy store current)
  · intro job jobs reaped current hcur
    exact hcur.trans (reapJob_follows now reaped job)
  · exact Follows.refl store

theorem sweep_follows (now staleNow reapNow : Millis) :
    Follows policy store ((sweep policy now staleNow reapNow).final kv store) := by
  unfold sweep
  rw [query_bind, final_ask, final_bind, final_bind, final_bind, final_bind, pure_eq, final_done]
  have hrecv := foldlM_outcome
    (fun (total : ℕ) (queue : String) => (do
      let recovered ← recoverLeases policy queue now
      return total + recovered : Operation ℕ))
    (fun _ current => Follows policy store current)
    (by
      intro queue queues total current hcur
      rw [final_bind, pure_eq, final_done]
      exact hcur.trans (recoverLeases_follows queue now))
    (queueNames store.allJobs) 0 (Follows.refl store)
  apply (hrecv.trans (expireStaleAt_follows staleNow)).trans
  exact (Follows.of_jobs (timeoutAlerts_jobs now)).trans (reap_follows reapNow)

theorem nextAlerts_jobs : ((nextAlerts policy now).final kv store).jobs = store.jobs := by
  unfold nextAlerts
  rw [query_bind, final_ask]
  split
  · rfl
  rw [query_bind, final_ask, final_bind]
  have hsrt := foldlM_outcome (sortAlert policy now)
    (fun _ current => current.jobs = store.jobs)
    (by
      intro alert alerts found current hcur
      unfold sortAlert
      split
      · exact hcur
      · split
        · exact hcur
        · exact hcur)
    (kv.answer Query.alerts store) ([], 0) rfl
  split
  · exact hsrt
  rw [final_bind]
  exact foldlM_outcome sendAlert (fun _ current => current.jobs = store.jobs)
    (by
      intro alert alerts items current hcur
      exact hcur) _ [] hsrt

/-! ## Take -/

inductive LeasedFrom (policy : Policy) (worker : String) (job : Job) : Job → Prop where
  | lease (now leaseMs : Millis) (hready : job.state = .ready)
      (hattempts : ¬ job.maxAttempts ≤ job.attempts)
      (hlosses : ¬ policy.maxLeaseLosses < job.leaseExpiries) :
      LeasedFrom policy worker job (job.leasedTo worker now leaseMs)

/-- Every record pays for its steps, and the one that `take` returns is leased last. -/
def Hires (policy : Policy) (worker : String) (before : Store)
    (result : Except QueueError TakeOutcome) (after : Store) : Prop :=
  ∀ (id : JobId) (job' : Job), after.jobs[id]? = some job' →
    ∃ first job, before.jobs[id]? = some first ∧ Relation.ReflTransGen (Pays policy) first job ∧
      ((∀ taken, result = .ok (.job taken) → taken.id ≠ id) ∧ job' = job ∨
        result = .ok (.job job') ∧ LeasedFrom policy worker job job')

namespace Hires

variable {worker : String} {result : Except QueueError TakeOutcome}

theorem of_follows (hfol : Follows policy store final)
    (hnone : ∀ taken, result ≠ .ok (.job taken)) : Hires policy worker store result final := by
  intro id job' hjob'
  obtain ⟨first, hfst, hstps⟩ := hfol id job' hjob'
  exact ⟨first, job', hfst, hstps, .inl ⟨fun taken htkn => absurd htkn (hnone taken), rfl⟩⟩

theorem after {middle : Store} (hfol : Follows policy store middle)
    (hhires : Hires policy worker middle result final) :
    Hires policy worker store result final := by
  intro id job' hjob'
  obtain ⟨first, job, hfst, hstps, hlast⟩ := hhires id job' hjob'
  obtain ⟨origin, horig, hearl⟩ := hfol id first hfst
  exact ⟨origin, job, horig, hearl.trans hstps, hlast⟩

end Hires

theorem takeFrom_hires (queue worker : String) (now leaseMs : Millis) (keys : List IndexKey) :
    Hires policy worker store
      (.ok ((takeFrom policy queue worker now leaseMs keys).result kv store))
      ((takeFrom policy queue worker now leaseMs keys).final kv store) := by
  induction keys generalizing store with
  | nil =>
    apply Hires.of_follows (Follows.refl store)
    intro taken htkn
    rw [takeFrom, pure_eq, result_done] at htkn
    cases htkn
  | cons key keys ih =>
    unfold takeFrom load
    rw [query_bind, final_ask, result_ask, answer_job]
    split
    · exact Hires.after (Follows.of_jobs rfl) ih
    rename_i job hjob
    have hid := store.jobs_id key.id job hjob
    have hown : store.jobs[job.id]? = some job := by
      rw [hid]
      exact hjob
    split
    · exact Hires.after (Follows.of_jobs rfl) ih
    rename_i hmat
    obtain ⟨-, hready⟩ := not_or.mp hmat
    rw [not_not] at hready
    split
    · rename_i hfre
      rw [result_bind, final_bind]
      apply Hires.after _ ih
      apply Follows.of_step hown (pays_endReady hready (.stale now hfre))
      intro id
      rw [expireAt_jobs]
    split
    · rename_i hatt
      rw [result_bind, final_bind]
      apply Hires.after _ ih
      apply Follows.of_step hown (pays_endReady hready (.exhausted now hatt))
      intro id
      rw [deadLetter_jobs]
    rename_i hatt
    split
    · rename_i hlos
      rw [result_bind, final_bind]
      apply Hires.after _ ih
      apply Follows.of_step hown (pays_endReady hready (.lost now hlos))
      intro id
      rw [deadLetter_jobs]
    rename_i hlos
    split
    · exact ih
    intro id job' hjob'
    have hrec : (if job.id = id then some (job.leasedTo worker now leaseMs)
        else store.jobs[id]?) = some job' := by
      rw [← hjob']
      simp [save, putIndex, Job.leasedTo, JobState.slot, write]
    split at hrec
    · rename_i hsame
      cases hrec
      subst hsame
      refine ⟨job, job, hown, .refl, .inr ⟨?_, ?_⟩⟩
      · simp [save, putIndex, Job.leasedTo, JobState.slot, write]
      · exact .lease now leaseMs hready hatt hlos
    rename_i hoth
    refine ⟨job', job', hrec, .refl, .inl ⟨?_, rfl⟩⟩
    intro taken htkn
    have hleas : taken = job.leasedTo worker now leaseMs := by
      simpa [save, putIndex, Job.leasedTo, JobState.slot, write] using htkn.symm
    rw [hleas]
    exact hoth

theorem take_hires (queue worker : String) (leaseMs : Option Millis) :
    Hires policy worker store ((take policy now queue worker leaseMs).result kv store)
      ((take policy now queue worker leaseMs).final kv store) := by
  have hhires : Goes kv (fun _ _ => True) (Hires policy worker store)
      (take policy now queue worker leaseMs) store := by
    unfold take
    split
    · exact Goes.done_iff.mpr (Hires.of_follows (Follows.refl store) (fun _ h => by cases h))
    split
    · exact Goes.done_iff.mpr (Hires.of_follows (Follows.refl store) (fun _ h => by cases h))
    dsimp only
    split
    · exact Goes.done_iff.mpr (Hires.of_follows (Follows.refl store) (fun _ h => by cases h))
    apply Goes.bind
    refine ⟨Chain.single trivial, ?_⟩
    have hrecv := @recoverLeases_follows policy store queue now
    unfold countIndex
    rw [query_bind, ask_bind, Goes.ask_iff]
    simp only [pure_eq, done_bind]
    split
    · exact Goes.done_iff.mpr (Hires.of_follows hrecv (fun _ h => by cases h))
    rw [query_bind, Goes.ask_iff]
    apply Goes.bind
    refine ⟨Chain.single trivial, ?_⟩
    exact Goes.done_iff.mpr (Hires.after hrecv (takeFrom_hires queue worker now _ _))
  exact hhires.outcome

/-! ## Handover -/

inductive HandedBack (job : Job) : Job → Prop where
  | ready (now : Millis) (hleased : job.state = .leased) :
      HandedBack job ((job.released now).readyAt now)
  | stale (now : Millis) (hleased : job.state = .leased) :
      HandedBack job ((job.released now).expiredWith "fresh_until passed while leased" now)

def HandsBack (before after : Store) : Prop :=
  ∀ (id : JobId) (job' : Job), after.jobs[id]? = some job' →
    before.jobs[id]? = some job' ∨ ∃ job, before.jobs[id]? = some job ∧ HandedBack job job'

theorem HandedBack.not_leased (hback : HandedBack job job') : job'.state ≠ .leased := by
  cases hback <;> nofun

theorem handoverLease_handsBack (queue workerPrefix : String) (now : Millis) (handed : ℕ)
    (key : IndexKey) {origin : Store} (horig : HandsBack origin store) :
    HandsBack origin ((handoverLease queue workerPrefix now handed key).final kv store) := by
  unfold handoverLease load
  rw [query_bind, final_ask, answer_job]
  split
  · exact horig
  rename_i job hjob
  have hid := store.jobs_id key.id job hjob
  split
  · exact horig
  rename_i hmat
  obtain ⟨-, hleas⟩ := not_or.mp hmat
  rw [not_not] at hleas
  split
  · exact horig
  have hbef : origin.jobs[key.id]? = some job := by
    rcases horig key.id job hjob with hsame | ⟨first, -, hback⟩
    · exact hsame
    · exact absurd hleas hback.not_leased
  have hstep : ∀ (job' : Job) (final : Store), HandedBack job job' →
      (∀ id : JobId, final.jobs[id]? =
        if job.id = id then some job' else store.jobs[id]?) →
      HandsBack origin final := by
    intro job' final hback hfin id after haft
    rw [hfin] at haft
    split at haft
    · rename_i hsame
      cases haft
      rw [← hsame, hid]
      exact .inr ⟨job, hbef, hback⟩
    · exact horig id after haft
  rw [write_bind, final_put, final_bind, pure_eq, final_done]
  unfold handBack
  split
  · apply hstep _ _ (.stale now hleas)
    intro id
    rw [expireAt_jobs, jobs_apply]
    rfl
  · apply hstep _ _ (.ready now hleas)
    intro id
    simp [save, putIndex, Job.readyAt, Job.released, JobState.slot, write]

theorem handover_handsBack (queue workerPrefix : String) :
    HandsBack store ((handover now queue workerPrefix).final kv store) := by
  unfold handover
  split
  · exact fun _ _ hjob => .inl hjob
  split
  · exact fun _ _ hjob => .inl hjob
  rw [query_bind, final_ask, final_bind, pure_eq, final_done]
  apply foldlM_outcome (handoverLease queue workerPrefix now)
    (fun _ current => HandsBack store current)
  · intro key keys handed current hcur
    exact handoverLease_handsBack queue workerPrefix now handed key hcur
  · exact fun _ _ hjob => .inl hjob

/-! ## The ledger of one job -/

/-- What was counted for a job since it was made or last requeued: leases, leases that
were handed back, settlements; and the attempts it may make and had made then. -/
structure Ledger where
  leases : ℕ
  handovers : ℕ
  dones : ℕ
  limit : ℕ
  start : ℕ
  deriving DecidableEq

namespace Ledger

def blank : Ledger := ⟨0, 0, 0, 0, 0⟩

def opened (job : Job) : Ledger := ⟨0, 0, 0, job.maxAttempts.toNat, job.attempts.toNat⟩

def handedBack (id : JobId) (before after : Store) : Bool :=
  (before.jobs[id]?).any (fun job => job.state = .leased) &&
    (after.jobs[id]?).any (fun job => job.state = .ready)

def after (policy : Policy) (id : JobId) (store : Store) (op : Op) (ledger : Ledger) : Ledger :=
  match op with
  | .enqueue now request =>
      if (enqueue policy now request).result kv store = .ok ⟨id, false⟩ then
        opened (request.job policy now id)
      else ledger
  | .requeue now other options =>
      match (requeueWith policy now other options).result kv store with
      | .ok job => if job.id = id then opened job else ledger
      | .error _ => ledger
  | .take now queue worker leaseMs =>
      match (take policy now queue worker leaseMs).result kv store with
      | .ok (.job job) =>
          if job.id = id then { ledger with leases := ledger.leases + 1 } else ledger
      | _ => ledger
  | .settle now other worker result =>
      match (settle policy now other worker result).result kv store with
      | .ok job => if job.id = id then { ledger with dones := ledger.dones + 1 } else ledger
      | .error _ => ledger
  | .handover now queue workerPrefix =>
      if handedBack id store ((handover now queue workerPrefix).final kv store) then
        { ledger with handovers := ledger.handovers + 1 }
      else ledger
  | _ => ledger

end Ledger

def tally (policy : Policy) (id : JobId) (ops : List Op) : Store × Ledger :=
  ops.foldl (fun current op =>
    ((op.program policy).final kv current.1, current.2.after policy id current.1 op))
    (Store.empty, Ledger.blank)

structure Within (policy : Policy) (ledger : Ledger) (job : Job) : Prop where
  limit : job.maxAttempts.toNat = ledger.limit
  leases : ledger.leases ≤ job.attempts.toNat + job.leaseExpiries.toNat + ledger.handovers +
    (if job.state = .ready then 0 else 1)
  room : job.state = .leased →
    job.attempts < job.maxAttempts ∧ job.leaseExpiries ≤ policy.maxLeaseLosses
  attempts : job.attempts.toNat ≤ max ledger.limit ledger.start
  done : ledger.dones ≠ 0 → job.state = .done

theorem toNat_succ {value limit : UInt32} (hlt : value.toNat < limit.toNat) :
    (value + 1).toNat = value.toNat + 1 := by
  have hbound := limit.toNat_lt
  simp
  omega

variable {ledger : Ledger}

theorem Within.pays (hlos : policy.maxLeaseLosses ≠ 0xFFFFFFFF) (hpays : Pays policy job job')
    (hwit : Within policy ledger job) : Within policy ledger job' := by
  obtain ⟨hlim, hleases, hroom, hattem, hdone⟩ := hwit
  have hlossesLt : policy.maxLeaseLosses.toNat < (0xFFFFFFFF : UInt32).toNat := by
    have hbound := policy.maxLeaseLosses.toNat_lt
    have hne : policy.maxLeaseLosses.toNat ≠ (0xFFFFFFFF : UInt32).toNat := by
      intro heq
      exact hlos (UInt32.toNat_inj.mp heq)
    simp at hne ⊢
    omega
  have hleasedCounts : job.state = .leased → (job.attempts + 1).toNat = job.attempts.toNat + 1 ∧
      (job.leaseExpiries + 1).toNat = job.leaseExpiries.toNat + 1 ∧
      job.attempts.toNat + 1 ≤ ledger.limit ∧ ledger.dones = 0 := by
    intro hleas
    obtain ⟨hfew, hspa⟩ := hroom hleas
    rw [UInt32.lt_iff_toNat_lt] at hfew
    refine ⟨toNat_succ hfew, toNat_succ (Nat.lt_of_le_of_lt hspa hlossesLt), by omega, ?_⟩
    by_contra hne
    have hst := hdone hne
    rw [hleas] at hst
    cases hst
  cases hpays.evolves with
  | append | extend => exact ⟨hlim, hleases, hroom, hattem, hdone⟩
  | lease worker now leaseMs hready =>
    have hleas := (hpays.held rfl).1
    rw [hready] at hleas
    cases hleas
  | settle result now hleas =>
    refine ⟨hlim, ?_, (fun hleas => by cases hleas), hattem, fun _ => rfl⟩
    simpa [Job.settledWith, hleas] using hleases
  | back _ hleas hret =>
    obtain ⟨hatt, hexp, hfew, hnone⟩ := hleasedCounts hleas
    have hpaid := hpays.paid hleas hret.state
    have hready := hret.state
    rw [hleas] at hleases
    have hsum : job'.attempts.toNat + job'.leaseExpiries.toNat =
        job.attempts.toNat + job.leaseExpiries.toNat + 1 := by
      rcases hpaid with ⟨hmade, hlost, -⟩ | ⟨hmade, hlost, -⟩
      · rw [hmade, hlost, hatt]
        omega
      · rw [hmade, hlost, hexp]
        omega
    refine ⟨?_, ?_, ?_, ?_, ?_⟩
    · cases hret <;> exact hlim
    · rw [hready, hsum]
      simp at hleases ⊢
      omega
    · rw [hready]
      intro hleas
      cases hleas
    · rcases hpaid with ⟨hmade, -, -⟩ | ⟨hmade, -, -⟩
      · rw [hmade, hatt]
        omega
      · rw [hmade]
        exact hattem
    · intro hne
      exact absurd hnone hne
  | endReady _ hready hended =>
    rw [hready] at hleases
    simp at hleases
    cases hended <;>
      refine ⟨hlim, ?_, (fun hleas => by cases hleas), hattem, ?_⟩ <;>
      first
        | (simp [Job.expiredWith, Job.deadWith]; omega)
        | (intro hne
           have hst := hdone hne
           rw [hready] at hst
           cases hst)
  | endLease _ hleas hended =>
    obtain ⟨hatt, hexp, hfew, hnone⟩ := hleasedCounts hleas
    rw [hleas] at hleases
    simp at hleases
    cases hended <;>
      refine ⟨hlim, ?_, (fun hleas => by cases hleas), ?_, fun hne => absurd hnone hne⟩ <;>
      simp [Job.expiredWith, Job.deadWith, Job.failedWith, Job.lapsed, Job.released, hatt, hexp] <;>
      omega

structure Balanced (policy : Policy) (id : JobId) (store : Store) (ledger : Ledger) : Prop where
  dones : ledger.dones ≤ 1
  leases : ledger.leases ≤ ledger.limit + policy.maxLeaseLosses.toNat + ledger.handovers
  within : ∀ job, store.jobs[id]? = some job → Within policy ledger job

section Steps

variable {id : JobId} (hlos : policy.maxLeaseLosses ≠ 0xFFFFFFFF)
include hlos

theorem Within.steps
    (hstps : Relation.ReflTransGen (Pays policy) job job') (hwit : Within policy ledger job) :
    Within policy ledger job' := by
  induction hstps with
  | refl => exact hwit
  | tail _ hpays ih => exact ih.pays hlos hpays

theorem Balanced.follows {final : Store}
    (hsound : Balanced policy id store ledger) (hfol : Follows policy store final) :
    Balanced policy id final ledger := by
  refine { hsound with within := ?_ }
  intro job' hjob'
  obtain ⟨job, hjob, hstps⟩ := hfol id job' hjob'
  exact (hsound.within job hjob).steps hlos hstps

omit hlos in
theorem Within.leased {worker : String} (hwit : Within policy ledger job)
    (hleas : LeasedFrom policy worker job job') :
    ledger.leases + 1 ≤ ledger.limit + policy.maxLeaseLosses.toNat + ledger.handovers ∧
      Within policy { ledger with leases := ledger.leases + 1 } job' := by
  obtain ⟨now, leaseMs, hready, hatt, hexp⟩ := hleas
  obtain ⟨hlim, hleases, hroom, hbound, hdone⟩ := hwit
  rw [UInt32.not_le, UInt32.lt_iff_toNat_lt] at hatt
  rw [UInt32.not_lt, UInt32.le_iff_toNat_le] at hexp
  rw [hready] at hleases
  simp at hleases
  refine ⟨by omega, hlim, ?_, ?_, hbound, ?_⟩
  · simp [Job.leasedTo]
    omega
  · intro _
    exact ⟨UInt32.lt_iff_toNat_lt.mpr hatt, UInt32.le_iff_toNat_le.mpr hexp⟩
  intro hne
  have hst := hdone hne
  rw [hready] at hst
  cases hst

theorem sound_take (now : Millis)
    (queue worker : String) (leaseMs : Option Millis) (hsound : Balanced policy id store ledger) :
    Balanced policy id (((Op.take now queue worker leaseMs).program policy).final kv store)
      (ledger.after policy id store (.take now queue worker leaseMs)) := by
  have hhires := @take_hires policy store now queue worker leaseMs
  unfold Op.program Ledger.after
  rw [discard_final]
  dsimp only
  have hret : ∀ taken,
      (take policy now queue worker leaseMs).result kv store = .ok (.job taken) →
      ((take policy now queue worker leaseMs).final kv store).jobs[taken.id]? = some taken :=
    fun taken htkn => (take_returned htkn).1
  generalize (take policy now queue worker leaseMs).result kv store = result at hhires hret ⊢
  generalize (take policy now queue worker leaseMs).final kv store = final at hhires hret ⊢
  have hoth : (∀ taken, result = .ok (.job taken) → taken.id ≠ id) →
      Balanced policy id final ledger := by
    intro hnone
    refine { hsound with within := ?_ }
    intro job' hjob'
    obtain ⟨first, job, hfst, hstps, ⟨-, rfl⟩ | ⟨htkn, hleas⟩⟩ := hhires id job' hjob'
    · exact (hsound.within first hfst).steps hlos hstps
    · exact absurd (final.jobs_id id job' hjob') (hnone job' htkn)
  split
  · rename_i taken
    split
    · rename_i htkn
      subst htkn
      have hrec := hret taken rfl
      obtain ⟨first, job, hfst, hstps, ⟨hnone, -⟩ | ⟨-, hleas⟩⟩ := hhires taken.id taken hrec
      · exact absurd rfl (hnone taken rfl)
      have hwit := ((hsound.within first hfst).steps hlos hstps).leased hleas
      refine ⟨hsound.dones, hwit.1, ?_⟩
      intro job' hjob'
      rw [hrec] at hjob'
      cases hjob'
      exact hwit.2
    rename_i hne
    apply hoth
    intro other hsame
    cases hsame
    exact hne
  rename_i hnot
  apply hoth
  intro taken htkn
  exact absurd htkn (hnot taken)

omit hlos in
theorem settle_result (other : JobId) (worker : Option String) (result : Bytes) :
    Goes kv (fun _ _ => True)
      (fun outcome final => ∀ job, outcome = .ok job → job.state = .done ∧
        final.jobs[job.id]? = some job ∧
        ∃ before, store.jobs[job.id]? = some before ∧ before.state = .leased)
      (settle policy now other worker result) store := by
  unfold settle load save
  rw [query_bind, Goes.ask_iff, answer_job]
  split
  · exact Goes.done_iff.mpr (fun _ h => by cases h)
  rename_i before hbef
  obtain rfl := store.jobs_id other before hbef
  split
  · exact Goes.done_iff.mpr (fun _ h => by cases h)
  rename_i hheld
  split
  · exact Goes.done_iff.mpr (fun _ h => by cases h)
  apply Goes.block [_, _] trivial
  apply Goes.done_iff.mpr
  intro job hjob
  cases hjob
  refine ⟨rfl, ?_, before, hbef, leased_of_not_leaseLost hheld⟩
  simp [Job.settledWith]

theorem sound_settle (now : Millis) (other : JobId) (worker : Option String) (result : Bytes)
    (hsound : Balanced policy id store ledger) :
    Balanced policy id (((Op.settle now other worker result).program policy).final kv store)
      (ledger.after policy id store (.settle now other worker result)) := by
  have hfol := hsound.follows hlos (@settle_follows policy store now other worker result)
  have hres := (@settle_result policy store now other worker result).outcome
  unfold Op.program Ledger.after
  rw [discard_final]
  dsimp only
  generalize (settle policy now other worker result).result kv store = outcome at hres ⊢
  generalize (settle policy now other worker result).final kv store = final at hres hfol ⊢
  split
  · rename_i job
    split
    · rename_i hid
      subst hid
      obtain ⟨hdone, hrec, before, hbef, hleas⟩ := hres job rfl
      have hnone : ledger.dones = 0 := by
        by_contra hne
        have hst := (hsound.within before hbef).done hne
        rw [hleas] at hst
        cases hst
      refine ⟨?_, hfol.leases, ?_⟩
      · simp [hnone]
      intro job' hjob'
      rw [hrec] at hjob'
      cases hjob'
      obtain ⟨hlim, hleases, hroom, hatt, -⟩ := hfol.within job hrec
      exact ⟨hlim, hleases, hroom, hatt, fun _ => hdone⟩
    · exact hfol
  · exact hfol

omit hlos

theorem sound_handover (queue workerPrefix : String) (hsound : Balanced policy id store ledger) :
    Balanced policy id (((Op.handover now queue workerPrefix).program policy).final kv store)
      (ledger.after policy id store (.handover now queue workerPrefix)) := by
  have hback := @handover_handsBack store now queue workerPrefix
  unfold Op.program Ledger.after
  rw [discard_final]
  dsimp only
  generalize (handover now queue workerPrefix).final kv store = final at hback ⊢
  split
  · rename_i hret
    have hleases := hsound.leases
    refine ⟨hsound.dones, ?_, ?_⟩
    · dsimp only
      omega
    intro job' hjob'
    unfold Ledger.handedBack at hret
    rw [hjob'] at hret
    simp only [Bool.and_eq_true, any_some, decide_eq_true_eq] at hret
    obtain ⟨hbef, hready⟩ := hret
    rcases hback id job' hjob' with hsame | ⟨job, hjob, hstep⟩
    · rw [hsame] at hbef
      simp only [any_some, decide_eq_true_eq] at hbef
      rw [hready] at hbef
      cases hbef
    obtain ⟨hlim, hspent, -, hatt, hdone⟩ := hsound.within job hjob
    cases hstep with
    | ready instant hleas =>
      refine ⟨hlim, ?_, (fun hleas => by cases hleas), hatt, ?_⟩
      · rw [hleas] at hspent
        simp [Job.readyAt, Job.released] at hspent ⊢
        omega
      intro hne
      have hst := hdone hne
      rw [hleas] at hst
      cases hst
    | stale instant hleas => cases hready
  rename_i hnot
  refine { hsound with within := ?_ }
  intro job' hjob'
  rcases hback id job' hjob' with hsame | ⟨job, hjob, hstep⟩
  · exact hsound.within job' hsame
  obtain ⟨hlim, hspent, -, hatt, hdone⟩ := hsound.within job hjob
  cases hstep with
  | ready instant hleas =>
    apply absurd _ hnot
    unfold Ledger.handedBack
    rw [hjob, hjob']
    simp [hleas, Job.readyAt]
  | stale instant hleas =>
    refine ⟨hlim, ?_, (fun hleas => by cases hleas), hatt, ?_⟩
    · rw [hleas] at hspent
      simpa [Job.expiredWith, Job.released] using hspent
    intro hne
    have hst := hdone hne
    rw [hleas] at hst
    cases hst

theorem sound_opened (hready : job.state = .ready)
    (hrec : ∀ job', final.jobs[id]? = some job' → job' = job) :
    Balanced policy id final (Ledger.opened job) := by
  refine ⟨Nat.zero_le 1, Nat.zero_le _, ?_⟩
  intro job' hjob'
  obtain rfl := hrec job' hjob'
  refine ⟨rfl, Nat.zero_le _, ?_, Nat.le_max_right _ _, ?_⟩
  · rw [hready]
    intro hleas
    cases hleas
  · intro hne
    exact absurd rfl hne

theorem sound_enqueue (request : EnqueueRequest) (hsound : Balanced policy id store ledger) :
    Balanced policy id (((Op.enqueue now request).program policy).final kv store)
      (ledger.after policy id store (.enqueue now request)) := by
  have hmakes := (@enqueue_makes policy store now request).outcome id
  unfold Op.program Ledger.after
  rw [discard_final]
  dsimp only
  split
  · rename_i hmade
    apply sound_opened rfl
    intro job' hjob'
    rw [hmakes.2 hmade] at hjob'
    exact (Option.some.inj hjob').symm
  rename_i hoth
  refine { hsound with within := ?_ }
  rw [hmakes.1 hoth]
  exact hsound.within

theorem requeueWith_result (other : JobId) (options : RequeueOptions) :
    Goes kv (fun _ _ => True)
      (fun outcome final => (∃ refusal, outcome = .error refusal ∧ final = store) ∨
        ∃ job, outcome = .ok job ∧ job.state = .ready ∧
          ∀ id : JobId, final.jobs[id]? = if job.id = id then some job else store.jobs[id]?)
      (requeueWith policy now other options) store := by
  unfold requeueWith load save
  rw [query_bind, Goes.ask_iff, answer_job]
  split
  · exact Goes.done_iff.mpr (.inl ⟨_, rfl, rfl⟩)
  rename_i job hjob
  split
  · exact Goes.done_iff.mpr (.inl ⟨_, rfl, rfl⟩)
  apply Goes.block [_, _, _] trivial
  apply Goes.done_iff.mpr
  refine .inr ⟨_, rfl, rfl, ?_⟩
  intro id
  simp only [Machine.applyAll_cons, Machine.applyAll_nil, jobs_apply]

theorem sound_requeue (other : JobId) (options : RequeueOptions)
    (hsound : Balanced policy id store ledger) :
    Balanced policy id (((Op.requeue now other options).program policy).final kv store)
      (ledger.after policy id store (.requeue now other options)) := by
  have hres := (@requeueWith_result policy store now other options).outcome
  unfold Op.program Ledger.after
  rw [discard_final]
  dsimp only
  generalize (requeueWith policy now other options).result kv store = outcome at hres ⊢
  generalize (requeueWith policy now other options).final kv store = final at hres ⊢
  rcases hres with ⟨refusal, rfl, rfl⟩ | ⟨job, rfl, hready, hjobs⟩
  · exact hsound
  dsimp only
  split
  · rename_i hid
    apply sound_opened hready
    intro job' hjob'
    rw [hjobs, if_pos hid] at hjob'
    exact (Option.some.inj hjob').symm
  rename_i hid
  refine { hsound with within := ?_ }
  rw [hjobs, if_neg hid]
  exact hsound.within

variable (hlos : policy.maxLeaseLosses ≠ 0xFFFFFFFF)
include hlos

theorem sound_step (op : Op) (hsound : Balanced policy id store ledger) :
    Balanced policy id ((op.program policy).final kv store) (ledger.after policy id store op) := by
  have hsame : ∀ {Result : Type} (operation : Operation Result),
      Follows policy store (operation.final kv store) →
      Balanced policy id ((discard operation : Operation Unit).final kv store) ledger := by
    intro Result operation hfol
    rw [discard_final]
    exact hsound.follows hlos hfol
  cases op with
  | enqueue now request => exact sound_enqueue now request hsound
  | progress now other chunk => exact hsame _ (progress_follows now other chunk)
  | take now queue worker leaseMs => exact sound_take hlos now queue worker leaseMs hsound
  | heartbeat now other worker extendMs =>
    exact hsame _ (heartbeat_follows now other worker extendMs)
  | settle now other worker result => exact sound_settle hlos now other worker result hsound
  | fail now other worker reason => exact hsame _ (failInner_follows now other worker reason)
  | handover now queue workerPrefix => exact sound_handover now queue workerPrefix hsound
  | expireStale now => exact hsame _ (expireStaleAt_follows now)
  | sweep now staleNow reapNow => exact hsame _ (sweep_follows now staleNow reapNow)
  | nextAlerts now => exact hsame _ (Follows.of_jobs (nextAlerts_jobs now))
  | requeue now other options => exact sound_requeue now other options hsound
  | reap now => exact hsame _ (reap_follows now)
  | repair => exact hsame _ (Follows.of_jobs repair_goes.outcome.1.jobs)

theorem tally_sound (ops : List Op) :
    Balanced policy id (tally policy id ops).1 (tally policy id ops).2 := by
  induction ops using reverseRecOn with
  | nil =>
    refine ⟨Nat.zero_le 1, Nat.zero_le _, ?_⟩
    intro job hjob
    simp [tally, Store.empty] at hjob
  | append_singleton ops op ih =>
    unfold tally at ih ⊢
    rw [foldl_append]
    exact sound_step hlos op ih

end Steps

/-! ## The fence -/

def Holds (store : Store) (id : JobId) (worker : String) : Prop :=
  ∃ job, store.jobs[id]? = some job ∧ holdsLease job worker

instance (store : Store) (id : JobId) (worker : String) : Decidable (Holds store id worker) :=
  inferInstanceAs (Decidable (∃ job ∈ store.jobs[id]?, holdsLease job worker = true))

/-- A call of `take` hands the job to this worker. -/
def HandsTo (policy : Policy) (store : Store) (op : Op) (id : JobId) (worker : String) : Prop :=
  ∃ now queue leaseMs job, op = .take now queue worker leaseMs ∧
    (take policy now queue worker leaseMs).result kv store = .ok (.job job) ∧ job.id = id

structure Refuses {Result : Type} (store : Store) (id : JobId)
    (operation : Operation (Except QueueError Result)) : Prop where
  error : operation.result kv store =
    .error (if (store.jobs[id]?).isSome then .leaseLost else .notFound)
  writes : operation.writes kv store = []

/-- Nothing that a worker reports about a job in its own name is accepted. -/
structure Fenced (policy : Policy) (store : Store) (id : JobId) (worker : String) : Prop where
  done : ∀ now result, Refuses store id (doneBy policy now id worker result)
  fail : ∀ now reason, Refuses store id (failBy policy now id worker reason)
  heartbeat : ∀ now extendMs, Refuses store id (heartbeat policy now id worker extendMs)

section Fence

variable {id : JobId} {worker : String}

theorem fenced_of_not_holds (hnot : ¬ Holds store id worker) : Fenced policy store id worker := by
  cases hrec : store.jobs[id]? with
  | none =>
    constructor
    · intro now result
      constructor <;> simp [doneBy, settle, load, hrec]
    · intro now reason
      constructor <;> simp [failBy, failInner, load, hrec]
    · intro now extendMs
      constructor <;> simp [heartbeat, load, hrec]
  | some job =>
    have hfree : holdsLease job worker = false := by
      rw [← Bool.not_eq_true]
      intro hhld
      exact hnot ⟨job, hrec, hhld⟩
    have hlost : leaseLost job (some worker) = true := by
      simp [leaseLost, hfree]
    constructor
    · intro now result
      constructor <;> simp [doneBy, settle, load, hrec, hlost]
    · intro now reason
      constructor <;> simp [failBy, failInner, load, hrec, hlost]
    · intro now extendMs
      constructor <;> simp [heartbeat, load, hrec, hfree]

theorem holdsLease_iff :
    holdsLease job worker = true ↔ job.state = .leased ∧ job.leaseWorker = some worker := by
  unfold holdsLease
  rw [decide_eq_true_iff]

theorem holdsLease_of_steps (hstps : Relation.ReflTransGen (Pays policy) job job')
    (hhld : holdsLease job' worker) : holdsLease job worker := by
  induction hstps with
  | refl => exact hhld
  | tail _ hpays ih =>
    apply ih
    rw [holdsLease_iff] at hhld ⊢
    obtain ⟨hleas, hsame⟩ := hpays.held hhld.1
    exact ⟨hleas, hsame ▸ hhld.2⟩

theorem Follows.holds (hfol : Follows policy store final) (hhld : Holds final id worker) :
    Holds store id worker := by
  obtain ⟨job', hjob', hlse⟩ := hhld
  obtain ⟨job, hjob, hstps⟩ := hfol id job' hjob'
  exact ⟨job, hjob, holdsLease_of_steps hstps hlse⟩

theorem Op.holds (op : Op) (hhld : Holds ((op.program policy).final kv store) id worker) :
    Holds store id worker ∨ HandsTo policy store op id worker := by
  have hsame : ∀ {Result : Type} (operation : Operation Result),
      Holds ((discard operation : Operation Unit).final kv store) id worker →
      Follows policy store (operation.final kv store) → Holds store id worker := by
    intro Result operation haft hfol
    rw [discard_final] at haft
    exact hfol.holds haft
  have hready : ∀ {job : Job}, holdsLease job worker → job.state = .ready → False := by
    intro job hlse hst
    rw [(holdsLease_iff.mp hlse).1] at hst
    cases hst
  cases op with
  | enqueue now request =>
    obtain ⟨job, hjob, hlse⟩ := hhld
    unfold Op.program at hjob
    rw [discard_final] at hjob
    have hmakes := (@enqueue_makes policy store now request).outcome id
    by_cases hmade : (Queue.enqueue policy now request).result kv store = .ok ⟨id, false⟩
    · rw [hmakes.2 hmade] at hjob
      cases hjob
      exact (hready hlse rfl).elim
    · rw [hmakes.1 hmade] at hjob
      exact .inl ⟨job, hjob, hlse⟩
  | progress now other chunk => exact .inl (hsame _ hhld (progress_follows now other chunk))
  | take now queue name leaseMs =>
    obtain ⟨job', hjob', hlse⟩ := hhld
    unfold Op.program at hjob'
    rw [discard_final] at hjob'
    obtain ⟨first, job, hfst, hstps, ⟨-, rfl⟩ | ⟨htkn, hleas⟩⟩ :=
      @take_hires policy store now queue name leaseMs id job' hjob'
    · exact .inl ⟨first, hfst, holdsLease_of_steps hstps hlse⟩
    right
    have hname : name = worker := by
      obtain ⟨instant, length, -, -, -⟩ := hleas
      exact Option.some.inj (holdsLease_iff.mp hlse).2
    subst hname
    exact ⟨now, queue, leaseMs, job', rfl, htkn, Store.jobs_id _ id job' hjob'⟩
  | heartbeat now other name extendMs =>
    exact .inl (hsame _ hhld (heartbeat_follows now other name extendMs))
  | settle now other name result =>
    exact .inl (hsame _ hhld (settle_follows now other name result))
  | fail now other name reason =>
    exact .inl (hsame _ hhld (failInner_follows now other name reason))
  | handover now queue workerPrefix =>
    obtain ⟨job', hjob', hlse⟩ := hhld
    unfold Op.program at hjob'
    rw [discard_final] at hjob'
    rcases handover_handsBack now queue workerPrefix id job' hjob' with hbef | ⟨_, _, hback⟩
    · exact .inl ⟨job', hbef, hlse⟩
    · exact absurd (holdsLease_iff.mp hlse).1 hback.not_leased
  | expireStale now => exact .inl (hsame _ hhld (expireStaleAt_follows now))
  | sweep now staleNow reapNow => exact .inl (hsame _ hhld (sweep_follows now staleNow reapNow))
  | nextAlerts now => exact .inl (hsame _ hhld (Follows.of_jobs (nextAlerts_jobs now)))
  | requeue now other options =>
    obtain ⟨job', hjob', hlse⟩ := hhld
    unfold Op.program at hjob'
    rw [discard_final] at hjob'
    rcases (@requeueWith_result policy store now other options).outcome with
      ⟨_, -, hfin⟩ | ⟨job, -, hst, hjobs⟩
    · rw [hfin] at hjob'
      exact .inl ⟨job', hjob', hlse⟩
    rw [hjobs] at hjob'
    split at hjob'
    · cases hjob'
      exact (hready hlse hst).elim
    · exact .inl ⟨job', hjob', hlse⟩
  | reap now => exact .inl (hsame _ hhld (reap_follows now))
  | repair => exact .inl (hsame _ hhld (Follows.of_jobs repair_goes.outcome.1.jobs))

theorem not_holds_runAll (later : List Op) (hnot : ¬ Holds store id worker)
    (hnone : ∀ earlier op rest, later = earlier ++ op :: rest →
      ¬ HandsTo policy (runAll policy earlier store) op id worker) :
    ¬ Holds (runAll policy later store) id worker := by
  induction later generalizing store with
  | nil => exact hnot
  | cons first later ih =>
    apply ih
    · intro hhld
      rcases first.holds hhld with hbef | hhands
      · exact hnot hbef
      · exact hnone [] first later rfl hhands
    · intro earlier op rest hltr
      exact hnone (first :: earlier) op rest (congrArg (first :: ·) hltr)

end Fence

/-! ## The bounds -/

/-- In every run: a job is settled at most once between two requeues; it is leased at
most as often as its attempts, the lease losses of the policy and its handovers allow;
its attempts stay within its limit, or where the last requeue left them; and a worker
that does not hold its lease is refused until a `take` hands it the job. -/
theorem budgets_kept (policy : Policy) (hlosses : policy.maxLeaseLosses ≠ 0xFFFFFFFF)
    (id : JobId) (ops : List Op) :
    (tally policy id ops).2.dones ≤ 1 ∧
      (tally policy id ops).2.leases ≤ (tally policy id ops).2.limit +
        policy.maxLeaseLosses.toNat + (tally policy id ops).2.handovers ∧
      (∀ job, (tally policy id ops).1.jobs[id]? = some job →
        job.maxAttempts.toNat = (tally policy id ops).2.limit ∧
        job.attempts.toNat ≤ max (tally policy id ops).2.limit (tally policy id ops).2.start) ∧
      ∀ worker later, ¬ Holds (tally policy id ops).1 id worker →
        (∀ earlier op rest, later = earlier ++ op :: rest →
          ¬ HandsTo policy (runAll policy earlier (tally policy id ops).1) op id worker) →
        Fenced policy (runAll policy later (tally policy id ops).1) id worker := by
  have hsound : Balanced policy id (tally policy id ops).1 (tally policy id ops).2 :=
    tally_sound hlosses ops
  refine ⟨hsound.dones, hsound.leases, ?_, ?_⟩
  · intro job hjob
    have hwithin := hsound.within job hjob
    exact ⟨hwithin.limit, hwithin.attempts⟩
  · intro worker later hnot hnone
    exact fenced_of_not_holds (not_holds_runAll later hnot hnone)

/-- A job that is taken once under the default policy. -/
theorem budgets_takenOnce :
    (tally Policy.default 1
        [.enqueue 0 (EnqueueRequest.new "stt" []), .take 0 "stt" "worker-1" none]).2.leases ≤
      (tally Policy.default 1
        [.enqueue 0 (EnqueueRequest.new "stt" []), .take 0 "stt" "worker-1" none]).2.limit +
        Policy.default.maxLeaseLosses.toNat +
      (tally Policy.default 1
        [.enqueue 0 (EnqueueRequest.new "stt" []), .take 0 "stt" "worker-1" none]).2.handovers :=
  (budgets_kept Policy.default (by decide) 1 _).2.1

/-! ## Beyond the bounds -/

def strictPolicy : Policy := { Policy.default with maxAttempts := 1, maxLeaseLosses := 0 }

/-- A lease that is handed over costs nothing; a requeue may leave more attempts than it
allows; and a worker that lost its lease finds no record once the job is retired. -/
theorem budgets_exceeded :
    (¬ ∀ policy id ops, (tally policy id ops).2.leases ≤
      (tally policy id ops).2.limit + policy.maxLeaseLosses.toNat) ∧
    (¬ ∀ policy id ops job, (tally policy id ops).1.jobs[id]? = some job →
      job.attempts ≤ job.maxAttempts) ∧
    ¬ ∀ (policy : Policy) (id : JobId) (worker : String) (ops : List Op) (op : Op)
      (later : List Op), Holds (runAll policy ops Store.empty) id worker →
      ¬ Holds (runAll policy (ops ++ [op]) Store.empty) id worker →
      (∀ earlier next rest, later = earlier ++ next :: rest →
        ¬ HandsTo policy (runAll policy (ops ++ op :: earlier) Store.empty) next id worker) →
      ∀ now result, (doneBy policy now id worker result).result kv
        (runAll policy (ops ++ op :: later) Store.empty) = .error .leaseLost := by
  refine ⟨?_, ?_, ?_⟩
  · intro hlaw
    have hbound := hlaw strictPolicy 1
      [.enqueue 0 (EnqueueRequest.new "stt" []), .take 0 "stt" "worker-1" none,
        .handover 0 "stt" "worker-1", .take 0 "stt" "worker-2" none]
    revert hbound
    decide
  · intro hlaw
    have hbound : ∀ job ∈ (tally Policy.default 1
        [.enqueue 0 { EnqueueRequest.new "stt" [] with maxAttempts := some 2 },
          .take 0 "stt" "worker-1" none, .fail 0 1 none "no", .take 9000 "stt" "worker-1" none,
          .fail 9000 1 none "no", .requeue 9000 1 ⟨false, some 1, false⟩]).1.jobs[1]?,
        job.attempts ≤ job.maxAttempts := fun job hjob => hlaw _ _ _ job hjob
    revert hbound
    decide
  intro hlaw
  have hlost := hlaw Policy.default 1 "worker-1"
    [.enqueue 0 { EnqueueRequest.new "stt" [] with freshForMs := some 10 },
      .take 0 "stt" "worker-1" none]
    (.handover 20 "stt" "worker-1") [.reap 9000000000000] (by decide) (by decide)
    (by
      intro earlier next rest hlist hhands
      obtain ⟨now, queue, leaseMs, job, rfl, -⟩ := hhands
      cases earlier with
      | nil => cases hlist
      | cons first earlier => simp at hlist) 0 []
  revert hlost
  decide

end WasmAgent.Queue
