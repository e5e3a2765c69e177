import WasmAgent.Queue.CrashPoints

/-!
# Stale work is never handed out

A job whose `fresh_until` has passed is not returned by `take`: wherever `take`
meets it, waiting or with a lease that ran out, it ends it as expired with an
alert, and an expired job never goes to a worker again.
-/

namespace WasmAgent.Queue

open List WasmAgent.Core WasmAgent.Core.Program

variable {policy : Policy} {store : Store}

/-- `fresh_until` is set and not after an instant. -/
def Job.Stale (now : Millis) (job : Job) : Prop := job.freshUntil.any (· ≤ now)

instance (now : Millis) (job : Job) : Decidable (job.Stale now) :=
  inferInstanceAs (Decidable (_ = true))

structure EndedStale (job : Job) (store : Store) : Prop where
  record : ∃ ended, store.jobs[job.id]? = some ended ∧ job.SameJob ended ∧ ended.state = .expired
  alert : (store.alerts[(⟨job.id, .expired⟩ : AlertKey)]?).isSome

/-! ## Alerts stay -/

@[simp]
theorem alerts_apply (write : Write) (store : Store) (key : AlertKey) :
    (kv.apply write store).alerts[key]? =
      match write with
      | .putAlert alert => if alert.key = key then some alert else store.alerts[key]?
      | _ => store.alerts[key]? := by
  cases write with
  | putAlert alert =>
    change (store.alerts.insert alert.key alert)[key]? = _
    rw [Std.ExtTreeMap.getElem?_insert]
    simp
  | putCounter counter value =>
    cases counter <;> rfl
  | _ => rfl

theorem alert_kept (changes : List Write) (key : AlertKey) (hsome : (store.alerts[key]?).isSome) :
    ((kv.applyAll changes store).alerts[key]?).isSome := by
  induction changes generalizing store with
  | nil => exact hsome
  | cons change changes ih =>
    apply ih
    rw [alerts_apply]
    cases change with
    | putAlert alert =>
      dsimp only
      split
      · rfl
      · exact hsome
    | _ => exact hsome

variable (job : Job) (now : Millis)

theorem recordAlert_jobs (kind : AlertKind) (reason : String) :
    ((recordAlert job now kind reason).final kv store).jobs = store.jobs :=
  (@recordAlert_goes Policy.default store job now kind reason).outcome.jobs

theorem recordAlert_alert (kind : AlertKind) (reason : String) :
    (((recordAlert job now kind reason).final kv store).alerts[
      (⟨job.id, kind⟩ : AlertKey)]?).isSome := by
  unfold recordAlert
  rw [query_bind, final_ask]
  split
  · rename_i hsome
    exact hsome
  · simp [nextCounter, Alert.key]

/-! ## Ending one job -/

theorem expireAt_jobs (reason : String) (id : JobId) :
    ((expireAt job now reason).final kv store).jobs[id]? =
      if job.id = id then some (job.expiredWith reason now) else store.jobs[id]? := by
  unfold expireAt save
  simp only [write_bind, final_put, final_bind, recordAlert_jobs, pure_eq, final_done, jobs_apply]
  rfl

theorem deadLetter_jobs (why : String) (keepError : Bool) (id : JobId) :
    ((deadLetter job now why keepError).final kv store).jobs[id]? =
      if job.id = id then some (job.deadWith why keepError now) else store.jobs[id]? := by
  unfold deadLetter save
  simp only [write_bind, final_put, final_bind, recordAlert_jobs, pure_eq, final_done, jobs_apply]
  rfl

variable {job : Job}

theorem expireAt_ends {before : Job} (now : Millis) (reason : String) (hsame : before.SameJob job) :
    EndedStale before ((expireAt job now reason).final kv store) := by
  constructor
  · refine ⟨job.expiredWith reason now, ?_, ?_, rfl⟩
    · rw [expireAt_jobs, if_pos hsame.id]
    · exact hsame.trans ⟨rfl, rfl, rfl, rfl, rfl, rfl⟩
  unfold expireAt save
  simp only [write_bind, final_put, final_bind, pure_eq, final_done]
  rw [← hsame.id]
  exact recordAlert_alert (job.expiredWith reason now) now .expired reason

/-! ## What a part of `take` does to stale jobs -/

structure Ages (now : Millis) (before after : Store) : Prop where
  stale : ∀ (id : JobId) (job : Job), before.jobs[id]? = some job → job.Stale now →
    after.jobs[id]? = some job ∨ EndedStale job after
  ended : ∀ (id : JobId) (job : Job), before.jobs[id]? = some job → job.state = .expired →
    after.jobs[id]? = some job
  alerts : ∀ key : AlertKey, (before.alerts[key]?).isSome → (after.alerts[key]?).isSome

namespace Ages

variable {now : Millis}

theorem refl (store : Store) : Ages now store store :=
  ⟨fun _ _ hjob _ => .inl hjob, fun _ _ hjob _ => hjob, fun _ hsome => hsome⟩

theorem keeps {middle final : Store} (hages : Ages now middle final)
    (hended : EndedStale job middle) : EndedStale job final := by
  obtain ⟨⟨ended, hrec, hsame, hst⟩, halert⟩ := hended
  exact ⟨⟨ended, hages.ended _ ended hrec hst, hsame, hst⟩, hages.alerts _ halert⟩

theorem trans {middle final : Store} (hfst : Ages now store middle)
    (hsnd : Ages now middle final) : Ages now store final where
  stale := by
    intro id job hjob hstl
    rcases hfst.stale id job hjob hstl with hsame | hended
    · exact hsnd.stale id job hsame hstl
    · exact .inr (hsnd.keeps hended)
  ended := by
    intro id job hjob hst
    exact hsnd.ended id job (hfst.ended id job hjob hst) hst
  alerts := by
    intro key hsome
    exact hsnd.alerts key (hfst.alerts key hsome)

theorem of_fresh {Result : Type} {program : Operation Result}
    (hjob : store.jobs[job.id]? = some job) (hfre : ¬ job.Stale now) (hst : job.state ≠ .expired)
    (hoths : ∀ id : JobId, job.id ≠ id → (program.final kv store).jobs[id]? = store.jobs[id]?) :
    Ages now store (program.final kv store) where
  stale := by
    intro id other hoth hstl
    left
    rw [hoths id _, hoth]
    rintro rfl
    rw [hjob] at hoth
    cases hoth
    exact hfre hstl
  ended := by
    intro id other hoth hexp
    rw [hoths id _, hoth]
    rintro rfl
    rw [hjob] at hoth
    cases hoth
    exact hst hexp
  alerts := by
    intro key hsome
    exact alert_kept _ key hsome

theorem of_expireAt {before : Job} (reason : String) (hbef : store.jobs[before.id]? = some before)
    (hsame : before.SameJob job) (hst : before.state ≠ .expired) :
    Ages now store ((expireAt job now reason).final kv store) where
  stale := by
    intro id other hoth _
    by_cases hid : before.id = id
    · subst hid
      rw [hbef] at hoth
      cases hoth
      exact .inr (expireAt_ends now reason hsame)
    · left
      rw [expireAt_jobs, hsame.id, if_neg hid, hoth]
  ended := by
    intro id other hoth hexp
    rw [expireAt_jobs, hsame.id, if_neg, hoth]
    rintro rfl
    rw [hbef] at hoth
    cases hoth
    exact hst hexp
  alerts := by
    intro key hsome
    exact alert_kept _ key hsome

/-- A write that is not to a record. -/
theorem of_delIndex (key : IndexKey) : Ages now store (kv.apply (.delIndex key) store) :=
  ⟨fun _ _ hjob _ => .inl hjob, fun _ _ hjob _ => hjob, fun _ hsome => hsome⟩

end Ages

/-- A loop, by what each of its rounds does. -/
theorem foldlM_outcome {Item Result : Type} (body : Result → Item → Operation Result)
    (holds : List Item → Store → Prop)
    (hbody : ∀ item items value current, holds (item :: items) current →
      holds items ((body value item).final kv current))
    (items : List Item) (value : Result) (hsta : holds items store) :
    holds [] ((items.foldlM body value).final kv store) := by
  induction items generalizing value store with
  | nil => exact hsta
  | cons item items ih =>
    rw [foldlM_cons, final_bind]
    exact ih _ (hbody item items value store hsta)

/-! ## Lapsed leases -/

theorem recoverJob_ages {before job : Job} {now : Millis}
    (hbef : store.jobs[before.id]? = some before) (hst : before.state ≠ .expired)
    (hsame : before.SameJob job) (hfre : job.freshUntil = before.freshUntil) :
    Ages now store ((recoverJob policy now job).final kv store) ∧
      (before.Stale now → EndedStale before ((recoverJob policy now job).final kv store)) := by
  unfold recoverJob
  split
  · exact ⟨Ages.of_expireAt _ hbef hsame hst, fun _ => expireAt_ends now _ hsame⟩
  rename_i hspa
  rw [hfre] at hspa
  refine ⟨?_, fun hstl => absurd hstl hspa⟩
  split
  · apply Ages.of_fresh hbef hspa hst
    intro id hid
    rw [deadLetter_jobs, hsame.id, if_neg hid]
  split
  · apply Ages.of_fresh hbef hspa hst
    intro id hid
    rw [deadLetter_jobs, hsame.id, if_neg hid]
  · apply Ages.of_fresh hbef hspa hst
    intro id hid
    simp [save, putIndex, Job.readyAt, JobState.slot, write, hsame.id, hid]

theorem recoverLease_ages (queue : String) (now : Millis) (recovered : ℕ) (key : IndexKey) :
    Ages now store ((recoverLease policy queue now recovered key).final kv store) ∧
      ∀ job, store.jobs[key.id]? = some job → job.Lapsed queue now → job.Stale now →
        EndedStale job ((recoverLease policy queue now recovered key).final kv store) := by
  unfold recoverLease load
  rw [query_bind, final_ask, answer_job]
  split
  · rename_i hnone
    refine ⟨Ages.of_delIndex key, ?_⟩
    intro job hjob
    rw [hnone] at hjob
    cases hjob
  rename_i job hjob
  have hid := store.jobs_id key.id job hjob
  split
  · rename_i hoth
    refine ⟨Ages.of_delIndex key, ?_⟩
    intro stored hsto hlap
    rw [hjob] at hsto
    cases hsto
    exact absurd hlap.2.1 (hoth.resolve_left (fun hne => hne hlap.1))
  rename_i hmat
  obtain ⟨-, hls⟩ := not_or.mp hmat
  rw [not_not] at hls
  split
  · rename_i huntil
    refine ⟨Ages.refl store, ?_⟩
    intro stored hsto hlap
    rw [hjob] at hsto
    cases hsto
    exact absurd huntil hlap.2.2
  have hst : job.state ≠ .expired := by
    rw [hls]
    nofun
  have hbef : (kv.apply (.delIndex key) store).jobs[job.id]? = some job := by
    rw [jobs_apply, hid]
    exact hjob
  rw [write_bind, final_put, final_bind, pure_eq, final_done]
  have hvisit := @recoverJob_ages policy _ job (job.lapsed now) now hbef hst
    ⟨rfl, rfl, rfl, rfl, rfl, rfl⟩ rfl
  refine ⟨(Ages.of_delIndex key).trans hvisit.1, ?_⟩
  intro stored hsto _ hstl
  rw [hjob] at hsto
  cases hsto
  exact hvisit.2 hstl

theorem recoverLeases_ages (queue : String) (now : Millis) :
    Ages now store ((recoverLeases policy queue now).final kv store) ∧
      ∀ key job, key ∈ store.index → key.queue = queue → key.slot = .leased →
        store.jobs[key.id]? = some job → job.Lapsed queue now → job.Stale now →
        EndedStale job ((recoverLeases policy queue now).final kv store) := by
  unfold recoverLeases
  rw [query_bind, final_ask]
  have hloop := foldlM_outcome (recoverLease policy queue now)
    (fun keys current => Ages now store current ∧
      ∀ key job, key ∈ kv.answer (Query.indexPrefix queue .leased) store →
        store.jobs[key.id]? = some job → job.Lapsed queue now → job.Stale now →
        EndedStale job current ∨ current.jobs[key.id]? = some job ∧ key ∈ keys)
    (by
      intro key keys recovered current hcur
      obtain ⟨hages, hlt⟩ := hcur
      have hvisit := @recoverLease_ages policy current queue now recovered key
      refine ⟨hages.trans hvisit.1, ?_⟩
      intro other job hoth hjob hlap hstl
      rcases hlt other job hoth hjob hlap hstl with hended | ⟨hcurrentJob, hmem⟩
      · exact .inl (hvisit.1.keeps hended)
      rcases mem_cons.mp hmem with rfl | hrest
      · exact .inl (hvisit.2 job hcurrentJob hlap hstl)
      · rcases hvisit.1.stale _ job hcurrentJob hstl with hsame | hended
        · exact .inr ⟨hsame, hrest⟩
        · exact .inl hended)
    (kv.answer (Query.indexPrefix queue .leased) store) 0
    ⟨Ages.refl store, fun key job hkey hjob _ _ => .inr ⟨hjob, hkey⟩⟩
  refine ⟨hloop.1, ?_⟩
  intro key job hkey hque hslot hjob hlap hstl
  have hscan := (mem_answer_indexPrefix key queue .leased store).mpr ⟨hkey, hque, hslot⟩
  rcases hloop.2 key job hscan hjob hlap hstl with hended | ⟨-, hmem⟩
  · exact hended
  · cases hmem

/-! ## The scan of waiting jobs -/

/-- What the loop of `take` does to stale jobs: it returns none, and ends every one
that it meets before the job it returns. -/
structure ScanEnds (queue : String) (now : Millis) (keys : List IndexKey) (before : Store)
    (outcome : TakeOutcome) (after : Store) : Prop where
  ages : Ages now before after
  fresh : ∀ taken, outcome = .job taken → ¬ taken.Stale now
  met : ∀ front key back, keys = front ++ key :: back →
    (∀ taken, outcome = .job taken → ∀ other ∈ front, other.id ≠ taken.id) →
    ∀ job, before.jobs[key.id]? = some job → job.queue = queue → job.state = .ready →
      job.Stale now → EndedStale job after

namespace ScanEnds

variable {queue : String} {now : Millis} {key : IndexKey} {keys : List IndexKey}
variable {outcome : TakeOutcome}

theorem nothing : ScanEnds queue now [] store .empty store where
  ages := Ages.refl store
  fresh := by
    intro taken htkn
    cases htkn
  met := by
    intro front key back hkeys
    simp at hkeys

theorem cons {middle final : Store} (hages : Ages now store middle)
    (hhere : ∀ job, store.jobs[key.id]? = some job → job.queue = queue → job.state = .ready →
      job.Stale now → EndedStale job middle)
    (hrest : ScanEnds queue now keys middle outcome final) :
    ScanEnds queue now (key :: keys) store outcome final where
  ages := hages.trans hrest.ages
  fresh := hrest.fresh
  met := by
    intro front other back hkeys hfrt job hjob hque hrdy hstl
    cases front with
    | nil =>
      obtain ⟨rfl, -⟩ := List.cons.inj hkeys
      exact hrest.ages.keeps (hhere job hjob hque hrdy hstl)
    | cons first front =>
      obtain ⟨rfl, hltr⟩ := List.cons.inj hkeys
      rcases hages.stale _ job hjob hstl with hsame | hended
      · apply hrest.met front other back hltr _ job hsame hque hrdy hstl
        intro taken htkn earlier hearl
        exact hfrt taken htkn earlier (mem_cons_of_mem key hearl)
      · exact hrest.ages.keeps hended

end ScanEnds

theorem takeFrom_scanEnds (queue worker : String) (now leaseMs : Millis) (keys : List IndexKey) :
    ScanEnds queue now keys store
      ((takeFrom policy queue worker now leaseMs keys).result kv store)
      ((takeFrom policy queue worker now leaseMs keys).final kv store) := by
  induction keys generalizing store with
  | nil => exact ScanEnds.nothing
  | cons key keys ih =>
    unfold takeFrom load
    rw [query_bind, final_ask, result_ask, answer_job]
    split
    · rename_i hnone
      apply ScanEnds.cons (Ages.of_delIndex key) _ ih
      intro job hjob
      rw [hnone] at hjob
      cases hjob
    rename_i job hjob
    have hid := store.jobs_id key.id job hjob
    have hown : store.jobs[job.id]? = some job := by
      rw [hid]
      exact hjob
    split
    · rename_i hoth
      apply ScanEnds.cons (Ages.of_delIndex key) _ ih
      intro stored hsto hque hrdy
      rw [hjob] at hsto
      cases hsto
      exact absurd hrdy (hoth.resolve_left (fun hne => hne hque))
    rename_i hmat
    obtain ⟨-, hrdy⟩ := not_or.mp hmat
    rw [not_not] at hrdy
    have hst : job.state ≠ .expired := by
      rw [hrdy]
      nofun
    split
    · rename_i hstl
      rw [result_bind, final_bind]
      apply ScanEnds.cons (Ages.of_expireAt _ hown (.refl job) hst) _ ih
      intro stored hsto _ _ _
      rw [hjob] at hsto
      cases hsto
      exact expireAt_ends now _ (.refl job)
    rename_i hfre
    have hspa : ∀ stored, store.jobs[key.id]? = some stored → ¬ stored.Stale now := by
      intro stored hsto
      rw [hjob] at hsto
      cases hsto
      exact hfre
    have hdead : ∀ why, Ages now store ((deadLetter job now why false).final kv store) := by
      intro why
      apply Ages.of_fresh hown hfre hst
      intro id hne
      rw [deadLetter_jobs, if_neg hne]
    split
    · rw [result_bind, final_bind]
      apply ScanEnds.cons (hdead _) _ ih
      intro stored hsto _ _ hstl
      exact absurd hstl (hspa stored hsto)
    split
    · rw [result_bind, final_bind]
      apply ScanEnds.cons (hdead _) _ ih
      intro stored hsto _ _ hstl
      exact absurd hstl (hspa stored hsto)
    split
    · apply ScanEnds.cons (Ages.refl store) _ ih
      intro stored hsto _ _ hstl
      exact absurd hstl (hspa stored hsto)
    constructor
    · apply Ages.of_fresh hown hfre hst
      intro id hne
      simp [save, putIndex, Job.leasedTo, JobState.slot, write, hne]
    · intro taken htkn
      have hls : taken = job.leasedTo worker now leaseMs := by
        simpa [save, putIndex, Job.leasedTo, JobState.slot, write] using htkn.symm
      rw [hls]
      exact hfre
    · intro front other back hkeys hfrt stored hsto _ _ hstl
      cases front with
      | nil =>
        obtain ⟨rfl, -⟩ := List.cons.inj hkeys
        exact absurd hstl (hspa stored hsto)
      | cons first front =>
        obtain ⟨rfl, -⟩ := List.cons.inj hkeys
        apply absurd hid.symm
        apply hfrt (job.leasedTo worker now leaseMs) _ key mem_cons_self
        simp [save, putIndex, Job.leasedTo, JobState.slot, write]

theorem takeFrom_not_atLimit (queue worker : String) (now leaseMs : Millis)
    (keys : List IndexKey) (leased limit : ℕ) :
    (takeFrom policy queue worker now leaseMs keys).result kv store ≠ .atLimit leased limit := by
  induction keys generalizing store with
  | nil =>
    nofun
  | cons key keys ih =>
    unfold takeFrom load
    rw [query_bind, result_ask]
    split
    · exact ih
    split
    · exact ih
    split
    · rw [result_bind]
      exact ih
    split
    · rw [result_bind]
      exact ih
    split
    · rw [result_bind]
      exact ih
    · split
      · exact ih
      · simp [save, putIndex, Job.leasedTo, JobState.slot, write]

theorem indexPrefix_sorted (queue : String) (slot : Slot) :
    (kv.answer (Query.indexPrefix queue slot) store).Pairwise
      (fun left right => IndexKey.order left right = .lt) :=
  Std.ExtTreeMap.ordered_keys.filter _

/-! ## One `take` -/

theorem Op.hasKeys (op : Op) (hkeys : HasKeys store) :
    HasKeys ((op.program policy).final kv store) := by
  rw [← stopped_of_length_le kv (op.program policy) _ store le_rfl]
  exact op.hasKeys_stopped _ (.inr (not_splits_of_length_le le_rfl)) hkeys

theorem Reached.hasKeys {ok : Store → Op → Prop} (hrch : Reached policy ok store) :
    HasKeys store := by
  induction hrch with
  | empty =>
    rintro key ⟨job, hjob, -⟩
    simp [Store.empty] at hjob
  | step op _ _ ih => exact op.hasKeys ih

/-- `take` meets a job of its queue: the job's lease has run out, or it waits and the
job that `take` returns, if it returns one, is not listed before it. -/
def Meets (policy : Policy) (store : Store) (now : Millis) (queue : String)
    (outcome : TakeOutcome) (job : Job) : Prop :=
  job.Lapsed queue now ∨ job.queue = queue ∧ job.state = .ready ∧
    (∀ leased limit, outcome ≠ .atLimit leased limit) ∧
    ∀ taken, outcome = .job taken →
      ∀ key ∈ ((recoverLeases policy queue now).final kv store).index,
        key.queue = queue → key.slot = .ready → key.id = taken.id →
          IndexKey.order key (indexKey job .ready) ≠ .lt

theorem take_scans (policy : Policy) (now : Millis) (queue worker : String)
    (leaseMs : Option Millis) :
    Goes kv (fun _ _ => True)
      (fun result final => (∃ refusal, result = .error refusal ∧ final = store) ∨
        ∃ outcome, result = .ok outcome ∧
          ((∃ leased limit, outcome = .atLimit leased limit ∧
              final = (recoverLeases policy queue now).final kv store) ∨
            (∀ leased limit, outcome ≠ .atLimit leased limit) ∧
            ScanEnds queue now
              (kv.answer (Query.indexPrefix queue .ready)
                ((recoverLeases policy queue now).final kv store))
              ((recoverLeases policy queue now).final kv store) outcome final))
      (take policy now queue worker leaseMs) store := by
  unfold take
  split
  · exact Goes.done_iff.mpr (.inl ⟨_, rfl, rfl⟩)
  split
  · exact Goes.done_iff.mpr (.inl ⟨_, rfl, rfl⟩)
  dsimp only
  split
  · exact Goes.done_iff.mpr (.inl ⟨_, rfl, rfl⟩)
  apply Goes.bind
  refine ⟨Chain.single trivial, ?_⟩
  unfold countIndex
  rw [query_bind, ask_bind, Goes.ask_iff]
  simp only [pure_eq, done_bind]
  split
  · exact Goes.done_iff.mpr (.inr ⟨_, rfl, .inl ⟨_, _, rfl, rfl⟩⟩)
  rw [query_bind, Goes.ask_iff]
  apply Goes.bind
  refine ⟨Chain.single trivial, ?_⟩
  apply Goes.done_iff.mpr
  refine .inr ⟨_, rfl, .inr ⟨?_, takeFrom_scanEnds queue worker now _ _⟩⟩
  exact takeFrom_not_atLimit queue worker now _ _

theorem take_ends_stale (hkeys : HasKeys store) (now : Millis) (queue worker : String)
    (leaseMs : Option Millis) :
    (∀ taken, (take policy now queue worker leaseMs).result kv store = .ok (.job taken) →
        ¬ taken.Stale now) ∧
      Ages now store ((take policy now queue worker leaseMs).final kv store) ∧
      ∀ outcome, (take policy now queue worker leaseMs).result kv store = .ok outcome →
        ∀ (id : JobId) (job : Job), store.jobs[id]? = some job → job.Stale now →
          Meets policy store now queue outcome job →
          EndedStale job ((take policy now queue worker leaseMs).final kv store) := by
  have hscans := (@take_scans store policy now queue worker leaseMs).outcome
  generalize (take policy now queue worker leaseMs).result kv store = result at hscans ⊢
  generalize (take policy now queue worker leaseMs).final kv store = final at hscans ⊢
  have hrec := @recoverLeases_ages policy store queue now
  have hlap : ∀ (id : JobId) (job : Job), store.jobs[id]? = some job → job.Stale now →
      job.Lapsed queue now →
      EndedStale job ((recoverLeases policy queue now).final kv store) := by
    intro id job hjob hstl hlap
    obtain rfl := store.jobs_id id job hjob
    exact hrec.2 (indexKey job .leased) job
      (hkeys _ ⟨job, hjob, ownKey_of_leased hlap.2.1⟩) hlap.1 rfl hjob hlap hstl
  rcases hscans with ⟨refusal, rfl, rfl⟩ | ⟨outcome, rfl, ⟨leased, limit, rfl, rfl⟩ | ⟨hbelow, hscan⟩⟩
  · refine ⟨?_, Ages.refl _, ?_⟩
    · intro taken htkn
      cases htkn
    · intro outcome hoc
      cases hoc
  · refine ⟨?_, hrec.1, ?_⟩
    · intro taken htkn
      cases htkn
    · intro outcome hoc id job hjob hstl hmeets
      cases hoc
      rcases hmeets with hrun | ⟨-, -, hbelow, -⟩
      · exact hlap id job hjob hstl hrun
      · exact absurd rfl (hbelow leased limit)
  refine ⟨?_, hrec.1.trans hscan.ages, ?_⟩
  · intro taken htkn
    cases htkn
    exact hscan.fresh taken rfl
  intro other hoth id job hjob hstl hmeets
  cases hoth
  rcases hmeets with hrun | ⟨hque, hrdy, -, hfst⟩
  · exact hscan.ages.keeps (hlap id job hjob hstl hrun)
  obtain rfl := store.jobs_id id job hjob
  rcases hrec.1.stale _ job hjob hstl with hmid | hended
  · have hmiddleKeys : HasKeys ((recoverLeases policy queue now).final kv store) :=
      (@recoverLeases_goes policy store queue now).chain.invariant
        (fun current block hcur hmove => by
          obtain ⟨_, record, hsets⟩ := Move.settles hmove hcur
          exact hsets.hasKeys hcur) hkeys
    have hmem := hmiddleKeys _ ⟨job, hmid, ownKey_of_ready hrdy⟩
    have hlst := (mem_answer_indexPrefix _ queue .ready _).mpr ⟨hmem, hque, rfl⟩
    obtain ⟨front, back, hlist⟩ := append_of_mem hlst
    apply hscan.met front _ back hlist _ job hmid hque hrdy hstl
    intro taken htkn key hfrt hid
    have hkey : key ∈ kv.answer (Query.indexPrefix queue .ready)
        ((recoverLeases policy queue now).final kv store) := by
      rw [hlist]
      exact mem_append_left _ hfrt
    obtain ⟨hkeyMem, hkeyQueue, hkeySlot⟩ := (mem_answer_indexPrefix _ _ _ _).mp hkey
    apply hfst taken htkn key hkeyMem hkeyQueue hkeySlot hid
    have hsrt := @indexPrefix_sorted ((recoverLeases policy queue now).final kv store) queue .ready
    rw [hlist] at hsrt
    exact (pairwise_append.mp hsrt).2.2 key hfrt _ mem_cons_self
  · exact hscan.ages.keeps hended

/-! ## Expired jobs in a run -/

/-- A call of `take` hands out the job with this id. -/
def Hands (policy : Policy) (store : Store) (op : Op) (id : JobId) : Prop :=
  ∃ now queue worker leaseMs job, op = .take now queue worker leaseMs ∧
    (take policy now queue worker leaseMs).result kv store = .ok (.job job) ∧ job.id = id

/-- A call of `enqueue` makes a new job under this id. -/
def Makes (policy : Policy) (store : Store) (op : Op) (id : JobId) : Prop :=
  ∃ now request, op = .enqueue now request ∧
    (enqueue policy now request).result kv store = .ok ⟨id, false⟩

def Gone (store : Store) (id : JobId) : Prop :=
  ∀ job, store.jobs[id]? = some job → job.state = .expired

theorem Evolves.state_of_expired {job' : Job} (hevo : Evolves policy job job')
    (hexp : job.state = .expired) : job'.state = .expired := by
  cases hevo with
  | append => exact hexp
  | lease _ _ _ hrdy | endReady _ hrdy =>
    rw [hexp] at hrdy
    cases hrdy
  | extend _ _ hls | settle _ _ hls | back _ hls | endLease _ hls =>
    rw [hexp] at hls
    cases hls

variable {id : JobId}

theorem Move.gone {writes : List Write} (hmove : Move policy store writes) (hgone : Gone store id) :
    Gone (kv.applyAll writes store) id := by
  intro job' hjob'
  rw [← take_length (l := writes)] at hjob'
  rcases hmove.evolves writes.length id job' hjob' with hbef | ⟨job, hjob, hevo⟩
  · exact hgone job' hbef
  · exact hevo.state_of_expired (hgone job hjob)

theorem enqueue_makes (now : Millis) (request : EnqueueRequest) :
    Goes kv (fun _ _ => True)
      (fun outcome final => ∀ id : JobId,
        (outcome ≠ .ok ⟨id, false⟩ → final.jobs[id]? = store.jobs[id]?) ∧
        (outcome = .ok ⟨id, false⟩ → final.jobs[id]? = some (request.job policy now id)))
      (enqueue policy now request) store := by
  unfold enqueue
  split
  · exact Goes.done_iff.mpr (fun id => ⟨fun _ => rfl, fun h => by cases h⟩)
  split
  · exact Goes.done_iff.mpr (fun id => ⟨fun _ => rfl, fun h => by cases h⟩)
  apply Goes.bind
  apply (claimHolder_goes (claimKey request.queue request.dedupeKey)).weaken
  intro holder current hhldr
  obtain ⟨rfl, -⟩ := hhldr
  split
  · exact Goes.done_iff.mpr (fun id => ⟨fun _ => rfl, fun h => by cases h⟩)
  unfold countIndex
  rw [query_bind, ask_bind, Goes.ask_iff]
  simp only [pure_eq, done_bind]
  split
  · exact Goes.done_iff.mpr (fun id => ⟨fun _ => rfl, fun h => by cases h⟩)
  unfold nextCounter
  rw [query_bind, ask_bind, Goes.ask_iff]
  simp only [write_bind, put_bind, pure_eq, done_bind]
  rw [putClaim_bind]
  apply Goes.block_append [Write.putCounter .id _] _ [Write.putJob _, Write.putIndex _] trivial
  apply Goes.done_iff.mpr
  intro id
  rw [Machine.applyAll_append, Machine.applyAll_append]
  have hclm := same_of_about_none _
    (@about_claimWrites (request.job policy now (store.nextId.getD 1)))
  simp only [answer_counter_id, Machine.applyAll_cons, Machine.applyAll_nil, jobs_apply, hclm]
  constructor
  · intro hoth
    rw [if_neg]
    rintro rfl
    exact hoth rfl
  · intro hmade
    cases hmade
    exact if_pos rfl

theorem repair_gone (hgone : Gone store id) : Gone (repair.final kv store) id := by
  intro job hjob
  rw [repair_goes.outcome.1.jobs] at hjob
  exact hgone job hjob

theorem Op.gone (op : Op) (hgone : Gone store id) :
    Makes policy store op id ∨ Gone ((op.program policy).final kv store) id := by
  by_cases hmakes : Makes policy store op id
  · exact .inl hmakes
  right
  cases op with
  | enqueue now request =>
    intro job hjob
    unfold Op.program at hjob
    rw [discard_final] at hjob
    rw [((@enqueue_makes policy store now request).outcome id).1
      (fun hnew => hmakes ⟨now, request, rfl, hnew⟩)] at hjob
    exact hgone job hjob
  | requeue now other options =>
    refine @Op.final_invariant policy store (fun current => Gone current id) _ ?_ ?_ hgone
    · intro current block hcur halwd job' hjob'
      rcases jobs_applyAll_cases block current id job' hjob' with hbef | ⟨hput, hid⟩
      · exact hcur job' hbef
      obtain ⟨job, now', options', hjob, hdead, rfl⟩ := halwd.2.putJob hput
      rw [hid] at hjob
      rw [hcur job hjob] at hdead
      cases hdead
    · exact repair_gone
  | _ =>
    refine @Op.final_invariant policy store (fun current => Gone current id) _ ?_ ?_ hgone
    · intro current block hcur halwd
      exact Move.gone halwd hcur
    · exact repair_gone

theorem take_returned {now : Millis} {queue worker : String} {leaseMs : Option Millis}
    (hres : (take policy now queue worker leaseMs).result kv store = .ok (.job job)) :
    ((take policy now queue worker leaseMs).final kv store).jobs[job.id]? = some job ∧
      job.state = .leased := by
  have haccs : TakeAccepts policy queue worker leaseMs := by
    unfold take at hres
    by_cases hque : validName queue 64
    · by_cases hwor : validName worker 100
      · cases hlse : leaseRefusal policy (leaseMs.getD policy.leaseMs) with
        | none => exact ⟨hque, hwor, hlse⟩
        | some refusal => simp [hque, hwor, hlse] at hres
      · simp [hque, hwor] at hres
    · simp [hque] at hres
  obtain ⟨middle, -, -, hcase⟩ := (take_goes now queue worker leaseMs).outcome haccs
  rw [hres] at hcase
  rcases hcase with ⟨leased, limit, hlim, -⟩ | ⟨taken, htkn, hfrom⟩
  · cases hlim
  · cases htkn
    exact hfrom.leased job rfl

theorem not_hands_of_gone {op : Op} (hgone : Gone store id) : ¬ Hands policy store op id := by
  rintro ⟨now, queue, worker, leaseMs, job, -, hres, rfl⟩
  have haft : Gone ((take policy now queue worker leaseMs).final kv store) job.id :=
    (take_goes now queue worker leaseMs).chain.invariant
      (fun current block hcur hmove => hmove.gone hcur) hgone
  obtain ⟨hjob, hls⟩ := take_returned hres
  rw [haft job hjob] at hls
  cases hls

theorem made_of_hands (ops : List Op) (op : Op) (hgone : Gone store id)
    (hhands : Hands policy (runAll policy ops store) op id) :
    ∃ earlier made later, ops = earlier ++ made :: later ∧
      Makes policy (runAll policy earlier store) made id := by
  induction ops generalizing store with
  | nil => exact absurd hhands (not_hands_of_gone hgone)
  | cons first ops ih =>
    rcases first.gone hgone with hmakes | hstill
    · exact ⟨[], first, ops, rfl, hmakes⟩
    · obtain ⟨earlier, made, later, rfl, hmakes⟩ := ih hstill hhands
      exact ⟨first :: earlier, made, later, rfl, hmakes⟩

/-- `take` and stale jobs: it returns none; it leaves one as it is or ends it by the
expiry path, the latter whenever it meets it; and no later `take` hands out a job
that is expired, unless `enqueue` made a new one under its id. -/
structure SparesStale (policy : Policy) (store : Store) (now : Millis) (queue worker : String)
    (leaseMs : Option Millis) : Prop where
  fresh : ∀ taken, (take policy now queue worker leaseMs).result kv store = .ok (.job taken) →
    ¬ taken.Stale now
  spared : ∀ (id : JobId) (job : Job), store.jobs[id]? = some job → job.Stale now →
    ((take policy now queue worker leaseMs).final kv store).jobs[id]? = some job ∨
      EndedStale job ((take policy now queue worker leaseMs).final kv store)
  ended : ∀ outcome, (take policy now queue worker leaseMs).result kv store = .ok outcome →
    ∀ (id : JobId) (job : Job), store.jobs[id]? = some job → job.Stale now →
      Meets policy store now queue outcome job →
      EndedStale job ((take policy now queue worker leaseMs).final kv store)
  never : ∀ (id : JobId) (ended : Job),
    ((take policy now queue worker leaseMs).final kv store).jobs[id]? = some ended →
    ended.state = .expired → ∀ ops op,
      Hands policy
        (runAll policy ops ((take policy now queue worker leaseMs).final kv store)) op id →
      ∃ earlier made later, ops = earlier ++ made :: later ∧
        Makes policy
          (runAll policy earlier ((take policy now queue worker leaseMs).final kv store)) made id

end WasmAgent.Queue
