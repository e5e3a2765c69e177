import WasmAgent.Queue.Moves

/-!
# Every operation is a sequence of blocks

One lemma for each operation: from any store at all, it goes block by block.
The loops carry what the code relies on, that a key it has scanned is still
there or no longer leads to a record the loop would touch.
-/

namespace WasmAgent.Queue

open List WasmAgent.Core WasmAgent.Core.Program

variable {policy : Policy} {store : Store}

/-! ## Alerts -/

theorem recordAlert_goes (job : Job) (now : Millis) (kind : AlertKind) (reason : String) :
    Goes kv (Move policy) (fun _ final => SameCore store final)
      (recordAlert job now kind reason) store := by
  unfold recordAlert
  rw [query_bind, Goes.ask_iff]
  split
  · exact Goes.done_iff.mpr (SameCore.refl store)
  unfold nextCounter
  simp only [query_bind, ask_bind, write_bind, put_bind, pure_eq, done_bind, Goes.ask_iff]
  have hctr : SameCore store (kv.apply (.putCounter .alertSeq
      (saturatingAddU64 ((kv.answer (Query.counter .alertSeq) store).getD 1) 1)) store) :=
    ⟨rfl, rfl, rfl, rfl⟩
  apply Goes.block [Write.putCounter .alertSeq _] (Move.aside _ trivial)
  apply Goes.block [Write.putAlert _] (Move.aside _ trivial)
  exact Goes.done_iff.mpr (hctr.trans ⟨rfl, rfl, rfl, rfl⟩)

variable {Result : Type}

theorem expireAt_bind (job : Job) (now : Millis) (reason : String)
    (next : Unit → Operation Result) :
    expireAt job now reason >>= next =
      putAll [.delIndex (indexKey job .ready), .delIndex (indexKey job .leased),
          .putJob (job.expiredWith reason now)]
        (recordAlert (job.expiredWith reason now) now .expired reason >>= fun _ => next ()) := by
  simp [expireAt, save, write_bind, put_bind, putAll, pure_eq, done_bind]

theorem deadLetter_bind (job : Job) (now : Millis) (why : String) (keepError : Bool)
    (next : Unit → Operation Result) :
    deadLetter job now why keepError >>= next =
      putAll [.delIndex (indexKey job .ready), .delIndex (indexKey job .leased),
          .putJob (job.deadWith why keepError now)]
        (recordAlert (job.deadWith why keepError now) now .dead
          ((job.deadWith why keepError now).lastError.getD (sanitize why)) >>=
            fun _ => next ()) := by
  simp [deadLetter, save, write_bind, put_bind, putAll, pure_eq, done_bind]

/-! ## Scans -/

structure Scanned (queue : String) (slot : Slot) (state : JobState) (keys : List IndexKey)
    (store : Store) : Prop where
  shape : ∀ key ∈ keys, key.queue = queue ∧ key.slot = slot
  leads : ∀ key ∈ keys, ∀ job, store.jobs[key.id]? = some job → job.queue = queue →
    job.state = state → key ∈ store.index

variable {final : Store}

namespace Scanned

variable {queue : String} {slot : Slot} {state : JobState} {key : IndexKey} {keys : List IndexKey}

theorem start : Scanned queue slot state (kv.answer (Query.indexPrefix queue slot) store)
    store where
  shape := by
    intro key hkey
    exact ((mem_answer_indexPrefix key queue slot store).mp hkey).2
  leads := by
    intro key hkey job _ _ _
    exact ((mem_answer_indexPrefix key queue slot store).mp hkey).1

variable (hscd : Scanned queue slot state (key :: keys) store)
include hscd

theorem tail : Scanned queue slot state keys store where
  shape := by
    intro other hoth
    exact hscd.shape other (mem_cons_of_mem key hoth)
  leads := by
    intro other hoth
    exact hscd.leads other (mem_cons_of_mem key hoth)

theorem step (hsame : SameElsewhere key.id store final)
    (hgone : ∀ job, final.jobs[key.id]? = some job → job.queue = queue → job.state ≠ state) :
    Scanned queue slot state keys final where
  shape := hscd.tail.shape
  leads := by
    intro other hoth job hjob hque hst
    by_cases hid : other.id = key.id
    · rw [hid] at hjob
      exact absurd hst (hgone job hjob hque)
    · rw [hsame.jobs other.id hid] at hjob
      rw [hsame.index other hid]
      exact hscd.tail.leads other hoth job hjob hque hst

theorem drop
    (hgone : ∀ job, store.jobs[key.id]? = some job → job.queue = queue → job.state ≠ state) :
    Scanned queue slot state keys (kv.apply (.delIndex key) store) := by
  apply hscd.step (SameElsewhere.write (Or.inr rfl) store)
  intro job hjob
  exact hgone job hjob

omit hscd in
theorem leadsTo {job : Job} (hscd : Scanned queue slot state (key :: keys) store)
    (hjob : store.jobs[key.id]? = some job) (hque : job.queue = queue)
    (hst : job.state = state) : LeadsTo store key job slot where
  id := (store.jobs_id key.id job hjob).symm
  queue := (hscd.shape key mem_cons_self).1.trans hque.symm
  slot := (hscd.shape key mem_cons_self).2
  present := Or.inl (hscd.leads key mem_cons_self job hjob hque hst)

theorem stale (hslot : ∀ other : JobState, other.slot = some slot → other = state)
    (hgone : ∀ job, store.jobs[key.id]? = some job → job.queue = queue → job.state ≠ state) :
    ¬ Asked store key := by
  rintro ⟨job, hjob, hown⟩
  obtain ⟨hque, hlet⟩ := hscd.shape key mem_cons_self
  obtain ⟨letter, hst, hkey⟩ := Option.map_eq_some_iff.mp hown
  obtain rfl : letter = slot := by
    rw [← hlet, ← hkey]
    rfl
  apply hgone job hjob _ (hslot job.state hst)
  rw [← hque, ← hkey]
  rfl

end Scanned

theorem slot_eq_leased (state : JobState) (hslot : state.slot = some .leased) :
    state = .leased := by
  cases state <;> first | rfl | cases hslot

theorem slot_eq_ready (state : JobState) (hslot : state.slot = some .ready) : state = .ready := by
  cases state <;> first | rfl | cases hslot

/-- What a loop over scanned records relies on: those left are stored as scanned. -/
structure Known (jobs : List Job) (store : Store) : Prop where
  stored : ∀ job ∈ jobs, store.jobs[job.id]? = some job
  distinct : (jobs.map Job.id).Nodup

namespace Known

variable {job : Job} {jobs : List Job}

theorem start : Known store.allJobs store where
  stored := by
    intro job hjob
    exact (mem_allJobs job store).mp hjob
  distinct := by
    have hids : store.allJobs.map Job.id = store.jobs.keys := by
      rw [← Std.ExtTreeMap.map_fst_toList_eq_keys, Store.allJobs, map_map]
      apply map_congr_left
      intro entry hent
      exact store.jobs_id entry.1 entry.2 (Std.ExtTreeMap.mem_toList_iff_getElem?_eq_some.mp hent)
    rw [hids]
    exact Std.ExtTreeMap.nodup_keys

variable (hknw : Known (job :: jobs) store)
include hknw

theorem tail : Known jobs store where
  stored := by
    intro other hoth
    exact hknw.stored other (mem_cons_of_mem job hoth)
  distinct := (nodup_cons.mp hknw.distinct).2

theorem step (hsame : SameElsewhere job.id store final) : Known jobs final where
  stored := by
    intro other hoth
    have hid : other.id ≠ job.id := by
      intro heq
      apply (nodup_cons.mp hknw.distinct).1
      rw [← heq]
      exact mem_map_of_mem hoth
    rw [hsame.jobs other.id hid]
    exact hknw.tail.stored other hoth
  distinct := hknw.tail.distinct

theorem head : store.jobs[job.id]? = some job := hknw.stored job mem_cons_self

end Known

/-! ## Ends of a job -/

variable {post : Result → Store → Prop} {next : Unit → Operation Result} {reason : String}
variable {job : Job} {now : Millis}

variable {kind : AlertKind}

theorem block_then_alert {writes : List Write} (id : JobId) (hmove : Move policy store writes)
    (habout : ∀ change ∈ writes, change.about = none ∨ change.about = some id)
    (hnext : ∀ final, SameElsewhere id store final →
      final.jobs[id]? = (kv.applyAll writes store).jobs[id]? →
      final.index = (kv.applyAll writes store).index →
      Goes kv (Move policy) post (next ()) final) :
    Goes kv (Move policy) post
      (putAll writes (recordAlert job now kind reason >>= fun _ => next ())) store := by
  apply Goes.block writes hmove
  apply Goes.bind
  apply (recordAlert_goes job now kind reason).weaken
  intro _ final hcore
  apply hnext final
  · exact (SameElsewhere.writes writes habout store).trans (SameElsewhere.of_core hcore)
  · rw [hcore.jobs]
  · exact hcore.index

def LeasesWithout (key : IndexKey) (before after : Store) : Prop :=
  ∀ other, other ∈ after.index → other.slot = .leased → other ≠ key ∧ other ∈ before.index

variable {key : IndexKey}

theorem endLease_goes
    (next : Unit → Operation Result) (job job' : Job) (hjob : store.jobs[job.id]? = some job)
    (hls : job.state = .leased) (hkey : LeadsTo store key job .leased)
    (hended : EndedLease policy job job')
    (hnext : ∀ final, SameElsewhere job.id store final → final.jobs[job.id]? = some job' →
      LeasesWithout key store final → Goes kv (Move policy) post (next ()) final) :
    Goes kv (Move policy) post
      (putAll [.delIndex key, .delIndex (indexKey job .ready), .delIndex (indexKey job .leased),
          .putJob job']
        (recordAlert job' now kind reason >>= fun _ => next ())) store := by
  apply block_then_alert job.id (Move.endLease job job' key hjob hls hkey hended)
  · simp [Write.about, hkey.id, indexKey, hended.same.id]
  intro final hsame hfin hidx
  apply hnext final hsame
  · rw [hfin]
    simp [hended.same.id]
  intro other hoth _
  rw [hidx] at hoth
  simp at hoth
  exact ⟨Ne.symm hoth.2.2.1, hoth.2.2.2⟩

theorem back_goes {next : Operation Result} (job job' : Job)
    (hjob : store.jobs[job.id]? = some job) (hls : job.state = .leased)
    (hkey : LeadsTo store key job .leased) (hret : Returned policy job job')
    (hnext : ∀ final, SameElsewhere job.id store final → final.jobs[job.id]? = some job' →
      LeasesWithout key store final → Goes kv (Move policy) post next final) :
    Goes kv (Move policy) post
      (putAll [.delIndex key, .putJob job', .putIndex (indexKey job .ready)] next) store := by
  apply Goes.block _ (Move.back job job' key hjob hls hkey hret)
  apply hnext
  · apply SameElsewhere.writes
    simp [Write.about, hkey.id, indexKey, hret.same.id]
  · simp [hret.same.id]
  intro other hoth hslot
  simp at hoth
  rcases hoth with rfl | hbef
  · cases hslot
  · exact ⟨Ne.symm hbef.1, hbef.2⟩

/-! ## Lapsed leases -/

theorem visit_goes {queue : String} {slot : Slot} {state : JobState}
    {keys : List IndexKey} {stale : Operation Result} {handle : Job → Operation Result}
    (hscd : Scanned queue slot state (key :: keys) store)
    (hslot : ∀ other : JobState, other.slot = some slot → other = state)
    (hstl : (∀ job, store.jobs[key.id]? = some job → job.queue = queue → job.state ≠ state) →
      Scanned queue slot state keys (kv.apply (.delIndex key) store) →
      Goes kv (Move policy) post stale (kv.apply (.delIndex key) store))
    (hhan : ∀ job, job.id = key.id → store.jobs[job.id]? = some job → job.queue = queue →
      job.state = state → LeadsTo store key job slot →
      Goes kv (Move policy) post (handle job) store) :
    Goes kv (Move policy) post
      (do match ← load key.id with
          | none =>
              write (.delIndex key)
              stale
          | some job =>
              if job.queue ≠ queue ∨ job.state ≠ state then
                write (.delIndex key)
                stale
              else
                handle job) store := by
  have hdrop : (∀ job, store.jobs[key.id]? = some job → job.queue = queue →
      job.state ≠ state) → Goes kv (Move policy) post (put (.delIndex key) stale) store := by
    intro hgone
    apply Goes.block [Write.delIndex key] (Move.drop key (hscd.stale hslot hgone))
    exact hstl hgone (hscd.drop hgone)
  unfold load
  rw [query_bind, Goes.ask_iff, answer_job]
  split
  · rename_i hnone
    apply hdrop
    intro job hjob
    rw [hnone] at hjob
    cases hjob
  rename_i job hjob
  split
  · rename_i hoth
    apply hdrop
    intro other hsto hque hst
    rw [hjob] at hsto
    cases hsto
    exact hoth.elim (fun hne => hne hque) (fun hne => hne hst)
  rename_i hmat
  obtain ⟨hque, hst⟩ := not_or.mp hmat
  rw [not_not] at hque hst
  have hid := store.jobs_id key.id job hjob
  exact hhan job hid (hid ▸ hjob) hque hst (hscd.leadsTo hjob hque hst)

def Job.recovered (policy : Policy) (now : Millis) (job : Job) : Job :=
  if job.freshUntil.any (· ≤ now) then
    (job.lapsed now).expiredWith "fresh_until passed while leased" now
  else if policy.maxLeaseLosses < job.leaseExpiries + 1 then
    (job.lapsed now).deadWith "lease_lost" false now
  else if job.maxAttempts ≤ job.attempts then
    (job.lapsed now).deadWith "attempts exhausted" false now
  else
    (job.lapsed now).readyAt
      (saturatingAdd now (policy.retry.delayMs (predU32 (job.leaseExpiries + 1))))

theorem Job.recovered_state (job : Job) (now : Millis) :
    (job.recovered policy now).state ≠ .leased := by
  unfold recovered
  split
  · nofun
  · split
    · nofun
    · split <;> nofun

theorem recoverJob_goes (hjob : store.jobs[job.id]? = some job) (hls : job.state = .leased)
    (hkey : LeadsTo store key job .leased) (huntil : ¬ job.leaseUntil.any (now < ·))
    (hnext : ∀ final, SameElsewhere job.id store final →
      final.jobs[job.id]? = some (job.recovered policy now) →
      LeasesWithout key store final → Goes kv (Move policy) post (next ()) final) :
    Goes kv (Move policy) post
      (put (.delIndex key) (recoverJob policy now (job.lapsed now) >>= next)) store := by
  unfold Job.recovered at hnext
  unfold recoverJob
  split
  · rename_i hfre
    change job.freshUntil.any (· ≤ now) at hfre
    rw [if_pos hfre] at hnext
    rw [expireAt_bind]
    exact endLease_goes next job _ hjob hls hkey (.stale now huntil hfre) hnext
  rename_i hfre
  change ¬ job.freshUntil.any (· ≤ now) at hfre
  rw [if_neg hfre] at hnext
  split
  · rename_i hlos
    change policy.maxLeaseLosses < job.leaseExpiries + 1 at hlos
    rw [if_pos hlos] at hnext
    rw [deadLetter_bind]
    exact endLease_goes next job _ hjob hls hkey (.lost now huntil hlos) hnext
  rename_i hlos
  change ¬ policy.maxLeaseLosses < job.leaseExpiries + 1 at hlos
  rw [if_neg hlos] at hnext
  split
  · rename_i hatts
    change job.maxAttempts ≤ job.attempts at hatts
    rw [if_pos hatts] at hnext
    rw [deadLetter_bind]
    exact endLease_goes next job _ hjob hls hkey (.exhausted now huntil hatts) hnext
  rename_i hatts
  change ¬ job.maxAttempts ≤ job.attempts at hatts
  rw [if_neg hatts] at hnext
  exact back_goes job _ hjob hls hkey (.lapsed now huntil hfre hlos hatts) hnext

def Job.Lapsed (queue : String) (now : Millis) (job : Job) : Prop :=
  job.queue = queue ∧ job.state = .leased ∧ ¬ job.leaseUntil.any (now < ·)

instance (queue : String) (now : Millis) (job : Job) : Decidable (job.Lapsed queue now) :=
  inferInstanceAs (Decidable (_ ∧ _))

/-- What `recover_leases` makes of a record it finds. -/
def recoverIf (policy : Policy) (queue : String) (now : Millis) (job : Job) : Job :=
  if job.Lapsed queue now then job.recovered policy now else job

theorem recoverIf_of_not_lapsed {queue : String}
    (hlap : ¬ job.Lapsed queue now) : recoverIf policy queue now job = job := by
  exact if_neg hlap

theorem recoverIf_not_lapsed (queue : String) (now : Millis) (job : Job) :
    ¬ (recoverIf policy queue now job).Lapsed queue now := by
  unfold recoverIf
  split
  · intro hlap
    exact job.recovered_state now hlap.2.1
  · assumption

def Hidden (store : Store) (queue : String) (id : JobId) : Prop :=
  ∀ key, key ∈ store.index → key.queue = queue → key.slot = .leased → key.id ≠ id

/-- The loop of `recover_leases`, over the keys that are left. -/
structure Recovering (policy : Policy) (queue : String) (now : Millis) (start : Store)
    (keys : List IndexKey) (current : Store) : Prop where
  scanned : Scanned queue .leased .leased keys current
  records : ∀ id : JobId,
    current.jobs[id]? = (start.jobs[id]?).map (recoverIf policy queue now) ∨
      current.jobs[id]? = start.jobs[id]? ∧ ((∃ key ∈ keys, key.id = id) ∨ Hidden start queue id)
  leases : ∀ key, key ∈ current.index → key.queue = queue → key.slot = .leased →
    key ∈ keys ∨ ∃ job, current.jobs[key.id]? = some job ∧ job.queue = queue ∧
      job.state = .leased ∧ ¬ job.Lapsed queue now

namespace Recovering

variable {queue : String} {now : Millis} {origin : Store} {key : IndexKey} {keys : List IndexKey}

theorem start : Recovering policy queue now store
    (kv.answer (Query.indexPrefix queue .leased) store) store where
  scanned := Scanned.start
  records := by
    intro id
    right
    refine ⟨rfl, ?_⟩
    by_cases hfnd : ∃ key ∈ kv.answer (Query.indexPrefix queue .leased) store, key.id = id
    · exact Or.inl hfnd
    right
    intro key hmem hque hslot hid
    exact hfnd ⟨key, (mem_answer_indexPrefix key queue .leased store).mpr ⟨hmem, hque, hslot⟩, hid⟩
  leases := by
    intro key hmem hque hslot
    exact Or.inl ((mem_answer_indexPrefix key queue .leased store).mpr ⟨hmem, hque, hslot⟩)

variable (hrecg : Recovering policy queue now origin (key :: keys) store)
include hrecg

theorem settled_here (hlap : ∀ job, store.jobs[key.id]? = some job → ¬ job.Lapsed queue now) :
    store.jobs[key.id]? = (origin.jobs[key.id]?).map (recoverIf policy queue now) := by
  rcases hrecg.records key.id with hdone | ⟨hsame, -⟩
  · exact hdone
  cases hjob : store.jobs[key.id]? with
  | none =>
    rw [← hsame, hjob]
    rfl
  | some job =>
    rw [← hsame, hjob, Option.map_some, recoverIf_of_not_lapsed (hlap job hjob)]

theorem visited (hscd : Scanned queue .leased .leased keys final)
    (hsame : SameElsewhere key.id store final)
    (hhere : final.jobs[key.id]? = (origin.jobs[key.id]?).map (recoverIf policy queue now))
    (hleas : ∀ other, other ∈ final.index → other.queue = queue → other.slot = .leased →
      other.id = key.id → other ∈ keys ∨ ∃ job, final.jobs[key.id]? = some job ∧
        job.queue = queue ∧ job.state = .leased ∧ ¬ job.Lapsed queue now) :
    Recovering policy queue now origin keys final where
  scanned := hscd
  records := by
    intro id
    by_cases hid : id = key.id
    · subst hid
      exact Or.inl hhere
    rw [hsame.jobs id hid]
    rcases hrecg.records id with hdone | ⟨hkept, ⟨other, hoth, rfl⟩ | hhid⟩
    · exact Or.inl hdone
    · rcases mem_cons.mp hoth with rfl | hrest
      · exact absurd rfl hid
      · exact Or.inr ⟨hkept, Or.inl ⟨other, hrest, rfl⟩⟩
    · exact Or.inr ⟨hkept, Or.inr hhid⟩
  leases := by
    intro other hmem hque hslot
    by_cases hid : other.id = key.id
    · rw [hid]
      exact hleas other hmem hque hslot hid
    rw [hsame.jobs other.id hid]
    rw [hsame.index other hid] at hmem
    rcases hrecg.leases other hmem hque hslot with hkeys | hls
    · rcases mem_cons.mp hkeys with rfl | hrest
      · exact absurd rfl hid
      · exact Or.inl hrest
    · exact Or.inr hls

end Recovering

theorem recoverLease_goes {queue : String} {start : Store} {keys : List IndexKey} (now : Millis)
    (recovered : ℕ) (hrecg : Recovering policy queue now start (key :: keys) store) :
    Goes kv (Move policy) (fun _ final => Recovering policy queue now start keys final)
      (recoverLease policy queue now recovered key) store := by
  have hscd := hrecg.scanned
  apply visit_goes hscd slot_eq_leased
  · intro hgone hdrp
    apply Goes.done_iff.mpr
    apply hrecg.visited hdrp (SameElsewhere.write (Or.inr rfl) store)
    · rw [jobs_apply]
      apply hrecg.settled_here
      intro job hjob hlap
      exact hgone job hjob hlap.1 hlap.2.1
    intro other hmem hque hslot hid
    obtain ⟨hne, hbef⟩ := (mem_index_apply _ _ _).mp hmem
    rcases hrecg.leases other hbef hque hslot with hkeys | ⟨job, hjob, hjobQueue, hls, -⟩
    · exact Or.inl ((mem_cons.mp hkeys).resolve_left (Ne.symm hne))
    · rw [hid] at hjob
      exact absurd hls (hgone job hjob hjobQueue)
  intro job hid hjob hque hls hkey
  split
  · rename_i huntil
    have hlap : ¬ job.Lapsed queue now := fun hlap => hlap.2.2 huntil
    rw [hid] at hjob
    apply Goes.done_iff.mpr
    apply hrecg.visited hscd.tail (SameElsewhere.refl key.id store)
    · apply hrecg.settled_here
      intro stored hsto
      rw [hjob] at hsto
      cases hsto
      exact hlap
    · intro other _ _ _ _
      exact Or.inr ⟨job, hjob, hque, hls, hlap⟩
  rename_i huntil
  have hlap : job.Lapsed queue now := ⟨hque, hls, huntil⟩
  apply recoverJob_goes hjob hls hkey huntil
  intro final hsame hfin hwit
  rw [hid] at hsame hfin hjob
  apply Goes.done_iff.mpr
  apply hrecg.visited _ hsame
  · rw [hfin]
    rcases hrecg.records key.id with hdone | ⟨hkept, -⟩
    · rw [hjob] at hdone
      obtain ⟨stored, -, hrecv⟩ := Option.map_eq_some_iff.mp hdone.symm
      rw [← hrecv] at hlap
      exact absurd hlap (recoverIf_not_lapsed queue now stored)
    · rw [← hkept, hjob, Option.map_some, recoverIf, if_pos hlap]
  · intro other hmem hotherQueue hslot hoth
    obtain ⟨hne, hbef⟩ := hwit other hmem hslot
    rcases hrecg.leases other hbef hotherQueue hslot with
      hkeys | ⟨stored, hsto, -, -, hnot⟩
    · exact Or.inl ((mem_cons.mp hkeys).resolve_left hne)
    · rw [hoth, hjob] at hsto
      cases hsto
      exact absurd hlap hnot
  apply hscd.step hsame
  intro other hoth _
  rw [hfin] at hoth
  cases hoth
  exact job.recovered_state now

theorem recoverLeases_goes (queue : String) (now : Millis) :
    Goes kv (Move policy) (fun _ final => Recovering policy queue now store [] final)
      (recoverLeases policy queue now) store := by
  unfold recoverLeases
  rw [query_bind, Goes.ask_iff]
  exact Goes.foldlM (fun keys _ current => Recovering policy queue now store keys current)
    (fun key keys recovered current hrecg => recoverLease_goes now recovered hrecg)
    (fun _ _ hrecg => hrecg) _ 0 Recovering.start

/-! ## Handover -/

theorem handBack_goes (hjob : store.jobs[job.id]? = some job) (hls : job.state = .leased)
    (hkey : LeadsTo store key job .leased)
    (hnext : ∀ final, SameElsewhere job.id store final →
      (∀ other, final.jobs[job.id]? = some other → other.state ≠ .leased) →
      Goes kv (Move policy) post (next ()) final) :
    Goes kv (Move policy) post
      (put (.delIndex key) (handBack now (job.released now) >>= next)) store := by
  unfold handBack
  split
  · rename_i hfre
    rw [expireAt_bind]
    apply endLease_goes next job _ hjob hls hkey (.handedOver now hfre)
    intro final hsame hfin _
    apply hnext final hsame
    intro other hoth
    rw [hfin] at hoth
    cases hoth
    nofun
  rename_i hfre
  apply back_goes job _ hjob hls hkey (.handedOver now hfre)
  intro final hsame hfin _
  apply hnext final hsame
  intro other hoth
  rw [hfin] at hoth
  cases hoth
  nofun

theorem handoverLease_goes {queue : String} {keys : List IndexKey} (workerPrefix : String)
    (now : Millis) (handed : ℕ) (hscd : Scanned queue .leased .leased (key :: keys) store) :
    Goes kv (Move policy) (fun _ final => Scanned queue .leased .leased keys final)
      (handoverLease queue workerPrefix now handed key) store := by
  apply visit_goes hscd slot_eq_leased
  · intro _ hdrp
    exact Goes.done_iff.mpr hdrp
  intro job hid hjob hque hls hkey
  split
  · exact Goes.done_iff.mpr hscd.tail
  apply handBack_goes hjob hls hkey
  intro final hsame hgone
  rw [hid] at hsame hgone
  apply Goes.done_iff.mpr
  exact hscd.step hsame (fun other hoth _ => hgone other hoth)

variable (now : Millis)

theorem handover_goes (queue workerPrefix : String) :
    Goes kv (Move policy) (fun _ _ => True) (handover now queue workerPrefix) store := by
  unfold handover
  split
  · exact Goes.done_iff.mpr trivial
  split
  · exact Goes.done_iff.mpr trivial
  rw [query_bind, Goes.ask_iff]
  apply Goes.bind
  exact Goes.foldlM (fun keys _ current => Scanned queue .leased .leased keys current)
    (fun key keys handed current hscd =>
      handoverLease_goes workerPrefix now handed hscd)
    (fun _ _ _ => Goes.done_iff.mpr trivial) _ 0 Scanned.start

/-! ## One job -/

variable (id : JobId)

theorem progress_goes (chunk : Bytes) :
    Goes kv (Move policy) (fun _ _ => True) (progress policy now id chunk) store := by
  unfold progress load
  rw [query_bind, Goes.ask_iff, answer_job]
  split
  · exact Goes.done_iff.mpr trivial
  rename_i job hjob
  obtain rfl := store.jobs_id id job hjob
  split
  · exact Goes.done_iff.mpr trivial
  · apply Goes.block [_, _] (Move.append job chunk now hjob)
    exact Goes.done_iff.mpr trivial

theorem heartbeat_goes (worker : String) (extendMs : Option Millis) :
    Goes kv (Move policy) (fun _ _ => True) (heartbeat policy now id worker extendMs) store := by
  unfold heartbeat load
  rw [query_bind, Goes.ask_iff, answer_job]
  split
  · exact Goes.done_iff.mpr trivial
  rename_i job hjob
  obtain rfl := store.jobs_id id job hjob
  split
  · exact Goes.done_iff.mpr trivial
  rename_i hhld
  have hls : job.state = .leased := by
    simp only [holdsLease, Bool.not_eq_eq_eq_not, Bool.not_true, Bool.not_eq_false,
      decide_eq_true_eq] at hhld
    exact hhld.1
  dsimp only
  split
  · exact Goes.done_iff.mpr trivial
  · apply Goes.block [_] (Move.extend job _ now hjob hls)
    exact Goes.done_iff.mpr trivial

theorem leased_of_not_leaseLost {worker : Option String}
    (hheld : ¬ leaseLost job worker = true) : job.state = .leased := by
  simp only [leaseLost, Bool.or_eq_true, decide_eq_true_eq, not_or, not_not] at hheld
  exact hheld.1

variable (worker : Option String)

theorem settle_goes (result : Bytes) :
    Goes kv (Move policy) (fun _ _ => True) (settle policy now id worker result) store := by
  unfold settle load
  rw [query_bind, Goes.ask_iff, answer_job]
  split
  · exact Goes.done_iff.mpr trivial
  rename_i job hjob
  obtain rfl := store.jobs_id id job hjob
  split
  · exact Goes.done_iff.mpr trivial
  rename_i hheld
  split
  · exact Goes.done_iff.mpr trivial
  · apply Goes.block [_, _]
      (Move.settle job result now hjob (leased_of_not_leaseLost hheld))
    exact Goes.done_iff.mpr trivial

theorem failInner_goes (reason : String) :
    Goes kv (Move policy) (fun _ _ => True) (failInner policy now id worker reason) store := by
  unfold failInner load
  rw [query_bind, Goes.ask_iff, answer_job]
  split
  · exact Goes.done_iff.mpr trivial
  rename_i job hjob
  obtain rfl := store.jobs_id id job hjob
  split
  · exact Goes.done_iff.mpr trivial
  rename_i hheld
  have hls := leased_of_not_leaseLost hheld
  have hkey : LeadsTo store (indexKey job .leased) job .leased := ⟨rfl, rfl, rfl, Or.inr rfl⟩
  rw [write_bind]
  split
  · rename_i hatts
    rw [deadLetter_bind]
    apply endLease_goes (fun _ => pure _) job _ hjob hls hkey (.failed reason now hatts)
    intro final _ _ _
    exact Goes.done_iff.mpr trivial
  rename_i hatts
  apply back_goes job _ hjob hls hkey (.failed reason now hatts)
  intro final _ _ _
  exact Goes.done_iff.mpr trivial

/-! ## Producer and admin -/

theorem claimHolder_goes {allowed : Store → List Write → Prop} (claim : Option ClaimKey) :
    Goes kv allowed
      (fun holder final => store = final ∧ (holder = none → ∀ key id, claim = some key →
        store.claims[key]? = some id → store.jobs[id]? = none))
      (claimHolder claim) store := by
  unfold claimHolder
  split
  · apply Goes.done_iff.mpr
    simp
  rename_i key
  rw [query_bind, Goes.ask_iff, answer_claim]
  split
  · rename_i hnone
    apply Goes.done_iff.mpr
    constructor
    · rfl
    intro _ key' id hkey hclm
    cases hkey
    rw [hnone] at hclm
    cases hclm
  rename_i id hid
  unfold load
  rw [query_bind, Goes.ask_iff, answer_job]
  apply Goes.done_iff.mpr
  constructor
  · rfl
  intro hnone key' holder hkey hhldr
  cases hkey
  rw [hid] at hhldr
  cases hhldr
  cases hsto : store.jobs[id]? with
  | none => rfl
  | some job =>
    simp [hsto] at hnone

theorem putClaim_bind (job : Job) (next : Unit → Operation Result) :
    putClaim job >>= next = putAll (claimWrites job) (next ()) := by
  unfold putClaim claimWrites
  cases claimKey job.queue job.dedupeKey <;> rfl

theorem enqueue_goes (request : EnqueueRequest) :
    Goes kv (fun current writes => current = store ∧ Creation policy current writes)
      (fun _ _ => True) (enqueue policy now request) store := by
  unfold enqueue
  split
  · exact Goes.done_iff.mpr trivial
  rename_i hvld
  split
  · exact Goes.done_iff.mpr trivial
  rename_i hfre
  apply Goes.bind
  apply (claimHolder_goes (claimKey request.queue request.dedupeKey)).weaken
  intro holder current hhldr
  obtain ⟨rfl, hnone⟩ := hhldr
  split
  · exact Goes.done_iff.mpr trivial
  have hclm := hnone rfl
  unfold countIndex
  rw [query_bind, ask_bind, Goes.ask_iff]
  simp only [pure_eq, done_bind]
  split
  · exact Goes.done_iff.mpr trivial
  rename_i hroom
  unfold nextCounter
  rw [query_bind, ask_bind, Goes.ask_iff]
  simp only [write_bind, put_bind, pure_eq, done_bind]
  rw [putClaim_bind]
  apply Goes.block_append [Write.putCounter .id _] _
    [Write.putJob _, Write.putIndex _]
    ⟨rfl, Creation.create now request hvld hfre hclm (Nat.lt_of_not_le hroom) _ rfl⟩
  exact Goes.done_iff.mpr trivial

theorem requeueWith_goes (options : RequeueOptions) :
    Goes kv (fun current writes => current = store ∧ Revival policy current writes)
      (fun _ _ => True) (requeueWith policy now id options) store := by
  unfold requeueWith load
  rw [query_bind, Goes.ask_iff, answer_job]
  split
  · exact Goes.done_iff.mpr trivial
  rename_i job hjob
  obtain rfl := store.jobs_id id job hjob
  split
  · exact Goes.done_iff.mpr trivial
  rename_i hdead
  rw [not_not] at hdead
  apply Goes.block [_, _, _] ⟨rfl, Revival.revive job now options hjob hdead⟩
  exact Goes.done_iff.mpr trivial

/-! ## Take -/

theorem entries_le_of_subset {before after : Store} (queue : String) (slot : Slot)
    (hsub : ∀ key, key ∈ after.index → key.queue = queue → key.slot = slot → key ∈ before.index) :
    entries after queue slot ≤ entries before queue slot := by
  have hndp : (kv.answer (Query.indexPrefix queue slot) after).Nodup :=
    Std.ExtTreeMap.nodup_keys.filter _
  apply (subperm_of_subset hndp _).length_le
  intro key hkey
  obtain ⟨hmem, hque, hslot⟩ := (mem_answer_indexPrefix key queue slot after).mp hkey
  exact (mem_answer_indexPrefix key queue slot before).mpr ⟨hsub key hmem hque hslot, hque, hslot⟩

theorem entries_le_succ {before after : Store} (key : IndexKey)
    (hsub : ∀ other, other ∈ after.index → other ∈ before.index ∨ other = key)
    (queue : String) (slot : Slot) : entries after queue slot ≤ entries before queue slot + 1 := by
  unfold entries
  rw [← length_cons (a := key)]
  apply (subperm_of_subset _ _).length_le
  · exact Std.ExtTreeMap.nodup_keys.filter _
  intro other hoth
  obtain ⟨hmem, hque, hslot⟩ := (mem_answer_indexPrefix other queue slot after).mp hoth
  rcases hsub other hmem with hbef | rfl
  · apply mem_cons_of_mem
    exact (mem_answer_indexPrefix other queue slot before).mpr ⟨hbef, hque, hslot⟩
  · exact mem_cons_self

theorem endReady_goes {now : Millis} (next : Unit → Operation Result)
    (job job' : Job) (hjob : store.jobs[job.id]? = some job) (hrdy : job.state = .ready)
    (hended : EndedReady policy job job')
    (hnext : ∀ final, SameElsewhere job.id store final →
      final.jobs[job.id]? = some job' → (∀ key, key ∈ final.index → key ∈ store.index) →
      Goes kv (Move policy) post (next ()) final) :
    Goes kv (Move policy) post
      (putAll [.delIndex (indexKey job .ready), .delIndex (indexKey job .leased), .putJob job']
        (recordAlert job' now kind reason >>= fun _ => next ())) store := by
  apply Goes.block _ (Move.endReady job job' hjob hrdy hended)
  apply Goes.bind
  apply (recordAlert_goes job' now kind reason).weaken
  intro _ final hcore
  apply hnext final
  · apply (SameElsewhere.writes _ _ store).trans (SameElsewhere.of_core hcore)
    simp [Write.about, indexKey, hended.same.id]
  · rw [hcore.jobs]
    simp [hended.same.id]
  intro key hkey
  rw [hcore.index] at hkey
  simp at hkey
  exact hkey.2.2

/-- What the loop of `take` does to the records, over the keys it scans. -/
structure TakenFrom (queue : String) (now : Millis) (before : Store) (keys : List IndexKey)
    (outcome : TakeOutcome) (after : Store) : Prop where
  kept : ∀ (id : JobId) (job : Job), before.jobs[id]? = some job →
    after.jobs[id]? = some job ∨ job.state = .ready ∧
      ((∃ ended, after.jobs[id]? = some ended ∧ ended.state.isTerminal ∧
        (ended.state = .dead ∨ job.freshUntil.any (· ≤ now))) ∨
      ∃ taken, outcome = .job taken ∧ taken.id = id)
  ready : ∀ (id : JobId) (job : Job), after.jobs[id]? = some job → job.state = .ready →
    before.jobs[id]? = some job
  leased : ∀ job, outcome = .job job → after.jobs[job.id]? = some job ∧ job.state = .leased
  missed : outcome = .empty → ∀ key ∈ keys, ∀ job, after.jobs[key.id]? = some job →
    job.queue = queue → job.state = .ready → now < job.notBefore
  below : ∀ leased limit, outcome ≠ .atLimit leased limit

namespace TakenFrom

variable {queue : String} {now : Millis} {outcome : TakeOutcome} {key : IndexKey}
variable {keys : List IndexKey}

theorem nothing : TakenFrom queue now store [] .empty store where
  kept := by
    intro id job hjob
    exact Or.inl hjob
  ready := by
    intro id job hjob _
    exact hjob
  leased := by
    intro job hjob
    cases hjob
  missed := by
    intro _ key hkey
    cases hkey
  below := by
    intro leased limit hlim
    cases hlim

variable {middle : Store} (hrest : TakenFrom queue now middle keys outcome final)
include hrest

theorem cons (hsame : SameElsewhere key.id store middle)
    (hhere : ∀ job, store.jobs[key.id]? = some job → middle.jobs[key.id]? = some job ∨
      job.state = .ready ∧ ∃ ended, middle.jobs[key.id]? = some ended ∧ ended.state.isTerminal ∧
        (ended.state = .dead ∨ job.freshUntil.any (· ≤ now)))
    (hback : ∀ job, middle.jobs[key.id]? = some job → job.state = .ready →
      store.jobs[key.id]? = some job ∧ (job.queue = queue → now < job.notBefore)) :
    TakenFrom queue now store (key :: keys) outcome final where
  kept := by
    intro id job hjob
    by_cases hid : id = key.id
    · subst hid
      rcases hhere job hjob with hmid | ⟨hrdy, ended, hmid, hterm, hwhy⟩
      · exact hrest.kept key.id job hmid
      right
      refine ⟨hrdy, Or.inl ⟨ended, ?_, hterm, hwhy⟩⟩
      rcases hrest.kept key.id ended hmid with hfin | ⟨hnot, -⟩
      · exact hfin
      · exact absurd hnot (JobState.ne_ready_of_terminal hterm)
    · rw [← hsame.jobs id hid] at hjob
      exact hrest.kept id job hjob
  ready := by
    intro id job hjob hrdy
    have hmid := hrest.ready id job hjob hrdy
    by_cases hid : id = key.id
    · subst hid
      exact (hback job hmid hrdy).1
    · rwa [hsame.jobs id hid] at hmid
  leased := hrest.leased
  missed := by
    intro hemp other hoth job hjob hque hrdy
    rcases mem_cons.mp hoth with rfl | hltr
    · exact (hback job (hrest.ready _ job hjob hrdy) hrdy).2 hque
    · exact hrest.missed hemp other hltr job hjob hque hrdy
  below := hrest.below

theorem skip (hjobs : middle.jobs = store.jobs) (hidx : SameElsewhere key.id store middle)
    (hwts : ∀ job, store.jobs[key.id]? = some job → job.state = .ready → job.queue = queue →
      now < job.notBefore) : TakenFrom queue now store (key :: keys) outcome final := by
  apply hrest.cons hidx
  · intro job hjob
    rw [hjobs]
    exact Or.inl hjob
  · intro job hjob hrdy
    rw [hjobs] at hjob
    exact ⟨hjob, hwts job hjob hrdy⟩

omit hrest

theorem ended {job job' : Job} (hrest : TakenFrom queue now middle keys outcome final)
    (hsame : SameElsewhere key.id store middle) (hjob : store.jobs[key.id]? = some job)
    (hrdy : job.state = .ready) (hmid : middle.jobs[key.id]? = some job')
    (hterm : job'.state.isTerminal) (hwhy : job'.state = .dead ∨ job.freshUntil.any (· ≤ now)) :
    TakenFrom queue now store (key :: keys) outcome final := by
  apply hrest.cons hsame
  · intro other hoth
    rw [hjob] at hoth
    cases hoth
    exact Or.inr ⟨hrdy, job', hmid, hterm, hwhy⟩
  intro other hoth hotherReady
  rw [hmid] at hoth
  cases hoth
  exact absurd hotherReady (JobState.ne_ready_of_terminal hterm)

theorem lease (worker : String) (leaseMs : Millis) (hsame : SameElsewhere key.id store final)
    (hid : job.id = key.id) (hjob : store.jobs[key.id]? = some job) (hrdy : job.state = .ready)
    (hfin : final.jobs[key.id]? = some (job.leasedTo worker now leaseMs)) :
    TakenFrom queue now store (key :: keys) (.job (job.leasedTo worker now leaseMs)) final where
  kept := by
    intro id other hoth
    by_cases hkey : id = key.id
    · subst hkey
      rw [hjob] at hoth
      cases hoth
      exact Or.inr ⟨hrdy, Or.inr ⟨_, rfl, hid⟩⟩
    · rw [hsame.jobs id hkey]
      exact Or.inl hoth
  ready := by
    intro id other hoth hotherReady
    by_cases hkey : id = key.id
    · subst hkey
      rw [hfin] at hoth
      cases hoth
      cases hotherReady
    · rwa [hsame.jobs id hkey] at hoth
  leased := by
    intro taken htkn
    cases htkn
    refine ⟨?_, rfl⟩
    rw [(job.same_leasedTo worker now leaseMs).id, hid]
    exact hfin
  missed := by
    intro hemp
    cases hemp
  below := by
    intro leased limit hlim
    cases hlim

end TakenFrom

theorem takeFrom_goes (queue worker : String) (now leaseMs : Millis) (keys : List IndexKey)
    (hscd : Scanned queue .ready .ready keys store)
    (hroom : entries store queue .leased < policy.limitFor queue) :
    Goes kv (Move policy) (TakenFrom queue now store keys)
      (takeFrom policy queue worker now leaseMs keys) store := by
  induction keys generalizing store with
  | nil => exact Goes.done_iff.mpr TakenFrom.nothing
  | cons key keys ih =>
    apply visit_goes hscd slot_eq_ready
    · intro hgone hdrp
      apply (ih hdrp _).weaken
      · intro outcome final hrest
        have hjobs : (kv.apply (.delIndex key) store).jobs = store.jobs := rfl
        apply hrest.skip hjobs (SameElsewhere.write (Or.inr rfl) store)
        intro job hjob hrdy hque
        exact absurd hrdy (hgone job hjob hque)
      · apply Nat.lt_of_le_of_lt (entries_le_of_subset queue .leased _) hroom
        intro other hoth _ _
        exact ((mem_index_apply _ _ _).mp hoth).2
    intro job hid hjob hque hrdy hkey
    have hsto : store.jobs[key.id]? = some job := by
      rw [← hid]
      exact hjob
    have hrest : ∀ job' middle, EndedReady policy job job' →
        (job'.state = .dead ∨ job.freshUntil.any (· ≤ now)) →
        SameElsewhere job.id store middle → middle.jobs[job.id]? = some job' →
        (∀ key, key ∈ middle.index → key ∈ store.index) →
        Goes kv (Move policy) (TakenFrom queue now store (key :: keys))
          (takeFrom policy queue worker now leaseMs keys) middle := by
      intro job' middle hended hwhy hsame hmid hsub
      rw [hid] at hsame hmid
      have hnext : Scanned queue .ready .ready keys middle := by
        apply hscd.step hsame
        intro other hoth _
        rw [hmid] at hoth
        cases hoth
        exact JobState.ne_ready_of_terminal hended.terminal
      apply (ih hnext _).weaken
      · intro outcome final htkn
        exact htkn.ended hsame hsto hrdy hmid hended.terminal hwhy
      · exact Nat.lt_of_le_of_lt
          (entries_le_of_subset queue .leased (fun key hkey _ _ => hsub key hkey)) hroom
    split
    · rename_i hfre
      rw [expireAt_bind]
      have hended : EndedReady policy job _ := .stale now hfre
      exact endReady_goes (fun _ => _) job _ hjob hrdy hended
        (fun final => hrest _ final hended (Or.inr hfre))
    rename_i hfre
    split
    · rename_i hatts
      rw [deadLetter_bind]
      have hended : EndedReady policy job _ := .exhausted now hatts
      exact endReady_goes (fun _ => _) job _ hjob hrdy hended
        (fun final => hrest _ final hended (Or.inl rfl))
    rename_i hatts
    split
    · rename_i hlos
      rw [deadLetter_bind]
      have hended : EndedReady policy job _ := .lost now hlos
      exact endReady_goes (fun _ => _) job _ hjob hrdy hended
        (fun final => hrest _ final hended (Or.inl rfl))
    rename_i hlos
    split
    · rename_i hwts
      apply (ih hscd.tail hroom).weaken
      intro outcome final htkn
      apply htkn.skip rfl (SameElsewhere.refl key.id store)
      intro other hoth _ _
      rw [hsto] at hoth
      cases hoth
      exact hwts
    rename_i hdue
    apply Goes.block [_, _, _] (Move.lease job key worker now leaseMs hjob
      hrdy hkey hfre hatts hlos hdue (hque ▸ hroom))
    apply Goes.done_iff.mpr
    have hsame := job.same_leasedTo worker now leaseMs
    apply TakenFrom.lease worker leaseMs _ hid hsto hrdy
    · simp [hsame.id, hid]
    · apply SameElsewhere.writes
      simp [Write.about, hsame.id, hid, indexKey]

/-- What `take` does with arguments it accepts: lapsed leases are recovered, and
unless the queue is at its limit the ready keys are scanned. -/
def Taking (policy : Policy) (queue : String) (now : Millis) (before : Store)
    (outcome : Except QueueError TakeOutcome) (after : Store) : Prop :=
  ∃ middle, Recovering policy queue now before [] middle ∧
    middle = (recoverLeases policy queue now).final kv before ∧
    ((∃ leased limit, outcome = .ok (.atLimit leased limit) ∧ after = middle ∧
        policy.limitFor queue ≤ entries middle queue .leased) ∨
      ∃ taken, outcome = .ok taken ∧
        TakenFrom queue now middle (kv.answer (Query.indexPrefix queue .ready) middle) taken after)

/-- Arguments that `take` accepts. -/
def TakeAccepts (policy : Policy) (queue worker : String) (leaseMs : Option Millis) : Prop :=
  validName queue 64 ∧ validName worker 100 ∧
    leaseRefusal policy (leaseMs.getD policy.leaseMs) = none

theorem take_goes (now : Millis) (queue worker : String) (leaseMs : Option Millis) :
    Goes kv (Move policy)
      (fun outcome final => TakeAccepts policy queue worker leaseMs →
        Taking policy queue now store outcome final)
      (take policy now queue worker leaseMs) store := by
  unfold take
  split
  · rename_i hque
    apply Goes.done_iff.mpr
    intro haccs
    rw [haccs.1] at hque
    cases hque
  split
  · rename_i hwor
    apply Goes.done_iff.mpr
    intro haccs
    rw [haccs.2.1] at hwor
    cases hwor
  dsimp only
  split
  · rename_i href
    apply Goes.done_iff.mpr
    intro haccs
    rw [haccs.2.2] at href
    cases href
  apply Goes.bind
  apply (recoverLeases_goes queue now).named.weaken
  intro _ current hcur
  obtain ⟨hrecg, hnmd⟩ := hcur
  unfold countIndex
  rw [query_bind, ask_bind, Goes.ask_iff]
  simp only [pure_eq, done_bind]
  split
  · rename_i hlim
    apply Goes.done_iff.mpr
    intro _
    exact ⟨current, hrecg, hnmd, Or.inl ⟨_, _, rfl, rfl, hlim⟩⟩
  rename_i hroom
  rw [query_bind, Goes.ask_iff]
  apply Goes.bind
  apply (takeFrom_goes queue worker now _ _ Scanned.start (Nat.lt_of_not_le hroom)).weaken
  intro outcome final htkn
  apply Goes.done_iff.mpr
  intro _
  exact ⟨current, hrecg, hnmd, Or.inr ⟨outcome, rfl, htkn⟩⟩

/-! ## Sweeps -/

theorem expireJob_goes {jobs : List Job} (now : Millis) (expired : List JobId)
    (hknw : Known (job :: jobs) store) :
    Goes kv (Move policy) (fun _ final => Known jobs final) (expireJob now expired job) store := by
  unfold expireJob
  split
  · exact Goes.done_iff.mpr hknw.tail
  rename_i hrdy
  rw [not_not] at hrdy
  split
  · rename_i hfre
    rw [expireAt_bind]
    apply endReady_goes (fun _ => _) job _ hknw.head hrdy (.stale now hfre)
    intro final hsame _ _
    exact Goes.done_iff.mpr (hknw.step hsame)
  · exact Goes.done_iff.mpr hknw.tail

theorem expireStaleAt_goes (now : Millis) :
    Goes kv (Move policy) (fun _ _ => True) (expireStaleAt now) store := by
  unfold expireStaleAt
  rw [query_bind, Goes.ask_iff]
  exact Goes.foldlM (fun jobs _ current => Known jobs current)
    (fun job jobs expired current hknw => expireJob_goes now expired hknw)
    (fun _ _ _ => trivial) _ [] Known.start

theorem timeoutAlert_goes (now : Millis) (raised : ℕ) (job : Job) :
    Goes kv (Move policy) (fun _ _ => True) (timeoutAlert now raised job) store := by
  unfold timeoutAlert
  split
  · exact Goes.done_iff.mpr trivial
  split
  · apply Goes.bind
    apply (recordAlert_goes job now _ _).weaken
    intro fresh final _
    exact Goes.done_iff.mpr trivial
  · exact Goes.done_iff.mpr trivial

theorem timeoutAlerts_goes (now : Millis) :
    Goes kv (Move policy) (fun _ _ => True) (timeoutAlerts now) store := by
  unfold timeoutAlerts
  rw [query_bind, Goes.ask_iff]
  exact Goes.foldlM (fun _ _ _ => True)
    (fun job _ raised _ _ => timeoutAlert_goes now raised job) (fun _ _ _ => trivial) _ 0
    trivial

theorem releaseClaim_bind (job : Job) (next : Unit → Operation Result)
    (hnext : Goes kv (Move policy) post (putAll (releaseWrites store job) (next ())) store) :
    Goes kv (Move policy) post (releaseClaim job >>= next) store := by
  unfold releaseClaim
  unfold releaseWrites at hnext
  cases hclm : claimKey job.queue job.dedupeKey with
  | none =>
    rw [hclm] at hnext
    exact hnext
  | some claim =>
    rw [hclm] at hnext
    simp only [query_bind, ask_bind, Goes.ask_iff, answer_claim]
    dsimp only at hnext
    split
    · rename_i hhldr
      rw [if_pos hhldr] at hnext
      exact hnext
    · rename_i hhldr
      rw [if_neg hhldr] at hnext
      exact hnext

theorem reapJob_goes {jobs : List Job} (now : Millis) (reaped : ℕ)
    (hknw : Known (job :: jobs) store) :
    Goes kv (Move policy) (fun _ final => Known jobs final) (reapJob policy now reaped job)
      store := by
  unfold reapJob
  split
  · exact Goes.done_iff.mpr hknw.tail
  rename_i retention hret
  have hterm : job.state.isTerminal := by
    cases hst : job.state <;> simp_all [Policy.retention, JobState.isTerminal]
  split
  · exact Goes.done_iff.mpr hknw.tail
  rw [query_bind, Goes.ask_iff]
  apply Goes.bind
  apply Goes.foldlM (fun _ _ current => SameCore store current)
  · intro chunk chunks _ current hcore
    apply Goes.block [Write.delChunk _] (Move.aside _ trivial)
    exact Goes.done_iff.mpr (hcore.trans ⟨rfl, rfl, rfl, rfl⟩)
  · intro _ current hcore
    apply releaseClaim_bind
    have hjob : current.jobs[job.id]? = some job := by
      rw [hcore.jobs]
      exact hknw.head
    apply Goes.block_append [] _ [_, _, _] (Move.reap job hjob hterm)
    apply Goes.done_iff.mpr
    apply hknw.step
    apply (SameElsewhere.of_core hcore).trans
    apply SameElsewhere.writes
    exact about_reap
  · exact SameCore.refl store

theorem reap_goes (now : Millis) :
    Goes kv (Move policy) (fun _ _ => True) (reap policy now) store := by
  unfold reap
  rw [query_bind, Goes.ask_iff]
  exact Goes.foldlM (fun jobs _ current => Known jobs current)
    (fun job jobs reaped current hknw => reapJob_goes now reaped hknw)
    (fun _ _ _ => trivial) _ 0 Known.start

theorem sweep_goes (now staleNow reapNow : Millis) :
    Goes kv (Move policy) (fun _ _ => True) (sweep policy now staleNow reapNow) store := by
  unfold sweep
  rw [query_bind, Goes.ask_iff]
  apply Goes.bind
  apply Goes.foldlM (fun _ _ _ => True)
  · intro queue queues total current _
    apply Goes.bind
    apply (recoverLeases_goes queue now).weaken
    intro recovered final _
    exact Goes.done_iff.mpr trivial
  · intro leasesRecovered recoveredStore _
    apply Goes.bind
    apply (expireStaleAt_goes staleNow).weaken
    intro expired expiredStore _
    apply Goes.bind
    apply (timeoutAlerts_goes now).weaken
    intro timedOut alertedStore _
    apply Goes.bind
    apply (reap_goes reapNow).weaken
    intro reaped final _
    exact Goes.done_iff.mpr trivial
  · trivial

theorem nextAlerts_goes (now : Millis) :
    Goes kv (Move policy) (fun _ _ => True) (nextAlerts policy now) store := by
  unfold nextAlerts
  rw [query_bind, Goes.ask_iff]
  split
  · exact Goes.done_iff.mpr trivial
  rw [query_bind, Goes.ask_iff]
  apply Goes.bind
  apply Goes.foldlM (fun _ _ _ => True)
  · intro alert alerts found current _
    unfold sortAlert
    split
    · exact Goes.done_iff.mpr trivial
    split
    · apply Goes.block [Write.putAlert _] (Move.aside _ trivial)
      exact Goes.done_iff.mpr trivial
    · exact Goes.done_iff.mpr trivial
  · intro found current _
    split
    · exact Goes.done_iff.mpr trivial
    apply Goes.bind
    apply Goes.foldlM (fun _ _ _ => True)
    · intro alert alerts items current _
      unfold sendAlert
      apply Goes.block [Write.putAlert _] (Move.aside _ trivial)
      exact Goes.done_iff.mpr trivial
    · intro items current _
      apply Goes.block [Write.putAlertLast now] (Move.aside _ trivial)
      exact Goes.done_iff.mpr trivial
    · trivial
  · trivial

/-! ## All of them -/

namespace Op

/-- The blocks that an operation other than `repair` is made of. -/
def Allowed (policy : Policy) (op : Op) (start current : Store) (writes : List Write) : Prop :=
  match op with
  | .enqueue _ _ => current = start ∧ Creation policy current writes
  | .requeue _ _ _ => current = start ∧ Revival policy current writes
  | _ => Move policy current writes

theorem goes (policy : Policy) (op : Op) (store : Store) (hrep : op ≠ .repair) :
    Goes kv (op.Allowed policy store) (fun _ _ => True) (op.program policy) store := by
  have hdis : ∀ {Result : Type} {allowed : Store → List Write → Prop}
      {operation : Operation Result}, Goes kv allowed (fun _ _ => True) operation store →
      Goes kv allowed (fun _ _ => True) (discard operation) store := by
    intro Result allowed operation hgoes
    apply Goes.bind
    apply hgoes.weaken
    intro value final _
    exact Goes.done_iff.mpr trivial
  cases op with
  | enqueue now request => exact hdis (enqueue_goes now request)
  | progress now id chunk => exact hdis (progress_goes now id chunk)
  | take now queue worker leaseMs =>
      exact hdis ((take_goes now queue worker leaseMs).weaken (fun _ _ _ => trivial))
  | heartbeat now id worker extendMs => exact hdis (heartbeat_goes now id worker extendMs)
  | settle now id worker result => exact hdis (settle_goes now id worker result)
  | fail now id worker reason => exact hdis (failInner_goes now id worker reason)
  | handover now queue workerPrefix => exact hdis (handover_goes now queue workerPrefix)
  | expireStale now => exact hdis (expireStaleAt_goes now)
  | sweep now staleNow reapNow => exact hdis (sweep_goes now staleNow reapNow)
  | nextAlerts now => exact hdis (nextAlerts_goes now)
  | requeue now id options => exact hdis (requeueWith_goes now id options)
  | reap now => exact hdis (reap_goes now)
  | repair => exact absurd rfl hrep

end Op

end WasmAgent.Queue
