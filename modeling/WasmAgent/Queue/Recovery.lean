import WasmAgent.Queue.CrashPoints

/-!
# Recovery without repair

In every run whose stops keep live records in the index, a live job that is
still fresh when it is next due is found: takes on its queue, with workers
settling the other jobs, hand it out again or end it.
-/

namespace WasmAgent.Queue

open List Option WasmAgent.Core WasmAgent.Core.Program

variable {policy : Policy} {store : Store} {writes : List Write}

inductive Serves (queue : String) (id : JobId) (now : Millis) : Op → Prop where
  | sweep : Serves queue id now (.sweep now now now)
  | take (worker : String) (leaseMs : Option Millis) :
      Serves queue id now (.take now queue worker leaseMs)
  | settle (other : JobId) (worker : Option String) (result : Bytes) (hother : other ≠ id) :
      Serves queue id now (.settle now other worker result)

inductive Found (policy : Policy) (queue : String) (id : JobId) : Millis → Store → Prop where
  | handedOut {now later : Millis} {store : Store} (worker : String) (leaseMs : Option Millis)
      (job : Job) (hlater : now ≤ later)
      (hresult : (Queue.take policy later queue worker leaseMs).result kv store = .ok (.job job))
      (hid : job.id = id) : Found policy queue id now store
  | ended {now : Millis} {store : Store} (job : Job) (hjob : store.jobs[id]? = some job)
      (hended : job.state = .done ∨ job.state = .dead) : Found policy queue id now store
  | step {now later : Millis} {store : Store} (op : Op) (hlater : now ≤ later)
      (hserves : Serves queue id later op)
      (hfound : Found policy queue id later ((op.program policy).final kv store)) :
      Found policy queue id now store

variable {queue : String} {id : JobId} {now : Millis}

theorem Found.mono {later : Millis} (hlater : now ≤ later)
    (hfound : Found policy queue id later store) : Found policy queue id now store := by
  cases hfound with
  | handedOut worker leaseMs job hle hres hid =>
    exact .handedOut worker leaseMs job (hlater.trans hle) hres hid
  | ended job hjob hended => exact .ended job hjob hended
  | step op hle hser hfound => exact .step op (hlater.trans hle) hser hfound

/-- When a job can next be handed out, seen from a clock reading: a leased job's
lease has to run out first and its backoff to pass. -/
def Job.nextDue (policy : Policy) (now : Millis) (job : Job) : Millis :=
  match job.state with
  | .leased =>
      let lapse := max now (job.leaseUntil.getD now)
      max lapse (saturatingAdd lapse (policy.retry.delayMs (predU32 (job.leaseExpiries + 1))))
  | _ => max now job.notBefore

/-! ## Live jobs -/

def liveIds (store : Store) : List JobId :=
  (store.allJobs.filter (fun job => decide job.Live)).map Job.id

theorem mem_liveIds (id : JobId) :
    id ∈ liveIds store ↔ ∃ job, store.jobs[id]? = some job ∧ job.Live := by
  rw [liveIds, List.mem_map]
  constructor
  · rintro ⟨job, hjob, rfl⟩
    obtain ⟨hmem, hlive⟩ := List.mem_filter.mp hjob
    exact ⟨job, (mem_allJobs job store).mp hmem, of_decide_eq_true hlive⟩
  · rintro ⟨job, hjob, hlive⟩
    obtain rfl := store.jobs_id id job hjob
    exact ⟨job, List.mem_filter.mpr ⟨(mem_allJobs job store).mpr hjob, decide_eq_true hlive⟩, rfl⟩

theorem nodup_liveIds (store : Store) : (liveIds store).Nodup :=
  (@Known.start store).distinct.sublist ((filter_sublist (l := store.allJobs)).map Job.id)

def LiveFrom (before after : Store) : Prop := ∀ id ∈ liveIds after, id ∈ liveIds before

theorem LiveFrom.length_le {before after : Store} (hlive : LiveFrom before after) :
    (liveIds after).length ≤ (liveIds before).length :=
  (subperm_of_subset (nodup_liveIds after) hlive).length_le

theorem LiveFrom.length_lt {before after : Store} (hlive : LiveFrom before after)
    (hbef : id ∈ liveIds before) (haft : id ∉ liveIds after) :
    (liveIds after).length < (liveIds before).length := by
  have hsub : id :: liveIds after ⊆ liveIds before := cons_subset.mpr ⟨hbef, hlive⟩
  have hndp : (id :: liveIds after).Nodup := nodup_cons.mpr ⟨haft, nodup_liveIds after⟩
  exact (subperm_of_subset hndp hsub).length_le

theorem Move.liveFrom (hmove : Move policy store writes) :
    LiveFrom store (kv.applyAll writes store) := by
  intro id hid
  obtain ⟨job', hjob', hlive⟩ := (mem_liveIds id).mp hid
  apply (mem_liveIds id).mpr
  rw [← take_length (l := writes)] at hjob'
  rcases hmove.evolves writes.length id job' hjob' with hbef | ⟨job, hjob, hevo⟩
  · exact ⟨job', hbef, hlive⟩
  · exact ⟨job, hjob, hevo.live hlive⟩

theorem liveFrom_of_chain (hchain : Chain kv (Move policy) store writes) :
    LiveFrom store (kv.applyAll writes store) := by
  have hblc : ∀ current block, LiveFrom store current → Move policy current block →
      LiveFrom store (kv.applyAll block current) := by
    intro current block hcur hmove id hid
    exact hcur id (hmove.liveFrom id hid)
  exact hchain.invariant hblc (fun _ hid => hid)

theorem hasKeys_of_chain (hchain : Chain kv (Move policy) store writes) (hkeys : HasKeys store) :
    HasKeys (kv.applyAll writes store) := by
  apply hchain.invariant _ hkeys
  intro current block hcur hmove
  obtain ⟨id, record, hsets⟩ := hmove.settles hcur
  exact hsets.hasKeys hcur

/-! ## Steps that serve a queue -/

theorem settle_other {other : Job} (now : Millis) (hkeys : HasKeys store)
    (hother : store.jobs[other.id]? = some other) (hls : other.state = .leased) :
    HasKeys (((Op.settle now other.id none []).program policy).final kv store) ∧
      (∀ id : JobId, id ≠ other.id →
        (((Op.settle now other.id none []).program policy).final kv store).jobs[id]? =
          store.jobs[id]?) ∧
      (liveIds (((Op.settle now other.id none []).program policy).final kv store)).length <
        (liveIds store).length := by
  have hfin : ((Op.settle now other.id none []).program policy).final kv store =
      kv.applyAll [.putJob (other.settledWith [] now), .delIndex (indexKey other .leased)]
        store := by
    unfold Op.program
    rw [discard_final]
    unfold settle load
    rw [query_bind, final_ask, answer_job, hother]
    simp only [leaseLost, hls]
    rfl
  have hmove : Move policy store
      [.putJob (other.settledWith [] now), .delIndex (indexKey other .leased)] :=
    .settle other [] now hother hls
  rw [hfin]
  refine ⟨hasKeys_of_chain (Chain.single hmove) hkeys, ?_, ?_⟩
  · intro id hid
    have hne : (other.settledWith [] now).id ≠ id := by
      rw [(other.same_settledWith [] now).id]
      exact hid.symm
    simp [hne]
  apply hmove.liveFrom.length_lt ((mem_liveIds other.id).mpr ⟨other, hother, .inr hls⟩)
  intro hmem
  obtain ⟨job, hjob, hlive⟩ := (mem_liveIds other.id).mp hmem
  simp [(other.same_settledWith [] now).id] at hjob
  rw [← hjob] at hlive
  rcases hlive with hrdy | hls
  · cases hrdy
  · cases hls

theorem take_taking {queue worker : String} {leaseMs : Option Millis} (now : Millis)
    (haccs : TakeAccepts policy queue worker leaseMs) :
    Taking policy queue now store ((take policy now queue worker leaseMs).result kv store)
      (((Op.take now queue worker leaseMs).program policy).final kv store) := by
  unfold Op.program
  rw [discard_final]
  exact (take_goes now queue worker leaseMs).outcome haccs

theorem take_chain (now : Millis) (queue worker : String) (leaseMs : Option Millis) :
    Chain kv (Move policy) store
      (((Op.take now queue worker leaseMs).program policy).writes kv store) := by
  unfold Op.program
  rw [discard_writes]
  exact (take_goes now queue worker leaseMs).chain

theorem takeAccepts_one (hque : validName queue 64) (hlse : 0 < policy.maxLeaseMs) :
    TakeAccepts policy queue "worker-1" (some 1) := by
  refine ⟨hque, by decide, ?_⟩
  unfold leaseRefusal
  rw [if_neg]
  rintro (hnon | hlong)
  · exact absurd hnon (by decide : ¬ (1 : Millis) ≤ 0)
  · exact absurd hlong (not_lt_of_ge hlse)

variable {middle : Store} {job : Job} (hrecg : Recovering policy queue now store [] middle)
include hrecg

theorem Recovering.not_lapsed (hjob : store.jobs[id]? = some job) (hlap : ¬ job.Lapsed queue now) :
    middle.jobs[id]? = some job := by
  rcases hrecg.records id with hdone | ⟨hsame, -⟩
  · rw [hdone, hjob, map_some, recoverIf_of_not_lapsed hlap]
  · rw [hsame, hjob]

theorem Recovering.leased (hjob : middle.jobs[id]? = some job) (hls : job.state = .leased) :
    store.jobs[id]? = some job := by
  rcases hrecg.records id with hdone | ⟨hsame, -⟩
  · rw [hjob] at hdone
    obtain ⟨before, hbef, hrecv⟩ := map_eq_some_iff.mp hdone.symm
    unfold recoverIf at hrecv
    split at hrecv
    · rw [← hrecv] at hls
      exact absurd hls (before.recovered_state now)
    · rw [hbef, hrecv]
  · rw [← hsame, hjob]

theorem Recovering.no_entries
    (hnone : ¬ ∃ other : Job, store.jobs[other.id]? = some other ∧ other.queue = queue ∧
      other.state = .leased) : entries middle queue .leased = 0 := by
  rw [entries, length_eq_zero_iff, eq_nil_iff_forall_not_mem]
  intro key hkey
  obtain ⟨hmem, hque, hslot⟩ := (mem_answer_indexPrefix key queue .leased middle).mp hkey
  rcases hrecg.leases key hmem hque hslot with hnil | ⟨job, hjob, hjobQueue, hls, -⟩
  · cases hnil
  have hbef := hrecg.leased hjob hls
  have hid := store.jobs_id key.id job hbef
  apply hnone
  refine ⟨job, ?_, hjobQueue, hls⟩
  rwa [hid]

omit hrecg

/-! ## A ready job -/

theorem Found.of_take {worker : String} {leaseMs : Option Millis}
    (hfound : Found policy queue id now
      (((Op.take now queue worker leaseMs).program policy).final kv store)) :
    Found policy queue id now store :=
  .step _ le_rfl (.take worker leaseMs) hfound

theorem found_of_ready (hque : validName job.queue 64) (hlse : 0 < policy.maxLeaseMs)
    (hrdy : job.state = .ready) (hdue : job.notBefore ≤ now) (hfre : ¬ job.freshUntil.any (· ≤ now))
    (count : ℕ) (store : Store) (hcnt : (liveIds store).length ≤ count) (hkeys : HasKeys store)
    (hjob : store.jobs[job.id]? = some job) : Found policy job.queue job.id now store := by
  induction count generalizing store with
  | zero =>
    have hmem := (mem_liveIds job.id).mpr ⟨job, hjob, .inl hrdy⟩
    exact absurd (length_pos_of_mem hmem) (Nat.not_lt.mpr hcnt)
  | succ count ih =>
    -- A worker settles another job, and the search goes on with one live job less.
    have hset : ∀ (current : Store) (other : Job),
        (liveIds current).length ≤ count + 1 → HasKeys current →
        current.jobs[job.id]? = some job → current.jobs[other.id]? = some other →
        other.state = .leased → other.id ≠ job.id →
        Found policy job.queue job.id now current := by
      intro current other hcur hcurrentKeys hsto hother hls hne
      obtain ⟨hafterKeys, hsame, hless⟩ :=
        @settle_other policy current other now hcurrentKeys hother hls
      apply Found.step _ le_rfl (Serves.settle other.id none [] hne)
      apply ih _ (Nat.le_of_lt_succ (Nat.lt_of_lt_of_le hless hcur)) hafterKeys
      rw [hsame job.id hne.symm, hsto]
    by_cases hleas : ∃ other : Job, store.jobs[other.id]? = some other ∧ other.queue = job.queue ∧
        other.state = .leased
    · obtain ⟨other, hother, -, hls⟩ := hleas
      apply hset store other hcnt hkeys hjob hother hls
      intro hid
      rw [hid, hjob] at hother
      cases hother
      rw [hrdy] at hls
      cases hls
    have haccs := takeAccepts_one hque hlse
    obtain ⟨middle, hrecg, hmid, htak⟩ := @take_taking policy store _ _ _ now haccs
    have hchain : Chain kv (Move policy) store _ := take_chain now job.queue "worker-1" (some 1)
    have hafterKeys := hasKeys_of_chain hchain hkeys
    have hafterLive := liveFrom_of_chain hchain
    have hmiddleKeys : HasKeys middle := by
      rw [hmid]
      exact hasKeys_of_chain (recoverLeases_goes job.queue now).chain hkeys
    have hmiddleJob : middle.jobs[job.id]? = some job := by
      apply hrecg.not_lapsed hjob
      intro hlap
      exact absurd (hrdy.symm.trans hlap.2.1) (by decide)
    rcases htak with ⟨leased, limit, -, -, hlim⟩ | ⟨outcome, hres, htkn⟩
    · rw [hrecg.no_entries hleas] at hlim
      unfold Policy.limitFor at hlim
      omega
    rcases htkn.kept job.id job hmiddleJob with hkept | ⟨-, ⟨ended, hended, -, hwhy⟩ |
      ⟨taken, hoc, hid⟩⟩
    · cases outcome with
      | job out =>
        by_cases hid : out.id = job.id
        · exact .handedOut _ _ out le_rfl hres hid
        obtain ⟨hout, houtLeased⟩ := htkn.leased out rfl
        apply Found.of_take
        exact hset _ out (hafterLive.length_le.trans hcnt) hafterKeys hkept hout houtLeased hid
      | empty =>
        have hown : indexKey job .ready ∈ middle.index :=
          hmiddleKeys _ ⟨job, hmiddleJob, ownKey_of_ready hrdy⟩
        have hlate := htkn.missed rfl (indexKey job .ready)
          ((mem_answer_indexPrefix _ job.queue .ready middle).mpr ⟨hown, rfl, rfl⟩)
          job hkept rfl hrdy
        exact absurd hdue (not_le_of_gt hlate)
      | atLimit leased limit => exact absurd rfl (htkn.below leased limit)
    · apply Found.of_take
      exact .ended ended hended (.inr (hwhy.resolve_right hfre))
    · rw [hoc] at hres
      exact .handedOut _ _ taken le_rfl hres hid

/-! ## A leased job -/

theorem Job.recovered_cases {job : Job} {now : Millis} (hfre : ¬ job.freshUntil.any (· ≤ now)) :
    (job.recovered policy now).id = job.id ∧ (job.recovered policy now).queue = job.queue ∧
      (job.recovered policy now).freshUntil = job.freshUntil ∧
      ((job.recovered policy now).state = .dead ∨
        (job.recovered policy now).state = .ready ∧ (job.recovered policy now).notBefore =
          saturatingAdd now (policy.retry.delayMs (predU32 (job.leaseExpiries + 1)))) := by
  unfold recovered
  rw [if_neg hfre]
  split
  · exact ⟨rfl, rfl, rfl, .inl rfl⟩
  · split
    · exact ⟨rfl, rfl, rfl, .inl rfl⟩
    · exact ⟨rfl, rfl, rfl, .inr ⟨rfl, rfl⟩⟩

theorem not_any_of_le {freshUntil : Option Millis} {earlier later : Millis}
    (hle : earlier ≤ later) (hfre : ¬ freshUntil.any (· ≤ later)) :
    ¬ freshUntil.any (· ≤ earlier) := by
  cases freshUntil with
  | none => simp
  | some instant =>
    simp only [any_some, decide_eq_true_eq] at hfre ⊢
    intro hbef
    exact hfre (hbef.trans hle)

theorem found_of_leased {lapse : Millis} (hque : validName job.queue 64)
    (hlse : 0 < policy.maxLeaseMs) (hls : job.state = .leased)
    (huntil : ¬ job.leaseUntil.any (lapse < ·))
    (hfre : ¬ job.freshUntil.any (· ≤ max lapse
      (saturatingAdd lapse (policy.retry.delayMs (predU32 (job.leaseExpiries + 1))))))
    (hkeys : HasKeys store) (hjob : store.jobs[job.id]? = some job) :
    Found policy job.queue job.id lapse store := by
  have hfreshLapse := not_any_of_le (le_max_left _ _) hfre
  obtain ⟨hid, hjobQueue, hfreshUntil, hcases⟩ := @Job.recovered_cases policy job lapse hfreshLapse
  generalize hrecv : job.recovered policy lapse = job' at hid hjobQueue hfreshUntil hcases
  have hlap : job.Lapsed job.queue lapse := ⟨rfl, hls, huntil⟩
  obtain ⟨middle, hrecg, -, htak⟩ :=
    @take_taking policy store _ _ _ lapse (takeAccepts_one hque hlse)
  have hafterKeys : HasKeys _ :=
    hasKeys_of_chain (@take_chain policy store lapse job.queue "worker-1" (some 1)) hkeys
  have hmiddleJob : middle.jobs[job.id]? = some job' := by
    rcases hrecg.records job.id with hdone | ⟨-, hnil | hhid⟩
    · rw [hdone, hjob, map_some, recoverIf, if_pos hlap, hrecv]
    · obtain ⟨key, hkey, -⟩ := hnil
      cases hkey
    · have hown := hkeys _ ⟨job, hjob, ownKey_of_leased hls⟩
      exact absurd rfl (hhid _ hown rfl rfl)
  -- What the rest of the take leaves under the job's id.
  have hrest : (∃ ended, (((Op.take lapse job.queue "worker-1" (some 1)).program policy).final kv
        store).jobs[job.id]? = some ended ∧ ended.state = .dead) ∨
      (((Op.take lapse job.queue "worker-1" (some 1)).program policy).final kv
        store).jobs[job.id]? = some job' ∨
      ∃ taken, (Queue.take policy lapse job.queue "worker-1" (some 1)).result kv store =
        .ok (.job taken) ∧ taken.id = job.id := by
    rcases htak with ⟨leased, limit, -, hfin, -⟩ | ⟨outcome, hres, htkn⟩
    · rw [hfin]
      exact .inr (.inl hmiddleJob)
    rcases htkn.kept job.id job' hmiddleJob with hkept | ⟨-, ⟨ended, hended, -, hwhy⟩ |
      ⟨taken, hoc, htakenId⟩⟩
    · exact .inr (.inl hkept)
    · rw [hfreshUntil] at hwhy
      exact .inl ⟨ended, hended, hwhy.resolve_right hfreshLapse⟩
    · rw [hoc] at hres
      exact .inr (.inr ⟨taken, hres, htakenId⟩)
  rcases hrest with ⟨ended, hended, hdead⟩ | hkept | ⟨taken, hres, htakenId⟩
  · exact Found.of_take (.ended ended hended (.inr hdead))
  · apply Found.of_take
    rcases hcases with hdead | ⟨hrdy, hdue⟩
    · exact .ended job' hkept (.inr hdead)
    have hdueLater : job'.notBefore ≤ max lapse
        (saturatingAdd lapse (policy.retry.delayMs (predU32 (job.leaseExpiries + 1)))) := by
      rw [hdue]
      exact le_max_right _ _
    rw [← hjobQueue] at hque
    rw [← hfreshUntil] at hfre
    rw [← hid] at hkept
    have hfound := found_of_ready hque hlse hrdy hdueLater hfre _ _ le_rfl hafterKeys hkept
    rw [hjobQueue, hid] at hfound
    exact hfound.mono (le_max_left _ _)
  · exact .handedOut _ _ taken le_rfl hres htakenId

/-! ## Runs -/

def QueuesValid (store : Store) : Prop :=
  ∀ (id : JobId) (job : Job), store.jobs[id]? = some job → validName job.queue 64

theorem validName_of_validateEnqueue {request : EnqueueRequest}
    (hvld : validateEnqueue policy request = .ok ()) : validName request.queue 64 := by
  by_contra hname
  rw [Bool.not_eq_true] at hname
  simp [validateEnqueue, hname] at hvld

theorem Op.queuesValid_stopped (op : Op) (count : ℕ) (hqueues : QueuesValid store) :
    QueuesValid ((op.program policy).stopped kv count store) := by
  by_cases hop : op = .repair
  · subst hop
    unfold stopped Op.program
    rw [discard_writes]
    apply mended_take repair_goes.chain _ hqueues count
    intro current block hcur hmend
    rw [QueuesValid, hmend.jobs]
    exact hcur
  have hblc : ∀ current block taken, QueuesValid current →
      op.Allowed policy store current block →
      QueuesValid (kv.applyAll (block.take taken) current) := by
    intro current block taken hcur halwd id job' hjob'
    rcases jobs_applyAll_cases _ current id job' hjob' with hbef | ⟨hput, -⟩
    · exact hcur id job' hbef
    have hwrn := mem_of_mem_take hput
    have hmove : Move policy current block → validName job'.queue 64 := by
      intro hmove
      obtain ⟨job, hjob, hevo⟩ := hmove.putJob hwrn
      rw [hevo.same.queue]
      exact hcur _ job hjob
    cases op with
    | enqueue now request =>
      obtain ⟨now', request', hvld, rfl⟩ := halwd.2.putJob hwrn
      exact validName_of_validateEnqueue hvld
    | requeue now id options =>
      obtain ⟨job, now', options', hjob, _, rfl⟩ := halwd.2.putJob hwrn
      exact hcur _ job hjob
    | _ => exact hmove halwd
  exact (op.goes policy store hop).chain.invariant_take hblc hqueues count

theorem CrashReached.searchable (hrch : CrashReached policy (KeepsKeys policy) store) :
    HasKeys store ∧ QueuesValid store := by
  induction hrch with
  | empty =>
    constructor
    · rintro key ⟨job, hjob, -⟩
      simp [Store.empty] at hjob
    · intro id job hjob
      simp [Store.empty] at hjob
  | step op count _ hks ih =>
    exact ⟨op.hasKeys_stopped count hks ih.1, op.queuesValid_stopped count ih.2⟩

/-- In every run whose stops do not fall between two writes about one live job,
under a policy that lets anything be leased, every live job that is fresh when it
is next due is found. -/
theorem found_of_keepsKeys (policy : Policy) (hlease : 0 < policy.maxLeaseMs) (store : Store)
    (hreached : CrashReached policy (KeepsKeys policy) store) (now : Millis) (job : Job)
    (hjob : store.jobs[job.id]? = some job) (hlive : job.Live)
    (hfresh : ¬ job.freshUntil.any (· ≤ job.nextDue policy now)) :
    Found policy job.queue job.id now store := by
  obtain ⟨hkeys, hqueues⟩ := hreached.searchable
  have hqueue := hqueues job.id job hjob
  unfold Job.nextDue at hfresh
  rcases hlive with hready | hleased
  · rw [hready] at hfresh
    exact (found_of_ready hqueue hlease hready (le_max_right now job.notBefore) hfresh _ store
      le_rfl hkeys hjob).mono (le_max_left now job.notBefore)
  rw [hleased] at hfresh
  have huntil : ¬ job.leaseUntil.any (max now (job.leaseUntil.getD now) < ·) := by
    cases hinstant : job.leaseUntil with
    | none => simp
    | some instant =>
      simp only [any_some, getD_some, decide_eq_true_eq]
      exact not_lt_of_ge (le_max_right now instant)
  exact (found_of_leased hqueue hlease hleased huntil hfresh hkeys hjob).mono
    (le_max_left _ _)

/-- An `enqueue` of an empty payload. -/
def bareEnqueue : Op :=
  .enqueue 0 (EnqueueRequest.new "stt" [])

/-- The job that it makes in an empty store. -/
def bareJob : Job := (EnqueueRequest.new "stt" []).job Policy.default 0 1

theorem found_bareJob :
    Found Policy.default "stt" 1 0 ((bareEnqueue.program Policy.default).stopped kv 3
      Store.empty) :=
  found_of_keepsKeys Policy.default (by decide) _
    (.step _ 3 .empty (.inr (not_splits_of_length_le (by decide)))) 0 bareJob (by decide)
    (.inl rfl) Bool.false_ne_true

/-! ## The record without a key -/

/-- The store of an `enqueue` that stopped between the record and its index key. -/
def unindexed : Store := (bareEnqueue.program Policy.default).stopped kv 2 Store.empty

theorem take_unindexed (now : Millis) (worker : String) (leaseMs : Option Millis) :
    (Queue.take Policy.default now "stt" worker leaseMs).final kv unindexed = unindexed ∧
      ∀ job, (Queue.take Policy.default now "stt" worker leaseMs).result kv unindexed ≠
        .ok (.job job) := by
  unfold Queue.take
  split
  · refine ⟨rfl, ?_⟩
    intro job hres
    rw [pure_eq, result_done] at hres
    cases hres
  split
  · refine ⟨rfl, ?_⟩
    intro job hres
    rw [pure_eq, result_done] at hres
    cases hres
  dsimp only
  split
  · refine ⟨rfl, ?_⟩
    intro job hres
    rw [pure_eq, result_done] at hres
    cases hres
  · refine ⟨rfl, ?_⟩
    intro job hres
    cases hres

theorem sweep_unindexed (now : Millis) :
    (sweep Policy.default now now now).final kv unindexed = unindexed := by
  rfl

theorem settle_unindexed (now : Millis) (other : JobId) (worker : Option String)
    (result : Bytes) (hother : other ≠ 1) :
    (settle Policy.default now other worker result).final kv unindexed = unindexed := by
  have hnone : unindexed.jobs[other]? = none := by
    have hwrs : unindexed = kv.applyAll [.putCounter .id 2, .putJob bareJob] Store.empty := by
      rfl
    have hid : bareJob.id ≠ other := hother.symm
    rw [hwrs]
    simp [hid, Store.empty]
  unfold settle load
  rw [query_bind, final_ask, answer_job, hnone]
  rfl

theorem not_found_unindexed (now : Millis) : ¬ Found Policy.default "stt" 1 now unindexed := by
  intro hfound
  generalize hstr : unindexed = store at hfound
  induction hfound with
  | handedOut worker leaseMs job hlater hres hid =>
    subst hstr
    exact (take_unindexed _ worker leaseMs).2 job hres
  | ended job hjob hended =>
    subst hstr
    have hbare : unindexed.jobs[1]? = some bareJob := by
      decide
    cases hjob
    rcases hended with hdone | hdead
    · cases hdone
    · cases hdead
  | step op hlater hser hfound ih =>
    subst hstr
    apply ih
    unfold Op.program
    cases hser with
    | sweep =>
      rw [discard_final, sweep_unindexed]
    | take worker leaseMs =>
      rw [discard_final, (take_unindexed _ worker leaseMs).1]
    | settle other worker result hother =>
      rw [discard_final, settle_unindexed _ other worker result hother]

/-- Stops anywhere do lose a live job that has retries and freshness left. -/
theorem unindexed_never_found :
    ¬ ∀ policy : Policy, 0 < policy.maxLeaseMs → ∀ store,
      CrashReached policy (fun _ op _ => op ≠ .repair) store → ∀ now (job : Job),
        store.jobs[job.id]? = some job → job.Live → job.attempts < job.maxAttempts →
        ¬ job.freshUntil.any (· ≤ job.nextDue policy now) →
          Found policy job.queue job.id now store := by
  intro hlaw
  have hreached : CrashReached Policy.default (fun _ op _ => op ≠ .repair) unindexed :=
    .step bareEnqueue 2 .empty (by simp [bareEnqueue])
  exact not_found_unindexed 0 (hlaw Policy.default (by decide) unindexed hreached 0 bareJob
    (by decide) (.inl rfl) (by decide) Bool.false_ne_true)

end WasmAgent.Queue
