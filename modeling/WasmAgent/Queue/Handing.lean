import WasmAgent.Queue.Filing
import WasmAgent.Queue.Freshness
import WasmAgent.Queue.IndexInvariant

/-!
# Handover and what is in flight

`in_flight` counts the leases of the workers behind a prefix, and `handover` releases them.
Both scan the leased keys of the queue, and where the index is exact both find the same
records.
-/

namespace WasmAgent.Queue

open List List Option WasmAgent.Core WasmAgent.Core.Program

def Job.workerUnder (workerPrefix : String) (job : Job) : Bool :=
  job.leaseWorker.any (fun worker => workerPrefix.toList.isPrefixOf worker.toList)

def Job.HeldUnder (queue workerPrefix : String) (job : Job) : Prop :=
  job.queue = queue ∧ job.state = .leased ∧ job.workerUnder workerPrefix = true

instance (queue workerPrefix : String) (job : Job) : Decidable (job.HeldUnder queue workerPrefix) :=
  inferInstanceAs (Decidable (_ ∧ _))

/-- The body of the loop of `in_flight`. -/
def countLease (queue workerPrefix : String) (held : ℕ) (key : IndexKey) : Operation ℕ := do
  match ← load key.id with
  | none => return held
  | some job => return if job.HeldUnder queue workerPrefix then held + 1 else held

/-- How many leases the workers behind a prefix hold right now. -/
def inFlight (queue workerPrefix : String) : Operation (Except QueueError ℕ) :=
  if !validName queue 64 then
    pure (.error (.invalid s!"bad queue name {queue.quote}"))
  else if workerPrefix.isEmpty then
    pure (.error (.invalid "in_flight needs a worker prefix"))
  else do
    let keys ← query (.indexPrefix queue .leased)
    let held ← keys.foldlM (countLease queue workerPrefix) 0
    return .ok held

/-- What `handover` makes of a lease: ready and due at once, or expired if its freshness has
passed. -/
def Job.handed (now : Millis) (job : Job) : Job :=
  if job.freshUntil.any (· ≤ now) then
    (job.released now).expiredWith "fresh_until passed while leased" now
  else
    (job.released now).readyAt now

section Loops

variable {queue workerPrefix : String} {now : Millis} {store : Store} {keys : List IndexKey}

/-- The leases that a scan of these keys finds. -/
def heldKeys (queue workerPrefix : String) (store : Store) (keys : List IndexKey) : List IndexKey :=
  keys.filter (fun key => (store.jobs[key.id]?).any (fun job => job.HeldUnder queue workerPrefix))

theorem countLease_visit (held : ℕ) (key : IndexKey) :
    (countLease queue workerPrefix held key).writes kv store = [] ∧
      (countLease queue workerPrefix held key).result kv store =
        if (store.jobs[key.id]?).any (fun job => job.HeldUnder queue workerPrefix) then held + 1
        else held := by
  rw [countLease, load, query_bind, writes_ask, result_ask, answer_job]
  cases hjob : store.jobs[key.id]? with
  | none => exact ⟨rfl, rfl⟩
  | some job =>
    refine ⟨rfl, ?_⟩
    change (if job.HeldUnder queue workerPrefix then held + 1 else held) = _
    rw [any_some]
    by_cases hheld : job.HeldUnder queue workerPrefix
    · rw [if_pos hheld, if_pos (decide_eq_true hheld)]
    · rw [if_neg hheld, if_neg (by rwa [decide_eq_true_iff])]

theorem countLeases_goes (held : ℕ) :
    (keys.foldlM (countLease queue workerPrefix) held).writes kv store = [] ∧
      (keys.foldlM (countLease queue workerPrefix) held).result kv store =
        held + (heldKeys queue workerPrefix store keys).length := by
  induction keys generalizing held with
  | nil => exact ⟨rfl, rfl⟩
  | cons key keys ih =>
    obtain ⟨hwrs, hres⟩ := @countLease_visit queue workerPrefix store held key
    rw [foldlM_cons, writes_bind, result_bind, final, hwrs, Machine.applyAll_nil, hres,
      (ih _).1, (ih _).2, heldKeys, heldKeys, filter_cons]
    refine ⟨rfl, ?_⟩
    by_cases hheld : ((store.jobs[key.id]?).any fun job =>
        job.HeldUnder queue workerPrefix) = true
    · rw [if_pos hheld, if_pos hheld, length_cons]
      omega
    · rw [if_neg hheld, if_neg hheld]

theorem handBack_jobs (job : Job) (store : Store) (id : JobId) :
    ((handBack now (job.released now)).final kv store).jobs[id]? =
      if job.id = id then some (job.handed now) else store.jobs[id]? := by
  have hfre : (job.released now).freshUntil = job.freshUntil := rfl
  rw [handBack, hfre, Job.handed]
  by_cases hstl : job.freshUntil.any (· ≤ now) = true
  · rw [if_pos hstl, if_pos hstl]
    exact expireAt_jobs _ _ _ _
  · rw [if_neg hstl, if_neg hstl]
    simp [save, putIndex, Job.readyAt, Job.released, JobState.slot, write]

theorem handoverLease_visit {key : IndexKey} {job : Job} (hjob : store.jobs[key.id]? = some job)
    (hque : job.queue = queue) (hls : job.state = .leased) (handed : ℕ) :
    (job.HeldUnder queue workerPrefix →
      (handoverLease queue workerPrefix now handed key).result kv store = handed + 1 ∧
      ∀ id : JobId, ((handoverLease queue workerPrefix now handed key).final kv store).jobs[id]? =
        if key.id = id then some (job.handed now) else store.jobs[id]?) ∧
    (¬ job.HeldUnder queue workerPrefix →
      (handoverLease queue workerPrefix now handed key).result kv store = handed ∧
      (handoverLease queue workerPrefix now handed key).final kv store = store) := by
  have hid : job.id = key.id := store.jobs_id key.id job hjob
  rw [handoverLease, load, query_bind, result_ask, final_ask, answer_job, hjob]
  dsimp only
  rw [if_neg (by
    rw [not_or, not_not, not_not]
    exact ⟨hque, hls⟩)]
  have hwor : job.HeldUnder queue workerPrefix ↔ job.leaseWorker.any
      (fun worker => workerPrefix.toList.isPrefixOf worker.toList) = true :=
    ⟨fun hheld => hheld.2.2, fun hpref => ⟨hque, hls, hpref⟩⟩
  constructor
  · intro hheld
    rw [if_neg (by rw [hwor.mp hheld]; decide), write_bind, result_put, final_put, result_bind,
      final_bind]
    refine ⟨rfl, ?_⟩
    intro id
    rw [← hid]
    exact handBack_jobs job (kv.apply (.delIndex key) store) id
  intro hoth
  rw [hwor, Bool.not_eq_true] at hoth
  rw [hoth]
  exact ⟨rfl, rfl⟩

theorem handoverLeases_goes (hndp : (keys.map IndexKey.id).Nodup)
    (hlead : ∀ key ∈ keys, ∃ job, store.jobs[key.id]? = some job ∧ job.queue = queue ∧
      job.state = .leased) (handed : ℕ) :
    (keys.foldlM (handoverLease queue workerPrefix now) handed).result kv store =
        handed + (heldKeys queue workerPrefix store keys).length ∧
      ∀ id : JobId,
        ((keys.foldlM (handoverLease queue workerPrefix now) handed).final kv store).jobs[id]? =
          if id ∈ (heldKeys queue workerPrefix store keys).map IndexKey.id then
            (store.jobs[id]?).map (Job.handed now)
          else store.jobs[id]? := by
  induction keys generalizing handed store with
  | nil => exact ⟨rfl, fun _ => rfl⟩
  | cons key keys ih =>
    rw [map_cons, nodup_cons] at hndp
    rw [forall_mem_cons] at hlead
    obtain ⟨⟨job, hjob, hque, hls⟩, hrest⟩ := hlead
    rw [foldlM_cons, result_bind, final_bind]
    obtain ⟨hheldVisit, hotherVisit⟩ := @handoverLease_visit queue workerPrefix now store key job
      hjob hque hls handed
    by_cases hheld : job.HeldUnder queue workerPrefix
    · obtain ⟨hres, hjobs⟩ := hheldVisit hheld
      have hoths : ∀ other ∈ keys,
          ((handoverLease queue workerPrefix now handed key).final kv store).jobs[other.id]? =
            store.jobs[other.id]? := by
        intro other hoth
        rw [hjobs, if_neg]
        intro hsame
        exact hndp.1 (hsame ▸ List.mem_map_of_mem hoth)
      have hkeys : heldKeys queue workerPrefix
          ((handoverLease queue workerPrefix now handed key).final kv store) keys =
          heldKeys queue workerPrefix store keys := by
        apply filter_congr
        intro other hoth
        rw [hoths other hoth]
      have htake : heldKeys queue workerPrefix store (key :: keys) =
          key :: heldKeys queue workerPrefix store keys := by
        rw [heldKeys, filter_cons_of_pos]
        · rfl
        · rw [hjob, any_some, decide_eq_true_iff]
          exact hheld
      obtain ⟨hcnt, hfin⟩ := ih hndp.2 (by
        intro other hoth
        rw [hoths other hoth]
        exact hrest other hoth) (handed + 1)
      rw [hres, hcnt, hkeys, htake]
      refine ⟨by rw [length_cons]; omega, ?_⟩
      intro id
      rw [hfin, hkeys, hjobs]
      by_cases hhere : key.id = id
      · subst hhere
        have hgone : key.id ∉ (heldKeys queue workerPrefix store keys).map IndexKey.id := by
          intro hin
          exact hndp.1 (map_subset _ filter_sublist.subset hin)
        rw [if_neg hgone, if_pos rfl, if_pos (List.mem_map_of_mem mem_cons_self), hjob, map_some]
      have hoth : id ∈ (key :: heldKeys queue workerPrefix store keys).map IndexKey.id ↔
          id ∈ (heldKeys queue workerPrefix store keys).map IndexKey.id := by
        rw [map_cons, mem_cons, or_iff_right (fun hsame => hhere hsame.symm)]
      simp only [if_neg hhere, hoth]
    obtain ⟨hres, hstr⟩ := hotherVisit hheld
    have hskip : heldKeys queue workerPrefix store (key :: keys) =
        heldKeys queue workerPrefix store keys := by
      rw [heldKeys, filter_cons_of_neg]
      · rfl
      · rw [hjob, any_some, decide_eq_true_iff]
        exact hheld
    rw [hres, hstr, hskip]
    exact ih hndp.2 hrest handed

end Loops

section Scans

variable {queue workerPrefix : String} {now : Millis} {store : Store}

def heldJobs (queue workerPrefix : String) (store : Store) : List Job :=
  store.allJobs.filter (fun job => job.HeldUnder queue workerPrefix)

variable (hcln : Clean store)
include hcln

theorem scannedKey_leads {slot : Slot} {key : IndexKey}
    (hkey : key ∈ kv.answer (Query.indexPrefix queue slot) store) :
    ∃ job, store.jobs[key.id]? = some job ∧ job.ownKey = some key ∧ job.queue = queue ∧
      job.state.slot = some slot := by
  obtain ⟨hmem, hque, hslot⟩ := (mem_answer_indexPrefix key queue slot store).mp hkey
  obtain ⟨job, hjob, hown⟩ := hcln.2 key hmem
  obtain ⟨letter, hst, rfl⟩ := map_eq_some_iff.mp hown
  obtain rfl : letter = slot := hslot
  exact ⟨job, hjob, hown, hque, hst⟩

theorem scannedIds_nodup (queue : String) (slot : Slot) :
    ((kv.answer (Query.indexPrefix queue slot) store).map IndexKey.id).Nodup := by
  apply List.Nodup.map_on
  · intro left hlt right hrt hid
    obtain ⟨job, hjob, hown, -⟩ := scannedKey_leads hcln hlt
    obtain ⟨other, hoth, hotherOwn, -⟩ := scannedKey_leads hcln hrt
    rw [hid, hoth] at hjob
    cases hjob
    exact Option.some.inj (hown.symm.trans hotherOwn)
  · exact Std.ExtTreeMap.nodup_keys.filter _

theorem leasedKey_leads {key : IndexKey}
    (hkey : key ∈ kv.answer (Query.indexPrefix queue .leased) store) :
    ∃ job, store.jobs[key.id]? = some job ∧ job.queue = queue ∧ job.state = .leased := by
  obtain ⟨job, hjob, _, hque, hslot⟩ := scannedKey_leads hcln hkey
  exact ⟨job, hjob, hque, slot_eq_leased job.state hslot⟩

theorem mem_heldIds (id : JobId) :
    id ∈ (heldKeys queue workerPrefix store
        (kv.answer (Query.indexPrefix queue .leased) store)).map IndexKey.id ↔
      ∃ job, store.jobs[id]? = some job ∧ job.HeldUnder queue workerPrefix := by
  constructor
  · intro hid
    obtain ⟨key, hkey, rfl⟩ := List.mem_map.mp hid
    obtain ⟨hscd, hheld⟩ := mem_filter.mp hkey
    obtain ⟨job, hjob, -⟩ := leasedKey_leads hcln hscd
    rw [hjob, any_some, decide_eq_true_iff] at hheld
    exact ⟨job, hjob, hheld⟩
  rintro ⟨job, hjob, hheld⟩
  have hid : job.id = id := store.jobs_id id job hjob
  have hown := ownKey_of_leased hheld.2.1
  have hkey : indexKey job .leased ∈ kv.answer (Query.indexPrefix queue .leased) store := by
    rw [mem_answer_indexPrefix]
    refine ⟨hcln.1 _ ⟨job, ?_, hown⟩, hheld.1, rfl⟩
    rwa [show (indexKey job .leased).id = id from hid]
  refine List.mem_map.mpr ⟨indexKey job .leased, mem_filter.mpr ⟨hkey, ?_⟩, hid⟩
  rw [show (indexKey job .leased).id = id from hid, hjob, any_some, decide_eq_true_iff]
  exact hheld

theorem length_heldKeys (queue workerPrefix : String) :
    (heldKeys queue workerPrefix store
      (kv.answer (Query.indexPrefix queue .leased) store)).length =
      (heldJobs queue workerPrefix store).length := by
  rw [← length_map IndexKey.id, ← length_map Job.id]
  apply List.Perm.length_eq
  rw [perm_ext_iff_of_nodup]
  · intro id
    rw [mem_heldIds hcln, List.mem_map]
    constructor
    · rintro ⟨job, hjob, hheld⟩
      have hid : job.id = id := store.jobs_id id job hjob
      refine ⟨job, List.mem_filter.mpr ⟨?_, decide_eq_true hheld⟩, hid⟩
      rw [mem_allJobs, hid, hjob]
    · rintro ⟨job, hjob, rfl⟩
      obtain ⟨hmem, hheld⟩ := List.mem_filter.mp hjob
      exact ⟨job, (mem_allJobs job store).mp hmem, of_decide_eq_true hheld⟩
  · exact (scannedIds_nodup hcln queue .leased).sublist (List.filter_sublist.map _)
  · exact (@Known.start store).distinct.sublist (List.filter_sublist.map _)

omit hcln

/-- Arguments that both calls accept. -/
def HandoverAccepts (queue workerPrefix : String) : Prop :=
  validName queue 64 = true ∧ workerPrefix.isEmpty = false

theorem inFlight_writes (queue workerPrefix : String) (store : Store) :
    (inFlight queue workerPrefix).writes kv store = [] := by
  rw [inFlight]
  split
  · rfl
  split
  · rfl
  rw [query_bind, writes_ask, writes_bind, (countLeases_goes 0).1]
  rfl

variable (haccs : HandoverAccepts queue workerPrefix)
include haccs

theorem inFlight_result (hcln : Clean store) :
    (inFlight queue workerPrefix).result kv store =
      .ok (heldJobs queue workerPrefix store).length := by
  rw [inFlight, if_neg (by rw [haccs.1]; decide), if_neg (by rw [haccs.2]; decide),
    query_bind, result_ask, result_bind, (countLeases_goes 0).2, Nat.zero_add,
    length_heldKeys hcln]
  rfl

theorem handover_effect (hcln : Clean store) :
    (handover now queue workerPrefix).result kv store =
        .ok (heldJobs queue workerPrefix store).length ∧
      ∀ id : JobId, ((handover now queue workerPrefix).final kv store).jobs[id]? =
        (store.jobs[id]?).map
          (fun job => if job.HeldUnder queue workerPrefix then job.handed now else job) := by
  obtain ⟨hres, hjobs⟩ := @handoverLeases_goes queue workerPrefix now store
    (kv.answer (Query.indexPrefix queue .leased) store) (scannedIds_nodup hcln queue .leased)
    (fun _ hkey => leasedKey_leads hcln hkey) 0
  rw [handover, if_neg (by rw [haccs.1]; decide), if_neg (by rw [haccs.2]; decide),
    query_bind, result_ask, final_ask, result_bind, final_bind, hres, Nat.zero_add,
    length_heldKeys hcln]
  refine ⟨rfl, ?_⟩
  intro id
  rw [pure_eq, final_done, hjobs]
  cases hjob : store.jobs[id]? with
  | none => exact ite_self _
  | some job =>
    rw [map_some, map_some]
    by_cases hheld : job.HeldUnder queue workerPrefix
    · rw [if_pos ((mem_heldIds hcln id).mpr ⟨job, hjob, hheld⟩), if_pos hheld]
    rw [if_neg hheld, if_neg]
    intro hid
    obtain ⟨other, hoth, hotherHeld⟩ := (mem_heldIds hcln id).mp hid
    rw [hjob] at hoth
    cases hoth
    exact hheld hotherHeld

end Scans

section Claims

variable {now : Millis}

theorem Only.claims {Result : Type} {operation : Operation Result}
    (honly : Only (Write.Plain now) operation) (store : Store) :
    (operation.final kv store).claims = store.claims := by
  have hwrs : ∀ writes : List Write, (∀ write ∈ writes, write.KeepsClaims) → ∀ store : Store,
      (kv.applyAll writes store).claims = store.claims := by
    intro writes
    induction writes with
    | nil =>
      intro _ store
      rfl
    | cons write writes ih =>
      intro hks store
      rw [forall_mem_cons] at hks
      rw [Machine.applyAll_cons, ih hks.2]
      cases write with
      | putClaim => exact hks.1.elim
      | delClaim => exact hks.1.elim
      | putCounter counter value => cases counter <;> rfl
      | _ => rfl
  exact hwrs _ (fun write hwr => (honly store write hwr).2) store

end Claims

section Agreement

variable {policy : Policy} {store : Store}

/-- What a handover leaves: the leases behind the prefix are ready and due, or expired where
their freshness has passed, at no charge; everything else is as it was. -/
structure HandsOver (queue workerPrefix : String) (now : Millis) (before after : Store) :
    Prop where
  fresh : ∀ (id : JobId) (job : Job), before.jobs[id]? = some job →
    job.HeldUnder queue workerPrefix → ¬ job.freshUntil.any (· ≤ now) →
    ∃ freed : Job, after.jobs[id]? = some freed ∧ freed.state = .ready ∧ freed.notBefore ≤ now ∧
      freed.attempts = job.attempts ∧ freed.leaseExpiries = job.leaseExpiries
  stale : ∀ (id : JobId) (job : Job), before.jobs[id]? = some job →
    job.HeldUnder queue workerPrefix → job.freshUntil.any (· ≤ now) →
    ∃ ended : Job, after.jobs[id]? = some ended ∧ ended.state = .expired ∧
      ended.attempts = job.attempts ∧ ended.leaseExpiries = job.leaseExpiries
  records : ∀ id : JobId,
    (∀ job : Job, before.jobs[id]? = some job → ¬ job.HeldUnder queue workerPrefix) →
    after.jobs[id]? = before.jobs[id]?
  keys : ∀ key : IndexKey,
    (∀ job : Job, before.jobs[key.id]? = some job → ¬ job.HeldUnder queue workerPrefix) →
    (key ∈ after.index ↔ key ∈ before.index)
  claims : after.claims = before.claims

structure HandoverAgrees (queue workerPrefix : String) (now : Millis) (store : Store) : Prop where
  looks : (inFlight queue workerPrefix).final kv store = store
  counts : HandoverAccepts queue workerPrefix →
    (inFlight queue workerPrefix).result kv store =
        .ok (heldJobs queue workerPrefix store).length ∧
      (handover now queue workerPrefix).result kv store =
        .ok (heldJobs queue workerPrefix store).length
  releases : HandoverAccepts queue workerPrefix →
    HandsOver queue workerPrefix now store ((handover now queue workerPrefix).final kv store)
  nothing : HandoverAccepts queue workerPrefix →
    (inFlight queue workerPrefix).result kv
      ((handover now queue workerPrefix).final kv store) = .ok 0
  refused : ¬ HandoverAccepts queue workerPrefix →
    (∃ why, (inFlight queue workerPrefix).result kv store = .error why) ∧
      (∃ why, (handover now queue workerPrefix).result kv store = .error why) ∧
      (handover now queue workerPrefix).final kv store = store

theorem handover_clean (now : Millis) (queue workerPrefix : String) (hcln : Clean store) :
    Clean ((handover now queue workerPrefix).final kv store) := by
  have hstep := @Op.clean Policy.default store (.handover now queue workerPrefix) trivial hcln
  rwa [Op.program, discard_final] at hstep

theorem Job.handed_fresh {job : Job} {now : Millis} (hfre : ¬ job.freshUntil.any (· ≤ now)) :
    job.handed now = (job.released now).readyAt now :=
  if_neg hfre

theorem Job.handed_stale {job : Job} {now : Millis} (hstl : job.freshUntil.any (· ≤ now)) :
    job.handed now = (job.released now).expiredWith "fresh_until passed while leased" now :=
  if_pos hstl

theorem Job.handed_not_held (queue workerPrefix : String) (now : Millis) (job : Job) :
    ¬ (job.handed now).HeldUnder queue workerPrefix := by
  rintro ⟨_, hls, _⟩
  rw [Job.handed] at hls
  split at hls
  · cases hls
  · cases hls

theorem handover_handsOver {queue workerPrefix : String}
    (haccs : HandoverAccepts queue workerPrefix) (hcln : Clean store) (now : Millis) :
    HandsOver queue workerPrefix now store ((handover now queue workerPrefix).final kv store) := by
  obtain ⟨_, hjobs⟩ := @handover_effect queue workerPrefix now store haccs hcln
  have haft := handover_clean now queue workerPrefix hcln
  have hrecs : ∀ id : JobId,
      (∀ job : Job, store.jobs[id]? = some job → ¬ job.HeldUnder queue workerPrefix) →
      ((handover now queue workerPrefix).final kv store).jobs[id]? = store.jobs[id]? := by
    intro id hnone
    rw [hjobs]
    cases hjob : store.jobs[id]? with
    | none => rfl
    | some job => rw [map_some, if_neg (hnone job hjob)]
  refine ⟨?_, ?_, hrecs, ?_, (handover_records queue workerPrefix).only.claims store⟩
  · intro id job hjob hheld hfre
    refine ⟨job.handed now, ?_, ?_⟩
    · rw [hjobs, hjob, map_some, if_pos hheld]
    · rw [Job.handed_fresh hfre]
      exact ⟨rfl, le_refl now, rfl, rfl⟩
  · intro id job hjob hheld hstl
    refine ⟨job.handed now, ?_, ?_⟩
    · rw [hjobs, hjob, map_some, if_pos hheld]
    · rw [Job.handed_stale hstl]
      exact ⟨rfl, rfl, rfl⟩
  intro key hnone
  have hask : Asked ((handover now queue workerPrefix).final kv store) key ↔ Asked store key := by
    rw [Asked, Asked, hrecs key.id hnone]
  exact ⟨fun hkey => hcln.1 key (hask.mp (haft.2 key hkey)),
    fun hkey => haft.1 key (hask.mpr (hcln.2 key hkey))⟩

theorem heldJobs_handover {queue workerPrefix : String}
    (haccs : HandoverAccepts queue workerPrefix) (hcln : Clean store) (now : Millis) :
    heldJobs queue workerPrefix ((handover now queue workerPrefix).final kv store) = [] := by
  obtain ⟨_, hjobs⟩ := @handover_effect queue workerPrefix now store haccs hcln
  rw [heldJobs, filter_eq_nil_iff]
  intro job hmem
  rw [mem_allJobs, hjobs] at hmem
  obtain ⟨before, _, hbef⟩ := map_eq_some_iff.mp hmem
  rw [decide_eq_true_iff, ← hbef]
  split
  · exact before.handed_not_held queue workerPrefix now
  · assumption

/-- One lease that is fresh until ten, taken at zero. -/
def freshLease : Store :=
  runAll Policy.default
    [.enqueue 0 { EnqueueRequest.new "stt" [] with freshForMs := some 10 },
      .take 0 "stt" "worker-1" none] Store.empty

theorem freshLease_reached : Reached Policy.default UnusedId freshLease :=
  .step _ (.step _ .empty (by simp [UnusedId, Store.empty])) trivial

end Agreement

end WasmAgent.Queue
