import WasmAgent.Queue.Dedupe
import WasmAgent.Queue.Handing
import WasmAgent.Queue.Keys
import WasmAgent.Queue.Recovery

/-!
# Which job a take hands out

A take scans the ready keys of its queue in the order of their bytes.  Where the index is
exact, the first key of a job that can run leads to the job of the greatest priority, and
among equals to the one with the smallest id.
-/

namespace WasmAgent.Queue

open List Option WasmAgent.Core WasmAgent.Core.Program

variable {policy : Policy} {store : Store}

def Job.Eligible (policy : Policy) (queue : String) (now : Millis) (job : Job) : Prop :=
  job.queue = queue ∧ job.state = .ready ∧ job.notBefore ≤ now ∧
    ¬ job.freshUntil.any (· ≤ now) ∧ job.attempts < job.maxAttempts ∧
    job.leaseExpiries ≤ policy.maxLeaseLosses

instance (policy : Policy) (queue : String) (now : Millis) (job : Job) :
    Decidable (job.Eligible policy queue now) :=
  inferInstanceAs (Decidable (_ ∧ _))

def Job.Precedes (first second : Job) : Prop :=
  second.priority < first.priority ∨ second.priority = first.priority ∧ first.id < second.id

/-- The first of the jobs that can run. -/
structure Foremost (policy : Policy) (queue : String) (now : Millis) (store : Store) (job : Job) :
    Prop where
  stored : store.jobs[job.id]? = some job
  eligible : job.Eligible policy queue now
  precedes : ∀ other : Job, store.jobs[other.id]? = some other → other.Eligible policy queue now →
    other.id ≠ job.id → job.Precedes other

section Scan

variable {queue worker : String} {now leaseMs : Millis} {key : IndexKey} {keys : List IndexKey}
  {job : Job}

theorem takeFrom_cons_take (hjob : store.jobs[key.id]? = some job)
    (helg : job.Eligible policy queue now) :
    (takeFrom policy queue worker now leaseMs (key :: keys)).result kv store =
      .job (job.leasedTo worker now leaseMs) := by
  obtain ⟨hque, hrdy, hdue, hfre, hatts, hlos⟩ := helg
  rw [takeFrom, load, query_bind, result_ask, answer_job, hjob]
  dsimp only
  rw [if_neg (by
    rw [not_or, not_not, not_not]
    exact ⟨hque, hrdy⟩), if_neg hfre, if_neg (UInt32.not_le.mpr hatts),
    if_neg (UInt32.not_lt.mpr hlos), if_neg (not_lt.mpr hdue)]
  simp [save, putIndex, Job.leasedTo, JobState.slot, write]

theorem takeFrom_cons_skip (hjob : store.jobs[key.id]? = some job) (hque : job.queue = queue)
    (hrdy : job.state = .ready) (hnot : ¬ job.Eligible policy queue now) :
    ∃ middle : Store, (∀ id : JobId, id ≠ key.id → middle.jobs[id]? = store.jobs[id]?) ∧
      (takeFrom policy queue worker now leaseMs (key :: keys)).result kv store =
        (takeFrom policy queue worker now leaseMs keys).result kv middle := by
  have hid : job.id = key.id := store.jobs_id key.id job hjob
  rw [takeFrom, load, query_bind, result_ask, answer_job, hjob]
  dsimp only
  rw [if_neg (by
    rw [not_or, not_not, not_not]
    exact ⟨hque, hrdy⟩)]
  by_cases hstl : job.freshUntil.any (· ≤ now) = true
  · rw [if_pos hstl, result_bind]
    refine ⟨_, ?_, rfl⟩
    intro id hoth
    rw [expireAt_jobs, if_neg (fun hsame => hoth (hsame.symm.trans hid))]
  rw [if_neg hstl]
  by_cases hatts : job.maxAttempts ≤ job.attempts
  · rw [if_pos hatts, result_bind]
    refine ⟨_, ?_, rfl⟩
    intro id hoth
    rw [deadLetter_jobs, if_neg (fun hsame => hoth (hsame.symm.trans hid))]
  rw [if_neg hatts]
  by_cases hlos : policy.maxLeaseLosses < job.leaseExpiries
  · rw [if_pos hlos, result_bind]
    refine ⟨_, ?_, rfl⟩
    intro id hoth
    rw [deadLetter_jobs, if_neg (fun hsame => hoth (hsame.symm.trans hid))]
  rw [if_neg hlos]
  by_cases hlate : now < job.notBefore
  · rw [if_pos hlate]
    exact ⟨store, fun _ _ => rfl, rfl⟩
  · exact absurd ⟨hque, hrdy, not_lt.mp hlate, hstl, UInt32.not_le.mp hatts,
      UInt32.not_lt.mp hlos⟩ hnot

theorem takeFrom_first (hndp : (keys.map IndexKey.id).Nodup)
    (hlead : ∀ key ∈ keys, ∃ job : Job, store.jobs[key.id]? = some job ∧ job.queue = queue ∧
      job.state = .ready) :
    (takeFrom policy queue worker now leaseMs keys).result kv store = .empty ∧
        (∀ key ∈ keys, ∀ job : Job, store.jobs[key.id]? = some job →
          ¬ job.Eligible policy queue now) ∨
      ∃ (front : List IndexKey) (key : IndexKey) (back : List IndexKey) (job : Job),
        keys = front ++ key :: back ∧ store.jobs[key.id]? = some job ∧
        job.Eligible policy queue now ∧
        (∀ earlier ∈ front, ∀ other : Job, store.jobs[earlier.id]? = some other →
          ¬ other.Eligible policy queue now) ∧
        (takeFrom policy queue worker now leaseMs keys).result kv store =
          .job (job.leasedTo worker now leaseMs) := by
  induction keys generalizing store with
  | nil =>
    left
    exact ⟨rfl, fun key hkey => absurd hkey not_mem_nil⟩
  | cons key keys ih =>
    rw [map_cons, nodup_cons] at hndp
    rw [forall_mem_cons] at hlead
    obtain ⟨⟨job, hjob, hque, hrdy⟩, hrest⟩ := hlead
    by_cases helg : job.Eligible policy queue now
    · right
      exact ⟨[], key, keys, job, rfl, hjob, helg,
        fun earlier hearl => absurd hearl not_mem_nil,
        takeFrom_cons_take hjob helg⟩
    obtain ⟨middle, hmid, hres⟩ :=
      @takeFrom_cons_skip policy store queue worker now leaseMs key keys job hjob hque hrdy helg
    have hsame : ∀ other ∈ keys, middle.jobs[other.id]? = store.jobs[other.id]? := by
      intro other hoth
      apply hmid
      intro hid
      exact hndp.1 (hid ▸ List.mem_map_of_mem hoth)
    have hhere : ∀ other : Job, store.jobs[key.id]? = some other →
        ¬ other.Eligible policy queue now := by
      intro other hoth
      rw [hjob] at hoth
      cases hoth
      exact helg
    have hnext := @ih middle hndp.2 (by
      intro other hoth
      rw [hsame other hoth]
      exact hrest other hoth)
    rw [hres]
    rcases hnext with ⟨hemp, hnone⟩ | ⟨front, first, back, taken, hkeys, htkn, hruns, hfrt, hout⟩
    · left
      refine ⟨hemp, ?_⟩
      rw [forall_mem_cons]
      refine ⟨hhere, ?_⟩
      intro other hoth stored hsto
      exact hnone other hoth stored (by rw [hsame other hoth, hsto])
    right
    refine ⟨key :: front, first, back, taken, by rw [hkeys]; rfl, ?_, hruns, ?_, hout⟩
    · rw [← hsame first (by rw [hkeys]; exact mem_append_right _ mem_cons_self)]
      exact htkn
    rw [forall_mem_cons]
    refine ⟨hhere, ?_⟩
    intro earlier hearl stored hsto
    have hmem : earlier ∈ keys := by
      rw [hkeys]
      exact mem_append_left _ hearl
    exact hfrt earlier hearl stored (by rw [hsame earlier hmem, hsto])

end Scan

section Keys

/-- Every id in use is a `u64`, the next one too. -/
def IdsFit (store : Store) : Prop :=
  (∀ (id : JobId) (job : Job), store.jobs[id]? = some job → id ≤ u64Max) ∧
    store.nextId.getD 1 ≤ u64Max

theorem Creation.nextId {writes : List Write} (hcrn : Creation policy store writes) :
    (kv.applyAll writes store).nextId = some (saturatingAddU64 (store.nextId.getD 1) 1) := by
  obtain ⟨now, request, _, _, _, _, job, _⟩ := hcrn
  rw [Machine.applyAll_cons, nextId_applyAll]
  · rfl
  intro value hput
  rcases mem_append.mp hput with hclm | hlast
  · rw [claimWrites, mem_toList] at hclm
    obtain ⟨_, _, hwr⟩ := map_eq_some_iff.mp hclm
    cases hwr
  · simp at hlast

theorem Op.idsFit (op : Op) (hfit : IdsFit store) :
    IdsFit ((op.program policy).final kv store) := by
  apply op.final_invariant _ _ hfit
  · intro current block hcur halwd
    have hjobs : (∀ job', Write.putJob job' ∈ block → job'.id ≤ u64Max) →
        ∀ (id : JobId) (job : Job), (kv.applyAll block current).jobs[id]? = some job →
          id ≤ u64Max := by
      intro hputs id job hjob
      rcases jobs_applyAll_cases block current id job hjob with hbef | ⟨hput, hid⟩
      · exact hcur.1 id job hbef
      · exact hid ▸ hputs job hput
    have hmove : Move policy current block → IdsFit (kv.applyAll block current) := by
      intro hmove
      refine ⟨hjobs ?_, ?_⟩
      · intro job' hput
        obtain ⟨job, hjob, -⟩ := hmove.putJob hput
        exact hcur.1 _ job hjob
      · rw [nextId_applyAll _ _ hmove.no_putCounter]
        exact hcur.2
    cases op with
    | enqueue now request =>
      refine ⟨hjobs ?_, ?_⟩
      · intro job' hput
        obtain ⟨now', request', -, rfl⟩ := halwd.2.putJob hput
        exact hcur.2
      · rw [halwd.2.nextId]
        exact saturatingAddU64_le _
    | requeue now id options =>
      refine ⟨hjobs ?_, ?_⟩
      · intro job' hput
        obtain ⟨job, _, _, hjob, -⟩ := halwd.2.putJob hput
        exact hcur.1 _ job hjob
      · obtain ⟨_, hrev⟩ := halwd
        cases hrev
        exact hcur.2
    | _ => exact hmove halwd
  intro hstr
  have hblc : ∀ current block, current.nextId.getD 1 ≤ u64Max → Mend store current block →
      (kv.applyAll block current).nextId.getD 1 ≤ u64Max := by
    intro current block hcur hmend
    rw [hmend.nextId]
    exact hcur
  refine ⟨?_, repair_goes.chain.invariant hblc hstr.2⟩
  intro id job hjob
  rw [repair_goes.outcome.1.jobs] at hjob
  exact hstr.1 id job hjob

theorem Op.queuesValid (op : Op) (hqueues : QueuesValid store) :
    QueuesValid ((op.program policy).final kv store) := by
  rw [← stopped_of_length_le kv (op.program policy) _ store le_rfl]
  exact op.queuesValid_stopped _ hqueues

theorem Reached.spelled {ok : Store → Op → Prop} (hrch : Reached policy ok store) :
    IdsFit store ∧ QueuesValid store := by
  induction hrch with
  | empty =>
    refine ⟨⟨?_, by decide⟩, ?_⟩
    · intro id job hjob
      simp [Store.empty] at hjob
    · intro id job hjob
      simp [Store.empty] at hjob
  | step op _ _ ih => exact ⟨op.idsFit ih.1, op.queuesValid ih.2⟩

theorem Clean.spelled (hcln : Clean store)
    (hids : ∀ (id : JobId) (job : Job), store.jobs[id]? = some job → id ≤ u64Max)
    (hqueues : QueuesValid store) : ∀ key : IndexKey, key ∈ store.index → key.Spelled := by
  intro key hkey
  obtain ⟨job, hjob, hown⟩ := hcln.2 key hkey
  refine ⟨?_, hids key.id job hjob⟩
  obtain ⟨letter, _, rfl⟩ := map_eq_some_iff.mp hown
  exact hqueues _ job hjob

theorem Clean.of_chain {writes : List Write} (hcln : Clean store)
    (hchain : Chain kv (Move policy) store writes) : Clean (kv.applyAll writes store) := by
  apply hchain.invariant _ hcln
  intro current block hcur hmove
  obtain ⟨_, _, hsets⟩ := Move.settles hmove hcur.1
  exact ⟨hsets.hasKeys hcur.1, hsets.noOrphans hcur.2 hcur.2⟩

end Keys

section Order

variable {first second : Job} {slot : Slot}

theorem order_of_same {left right : IndexKey} (hque : left.queue = right.queue)
    (hslot : left.slot = right.slot) :
    IndexKey.order left right = (compare left.rank right.rank).then (compare left.id right.id) := by
  have hwhole : IndexKey.order left right =
      (compare (left.queue ++ "/") (right.queue ++ "/")).then
        ((compare left.slot.code right.slot.code).then
          ((compare left.rank right.rank).then (compare left.id right.id))) := rfl
  rw [hwhole, hque, hslot, Std.ReflOrd.compare_self, Std.ReflOrd.compare_self, Ordering.eq_then,
    Ordering.eq_then]

theorem toNat_rank (job : Job) (slot : Slot) :
    (indexKey job slot).rank.toNat = 0xFFFFFFFF - job.priority.toNat := by
  apply UInt32.toNat_sub_of_le
  exact Nat.le_of_lt_succ job.priority.toNat_lt

theorem precedes_of_order (hque : first.queue = second.queue)
    (horder : IndexKey.order (indexKey first slot) (indexKey second slot) = .lt) :
    first.Precedes second := by
  have hfst := first.priority.toNat_lt
  have hsnd := second.priority.toNat_lt
  rw [@order_of_same (indexKey first slot) (indexKey second slot) hque rfl, compare_rank,
    toNat_rank, toNat_rank, Ordering.then_eq_lt, Nat.compare_eq_lt, Nat.compare_eq_eq,
    Nat.compare_eq_lt] at horder
  rcases horder with hrank | ⟨hrank, hid⟩
  · left
    rw [UInt32.lt_iff_toNat_lt]
    omega
  right
  refine ⟨?_, hid⟩
  apply UInt32.toNat_inj.mp
  omega

theorem Job.Precedes.asymm (hfst : first.Precedes second) : ¬ second.Precedes first := by
  rintro hsnd
  rcases hfst with hgreat | ⟨hsame, hid⟩
  · rcases hsnd with hless | ⟨hsame, _⟩
    · rw [UInt32.lt_iff_toNat_lt] at hgreat hless
      omega
    · rw [hsame, UInt32.lt_iff_toNat_lt] at hgreat
      omega
  rcases hsnd with hless | ⟨_, hoth⟩
  · rw [hsame, UInt32.lt_iff_toNat_lt] at hless
    omega
  · exact Nat.lt_asymm hid hoth

theorem Foremost.unique {queue : String} {now : Millis}
    (hfst : Foremost policy queue now store first)
    (hsnd : Foremost policy queue now store second) : first = second := by
  by_cases hid : first.id = second.id
  · have hsto := hfst.stored
    rw [hid, hsnd.stored] at hsto
    exact (Option.some.inj hsto).symm
  · exact absurd (hsnd.precedes first hfst.stored hfst.eligible hid)
      (hfst.precedes second hsnd.stored hsnd.eligible (Ne.symm hid)).asymm

end Order

section Take

variable {queue worker : String} {now : Millis} {leaseMs : Option Millis}

def recovered (policy : Policy) (queue : String) (now : Millis) (store : Store) : Store :=
  (recoverLeases policy queue now).final kv store

variable (hcln : Clean store)
include hcln

theorem recovered_clean (queue : String) (now : Millis) :
    Clean (recovered policy queue now store) :=
  hcln.of_chain (recoverLeases_goes queue now).chain

theorem recovered_jobs (queue : String) (now : Millis) (id : JobId) :
    (recovered policy queue now store).jobs[id]? =
      (store.jobs[id]?).map (recoverIf policy queue now) := by
  have hrecg : Recovering policy queue now store [] (recovered policy queue now store) :=
    (recoverLeases_goes queue now).outcome
  rcases hrecg.records id with hdone | ⟨hkept, hnone | hhid⟩
  · exact hdone
  · obtain ⟨_, hkey, _⟩ := hnone
    cases hkey
  rw [hkept]
  cases hjob : store.jobs[id]? with
  | none => rfl
  | some job =>
    rw [map_some, recoverIf_of_not_lapsed]
    intro hlap
    have hid : job.id = id := store.jobs_id id job hjob
    have hmem := hcln.1 (indexKey job .leased)
      ⟨job, by rwa [show (indexKey job .leased).id = id from hid], ownKey_of_leased hlap.2.1⟩
    exact hhid _ hmem hlap.1 rfl hid

omit hcln in
theorem take_result (haccs : TakeAccepts policy queue worker leaseMs) :
    (take policy now queue worker leaseMs).result kv store =
      if policy.limitFor queue ≤ entries (recovered policy queue now store) queue .leased then
        .ok (.atLimit (entries (recovered policy queue now store) queue .leased)
          (policy.limitFor queue))
      else .ok ((takeFrom policy queue worker now (leaseMs.getD policy.leaseMs)
        (kv.answer (Query.indexPrefix queue .ready) (recovered policy queue now store))).result kv
          (recovered policy queue now store)) := by
  obtain ⟨hque, hwor, hlse⟩ := haccs
  rw [take, if_neg (by rw [hque]; decide), if_neg (by rw [hwor]; decide)]
  dsimp only
  rw [hlse]
  rw [result_bind, countIndex, query_bind, ask_bind, result_ask]
  change (if policy.limitFor queue ≤ entries (recovered policy queue now store) queue .leased
    then _ else _ : Operation _).result kv _ = _
  by_cases hlim : policy.limitFor queue ≤ entries (recovered policy queue now store) queue .leased
  · rw [if_pos hlim, if_pos hlim]
    rfl
  · rw [if_neg hlim, if_neg hlim, query_bind, result_ask, result_bind]
    rfl

theorem takeFrom_foremost (queue worker : String) (now leaseMs : Millis) :
    (takeFrom policy queue worker now leaseMs
        (kv.answer (Query.indexPrefix queue .ready) store)).result kv store = .empty ∧
        (∀ job : Job, store.jobs[job.id]? = some job → ¬ job.Eligible policy queue now) ∨
      ∃ best : Job, Foremost policy queue now store best ∧
        (takeFrom policy queue worker now leaseMs
          (kv.answer (Query.indexPrefix queue .ready) store)).result kv store =
          .job (best.leasedTo worker now leaseMs) := by
  have hlst : ∀ job : Job, store.jobs[job.id]? = some job → job.Eligible policy queue now →
      indexKey job .ready ∈ kv.answer (Query.indexPrefix queue .ready) store := by
    intro job hjob helg
    rw [mem_answer_indexPrefix]
    exact ⟨hcln.1 _ ⟨job, hjob, ownKey_of_ready helg.2.1⟩, helg.1, rfl⟩
  have hlead : ∀ key ∈ kv.answer (Query.indexPrefix queue .ready) store, ∃ job : Job,
      store.jobs[key.id]? = some job ∧ job.queue = queue ∧ job.state = .ready := by
    intro key hkey
    obtain ⟨job, hjob, _, hque, hslot⟩ := scannedKey_leads hcln hkey
    exact ⟨job, hjob, hque, slot_eq_ready job.state hslot⟩
  rcases @takeFrom_first policy store queue worker now leaseMs _
    (scannedIds_nodup hcln queue .ready) hlead with
    ⟨hemp, hnone⟩ | ⟨front, key, back, best, hkeys, hbest, helg, hfrt, hout⟩
  · left
    refine ⟨hemp, ?_⟩
    intro job hjob helg
    exact hnone _ (hlst job hjob helg) job hjob helg
  right
  have hid : best.id = key.id := store.jobs_id key.id best hbest
  have hsto : store.jobs[best.id]? = some best := by
    rw [hid]
    exact hbest
  refine ⟨best, ⟨hsto, helg, ?_⟩, hout⟩
  intro other hoth hotherEligible hne
  have hsrt := @indexPrefix_sorted store queue .ready
  have hmem := hlst other hoth hotherEligible
  have hkey : key = indexKey best .ready := by
    have hin : key ∈ kv.answer (Query.indexPrefix queue .ready) store := by
      rw [hkeys]
      exact mem_append_right _ mem_cons_self
    obtain ⟨job, hjob, hown, _, _⟩ := scannedKey_leads hcln hin
    rw [hbest] at hjob
    cases hjob
    exact (Option.some.inj ((ownKey_of_ready helg.2.1).symm.trans hown)).symm
  rw [hkeys] at hsrt hmem
  rcases mem_append.mp hmem with hearl | hrest
  · exact absurd hotherEligible (hfrt _ hearl other hoth)
  rcases mem_cons.mp hrest with hsame | hltr
  · exact absurd ((congrArg IndexKey.id hsame).trans hid.symm) hne
  · have hbef := (pairwise_cons.mp (pairwise_append.mp hsrt).2.1).1 _ hltr
    rw [hkey] at hbef
    exact precedes_of_order (helg.1.trans hotherEligible.1.symm) hbef

theorem leasedCount_eq_entries (queue : String) :
    leasedCount store queue = entries store queue .leased :=
  Nat.le_antisymm (leasedCount_le_entries hcln.1 queue) (entries_le_leasedCount hcln.2 queue)

omit hcln

theorem take_refused (href : ¬ TakeAccepts policy queue worker leaseMs) :
    (∃ why, (take policy now queue worker leaseMs).result kv store = .error why) ∧
      (take policy now queue worker leaseMs).final kv store = store := by
  rw [take]
  split
  · exact ⟨⟨_, rfl⟩, rfl⟩
  rename_i hque
  split
  · exact ⟨⟨_, rfl⟩, rfl⟩
  rename_i hwor
  dsimp only
  split
  · exact ⟨⟨_, rfl⟩, rfl⟩
  · next hlse =>
    rw [Bool.not_eq_true, Bool.not_eq_false'] at hque hwor
    exact absurd ⟨hque, hwor, hlse⟩ href

end Take

section Runs

structure ReadsBytes (queue : String) (store : Store) : Prop where
  held : HoldsIndex (indexRows store) store
  pages : ∀ rows : List (Bytes × Bytes), HoldsIndex rows store → ∀ (slot : Slot) (page : ℕ),
    (scanAll (indexBase queue slot) page rows).map Prod.fst =
      (kv.answer (Query.indexPrefix queue slot) store).map IndexKey.bytes
  ids : ∀ key : IndexKey, key ∈ store.index → idFromIndexKey key.bytes = some key.id

structure TakesForemost (policy : Policy) (store : Store) (now : Millis) (queue worker : String)
    (leaseMs : Option Millis) : Prop where
  records : ∀ id : JobId, (recovered policy queue now store).jobs[id]? =
    (store.jobs[id]?).map (recoverIf policy queue now)
  atLimit : TakeAccepts policy queue worker leaseMs →
    ((∃ leased limit, (take policy now queue worker leaseMs).result kv store =
        .ok (.atLimit leased limit)) ↔
      policy.limitFor queue ≤ leasedCount (recovered policy queue now store) queue)
  told : ∀ leased limit, (take policy now queue worker leaseMs).result kv store =
    .ok (.atLimit leased limit) →
    leased = leasedCount (recovered policy queue now store) queue ∧ limit = policy.limitFor queue
  job : TakeAccepts policy queue worker leaseMs → ∀ taken : Job,
    ((take policy now queue worker leaseMs).result kv store = .ok (.job taken) ↔
      leasedCount (recovered policy queue now store) queue < policy.limitFor queue ∧
      ∃ best : Job, Foremost policy queue now (recovered policy queue now store) best ∧
        taken = best.leasedTo worker now (leaseMs.getD policy.leaseMs))
  empty : TakeAccepts policy queue worker leaseMs →
    ((take policy now queue worker leaseMs).result kv store = .ok .empty ↔
      leasedCount (recovered policy queue now store) queue < policy.limitFor queue ∧
      ∀ job : Job, (recovered policy queue now store).jobs[job.id]? = some job →
        ¬ job.Eligible policy queue now)
  refused : ¬ TakeAccepts policy queue worker leaseMs →
    (∃ why, (take policy now queue worker leaseMs).result kv store = .error why) ∧
      (take policy now queue worker leaseMs).final kv store = store
  before : validName queue 64 = true → ReadsBytes queue store
  after : validName queue 64 = true → ReadsBytes queue (recovered policy queue now store)

variable {queue : String}

theorem readsBytes (hcln : Clean store)
    (hids : ∀ (id : JobId) (job : Job), store.jobs[id]? = some job → id ≤ u64Max)
    (hqueues : QueuesValid store) (hque : validName queue 64 = true) : ReadsBytes queue store := by
  have hspel := hcln.spelled hids hqueues
  refine ⟨holdsIndex_indexRows hspel, ?_, ?_⟩
  · intro rows hhld slot page
    exact scanAll_index hhld hspel hque page
  · intro key hkey
    exact idFromIndexKey_bytes (hspel key hkey)

theorem recoverIf_queue (queue : String) (now : Millis) (job : Job) :
    (recoverIf policy queue now job).queue = job.queue := by
  rw [recoverIf]
  split
  · rw [Job.recovered]
    split
    · rfl
    · split
      · rfl
      · split <;> rfl
  · rfl

theorem recovered_readsBytes (hcln : Clean store) (hfit : IdsFit store)
    (hqueues : QueuesValid store) (now : Millis) (hque : validName queue 64 = true) :
    ReadsBytes queue (recovered policy queue now store) := by
  apply readsBytes (recovered_clean hcln queue now) _ _ hque
  · intro id job hjob
    rw [recovered_jobs hcln] at hjob
    obtain ⟨before, hbef, _⟩ := map_eq_some_iff.mp hjob
    exact hfit.1 id before hbef
  intro id job hjob
  rw [recovered_jobs hcln] at hjob
  obtain ⟨before, hbef, rfl⟩ := map_eq_some_iff.mp hjob
  rw [recoverIf_queue]
  exact hqueues id before hbef

theorem take_answers {worker : String} {leaseMs : Option Millis} (hcln : Clean store)
    (haccs : TakeAccepts policy queue worker leaseMs) (now : Millis) :
    (policy.limitFor queue ≤ leasedCount (recovered policy queue now store) queue ∧
      (take policy now queue worker leaseMs).result kv store =
        .ok (.atLimit (leasedCount (recovered policy queue now store) queue)
          (policy.limitFor queue))) ∨
    (leasedCount (recovered policy queue now store) queue < policy.limitFor queue ∧
      (((take policy now queue worker leaseMs).result kv store = .ok .empty ∧
        ∀ job : Job, (recovered policy queue now store).jobs[job.id]? = some job →
          ¬ job.Eligible policy queue now) ∨
      ∃ best : Job, Foremost policy queue now (recovered policy queue now store) best ∧
        (take policy now queue worker leaseMs).result kv store =
          .ok (.job (best.leasedTo worker now (leaseMs.getD policy.leaseMs))))) := by
  have hrecv := @recovered_clean policy store hcln queue now
  rw [take_result haccs, ← leasedCount_eq_entries hrecv]
  by_cases hlim : policy.limitFor queue ≤ leasedCount (recovered policy queue now store) queue
  · rw [if_pos hlim]
    exact .inl ⟨hlim, rfl⟩
  rw [if_neg hlim]
  right
  refine ⟨Nat.not_le.mp hlim, ?_⟩
  rcases @takeFrom_foremost policy _ hrecv queue worker now (leaseMs.getD policy.leaseMs) with
    ⟨hemp, hnone⟩ | ⟨best, hbest, hout⟩
  · rw [hemp]
    exact .inl ⟨rfl, hnone⟩
  · rw [hout]
    exact .inr ⟨best, hbest, rfl⟩

/-- In every run whose new jobs get unused ids, a take is refused by the limit exactly when the
leases reach it, and else hands out the foremost job that can run. -/
theorem takes_foremost (policy : Policy) (store : Store)
    (hreached : Reached policy UnusedId store) (now : Millis) (queue worker : String)
    (leaseMs : Option Millis) : TakesForemost policy store now queue worker leaseMs := by
  have hclean := hreached.exact.1
  obtain ⟨hfit, hqueues⟩ := hreached.spelled
  have hanswers := @take_answers policy store queue worker leaseMs hclean
  refine ⟨recovered_jobs hclean queue now, ?_, ?_, ?_, ?_, take_refused,
    readsBytes hclean hfit.1 hqueues, recovered_readsBytes hclean hfit hqueues now⟩
  · intro haccepts
    rcases hanswers haccepts now with ⟨hlimit, hresult⟩ | ⟨hbelow, ⟨hresult, _⟩ | ⟨best, _, hresult⟩⟩
    · exact iff_of_true ⟨_, _, hresult⟩ hlimit
    · apply iff_of_false _ (Nat.not_le.mpr hbelow)
      rintro ⟨leased, limit, hout⟩
      rw [hresult] at hout
      cases hout
    apply iff_of_false _ (Nat.not_le.mpr hbelow)
    rintro ⟨leased, limit, hout⟩
    rw [hresult] at hout
    cases hout
  · intro leased limit hout
    by_cases haccepts : TakeAccepts policy queue worker leaseMs
    · rcases hanswers haccepts now with ⟨_, hresult⟩ | ⟨_, ⟨hresult, _⟩ | ⟨best, _, hresult⟩⟩
      · rw [hresult] at hout
        cases hout
        exact ⟨rfl, rfl⟩
      · rw [hresult] at hout
        cases hout
      · rw [hresult] at hout
        cases hout
    · obtain ⟨why, hresult⟩ := (@take_refused policy store queue worker now leaseMs haccepts).1
      rw [hresult] at hout
      cases hout
  · intro haccepts taken
    rcases hanswers haccepts now with ⟨hlimit, hresult⟩ | ⟨hbelow, ⟨hresult, hnone⟩ | ⟨best, hbest, hresult⟩⟩
    · apply iff_of_false
      · rw [hresult]
        nofun
      · intro hbelow
        exact absurd hlimit (Nat.not_le.mpr hbelow.1)
    · apply iff_of_false
      · rw [hresult]
        nofun
      · rintro ⟨_, best, hbest, _⟩
        exact hnone best hbest.stored hbest.eligible
    rw [hresult]
    constructor
    · intro hout
      cases hout
      exact ⟨hbelow, best, hbest, rfl⟩
    · rintro ⟨_, other, hother, rfl⟩
      rw [hother.unique hbest]
  intro haccepts
  rcases hanswers haccepts now with ⟨hlimit, hresult⟩ | ⟨hbelow, ⟨hresult, hnone⟩ | ⟨best, hbest, hresult⟩⟩
  · apply iff_of_false
    · rw [hresult]
      nofun
    · intro hbelow
      exact absurd hlimit (Nat.not_le.mpr hbelow.1)
  · exact iff_of_true hresult ⟨hbelow, hnone⟩
  apply iff_of_false
  · rw [hresult]
    nofun
  · rintro ⟨_, hnone⟩
    exact hnone best hbest.stored hbest.eligible

/-- Two jobs of one queue, the second of greater priority. -/
def twoReady : Store :=
  runAll Policy.default
    [.enqueue 0 (EnqueueRequest.new "stt" []),
      .enqueue 0 { EnqueueRequest.new "stt" [] with priority := 9 }] Store.empty

theorem twoReady_reached : Reached Policy.default UnusedId twoReady :=
  .step _ (.step _ .empty (by simp [UnusedId, Store.empty])) (by
    rw [UnusedId]
    decide +kernel)

theorem twoReady_foremost : TakesForemost Policy.default twoReady 5 "stt" "worker-1" none :=
  takes_foremost Policy.default twoReady twoReady_reached 5 "stt" "worker-1" none

end Runs

/-! ## The last id, twice -/

section Exhausted

/-- The key of a job of queue `b`. -/
def readyKey (rank : UInt32) (id : JobId) : IndexKey := ⟨"b", .ready, rank, id⟩

/-- The first job of queue `b`. -/
def firstJob : Job := (EnqueueRequest.new "b" []).job vastPolicy 0 1

/-- The store after the first job of queue `b` and `count` jobs of queue `a`. -/
structure Filled (count : ℕ) (store : Store) : Prop where
  nextId : store.nextId.getD 1 = count + 2
  first : store.jobs[(1 : JobId)]? = some firstJob
  listed : readyKey 0xFFFFFFFF 1 ∈ store.index
  keys : ∀ key : IndexKey, key ∈ store.index → key.queue = "b" → key = readyKey 0xFFFFFFFF 1
  room : entries store "a" .ready ≤ count

theorem Filled.step {count : ℕ} (hfil : Filled count store) (hcnt : count + 2 < u64Max) :
    Filled (count + 1) (((plainEnqueue "a").program vastPolicy).final kv store) := by
  unfold plainEnqueue
  rw [enqueue_final_of_room (by decide) (by decide) rfl (Nat.lt_of_le_of_lt hfil.room (by
    change count < u64Max
    omega)), hfil.nextId, indexKey_new]
  constructor
  · have hnext : saturatingAddU64 (count + 2) 1 = count + 3 := Nat.min_eq_left hcnt
    simp [hnext]
  · simp [EnqueueRequest.job, hfil.first]
  · simp [hfil.listed]
  · intro key hmem hque
    simp at hmem
    rcases hmem with rfl | hbef
    · exact absurd hque (show ¬ "a" = "b" by decide)
    · exact hfil.keys key hbef hque
  apply (entries_le_succ ⟨"a", .ready, 0xFFFFFFFF, count + 2⟩ _ "a" .ready).trans
  · exact Nat.succ_le_succ hfil.room
  intro other hmem
  simp at hmem
  rcases hmem with rfl | hbef
  · exact .inr rfl
  · exact .inl hbef

theorem filled_replicate (count : ℕ) (hcnt : count + 2 ≤ u64Max) :
    Filled count (runAll vastPolicy (plainEnqueue "b" :: replicate count (plainEnqueue "a"))
      Store.empty) := by
  induction count with
  | zero =>
    constructor
    · decide +kernel
    · decide +kernel
    · decide +kernel
    · intro key hmem hque
      have hall : ∀ key ∈ (runAll vastPolicy [plainEnqueue "b"] Store.empty).index.keys,
          key = readyKey 0xFFFFFFFF 1 := by
        decide +kernel
      exact hall key (Std.ExtTreeMap.mem_keys.mpr hmem)
    · decide +kernel
  | succ count ih =>
    rw [replicate_succ', ← cons_append, runAll, foldl_append]
    exact (ih (by omega)).step hcnt

/-- A job of queue `b` at priority nine. -/
def urgentRequest : EnqueueRequest := { EnqueueRequest.new "b" [] with priority := 9 }

def urgentEnqueue : Op :=
  .enqueue 0 urgentRequest

theorem indexKey_urgent (id : JobId) :
    indexKey (urgentRequest.job vastPolicy 0 id) .ready = readyKey 0xFFFFFFF6 id :=
  congrArg (fun rank => readyKey rank id) (show (0xFFFFFFFF - 9 : UInt32) = 0xFFFFFFF6 by decide)

def lastJob : Job := (EnqueueRequest.new "b" []).job vastPolicy 0 u64Max

/-- The last id was given out at priority nine, and given out again. -/
structure Overwritten (store : Store) : Prop where
  first : store.jobs[(1 : JobId)]? = some firstJob
  last : store.jobs[u64Max]? = some lastJob
  urgent : readyKey 0xFFFFFFF6 u64Max ∈ store.index
  keys : ∀ key : IndexKey, key ∈ store.index → key.queue = "b" →
    key = readyKey 0xFFFFFFF6 u64Max ∨ key = readyKey 0xFFFFFFFF 1 ∨
      key = readyKey 0xFFFFFFFF u64Max

theorem Filled.few {count : ℕ} (hfil : Filled count store) : entries store "b" .ready ≤ 1 := by
  have hone := @entries_le_of_subset
    { Store.empty with index := Store.empty.index.insert (readyKey 0xFFFFFFFF 1) () } store "b"
    .ready (by
      intro key hmem hque _
      rw [hfil.keys key hmem hque]
      exact Std.ExtTreeMap.mem_insert_self)
  exact hone.trans (by decide)

theorem Filled.overwritten {count : ℕ} (hfil : Filled count store) (hcnt : count + 2 = u64Max) :
    Overwritten (((plainEnqueue "b").program vastPolicy).final kv
      ((urgentEnqueue.program vastPolicy).final kv store)) := by
  have hnext : store.nextId.getD 1 = u64Max := hfil.nextId.trans hcnt
  have hurg : (urgentEnqueue.program vastPolicy).final kv store = _ :=
    enqueue_final_of_room (by decide) (by decide) rfl (Nat.lt_of_le_of_lt hfil.few (by decide))
  have hroom : entries ((urgentEnqueue.program vastPolicy).final kv store) "b" .ready < u64Max := by
    apply Nat.lt_of_le_of_lt ((entries_le_succ (readyKey 0xFFFFFFF6 u64Max) _ "b" .ready).trans
      (Nat.succ_le_succ hfil.few)) (by decide)
    intro other hmem
    rw [hurg, hnext, indexKey_urgent] at hmem
    simp at hmem
    rcases hmem with rfl | hbef
    · exact .inr rfl
    · exact .inl hbef
  have hagain : ((plainEnqueue "b").program vastPolicy).final kv
      ((urgentEnqueue.program vastPolicy).final kv store) = _ :=
    enqueue_final_of_room (by decide) (by decide) rfl hroom
  have hstill : ((urgentEnqueue.program vastPolicy).final kv store).nextId.getD 1 = u64Max := by
    rw [hurg, hnext]
    rfl
  rw [hagain, hstill, hurg, hnext, indexKey_new, indexKey_urgent]
  constructor
  · simp [EnqueueRequest.job, hfil.first, u64Max]
  · simp [EnqueueRequest.job, lastJob]
  · simp
  intro key hmem hque
  simp at hmem
  rcases hmem with rfl | rfl | hbef
  · exact .inr (.inr rfl)
  · exact .inl rfl
  · exact .inr (.inl (hfil.keys key hbef hque))

theorem head_of_first {Entry : Type} {order : Entry → Entry → Ordering} [Std.TransCmp order]
    {entries : List Entry} {entry : Entry}
    (hsrt : entries.Pairwise (fun left right => order left right = .lt)) (hmem : entry ∈ entries)
    (hfst : ∀ other ∈ entries, other = entry ∨ order entry other = .lt) :
    ∃ rest, entries = entry :: rest := by
  obtain ⟨front, back, rfl⟩ := append_of_mem hmem
  cases front with
  | nil => exact ⟨back, rfl⟩
  | cons other front =>
    have hbef : order other entry = .lt :=
      (pairwise_append.mp hsrt).2.2 other mem_cons_self entry mem_cons_self
    rcases hfst other mem_cons_self with rfl | haft
    · rw [@Std.ReflCmp.compare_self _ order] at hbef
      cases hbef
    · exact absurd hbef (Std.OrientedCmp.not_lt_of_lt haft)

theorem takeAccepts_vast : TakeAccepts vastPolicy "b" "worker-1" none :=
  ⟨by decide +kernel, by decide +kernel, by decide⟩

theorem Overwritten.take (hover : Overwritten store) :
    (take vastPolicy 0 "b" "worker-1" none).result kv store =
      .ok (.job (lastJob.leasedTo "worker-1" 0 vastPolicy.leaseMs)) := by
  have hnone : kv.answer (Query.indexPrefix "b" .leased) store = [] := by
    rw [eq_nil_iff_forall_not_mem]
    intro key hkey
    obtain ⟨hmem, hque, hslot⟩ := (mem_answer_indexPrefix key "b" .leased store).mp hkey
    rcases hover.keys key hmem hque with rfl | rfl | rfl
    · cases hslot
    · cases hslot
    · cases hslot
  have hrecv : recovered vastPolicy "b" 0 store = store := by
    rw [recovered, recoverLeases, query_bind, final_ask, hnone]
    rfl
  have hlst : ∀ key ∈ kv.answer (Query.indexPrefix "b" .ready) store,
      key = readyKey 0xFFFFFFF6 u64Max ∨ IndexKey.order (readyKey 0xFFFFFFF6 u64Max) key = .lt := by
    intro key hkey
    obtain ⟨hmem, hque, _⟩ := (mem_answer_indexPrefix key "b" .ready store).mp hkey
    rcases hover.keys key hmem hque with rfl | rfl | rfl
    · exact .inl rfl
    · exact .inr (by decide +kernel)
    · exact .inr (by decide +kernel)
  obtain ⟨rest, hrest⟩ := head_of_first (@indexPrefix_sorted store "b" .ready)
    ((mem_answer_indexPrefix _ _ _ _).mpr ⟨hover.urgent, rfl, rfl⟩) hlst
  rw [take_result takeAccepts_vast, hrecv, entries, hnone, if_neg (by decide), hrest,
    takeFrom_cons_take hover.last (by decide +kernel)]
  rfl

theorem Overwritten.out_of_order (hover : Overwritten store) :
    ¬ TakesForemost vastPolicy store 0 "b" "worker-1" none := by
  intro htakes
  have hrecs := htakes.records 1
  obtain ⟨_, best, hbest, hsame⟩ := (htakes.job takeAccepts_vast _).mp hover.take
  rw [hover.first, map_some, recoverIf_of_not_lapsed (by decide +kernel)] at hrecs
  have hid : best.id = u64Max := (congrArg Job.id hsame).symm
  have hprior : best.priority = 0 := (congrArg Job.priority hsame).symm
  have hfst := hbest.precedes firstJob hrecs (by decide +kernel) (by
    rw [hid]
    decide)
  rcases hfst with hgreat | ⟨_, hless⟩
  · rw [hprior] at hgreat
    exact absurd hgreat (by decide)
  · rw [hid] at hless
    exact absurd hless (by decide)

/-- The last id, given out a second time: the job that took it is handed out ahead of a job of
its priority with a smaller id. -/
theorem repeated_id_out_of_order :
    ¬ TakesForemost vastPolicy (runAll vastPolicy
      (plainEnqueue "b" :: replicate (u64Max - 2) (plainEnqueue "a") ++
        [urgentEnqueue, plainEnqueue "b"]) Store.empty) 0 "b" "worker-1" none := by
  have hover := (filled_replicate (u64Max - 2) (by decide)).overwritten (by decide)
  have hstore : runAll vastPolicy
      (plainEnqueue "b" :: replicate (u64Max - 2) (plainEnqueue "a") ++
        [urgentEnqueue, plainEnqueue "b"]) Store.empty = _ := foldl_append
  rw [hstore, foldl_cons, foldl_cons, foldl_nil]
  exact hover.out_of_order

end Exhausted

end WasmAgent.Queue
