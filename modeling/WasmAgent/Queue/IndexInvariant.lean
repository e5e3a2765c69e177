import WasmAgent.Queue.Runs

/-!
# The index invariant over whole runs

In every run of whole operations that gives each new job an unused id, the index
lists exactly the live records, leases are recorded exactly on leased jobs, and
no `take` goes over the queue's limit.
-/

namespace WasmAgent.Queue

open List WasmAgent.Core WasmAgent.Core.Program

variable {policy : Policy} {store : Store} {writes : List Write}

structure IndexInvariant (store : Store) : Prop where
  keys : ∀ key, key ∈ store.index ↔ ∃ job ∈ store.allJobs, job.ownKey = some key
  unique : ∀ job ∈ store.allJobs, ∀ key, key ∈ store.index → key.id = job.id → job.ownKey = some key
  fields : ∀ job ∈ store.allJobs, job.LeaseFields

def leasedCount (store : Store) (queue : String) : ℕ :=
  (store.allJobs.filter (fun job => job.queue = queue ∧ job.state = .leased)).length

/-- An `enqueue` finds no record under the id that the counter shows. -/
def UnusedId (store : Store) : Op → Prop
  | .enqueue _ _ => store.jobs[store.nextId.getD 1]? = none
  | _ => True

/-! ## Counting -/

theorem leasedCount_le_entries (hkeys : HasKeys store) (queue : String) :
    leasedCount store queue ≤ entries store queue .leased := by
  unfold leasedCount entries
  rw [← List.length_map (indexKey · .leased)]
  apply (List.subperm_of_subset _ _).length_le
  · apply List.Nodup.of_map IndexKey.id
    rw [List.map_map]
    exact ((@Known.start store).distinct.sublist
      ((List.filter_sublist (l := store.allJobs)).map Job.id))
  intro key hkey
  obtain ⟨job, hjob, rfl⟩ := List.mem_map.mp hkey
  obtain ⟨hmem, hmat⟩ := List.mem_filter.mp hjob
  obtain ⟨hque, hls⟩ := of_decide_eq_true hmat
  apply (mem_answer_indexPrefix _ queue .leased store).mpr
  refine ⟨hkeys _ ⟨job, (mem_allJobs job store).mp hmem, ownKey_of_leased hls⟩, hque, rfl⟩

theorem entries_le_leasedCount (horph : NoOrphans store) (queue : String) :
    entries store queue .leased ≤ leasedCount store queue := by
  unfold leasedCount entries
  have hlead : ∀ key ∈ kv.answer (Query.indexPrefix queue .leased) store,
      ∃ job, store.jobs[key.id]? = some job ∧ job.ownKey = some key ∧ job.queue = queue ∧
        job.state = .leased := by
    intro key hkey
    obtain ⟨hmem, hque, hslot⟩ := (mem_answer_indexPrefix key queue .leased store).mp hkey
    obtain ⟨job, hjob, hown⟩ := horph key hmem
    obtain ⟨letter, hst, rfl⟩ := Option.map_eq_some_iff.mp hown
    obtain rfl : letter = .leased := hslot
    exact ⟨job, hjob, hown, hque, slot_eq_leased job.state hst⟩
  rw [← List.length_map IndexKey.id, ← List.length_map Job.id]
  apply (List.subperm_of_subset _ _).length_le
  · apply List.Nodup.map_on
    · intro left hlt right hrt hid
      obtain ⟨job, hjob, hown, -⟩ := hlead left hlt
      obtain ⟨other, hoth, hotherOwn, -⟩ := hlead right hrt
      rw [hid, hoth] at hjob
      cases hjob
      exact Option.some.inj (hown.symm.trans hotherOwn)
    · exact Std.ExtTreeMap.nodup_keys.filter _
  intro id hid
  obtain ⟨key, hkey, rfl⟩ := List.mem_map.mp hid
  obtain ⟨job, hjob, -, hque, hls⟩ := hlead key hkey
  have hkeyId := store.jobs_id key.id job hjob
  apply List.mem_map.mpr
  refine ⟨job, List.mem_filter.mpr ⟨?_, ?_⟩, hkeyId⟩
  · apply (mem_allJobs job store).mpr
    rwa [hkeyId]
  · exact decide_eq_true ⟨hque, hls⟩

theorem Move.entries_le (hmove : Move policy store writes) (queue : String) :
    entries (kv.applyAll writes store) queue .leased ≤
      max (policy.limitFor queue) (entries store queue .leased) := by
  by_cases hput : ∃ key, Write.putIndex key ∈ writes ∧ key.queue = queue ∧ key.slot = .leased
  · obtain ⟨key, hkey, rfl, hslot⟩ := hput
    obtain ⟨hroom, honly⟩ := hmove.putIndex_leased hkey hslot
    have hone : entries (kv.applyAll writes store) key.queue .leased ≤
        entries store key.queue .leased + 1 := by
      apply entries_le_succ key
      intro other hoth
      rcases index_applyAll_cases writes store other hoth with hbef | hwrn
      · exact .inl hbef
      · exact .inr (honly other hwrn)
    exact (Nat.le_trans hone hroom).trans (Nat.le_max_left _ _)
  apply Nat.le_trans _ (Nat.le_max_right _ _)
  apply entries_le_of_subset
  intro key hmem hque hslot
  rcases index_applyAll_cases writes store key hmem with hbef | hwrn
  · exact hbef
  · exact absurd ⟨key, hwrn, hque, hslot⟩ hput

/-! ## Runs -/

def FieldsRight (store : Store) : Prop :=
  ∀ (id : JobId) (job : Job), store.jobs[id]? = some job → job.LeaseFields

theorem Op.fieldsRight (op : Op) (hfiel : FieldsRight store) :
    FieldsRight ((op.program policy).final kv store) := by
  apply op.final_invariant _ _ hfiel
  · intro current block hcur halwd id job' hjob'
    rcases jobs_applyAll_cases block current id job' hjob' with hbef | ⟨hput, -⟩
    · exact hcur id job' hbef
    have hmove : Move policy current block → job'.LeaseFields := by
      intro hmove
      obtain ⟨job, hjob, hevo⟩ := hmove.putJob hput
      exact hevo.leaseFields (hcur _ job hjob)
    cases op with
    | enqueue now request =>
      obtain ⟨now', request', -, rfl⟩ := halwd.2.putJob hput
      simp [Job.LeaseFields, EnqueueRequest.job]
    | requeue now id options =>
      obtain ⟨job, now', options', _, _, rfl⟩ := halwd.2.putJob hput
      simp [Job.LeaseFields, Job.revived]
    | _ => exact hmove halwd
  · intro hstr id job hjob
    rw [repair_goes.outcome.1.jobs] at hjob
    exact hstr id job hjob

/-- The index is exact. -/
def Clean (store : Store) : Prop := HasKeys store ∧ NoOrphans store

theorem Op.clean (op : Op) (hunus : UnusedId store op) (hcln : Clean store) :
    Clean ((op.program policy).final kv store) := by
  apply op.final_invariant _ _ hcln
  · intro current block hcur halwd
    obtain ⟨hkeys, horph⟩ := hcur
    cases op with
    | enqueue now request =>
      obtain ⟨rfl, hcrn⟩ := halwd
      obtain ⟨id, record, hsets⟩ := hcrn.settles
      exact ⟨hsets.hasKeys hkeys, hsets.noOrphans ⟨horph, hunus⟩ horph⟩
    | requeue now id options =>
      obtain ⟨id, record, hsets⟩ := halwd.2.settles
      exact ⟨hsets.hasKeys hkeys, hsets.noOrphans horph horph⟩
    | _ =>
      obtain ⟨id, record, hsets⟩ := Move.settles halwd hkeys
      exact ⟨hsets.hasKeys hkeys, hsets.noOrphans horph horph⟩
  · intro _
    exact ⟨repair_goes.outcome.1.keys, repair_goes.outcome.1.orphans⟩

/-- After a repair of whatever store, no whole operations leave a live record without its key. -/
theorem repaired_stays_found (policy : Policy) (store : Store) (ops : List Op) :
    HasKeys (runAll policy ops (repair.final kv store)) := by
  apply foldlRecOn (motive := HasKeys)
  · exact repair_goes.outcome.1.keys
  intro before hbef op _
  apply op.final_invariant _ (fun _ => repair_goes.outcome.1.keys) hbef
  intro current block hkeys halwd
  cases op with
  | enqueue | requeue =>
    obtain ⟨_, record, hsets⟩ := halwd.2.settles
    exact hsets.hasKeys hkeys
  | _ =>
    obtain ⟨_, record, hsets⟩ := Move.settles halwd hkeys
    exact hsets.hasKeys hkeys

theorem Reached.exact (hrch : Reached policy UnusedId store) : Clean store ∧ FieldsRight store := by
  induction hrch with
  | empty =>
    refine ⟨⟨?_, ?_⟩, ?_⟩
    · rintro key ⟨job, hjob, -⟩
      simp [Store.empty] at hjob
    · intro key hmem
      simp [Store.empty] at hmem
    · intro id job hjob
      simp [Store.empty] at hjob
  | step op _ hunus ih => exact ⟨op.clean hunus ih.1, op.fieldsRight ih.2⟩

theorem asked_iff_mem_allJobs (key : IndexKey) :
    Asked store key ↔ ∃ job ∈ store.allJobs, job.ownKey = some key := by
  constructor
  · rintro ⟨job, hjob, hown⟩
    rw [id_of_ownKey hown] at hjob
    exact ⟨job, (mem_allJobs job store).mpr hjob, hown⟩
  · rintro ⟨job, hjob, hown⟩
    rw [mem_allJobs, ← id_of_ownKey hown] at hjob
    exact ⟨job, hjob, hown⟩

theorem take_entries_le (now : Millis) (name worker : String) (leaseMs : Option Millis)
    (queue : String) :
    entries ((take policy now name worker leaseMs).final kv store) queue .leased ≤
      max (policy.limitFor queue) (entries store queue .leased) := by
  have hblc : ∀ current block,
      (fun current => entries current queue .leased ≤
        max (policy.limitFor queue) (entries store queue .leased)) current →
      Move policy current block →
      entries (kv.applyAll block current) queue .leased ≤
        max (policy.limitFor queue) (entries store queue .leased) := by
    intro current block hcur hmove
    apply (hmove.entries_le queue).trans
    exact Nat.max_le.mpr ⟨Nat.le_max_left _ _, hcur⟩
  exact (take_goes now name worker leaseMs).chain.invariant hblc (Nat.le_max_right _ _)

/-- In every run whose new jobs get unused ids, the index lists exactly the live
records, lease fields are set exactly on leased jobs, and a `take` leaves at most
as many leased jobs as the limit allows or as there were. -/
theorem indexInvariant_of_unusedIds (policy : Policy) (store : Store)
    (hreached : Reached policy UnusedId store) :
    IndexInvariant store ∧
      ∀ (now : Millis) (queue worker : String) (leaseMs : Option Millis),
        leasedCount ((take policy now queue worker leaseMs).final kv store) queue ≤
          max (policy.limitFor queue) (leasedCount store queue) := by
  obtain ⟨⟨hkeys, horphans⟩, hfields⟩ := hreached.exact
  constructor
  · constructor
    · intro key
      rw [← asked_iff_mem_allJobs]
      exact ⟨horphans key, hkeys key⟩
    · intro job hjob key hmem hid
      apply (horphans key hmem).unique
      rw [hid]
      exact (mem_allJobs job store).mp hjob
    · intro job hjob
      exact hfields job.id job ((mem_allJobs job store).mp hjob)
  intro now queue worker leaseMs
  have hafter : HasKeys ((take policy now queue worker leaseMs).final kv store) :=
    (take_goes now queue worker leaseMs).chain.invariant
      (fun current block hcurrent hmove => by
        obtain ⟨id, record, hsettles⟩ := Move.settles hmove hcurrent
        exact hsettles.hasKeys hcurrent) hkeys
  calc leasedCount ((take policy now queue worker leaseMs).final kv store) queue
      ≤ entries ((take policy now queue worker leaseMs).final kv store) queue .leased :=
        leasedCount_le_entries hafter queue
    _ ≤ max (policy.limitFor queue) (entries store queue .leased) :=
        take_entries_le now queue worker leaseMs queue
    _ ≤ max (policy.limitFor queue) (leasedCount store queue) :=
        Nat.max_le.mpr ⟨Nat.le_max_left _ _,
          (entries_le_leasedCount horphans queue).trans (Nat.le_max_right _ _)⟩

/-- A run of one `enqueue` and one `take` under the default policy. -/
theorem indexInvariant_after_take :
    IndexInvariant (runAll Policy.default
        [.enqueue 0 (EnqueueRequest.new "stt" []), .take 0 "stt" "worker-1" none] Store.empty) ∧
      ∀ (now : Millis) (queue worker : String) (leaseMs : Option Millis),
        leasedCount ((take Policy.default now queue worker leaseMs).final kv (runAll Policy.default
            [.enqueue 0 (EnqueueRequest.new "stt" []), .take 0 "stt" "worker-1" none]
            Store.empty)) queue ≤
          max (Policy.default.limitFor queue) (leasedCount (runAll Policy.default
            [.enqueue 0 (EnqueueRequest.new "stt" []), .take 0 "stt" "worker-1" none]
            Store.empty) queue) :=
  indexInvariant_of_unusedIds Policy.default _
    (.step _ (.step _ .empty (by simp [UnusedId, Store.empty])) trivial)

/-! ## The counter's end -/

theorem enqueue_final_of_room {now : Millis} {request : EnqueueRequest}
    (hvld : validateEnqueue policy request = .ok ())
    (hfre : ¬ (request.freshUntil policy now).any (· ≤ request.notBefore.getD now))
    (hkey : request.dedupeKey = none)
    (hroom : entries store request.queue .ready < policy.maxReady) :
    ((Op.enqueue now request).program policy).final kv store =
      kv.applyAll
        [.putCounter .id (saturatingAddU64 (store.nextId.getD 1) 1),
          .putJob (request.job policy now (store.nextId.getD 1)),
          .putIndex (indexKey (request.job policy now (store.nextId.getD 1)) .ready)] store := by
  have hlen : ¬ policy.maxReady ≤
      (kv.answer (Query.indexPrefix request.queue .ready) store).length :=
    Nat.not_le.mpr hroom
  have hput : ∀ id, putClaim (request.job policy now id) = pure () := by
    intro id
    unfold putClaim
    split
    · rfl
    · rename_i claim hclm
      simp [EnqueueRequest.job, claimKey, hkey] at hclm
  change (enqueue policy now request >>= fun _ => pure ()).final kv store = _
  unfold enqueue
  rw [hvld]
  rw [if_neg hfre, hkey]
  simp only [claimKey, Option.map_none, claimHolder, pure_eq, done_bind, countIndex, query_bind,
    ask_bind, final_ask, if_neg hlen, nextCounter, write_bind, put_bind, final_put, hput]
  rfl

/-- Room for every id there is. -/
def vastPolicy : Policy := { Policy.default with maxReady := u64Max }

/-- The store after `count` jobs were put in queue `a`. -/
structure Flooded (count : ℕ) (store : Store) : Prop where
  nextId : store.nextId.getD 1 = min (count + 1) u64Max
  queue : ∀ key, key ∈ store.index → key.queue = "a"
  room : entries store "a" .ready ≤ count
  last : count ≠ 0 → ⟨"a", .ready, 0xFFFFFFFF, count⟩ ∈ store.index

/-- An `enqueue` of an empty payload under the vast policy. -/
def plainEnqueue (queue : String) : Op :=
  .enqueue 0 (EnqueueRequest.new queue [])

theorem indexKey_new (queue : String) (payload : Bytes) (now : Millis) (id : JobId) :
    indexKey ((EnqueueRequest.new queue payload).job policy now id) .ready =
      ⟨queue, .ready, 0xFFFFFFFF, id⟩ := by
  simp [indexKey, EnqueueRequest.job, EnqueueRequest.new]

theorem Flooded.step {count : ℕ} (hflood : Flooded count store) (hcnt : count < u64Max) :
    Flooded (count + 1) (((plainEnqueue "a").program vastPolicy).final kv store) := by
  have hnext : store.nextId.getD 1 = count + 1 := by
    rw [hflood.nextId]
    omega
  unfold plainEnqueue
  rw [enqueue_final_of_room (by decide) (by decide) rfl
    (Nat.lt_of_le_of_lt hflood.room hcnt), hnext, indexKey_new]
  constructor
  · simp [saturatingAddU64]
  · intro key hmem
    simp at hmem
    rcases hmem with rfl | hbef
    · rfl
    · exact hflood.queue key hbef
  · apply (entries_le_succ ⟨"a", .ready, 0xFFFFFFFF, count + 1⟩ _ "a" .ready).trans
    · exact Nat.succ_le_succ hflood.room
    · intro other hmem
      simp at hmem
      rcases hmem with rfl | hbef
      · exact .inr rfl
      · exact .inl hbef
  · intro _
    simp

theorem flooded_replicate (count : ℕ) (hcnt : count ≤ u64Max) :
    Flooded count (runAll vastPolicy (replicate count (plainEnqueue "a")) Store.empty) := by
  induction count with
  | zero =>
    constructor
    · decide
    · intro key hmem
      simp [runAll, Store.empty] at hmem
    · decide
    · intro hzero
      exact absurd rfl hzero
  | succ count ih =>
    rw [replicate_succ', runAll, foldl_append]
    exact (ih (by omega)).step hcnt

/-- The last id there is, handed out twice: the second job's record replaces the
first one's, whose index key stays behind. -/
theorem reusedId_leaves_orphan :
    ¬ IndexInvariant (runAll vastPolicy
      (replicate u64Max (plainEnqueue "a") ++ [plainEnqueue "b"]) Store.empty) := by
  intro hinvariant
  rw [runAll, foldl_append] at hinvariant
  have hflooded := flooded_replicate u64Max le_rfl
  unfold runAll at hflooded
  generalize (replicate u64Max (plainEnqueue "a")).foldl _ Store.empty = store
    at hflooded hinvariant
  have hnext : store.nextId.getD 1 = u64Max := by
    rw [hflooded.nextId]
    omega
  have hroom : entries store "b" .ready < u64Max := by
    have hempty : entries store "b" .ready ≤ entries Store.empty "b" .ready := by
      apply entries_le_of_subset
      intro key hmem hqueue _
      rw [hflooded.queue key hmem] at hqueue
      exact absurd hqueue (by decide)
    exact Nat.lt_of_le_of_lt hempty (by decide)
  have hfinal : ((plainEnqueue "b").program vastPolicy).final kv store = _ :=
    enqueue_final_of_room (by decide) (by decide) rfl hroom
  rw [foldl_cons, foldl_nil, hfinal, hnext] at hinvariant
  have horphan := (hinvariant.keys ⟨"a", .ready, 0xFFFFFFFF, u64Max⟩).mp (by
    simp
    exact .inr (hflooded.last (by decide)))
  obtain ⟨job, hjob, hown⟩ := horphan
  rw [mem_allJobs, ← id_of_ownKey hown] at hjob
  simp [EnqueueRequest.job] at hjob
  subst hjob
  simp [Job.ownKey, JobState.slot, indexKey, EnqueueRequest.new] at hown

end WasmAgent.Queue
