import WasmAgent.Queue.Operations

/-!
# Everything an operation can do to the store

The writes of an operation come in blocks, each of them about one job: a job is
leased, touched, settled, handed back, ended or reaped, a stale index key is
dropped, or a write goes to a table that no other block reads.  `enqueue` and
`requeue_with` have a block of their own, and `repair` is the one operation that
does not go block by block.
-/

namespace WasmAgent.Queue

open List Option WasmAgent.Core WasmAgent.Core.Program

def Asked (store : Store) (key : IndexKey) : Prop :=
  ∃ job, store.jobs[key.id]? = some job ∧ job.ownKey = some key

namespace Write

def about : Write → Option JobId
  | putJob job => some job.id
  | delJob id => some id
  | putIndex key => some key.id
  | delIndex key => some key.id
  | _ => none

def IsAside : Write → Prop
  | putChunk _ _ => True
  | delChunk _ => True
  | putAlert _ => True
  | putCounter .alertSeq _ => True
  | putAlertLast _ => True
  | _ => False

end Write

def claimWrites (job : Job) : List Write :=
  ((claimKey job.queue job.dedupeKey).map (Write.putClaim · job.id)).toList

def releaseWrites (store : Store) (job : Job) : List Write :=
  match claimKey job.queue job.dedupeKey with
  | none => []
  | some claim => if store.claims[claim]? = some job.id then [Write.delClaim claim] else []

theorem about_claimWrites {job : Job} (change : Write) (hchg : change ∈ claimWrites job) :
    change.about = none := by
  obtain ⟨claim, -, rfl⟩ := map_eq_some_iff.mp (mem_toList.mp hchg)
  rfl

variable {job : Job} {change : Write} {store : Store}

theorem mem_releaseWrites (hchg : change ∈ releaseWrites store job) :
    ∃ claim, change = .delClaim claim ∧ store.claims[claim]? = some job.id := by
  unfold releaseWrites at hchg
  split at hchg
  · cases hchg
  rename_i claim _
  split at hchg
  · rename_i hhldr
    exact ⟨claim, mem_singleton.mp hchg, hhldr⟩
  · cases hchg

theorem about_releaseWrites (change : Write)
    (hchg : change ∈ releaseWrites store job) : change.about = none := by
  obtain ⟨claim, rfl, -⟩ := mem_releaseWrites hchg
  rfl

theorem about_reap (change : Write)
    (hchg : change ∈ releaseWrites store job ++ [.delIndex (indexKey job .ready),
      .delIndex (indexKey job .leased), .delJob job.id]) :
    change.about = none ∨ change.about = some job.id := by
  rcases mem_append.mp hchg with hrel | hdel
  · exact .inl (about_releaseWrites change hrel)
  · right
    simp only [mem_cons, not_mem_nil, or_false] at hdel
    rcases hdel with rfl | rfl | rfl <;> rfl

theorem about_create {value : ℕ} (change : Write)
    (hchg : change ∈ .putCounter .id value ::
      (claimWrites job ++ [.putJob job, .putIndex (indexKey job .ready)])) :
    change.about = none ∨ change.about = some job.id := by
  rcases mem_cons.mp hchg with rfl | hrest
  · exact .inl rfl
  rcases mem_append.mp hrest with hclaim | hput
  · exact .inl (about_claimWrites change hclaim)
  · right
    simp only [mem_cons, not_mem_nil, or_false] at hput
    rcases hput with rfl | rfl <;> rfl

def entries (store : Store) (queue : String) (slot : Slot) : ℕ :=
  (kv.answer (Query.indexPrefix queue slot) store).length

structure LeadsTo (store : Store) (key : IndexKey) (job : Job) (letter : Slot) : Prop where
  id : key.id = job.id
  queue : key.queue = job.queue
  slot : key.slot = letter
  present : key ∈ store.index ∨ key = indexKey job letter

inductive Move (policy : Policy) (store : Store) : List Write → Prop where
  | aside (write : Write) (haside : write.IsAside) : Move policy store [write]
  | drop (key : IndexKey) (hstale : ¬ Asked store key) :
      Move policy store [.delIndex key]
  | append (job : Job) (chunk : Bytes) (now : Millis)
      (hjob : store.jobs[job.id]? = some job) :
      Move policy store
        [.putChunk ⟨job.id, job.progressEntries.toNat⟩ chunk,
          .putJob (job.withChunk chunk now)]
  | extend (job : Job) (instant now : Millis) (hjob : store.jobs[job.id]? = some job)
      (hleased : job.state = .leased) :
      Move policy store [.putJob (job.heldUntil instant now)]
  | lease (job : Job) (key : IndexKey) (worker : String) (now leaseMs : Millis)
      (hjob : store.jobs[job.id]? = some job) (hready : job.state = .ready)
      (hkey : LeadsTo store key job .ready)
      (hfresh : ¬ job.freshUntil.any (· ≤ now))
      (hattempts : ¬ job.maxAttempts ≤ job.attempts)
      (hlosses : ¬ policy.maxLeaseLosses < job.leaseExpiries)
      (hdue : ¬ now < job.notBefore)
      (hroom : entries store job.queue .leased < policy.limitFor job.queue) :
      Move policy store
        [.putJob (job.leasedTo worker now leaseMs), .delIndex key,
          .putIndex (indexKey job .leased)]
  | settle (job : Job) (result : Bytes) (now : Millis)
      (hjob : store.jobs[job.id]? = some job) (hleased : job.state = .leased) :
      Move policy store [.putJob (job.settledWith result now), .delIndex (indexKey job .leased)]
  | back (job job' : Job) (key : IndexKey) (hjob : store.jobs[job.id]? = some job)
      (hleased : job.state = .leased) (hkey : LeadsTo store key job .leased)
      (hreturned : Returned policy job job') :
      Move policy store [.delIndex key, .putJob job', .putIndex (indexKey job .ready)]
  | endReady (job job' : Job) (hjob : store.jobs[job.id]? = some job)
      (hready : job.state = .ready) (hended : EndedReady policy job job') :
      Move policy store
        [.delIndex (indexKey job .ready), .delIndex (indexKey job .leased), .putJob job']
  | endLease (job job' : Job) (key : IndexKey) (hjob : store.jobs[job.id]? = some job)
      (hleased : job.state = .leased) (hkey : LeadsTo store key job .leased)
      (hended : EndedLease policy job job') :
      Move policy store
        [.delIndex key, .delIndex (indexKey job .ready), .delIndex (indexKey job .leased),
          .putJob job']
  | reap (job : Job) (hjob : store.jobs[job.id]? = some job)
      (hterminal : job.state.isTerminal) :
      Move policy store
        (releaseWrites store job ++
          [.delIndex (indexKey job .ready), .delIndex (indexKey job .leased),
            .delJob job.id])

/-- The block of `enqueue`. -/
inductive Creation (policy : Policy) (store : Store) : List Write → Prop where
  | create (now : Millis) (request : EnqueueRequest)
      (hvalid : validateEnqueue policy request = .ok ())
      (hfresh : ¬ (request.freshUntil policy now).any (· ≤ request.notBefore.getD now))
      (hclaim : ∀ claim holder, claimKey request.queue request.dedupeKey = some claim →
        store.claims[claim]? = some holder → store.jobs[holder]? = none)
      (hroom : entries store request.queue .ready < policy.maxReady)
      (job : Job) (hjob : job = request.job policy now (store.nextId.getD 1)) :
      Creation policy store
        (.putCounter .id (saturatingAddU64 (store.nextId.getD 1) 1) ::
          (claimWrites job ++ [.putJob job, .putIndex (indexKey job .ready)]))

/-- The block of `requeue_with`. -/
inductive Revival (policy : Policy) (store : Store) : List Write → Prop where
  | revive (job : Job) (now : Millis) (options : RequeueOptions)
      (hjob : store.jobs[job.id]? = some job) (hdead : job.state = .dead) :
      Revival policy store
        [.putJob (job.revived policy now options), .delIndex (indexKey job .leased),
          .putIndex (indexKey job .ready)]

/-! ## What a block leaves alone -/

variable (changes : List Write)

theorem same_of_about_none (habout : ∀ change ∈ changes, change.about = none) (store : Store) :
    (kv.applyAll changes store).jobs = store.jobs ∧
      (kv.applyAll changes store).index = store.index := by
  induction changes generalizing store with
  | nil => exact ⟨rfl, rfl⟩
  | cons change changes ih =>
    have hrest : ∀ other ∈ changes, other.about = none := by
      intro other hoth
      exact habout other (mem_cons_of_mem change hoth)
    have hfst : (kv.apply change store).jobs = store.jobs ∧
        (kv.apply change store).index = store.index := by
      have hnone := habout change mem_cons_self
      cases change with
      | putCounter counter value =>
        cases counter <;> exact ⟨rfl, rfl⟩
      | putJob | delJob | putIndex | delIndex => cases hnone
      | _ => exact ⟨rfl, rfl⟩
    rw [Machine.applyAll_cons, (ih hrest _).1, (ih hrest _).2]
    exact hfst

structure SameCore (before after : Store) : Prop where
  jobs : after.jobs = before.jobs
  index : after.index = before.index
  claims : after.claims = before.claims
  nextId : after.nextId = before.nextId

namespace SameCore

theorem refl (store : Store) : SameCore store store := ⟨rfl, rfl, rfl, rfl⟩

theorem trans {first second third : Store} (hfst : SameCore first second)
    (hsnd : SameCore second third) : SameCore first third :=
  ⟨hsnd.jobs.trans hfst.jobs, hsnd.index.trans hfst.index,
    hsnd.claims.trans hfst.claims, hsnd.nextId.trans hfst.nextId⟩

theorem aside {write : Write} (haside : write.IsAside) (store : Store) :
    SameCore store (kv.apply write store) := by
  cases write with
  | putCounter counter value =>
    cases counter with
    | id => exact haside.elim
    | alertSeq => exact ⟨rfl, rfl, rfl, rfl⟩
  | putChunk | delChunk | putAlert | putAlertLast => exact ⟨rfl, rfl, rfl, rfl⟩
  | putJob | delJob | putIndex | delIndex | putClaim | delClaim => exact haside.elim

end SameCore

structure SameElsewhere (id : JobId) (before after : Store) : Prop where
  jobs : ∀ other : JobId, other ≠ id → after.jobs[other]? = before.jobs[other]?
  index : ∀ key : IndexKey, key.id ≠ id → (key ∈ after.index ↔ key ∈ before.index)

namespace SameElsewhere

theorem refl (id : JobId) (store : Store) : SameElsewhere id store store :=
  ⟨fun _ _ => rfl, fun _ _ => Iff.rfl⟩

variable {id : JobId}

theorem trans {first second third : Store}
    (hfst : SameElsewhere id first second) (hsnd : SameElsewhere id second third) :
    SameElsewhere id first third where
  jobs := by
    intro other hoth
    rw [hsnd.jobs other hoth, hfst.jobs other hoth]
  index := by
    intro key hkey
    rw [hsnd.index key hkey, hfst.index key hkey]

theorem of_core {before after : Store} (hcore : SameCore before after) :
    SameElsewhere id before after where
  jobs := by
    intro other hoth
    rw [hcore.jobs]
  index := by
    intro key hkey
    rw [hcore.index]

theorem write {change : Write}
    (habout : change.about = none ∨ change.about = some id) (store : Store) :
    SameElsewhere id store (kv.apply change store) where
  jobs := by
    intro other hoth
    rw [jobs_apply]
    cases change with
    | putJob job =>
      have hid : job.id ≠ other := by
        rintro rfl
        simp_all [Write.about]
      simp [hid]
    | delJob dropped =>
      have hid : dropped ≠ other := by
        rintro rfl
        simp_all [Write.about]
      simp [hid]
    | _ => rfl
  index := by
    intro key hkey
    rw [mem_index_apply]
    cases change with
    | putIndex added =>
      have hne : added ≠ key := by
        rintro rfl
        simp_all [Write.about]
      simp [hne]
    | delIndex removed =>
      have hne : removed ≠ key := by
        rintro rfl
        simp_all [Write.about]
      simp [hne]
    | _ => rfl

theorem writes (changes : List Write)
    (habout : ∀ change ∈ changes, change.about = none ∨ change.about = some id)
    (store : Store) : SameElsewhere id store (kv.applyAll changes store) := by
  induction changes generalizing store with
  | nil => exact refl id store
  | cons change changes ih =>
    have hfst := write (habout change mem_cons_self) store
    apply hfst.trans
    apply ih
    intro other hoth
    exact habout other (mem_cons_of_mem change hoth)

end SameElsewhere

/-! ## What a block writes -/

theorem jobs_applyAll_cases (store : Store) (id : JobId) (job : Job)
    (hjob : (kv.applyAll changes store).jobs[id]? = some job) :
    store.jobs[id]? = some job ∨ Write.putJob job ∈ changes ∧ job.id = id := by
  induction changes generalizing store with
  | nil => exact .inl hjob
  | cons change changes ih =>
    rcases ih _ hjob with hfst | ⟨hput, hid⟩
    · rw [jobs_apply] at hfst
      cases change with
      | putJob written =>
        dsimp only at hfst
        split at hfst
        · rename_i hid
          cases hfst
          exact .inr ⟨mem_cons_self, hid⟩
        · exact .inl hfst
      | delJob dropped =>
        dsimp only at hfst
        split at hfst
        · cases hfst
        · exact .inl hfst
      | _ => exact .inl hfst
    · exact .inr ⟨mem_cons_of_mem change hput, hid⟩

theorem index_applyAll_cases (store : Store) (key : IndexKey)
    (hkey : key ∈ (kv.applyAll changes store).index) :
    key ∈ store.index ∨ Write.putIndex key ∈ changes := by
  induction changes generalizing store with
  | nil => exact .inl hkey
  | cons change changes ih =>
    rcases ih _ hkey with hfst | hput
    · rw [mem_index_apply] at hfst
      cases change with
      | putIndex added =>
        rcases hfst with rfl | hbef
        · exact .inr mem_cons_self
        · exact .inl hbef
      | delIndex removed => exact .inl hfst.2
      | _ => exact .inl hfst
    · exact .inr (mem_cons_of_mem change hput)

theorem not_mem_releaseWrites (habout : change.about ≠ none) : change ∉ releaseWrites store job :=
  fun hmem => habout (about_releaseWrites change hmem)

theorem not_mem_claimWrites (habout : change.about ≠ none) : change ∉ claimWrites job :=
  fun hmem => habout (about_claimWrites change hmem)

variable {policy : Policy} {store : Store} {writes : List Write} {job' : Job}

theorem Move.putJob (hmove : Move policy store writes) (hput : Write.putJob job' ∈ writes) :
    ∃ job, store.jobs[job'.id]? = some job ∧ Evolves policy job job' := by
  cases hmove with
  | aside write haside =>
    rw [← mem_singleton.mp hput] at haside
    exact haside.elim
  | drop key hstale =>
    simp at hput
  | append job chunk now hjob =>
    simp at hput
    subst hput
    exact ⟨job, hjob, .append chunk now⟩
  | extend job instant now hjob hleas =>
    simp at hput
    subst hput
    exact ⟨job, hjob, .extend instant now hleas⟩
  | lease job key worker now leaseMs hjob hready hkey hfresh hatt hlos hdue hroom =>
    simp at hput
    subst hput
    exact ⟨job, hjob, .lease worker now leaseMs hready hfresh hatt hlos hdue⟩
  | settle job result now hjob hleas =>
    simp at hput
    subst hput
    exact ⟨job, hjob, .settle result now hleas⟩
  | back job job' key hjob hleas hkey hret =>
    simp at hput
    subst hput
    rw [hret.same.id]
    exact ⟨job, hjob, .back _ hleas hret⟩
  | endReady job job' hjob hready hended =>
    simp at hput
    subst hput
    rw [hended.same.id]
    exact ⟨job, hjob, .endReady _ hready hended⟩
  | endLease job job' key hjob hleas hkey hended =>
    simp at hput
    subst hput
    rw [hended.same.id]
    exact ⟨job, hjob, .endLease _ hleas hended⟩
  | reap job hjob hter =>
    simp at hput
    exact absurd hput (not_mem_releaseWrites (by simp [Write.about]))

theorem Creation.putJob (hcrn : Creation policy store writes) (hput : Write.putJob job' ∈ writes) :
    ∃ now request, validateEnqueue policy request = .ok () ∧
      job' = EnqueueRequest.job policy now request (store.nextId.getD 1) := by
  obtain ⟨now, request, hvalid, _, _, _, job, rfl⟩ := hcrn
  refine ⟨now, request, hvalid, ?_⟩
  rcases mem_append.mp ((mem_cons.mp hput).resolve_left (by simp)) with hclaim | hlast
  · exact absurd hclaim (not_mem_claimWrites (by simp [Write.about]))
  · simpa using hlast

theorem Revival.putJob (hrev : Revival policy store writes) (hput : Write.putJob job' ∈ writes) :
    ∃ job now options, store.jobs[job'.id]? = some job ∧ job.state = .dead ∧
      job' = job.revived policy now options := by
  obtain ⟨job, now, options, hjob, hdead⟩ := hrev
  obtain rfl : job' = job.revived policy now options := by simpa using hput
  exact ⟨job, now, options, hjob, hdead, rfl⟩

/-- Records after any part of a block: as before, or one step further. -/
theorem Move.evolves (hmove : Move policy store writes) (count : ℕ) (id : JobId) (job' : Job)
    (haft : (kv.applyAll (writes.take count) store).jobs[id]? = some job') :
    store.jobs[id]? = some job' ∨ ∃ job, store.jobs[id]? = some job ∧ Evolves policy job job' := by
  rcases jobs_applyAll_cases _ store id job' haft with hbef | ⟨hput, hid⟩
  · exact .inl hbef
  · right
    rw [← hid]
    exact hmove.putJob (mem_of_mem_take hput)

theorem Move.putIndex_leased (hmove : Move policy store writes) {key : IndexKey}
    (hput : Write.putIndex key ∈ writes) (hslot : key.slot = .leased) :
    entries store key.queue .leased < policy.limitFor key.queue ∧
      ∀ other, Write.putIndex other ∈ writes → other = key := by
  cases hmove with
  | aside write haside =>
    rw [← mem_singleton.mp hput] at haside
    exact haside.elim
  | lease job leasedKey worker now leaseMs hjob hready hkey hfresh hatt hlos hdue hroom =>
    simp at hput
    subst hput
    refine ⟨hroom, ?_⟩
    intro other hoth
    simpa using hoth
  | back job job' leasedKey hjob hleas hkey hret =>
    simp at hput
    subst hput
    cases hslot
  | reap job hjob hter =>
    simp at hput
    exact absurd hput (not_mem_releaseWrites (by simp [Write.about]))
  | _ =>
    simp at hput

end WasmAgent.Queue
