import WasmAgent.Queue.Walks

/-!
# The index and the records

The ready/leased index lists exactly the live records.  Half of this, that no
live record is missing from it, needs nothing but the blocks themselves; the
other half also needs a new job's id to be unused.
-/

namespace WasmAgent.Queue

open Option WasmAgent.Core WasmAgent.Core.Program

variable {policy : Policy} {store : Store} {writes : List Write}

/-- Every live record is in the index under its own key. -/
def HasKeys (store : Store) : Prop := ∀ key, Asked store key → key ∈ store.index

def NoOrphans (store : Store) : Prop := ∀ key, key ∈ store.index → Asked store key

variable {job : Job} {key : IndexKey}

theorem Asked.unique (hask : Asked store key) (hjob : store.jobs[key.id]? = some job) :
    job.ownKey = some key := by
  obtain ⟨stored, hsto, hown⟩ := hask
  rw [hjob] at hsto
  cases hsto
  exact hown

theorem id_of_ownKey (hown : job.ownKey = some key) : key.id = job.id := by
  obtain ⟨slot, -, rfl⟩ := map_eq_some_iff.mp hown
  rfl

theorem asked_iff_of_same {id : JobId} {before after : Store}
    (hsame : SameElsewhere id before after) (hkey : key.id ≠ id) :
    Asked after key ↔ Asked before key := by
  unfold Asked
  rw [hsame.jobs key.id hkey]

theorem ownKey_of_ready (hrdy : job.state = .ready) : job.ownKey = some (indexKey job .ready) := by
  rw [Job.ownKey, hrdy]
  rfl

theorem ownKey_of_leased (hls : job.state = .leased) :
    job.ownKey = some (indexKey job .leased) := by
  rw [Job.ownKey, hls]
  rfl

theorem ownKey_of_terminal (hterm : job.state.isTerminal) : job.ownKey = none := by
  rw [Job.ownKey, (JobState.slot_eq_none_iff job.state).mpr hterm]
  rfl

theorem not_live_of_terminal (hterm : job.state.isTerminal) : ¬ job.Live := by
  rintro (hrdy | hls)
  · exact JobState.ne_ready_of_terminal hterm hrdy
  · exact JobState.ne_leased_of_terminal hterm hls

structure Settles (clean : Prop) (before after : Store) (id : JobId) (record : Option Job) :
    Prop where
  same : SameElsewhere id before after
  stored : after.jobs[id]? = record
  added : ∀ job key, record = some job → job.ownKey = some key → key ∈ after.index
  kept : clean → ∀ key, key.id = id → key ∈ after.index →
    ∃ job, record = some job ∧ job.ownKey = some key

namespace Settles

variable {clean : Prop} {before after : Store} {id : JobId} {record : Option Job}

theorem hasKeys (hsets : Settles clean before after id record) (hkeys : HasKeys before) :
    HasKeys after := by
  intro key hask
  by_cases hid : key.id = id
  · obtain ⟨job, hjob, hown⟩ := hask
    rw [hid, hsets.stored] at hjob
    exact hsets.added job key hjob hown
  · rw [hsets.same.index key hid]
    exact hkeys key ((asked_iff_of_same hsets.same hid).mp hask)

theorem noOrphans (hsets : Settles clean before after id record) (hcln : clean)
    (horph : NoOrphans before) : NoOrphans after := by
  intro key hmem
  by_cases hid : key.id = id
  · obtain ⟨job, hrec, hown⟩ := hsets.kept hcln key hid hmem
    refine ⟨job, ?_, hown⟩
    rw [hid, hsets.stored, hrec]
  · rw [hsets.same.index key hid] at hmem
    exact (asked_iff_of_same hsets.same hid).mpr (horph key hmem)

theorem of_same_key (hkeys : HasKeys before) (hsame : SameElsewhere id before after)
    (hask : ∀ key : IndexKey, key.id = id → (Asked after key ↔ Asked before key))
    (hsub : ∀ key, key ∈ after.index → key ∈ before.index)
    (hrem : ∀ key, Asked before key → key ∈ before.index → key ∈ after.index) :
    Settles (NoOrphans before) before after id after.jobs[id]? where
  same := hsame
  stored := rfl
  added := by
    intro job key hjob hown
    have hid : key.id = id := by
      rw [id_of_ownKey hown, after.jobs_id id job hjob]
    have hbef : Asked before key := by
      apply (hask key hid).mp
      exact ⟨job, hid ▸ hjob, hown⟩
    exact hrem key hbef (hkeys key hbef)
  kept := by
    intro horph key hid hmem
    obtain ⟨job, hjob, hown⟩ := (hask key hid).mpr (horph key (hsub key hmem))
    exact ⟨job, hid ▸ hjob, hown⟩

theorem of_touch {job' : Job} (hkeys : HasKeys before) (hsame : SameElsewhere job.id before after)
    (hjob : before.jobs[job.id]? = some job) (hsto : after.jobs[job.id]? = some job')
    (hiden : job.SameJob job') (hst : job'.state = job.state) (hidx : after.index = before.index) :
    Settles (NoOrphans before) before after job.id after.jobs[job.id]? := by
  apply of_same_key hkeys hsame
  · intro key hid
    have hown : job'.ownKey = job.ownKey := by
      unfold Job.ownKey
      rw [hst]
      cases job.state.slot with
      | none => rfl
      | some slot => exact congrArg some (hiden.indexKey_eq slot)
    unfold Asked
    rw [hid, hjob, hsto]
    simp [hown]
  · intro key hmem
    rwa [hidx] at hmem
  · intro key _ hmem
    rwa [hidx]

theorem of_put {job' : Job} (letter : Slot) (removed : IndexKey → Prop)
    (hsame : SameElsewhere job.id before after) (hjob : before.jobs[job.id]? = some job)
    (hsto : after.jobs[job.id]? = some job') (hiden : job.SameJob job')
    (hst : job'.state.slot = some letter)
    (hidx : ∀ key, key ∈ after.index ↔
      indexKey job letter = key ∨ ¬ removed key ∧ key ∈ before.index)
    (hrmd : NoOrphans before → ∀ key, job.ownKey = some key → removed key) :
    Settles (NoOrphans before) before after job.id (some job') := by
  have hown : job'.ownKey = some (indexKey job letter) := by
    rw [Job.ownKey, hst, ← hiden.indexKey_eq letter]
    rfl
  constructor
  · exact hsame
  · exact hsto
  · intro other key hoth hkey
    cases hoth
    rw [hown] at hkey
    exact (hidx key).mpr (Or.inl (Option.some.inj hkey))
  intro horph key hid hmem
  rcases (hidx key).mp hmem with hput | ⟨hlt, hbef⟩
  · exact ⟨job', rfl, hown.trans (congrArg some hput)⟩
  · rw [← hid] at hjob
    exact absurd (hrmd horph key ((horph key hbef).unique hjob)) hlt

theorem of_end (hsame : SameElsewhere job.id before after)
    (hjob : before.jobs[job.id]? = some job) (hsto : after.jobs[job.id]? = record)
    (hterm : ∀ job', record = some job' → job'.state.isTerminal)
    (hsub : ∀ key, key ∈ after.index → key ∈ before.index)
    (hrmd : ∀ key, key ∈ after.index → job.ownKey ≠ some key) :
    Settles (NoOrphans before) before after job.id record := by
  constructor
  · exact hsame
  · exact hsto
  · intro job' key hrec hown
    rw [ownKey_of_terminal (hterm job' hrec)] at hown
    cases hown
  · intro horph key hid hmem
    rw [← hid] at hjob
    exact absurd ((horph key (hsub key hmem)).unique hjob) (hrmd key hmem)

end Settles

theorem LeadsTo.eq_of_noOrphans {letter : Slot} (hkey : LeadsTo store key job letter)
    (hjob : store.jobs[job.id]? = some job) (horph : NoOrphans store)
    (hown : job.ownKey = some (indexKey job letter)) : key = indexKey job letter := by
  rcases hkey.present with hmem | hcom
  · have hask := horph key hmem
    rw [← hkey.id] at hjob
    have hsame := hask.unique hjob
    rw [hown] at hsame
    exact (Option.some.inj hsame).symm
  · exact hcom

theorem Move.settles (hmove : Move policy store writes) (hkeys : HasKeys store) :
    ∃ id record, Settles (NoOrphans store) store (kv.applyAll writes store) id record := by
  cases hmove with
  | aside write haside =>
    have hcore := SameCore.aside haside store
    refine ⟨0, _, Settles.of_same_key hkeys (SameElsewhere.of_core hcore) ?_ ?_ ?_⟩
    · intro key _
      rw [Asked, Asked, Machine.applyAll_cons, Machine.applyAll_nil, hcore.jobs]
    · intro key hmem
      rwa [Machine.applyAll_cons, Machine.applyAll_nil, hcore.index] at hmem
    · intro key _ hmem
      rwa [Machine.applyAll_cons, Machine.applyAll_nil, hcore.index]
  | drop key hstl =>
    refine ⟨key.id, _, Settles.of_same_key hkeys (SameElsewhere.write (Or.inr rfl) store)
      (fun _ _ => Iff.rfl) ?_ ?_⟩
    · intro other hmem
      exact ((mem_index_apply _ _ _).mp hmem).2
    intro other hask hmem
    apply (mem_index_apply _ _ _).mpr
    refine ⟨?_, hmem⟩
    rintro rfl
    exact hstl hask
  | append job chunk now hjob =>
    refine ⟨job.id, _, Settles.of_touch hkeys ?_ hjob ?_ (job.same_withChunk chunk now) rfl rfl⟩
    · apply SameElsewhere.writes
      simp [Write.about, (job.same_withChunk chunk now).id]
    · simp [(job.same_withChunk chunk now).id]
  | extend job instant now hjob hls =>
    refine ⟨job.id, _, Settles.of_touch hkeys ?_ hjob ?_ (job.same_heldUntil instant now) rfl rfl⟩
    · apply SameElsewhere.writes
      simp [Write.about, (job.same_heldUntil instant now).id]
    · simp [(job.same_heldUntil instant now).id]
  | lease job key worker now leaseMs hjob hrdy hkey =>
    have hsame := job.same_leasedTo worker now leaseMs
    refine ⟨job.id, _, Settles.of_put .leased (key = ·) ?_ hjob ?_ hsame rfl ?_ ?_⟩
    · apply SameElsewhere.writes
      simp [Write.about, hsame.id, hkey.id, indexKey]
    · simp [hsame.id]
    · intro other
      simp
    · intro horph other hown
      have hrdy' := ownKey_of_ready hrdy
      rw [hkey.eq_of_noOrphans hjob horph hrdy', ← Option.some.inj (hrdy'.symm.trans hown)]
  | settle job result now hjob hls =>
    have hsame := job.same_settledWith result now
    refine ⟨job.id, some (job.settledWith result now), Settles.of_end ?_ hjob ?_ ?_ ?_ ?_⟩
    · apply SameElsewhere.writes
      simp [Write.about, hsame.id, indexKey]
    · simp [hsame.id]
    · intro job' hjob'
      cases hjob'
      rfl
    · intro key hmem
      simp at hmem
      exact hmem.2
    intro key hmem
    simp at hmem
    rw [ownKey_of_leased hls]
    simpa using hmem.1
  | back job job' key hjob hls hkey hret =>
    refine ⟨job.id, _, Settles.of_put .ready (key = ·) ?_ hjob ?_ hret.same ?_ ?_ ?_⟩
    · apply SameElsewhere.writes
      simp [Write.about, hkey.id, indexKey, hret.same.id]
    · simp [hret.same.id]
    · rw [hret.state]
      rfl
    · intro other
      simp
    · intro horph other hown
      have hls' := ownKey_of_leased hls
      rw [hkey.eq_of_noOrphans hjob horph hls', ← Option.some.inj (hls'.symm.trans hown)]
  | endReady job job' hjob hrdy hended =>
    refine ⟨job.id, some job', Settles.of_end ?_ hjob ?_ ?_ ?_ ?_⟩
    · apply SameElsewhere.writes
      simp [Write.about, indexKey, hended.same.id]
    · simp [hended.same.id]
    · intro other hoth
      cases hoth
      exact hended.terminal
    · intro key hmem
      simp at hmem
      exact hmem.2.2
    intro key hmem
    simp at hmem
    rw [ownKey_of_ready hrdy]
    simpa using hmem.2.1
  | endLease job job' key hjob hls hkey hended =>
    refine ⟨job.id, some job', Settles.of_end ?_ hjob ?_ ?_ ?_ ?_⟩
    · apply SameElsewhere.writes
      simp [Write.about, hkey.id, indexKey, hended.same.id]
    · simp [hended.same.id]
    · intro other hoth
      cases hoth
      exact hended.terminal
    · intro other hmem
      simp at hmem
      exact hmem.2.2.2
    intro other hmem
    simp at hmem
    rw [ownKey_of_leased hls]
    simpa using hmem.1
  | reap job hjob hterm =>
    have hidx := (same_of_about_none (releaseWrites store job) about_releaseWrites store).2
    refine ⟨job.id, none, Settles.of_end ?_ hjob ?_ ?_ ?_ ?_⟩
    · exact SameElsewhere.writes _ about_reap store
    · simp [Machine.applyAll_append]
    · intro other hoth
      cases hoth
    · intro key hmem
      simp [Machine.applyAll_append, hidx] at hmem
      exact hmem.2.2
    · intro key hmem
      rw [ownKey_of_terminal hterm]
      exact some_ne_none key ∘ Eq.symm

theorem Creation.settles (hcrn : Creation policy store writes) :
    ∃ id record, Settles (NoOrphans store ∧ store.jobs[store.nextId.getD 1]? = none) store
      (kv.applyAll writes store) id record := by
  obtain ⟨now, request, hvld, hfre, hclm, hroom, job, hjob⟩ := hcrn
  have hid : job.id = store.nextId.getD 1 := by
    rw [hjob]
    rfl
  have hrdy : job.state = .ready := by
    rw [hjob]
    rfl
  have hidx := (same_of_about_none (claimWrites job) about_claimWrites
    (kv.apply (.putCounter .id (saturatingAddU64 (store.nextId.getD 1) 1)) store)).2
  refine ⟨job.id, some job, SameElsewhere.writes _ about_create store, ?_, ?_, ?_⟩
  · simp [Machine.applyAll_append]
  · intro other key hoth hown
    cases hoth
    rw [ownKey_of_ready hrdy] at hown
    simp [Machine.applyAll_append, Option.some.inj hown]
  intro hcln key hkey hmem
  simp [Machine.applyAll_append, hidx] at hmem
  rcases hmem with rfl | hbef
  · exact ⟨job, rfl, ownKey_of_ready hrdy⟩
  · obtain ⟨old, hold, -⟩ := hcln.1 key hbef
    rw [hkey, hid, hcln.2] at hold
    cases hold

/-- A revived job gets its own key back. -/
theorem Revival.settles (hrev : Revival policy store writes) :
    ∃ id record, Settles (NoOrphans store) store (kv.applyAll writes store) id record := by
  obtain ⟨job, now, options, hjob, hdead⟩ := hrev
  have hsame := job.same_revived policy now options
  refine ⟨job.id, _, Settles.of_put .ready (indexKey job .leased = ·) ?_ hjob ?_ hsame rfl ?_ ?_⟩
  · apply SameElsewhere.writes
    simp [Write.about, hsame.id, indexKey]
  · simp [hsame.id]
  · intro key
    simp
  · intro _ key hown
    rw [ownKey_of_terminal (by rw [hdead]; rfl)] at hown
    cases hown

end WasmAgent.Queue
