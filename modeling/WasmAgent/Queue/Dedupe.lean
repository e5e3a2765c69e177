import WasmAgent.Queue.Runs

/-!
# One live job for each dedupe key

A live job with a dedupe key is the one its claim names.  Every operation keeps
this at every point where it can be stopped, apart from two: `requeue_with` of a
job whose claim names another job or nothing, and a `repair` stopped between its
writes to a claim that several records ask for.
-/

namespace WasmAgent.Queue

open List WasmAgent.Core WasmAgent.Core.Program

variable {policy : Policy} {store : Store} {writes : List Write}

def Job.Rivals (first second : Job) : Prop :=
  first.Live ∧ second.Live ∧ first.queue = second.queue ∧ first.dedupeKey.isSome ∧
    first.dedupeKey = second.dedupeKey

instance : DecidableRel Job.Rivals :=
  fun first second => inferInstanceAs (Decidable (first.Live ∧ second.Live ∧
    first.queue = second.queue ∧ first.dedupeKey.isSome ∧ first.dedupeKey = second.dedupeKey))

/-- No two live jobs of one queue have the same dedupe key. -/
def OneLive (store : Store) : Prop :=
  store.allJobs.Pairwise (fun first second => ¬ first.Rivals second)

instance (store : Store) : Decidable (OneLive store) :=
  inferInstanceAs (Decidable (List.Pairwise _ _))

structure ClaimCoherent (store : Store) (claim : ClaimKey) : Prop where
  named : ∀ (id : JobId) (job : Job), store.jobs[id]? = some job → job.Live →
    claimKey job.queue job.dedupeKey = some claim → store.claims[claim]? = some id
  newest : ∀ id, store.claims[claim]? = some id → ∀ other, Wants store claim other → other ≤ id

/-- Ids in use do not go beyond the counter, nor the counter beyond a `u64`. -/
structure Counted (store : Store) : Prop where
  ids : ∀ (id : JobId) (job : Job), store.jobs[id]? = some job → id ≤ store.nextId.getD 1
  counter : store.nextId.getD 1 ≤ u64Max

structure Coherent (store : Store) : Prop where
  claims : ∀ claim, ClaimCoherent store claim
  counted : Counted store

theorem Coherent.oneLive (hcoh : Coherent store) : OneLive store := by
  apply allJobs_sorted.imp_of_mem
  intro first second hfst hsnd hlt hriv
  rw [mem_allJobs] at hfst hsnd
  obtain ⟨hfirstLive, hsecondLive, hque, hkey, hsame⟩ := hriv
  obtain ⟨key, hkey⟩ := Option.isSome_iff_exists.mp hkey
  have hfirstClaim : claimKey first.queue first.dedupeKey = some ⟨first.queue, key⟩ := by
    rw [hkey]
    rfl
  have hsecondClaim : claimKey second.queue second.dedupeKey = some ⟨first.queue, key⟩ := by
    rw [← hsame, ← hque, hfirstClaim]
  have hfirstNamed := (hcoh.claims _).named _ first hfst hfirstLive hfirstClaim
  have hsecondNamed := (hcoh.claims _).named _ second hsnd hsecondLive hsecondClaim
  rw [hfirstNamed] at hsecondNamed
  exact Nat.ne_of_lt hlt (Option.some.inj hsecondNamed)

/-! ## What blocks do to claims -/

def Write.onClaim : Write → Option ClaimKey
  | .putClaim claim _ => some claim
  | .delClaim claim => some claim
  | _ => none

theorem claims_applyAll_cases (changes : List Write) (store : Store) (claim : ClaimKey) :
    (kv.applyAll changes store).claims[claim]? = store.claims[claim]? ∨
      (kv.applyAll changes store).claims[claim]? = none ∧ Write.delClaim claim ∈ changes ∨
      ∃ id, (kv.applyAll changes store).claims[claim]? = some id ∧
        Write.putClaim claim id ∈ changes := by
  induction changes using reverseRecOn with
  | nil => exact .inl rfl
  | append_singleton changes change ih =>
    rw [Machine.applyAll_append, Machine.applyAll_cons, Machine.applyAll_nil, claims_apply]
    have hrest : (kv.applyAll changes store).claims[claim]? = store.claims[claim]? ∨
        (kv.applyAll changes store).claims[claim]? = none ∧
          Write.delClaim claim ∈ changes ++ [change] ∨
        ∃ id, (kv.applyAll changes store).claims[claim]? = some id ∧
          Write.putClaim claim id ∈ changes ++ [change] := by
      rcases ih with hsame | ⟨hnone, hmem⟩ | ⟨id, hid, hmem⟩
      · exact .inl hsame
      · exact .inr (.inl ⟨hnone, mem_append_left _ hmem⟩)
      · exact .inr (.inr ⟨id, hid, mem_append_left _ hmem⟩)
    cases change with
    | putClaim written id =>
      dsimp only
      split
      · rename_i heq
        subst heq
        exact .inr (.inr ⟨id, rfl, by simp⟩)
      · exact hrest
    | delClaim released =>
      dsimp only
      split
      · rename_i heq
        subst heq
        exact .inr (.inl ⟨rfl, by simp⟩)
      · exact hrest
    | _ => exact hrest

theorem nextId_applyAll (changes : List Write) (store : Store)
    (hnone : ∀ value, Write.putCounter .id value ∉ changes) :
    (kv.applyAll changes store).nextId = store.nextId := by
  induction changes generalizing store with
  | nil => rfl
  | cons change changes ih =>
    rw [Machine.applyAll_cons, ih _ (fun value hmem => hnone value (mem_cons_of_mem _ hmem)),
      nextId_apply]
    cases change with
    | putCounter counter value =>
      cases counter with
      | id => exact absurd mem_cons_self (hnone value)
      | alertSeq => rfl
    | _ => rfl

variable (hmove : Move policy store writes)
include hmove

theorem Move.no_putClaim (claim : ClaimKey) (id : JobId) : Write.putClaim claim id ∉ writes := by
  intro hput
  cases hmove with
  | aside write haside =>
    rw [← mem_singleton.mp hput] at haside
    exact haside
  | reap job hjob hterm =>
    simp at hput
    obtain ⟨_, heq, -⟩ := mem_releaseWrites hput
    cases heq
  | _ =>
    simp at hput

theorem Move.no_putCounter (value : ℕ) : Write.putCounter .id value ∉ writes := by
  intro hput
  cases hmove with
  | aside write haside =>
    rw [← mem_singleton.mp hput] at haside
    exact haside
  | reap job hjob hterm =>
    simp at hput
    obtain ⟨_, heq, -⟩ := mem_releaseWrites hput
    cases heq
  | _ =>
    simp at hput

variable {claim : ClaimKey}

theorem Move.delClaim (hdel : Write.delClaim claim ∈ writes) :
    ∃ job : Job, store.jobs[job.id]? = some job ∧ job.state.isTerminal ∧
      store.claims[claim]? = some job.id := by
  cases hmove with
  | aside write haside =>
    rw [← mem_singleton.mp hdel] at haside
    exact haside.elim
  | reap job hjob hterm =>
    simp at hdel
    obtain ⟨released, heq, hhldr⟩ := mem_releaseWrites hdel
    cases heq
    exact ⟨job, hjob, hterm, hhldr⟩
  | _ =>
    simp at hdel

/-! ## Stops inside a block -/

theorem Move.wants {count : ℕ} {id : JobId}
    (hwants : Wants (kv.applyAll (writes.take count) store) claim id) : Wants store claim id := by
  obtain ⟨job', hjob', hclm⟩ := hwants
  rcases hmove.evolves count id job' hjob' with hbef | ⟨job, hjob, hevo⟩
  · exact ⟨job', hbef, hclm⟩
  · refine ⟨job, hjob, ?_⟩
    rw [← hevo.same.queue, ← hevo.same.dedupeKey, hclm]

theorem Move.coherent_take (hcoh : Coherent store)
    (count : ℕ) : Coherent (kv.applyAll (writes.take count) store) := by
  have hclms : ∀ claim : ClaimKey,
      (kv.applyAll (writes.take count) store).claims[claim]? = store.claims[claim]? ∨
        (kv.applyAll (writes.take count) store).claims[claim]? = none ∧
          ∃ job : Job, store.jobs[job.id]? = some job ∧ job.state.isTerminal ∧
            store.claims[claim]? = some job.id := by
    intro claim
    rcases claims_applyAll_cases (writes.take count) store claim with hsame | hdel | hput
    · exact .inl hsame
    · exact .inr ⟨hdel.1, hmove.delClaim (mem_of_mem_take hdel.2)⟩
    · obtain ⟨id, -, hmem⟩ := hput
      exact absurd (mem_of_mem_take hmem) (hmove.no_putClaim claim id)
  constructor
  · intro claim
    constructor
    · intro id job' hjob' hlive hkey
      have hbef : ∃ job : Job, store.jobs[id]? = some job ∧ job.Live ∧
          claimKey job.queue job.dedupeKey = some claim := by
        rcases hmove.evolves count id job' hjob' with hsame | ⟨job, hjob, hevo⟩
        · exact ⟨job', hsame, hlive, hkey⟩
        · refine ⟨job, hjob, hevo.live hlive, ?_⟩
          rw [← hevo.same.queue, ← hevo.same.dedupeKey, hkey]
      obtain ⟨job, hjob, hjobLive, hjobKey⟩ := hbef
      have hnmd := (hcoh.claims claim).named id job hjob hjobLive hjobKey
      rcases hclms claim with hsame | ⟨-, finished, hfin, hterm, hhldr⟩
      · rw [hsame, hnmd]
      · -- The released claim named a finished job, so no live job asks for it.
        rw [hnmd] at hhldr
        rw [Option.some.inj hhldr, hfin] at hjob
        cases hjob
        exact absurd hjobLive (not_live_of_terminal hterm)
    intro id hid other hwants
    rcases hclms claim with hsame | ⟨hnone, -⟩
    · rw [hsame] at hid
      exact (hcoh.claims claim).newest id hid other (hmove.wants hwants)
    · rw [hnone] at hid
      cases hid
  have hnext : (kv.applyAll (writes.take count) store).nextId = store.nextId :=
    nextId_applyAll _ _ (fun value hmem =>
      hmove.no_putCounter value (mem_of_mem_take hmem))
  constructor
  · intro id job' hjob'
    rw [hnext]
    rcases hmove.evolves count id job' hjob' with hsame | ⟨job, hjob, -⟩
    · exact hcoh.counted.ids id job' hsame
    · exact hcoh.counted.ids id job hjob
  · rw [hnext]
    exact hcoh.counted.counter

omit hmove

theorem le_saturatingAddU64 {value : ℕ} (hval : value ≤ u64Max) :
    value ≤ saturatingAddU64 value 1 := by
  unfold saturatingAddU64
  omega

theorem saturatingAddU64_le (value : ℕ) : saturatingAddU64 value 1 ≤ u64Max := by
  unfold saturatingAddU64
  omega

/-- A store after some of the writes of `enqueue`: the counter first, then the
claim, then the record. -/
structure Creating (store after : Store) (job : Job) : Prop where
  counter : after.nextId = store.nextId ∨
    after.nextId = some (saturatingAddU64 (store.nextId.getD 1) 1)
  claims : ∀ claim : ClaimKey, after.claims[claim]? = store.claims[claim]? ∨
    claimKey job.queue job.dedupeKey = some claim ∧ after.claims[claim]? = some job.id
  jobs : ∀ id : JobId, after.jobs[id]? = store.jobs[id]? ∨
    id = job.id ∧ after.jobs[id]? = some job ∧
      after.nextId = some (saturatingAddU64 (store.nextId.getD 1) 1) ∧
      ∀ claim, claimKey job.queue job.dedupeKey = some claim → after.claims[claim]? = some job.id

theorem creating_take (store : Store) (job : Job) (count : ℕ) :
    Creating store (kv.applyAll ((.putCounter .id (saturatingAddU64 (store.nextId.getD 1) 1) ::
      (claimWrites job ++ [.putJob job, .putIndex (indexKey job .ready)])).take count) store)
      job := by
  unfold claimWrites
  cases hclm : claimKey job.queue job.dedupeKey with
  | none =>
    rcases count with _ | _ | _ | count <;> constructor <;> simp [hclm] <;> grind
  | some claim =>
    rcases count with _ | _ | _ | _ | count <;> constructor <;> simp [hclm] <;> grind

theorem Creation.coherent_take (hcrn : Creation policy store writes)
    (hcoh : Coherent store) (count : ℕ) : Coherent (kv.applyAll (writes.take count) store) := by
  obtain ⟨now, request, hvld, hfre, hclm, hroom, job, rfl⟩ := hcrn
  have hcreat := creating_take store (request.job policy now (store.nextId.getD 1)) count
  obtain ⟨hctr, hclms, hjobs⟩ := hcreat
  generalize kv.applyAll _ store = after at hctr hclms hjobs ⊢
  -- A claim that was there and named a stored record is not the new job's claim.
  have hkept : ∀ (id : JobId) (stored : Job) (claim : ClaimKey), store.jobs[id]? = some stored →
      store.claims[claim]? = some id → after.claims[claim]? = some id := by
    intro id stored claim hsto hhldr
    rcases hclms claim with hsame | ⟨hown, -⟩
    · rw [hsame, hhldr]
    · rw [hclm claim id hown hhldr] at hsto
      cases hsto
  constructor
  · intro claim
    constructor
    · intro id stored hsto hlive hkey
      rcases hjobs id with hsame | ⟨rfl, hnew, -, hnmd⟩
      · rw [hsame] at hsto
        exact hkept id stored claim hsto ((hcoh.claims claim).named id stored hsto hlive hkey)
      · rw [hnew] at hsto
        cases hsto
        exact hnmd claim hkey
    intro id hid other hwants
    obtain ⟨stored, hsto, hkey⟩ := hwants
    have hcnt : other ≤ store.nextId.getD 1 := by
      rcases hjobs other with hsame | ⟨rfl, -⟩
      · rw [hsame] at hsto
        exact hcoh.counted.ids other stored hsto
      · exact le_refl _
    rcases hclms claim with hsame | ⟨hown, hnew⟩
    · rcases hjobs other with hsameJob | ⟨rfl, hnewJob, -, hnmd⟩
      · rw [hsame] at hid
        rw [hsameJob] at hsto
        exact (hcoh.claims claim).newest id hid other ⟨stored, hsto, hkey⟩
      · rw [hnewJob] at hsto
        cases hsto
        rw [hnmd claim hkey] at hid
        rw [Option.some.inj hid]
    · rw [hnew] at hid
      rw [← Option.some.inj hid]
      exact hcnt
  have hle := le_saturatingAddU64 hcoh.counted.counter
  constructor
  · intro id stored hsto
    rcases hjobs id with hsame | ⟨rfl, -, hnext, -⟩
    · rw [hsame] at hsto
      have hid := hcoh.counted.ids id stored hsto
      rcases hctr with hnext | hnext
      · rwa [hnext]
      · rw [hnext]
        exact hid.trans hle
    · rw [hnext]
      exact hle
  rcases hctr with hnext | hnext
  · rw [hnext]
    exact hcoh.counted.counter
  · rw [hnext]
    exact saturatingAddU64_le _

theorem revived_coherent_take {job : Job} {now : Millis} {options : RequeueOptions}
    (hjob : store.jobs[job.id]? = some job) (hcoh : Coherent store) (count : ℕ)
    (hnmd : 0 < count → ∀ claim, claimKey job.queue job.dedupeKey = some claim →
      store.claims[claim]? = some job.id) :
    Coherent (kv.applyAll ([.putJob (job.revived policy now options),
      .delIndex (indexKey job .leased), .putIndex (indexKey job .ready)].take count) store) := by
  rcases Nat.eq_zero_or_pos count with rfl | hpos
  · exact hcoh
  have hjobs : ∀ id : JobId, (kv.applyAll ([.putJob (job.revived policy now options),
        .delIndex (indexKey job .leased), .putIndex (indexKey job .ready)].take count)
        store).jobs[id]? =
      if job.id = id then some (job.revived policy now options) else store.jobs[id]? := by
    intro id
    rcases count with _ | _ | _ | count
    · exact absurd hpos (Nat.lt_irrefl 0)
    all_goals simp [Job.revived]
  have hclms : (kv.applyAll ([.putJob (job.revived policy now options),
        .delIndex (indexKey job .leased), .putIndex (indexKey job .ready)].take count)
        store).claims = store.claims := by
    rcases count with _ | _ | _ | count <;> simp <;> rfl
  have hnext : (kv.applyAll ([.putJob (job.revived policy now options),
        .delIndex (indexKey job .leased), .putIndex (indexKey job .ready)].take count)
        store).nextId = store.nextId := by
    rcases count with _ | _ | _ | count <;> simp only [take_succ_cons, take_zero, take_nil] <;> rfl
  generalize kv.applyAll _ store = after at hjobs hclms hnext ⊢
  -- Every record asks for what the record under its id asked for before.
  have hbef : ∀ (id : JobId) (job' : Job), after.jobs[id]? = some job' →
      ∃ stored, store.jobs[id]? = some stored ∧ stored.queue = job'.queue ∧
        stored.dedupeKey = job'.dedupeKey := by
    intro id job' hjob'
    rw [hjobs] at hjob'
    split at hjob'
    · rename_i hid
      subst hid
      cases hjob'
      exact ⟨job, hjob, rfl, rfl⟩
    · exact ⟨job', hjob', rfl, rfl⟩
  constructor
  · intro claim
    constructor
    · intro id job' hjob' hlive hkey
      rw [hclms]
      rw [hjobs] at hjob'
      split at hjob'
      · rename_i hid
        subst hid
        cases hjob'
        exact hnmd hpos claim hkey
      · exact (hcoh.claims claim).named id job' hjob' hlive hkey
    intro id hid other hwants
    rw [hclms] at hid
    obtain ⟨job', hjob', hkey⟩ := hwants
    obtain ⟨stored, hsto, hque, hded⟩ := hbef other job' hjob'
    apply (hcoh.claims claim).newest id hid other
    refine ⟨stored, hsto, ?_⟩
    rw [hque, hded, hkey]
  constructor
  · intro id job' hjob'
    rw [hnext]
    obtain ⟨stored, hsto, -⟩ := hbef id job' hjob'
    exact hcoh.counted.ids id stored hsto
  · rw [hnext]
    exact hcoh.counted.counter

/-! ## Stops inside repair -/

/-- At least two records ask for a claim. -/
def Shared (store : Store) (claim : ClaimKey) : Prop :=
  ∃ first second, first ≠ second ∧ Wants store claim first ∧ Wants store claim second

theorem claims_applyAll_of_not_mem {changes : List Write}
    (hnone : ∀ change ∈ changes, change.onClaim ≠ some claim) :
    (kv.applyAll changes store).claims[claim]? = store.claims[claim]? := by
  rcases claims_applyAll_cases changes store claim with hsame | ⟨-, hdel⟩ | ⟨id, -, hput⟩
  · exact hsame
  · exact absurd rfl (hnone _ hdel)
  · exact absurd rfl (hnone _ hput)

theorem Mend.nextId {start : Store} (hmend : Mend start store writes) :
    (kv.applyAll writes store).nextId = store.nextId := by
  cases hmend <;> rfl

/-- A claim during `repair`: its own record keeps it, and it names no older one. -/
structure ClaimKept (start current : Store) (claim : ClaimKey) : Prop where
  named : ∀ id, Wants start claim id → start.claims[claim]? = some id →
    current.claims[claim]? = some id
  newest : ∀ id, current.claims[claim]? = some id → ∀ other, Wants start claim other → other ≤ id

theorem Mend.kept {start : Store} (hmend : Mend start store writes)
    (huns : ¬ Shared start claim) (hkept : ClaimKept start store claim) :
    ClaimKept start (kv.applyAll writes store) claim := by
  have honly : ∀ first second, Wants start claim first → Wants start claim second →
      first = second := by
    intro first second hfst hsnd
    by_contra hne
    exact huns ⟨first, second, hne, hfst, hsnd⟩
  cases hmend with
  | orphan | missing => exact { hkept with }
  | release released holder hhldr hoth =>
    by_cases hclm : released = claim
    · subst hclm
      constructor
      · intro id hwants hid
        rw [hhldr] at hid
        obtain rfl := Option.some.inj hid
        rcases hoth with hnot | ⟨other, hotherWants, hlt⟩
        · exact absurd hwants hnot
        · exact absurd (honly other holder hotherWants hwants) (Nat.ne_of_lt hlt)
      · intro id hid
        simp at hid
    constructor
    · intro id hwants hid
      simp [hclm, hkept.named id hwants hid]
    · intro id hid
      simp [hclm] at hid
      exact hkept.newest id hid
  | claim written id hwrn =>
    by_cases hclm : written = claim
    · subst hclm
      constructor
      · intro other hwants _
        rw [honly other id hwants hwrn]
        simp
      · intro other hoth third hthird
        simp at hoth
        rw [← hoth, honly third id hthird hwrn]
    constructor
    · intro other hwants hoth
      simp [hclm, hkept.named other hwants hoth]
    · intro other hoth
      simp [hclm] at hoth
      exact hkept.newest other hoth

/-- A stop of `repair` that comes before or after all its writes to a claim. -/
def StopsBeside (store : Store) (count : ℕ) (claim : ClaimKey) : Prop :=
  (∀ change ∈ (repair.writes kv store).take count, change.onClaim ≠ some claim) ∨
    ∀ change ∈ (repair.writes kv store).drop count, change.onClaim ≠ some claim

theorem repair_coherent (hcoh : Coherent store) (count : ℕ)
    (hstops : ∀ claim, Shared store claim → StopsBeside store count claim) :
    Coherent (kv.applyAll ((repair.writes kv store).take count) store) := by
  obtain ⟨hchain, hidxd, -, hnew⟩ := @repair_goes store
  have hwhole : repair.final kv store =
      kv.applyAll ((repair.writes kv store).drop count)
        (kv.applyAll ((repair.writes kv store).take count) store) := by
    rw [← Machine.applyAll_append, take_append_drop]
    rfl
  have hjobs : (kv.applyAll ((repair.writes kv store).take count) store).jobs = store.jobs :=
    @mended_take store store _ (fun current => current.jobs = store.jobs) hchain
      (fun _ _ hcur hmend => hmend.jobs.trans hcur) rfl count
  have hnext : (kv.applyAll ((repair.writes kv store).take count) store).nextId = store.nextId :=
    @mended_take store store _ (fun current => current.nextId = store.nextId) hchain
      (fun _ _ hcur hmend => hmend.nextId.trans hcur) rfl count
  have hkept : ∀ claim, ClaimKept store
      (kv.applyAll ((repair.writes kv store).take count) store) claim := by
    intro claim
    by_cases hshar : Shared store claim
    · rcases hstops claim hshar with hbef | haft
      · constructor
        · intro id _ hid
          rw [claims_applyAll_of_not_mem hbef, hid]
        · intro id hid
          rw [claims_applyAll_of_not_mem hbef] at hid
          exact (hcoh.claims claim).newest id hid
      · obtain ⟨_, second, -, -, hsnd⟩ := hshar
        obtain ⟨newest, hwants, hmost⟩ := exists_newest hsnd
        have hclm := hnew claim newest ⟨hwants, hmost⟩
        rw [hwhole, claims_applyAll_of_not_mem haft] at hclm
        constructor
        · intro id hid hheld
          have hle := (hcoh.claims claim).newest id hheld newest hwants
          rw [hclm, Nat.le_antisymm hle (hmost id hid)]
        intro id hid
        rw [hclm] at hid
        rw [← Option.some.inj hid]
        exact hmost
    have hsta : ClaimKept store store claim := ⟨fun _ _ hid => hid, (hcoh.claims claim).newest⟩
    exact @mended_take store store _ (ClaimKept store · claim) hchain
      (fun _ _ hcur hmend => hmend.kept hshar hcur) hsta count
  generalize kv.applyAll _ store = after at hjobs hnext hkept
  constructor
  · intro claim
    constructor
    · intro id job hjob hlive hkey
      rw [hjobs] at hjob
      exact (hkept claim).named id ⟨job, hjob, hkey⟩
        ((hcoh.claims claim).named id job hjob hlive hkey)
    intro id hid other hwants
    apply (hkept claim).newest id hid
    unfold Wants at hwants ⊢
    rwa [hjobs] at hwants
  constructor
  · rw [hjobs, hnext]
    exact hcoh.counted.ids
  · rw [hnext]
    exact hcoh.counted.counter

/-! ## Runs -/

/-- A step that keeps claims right: a revived job is the one its claim names, and
`repair` is not stopped between its writes to a claim that several records ask
for. -/
def KeepsClaims (store : Store) (op : Op) (count : ℕ) : Prop :=
  match op with
  | .requeue _ id _ => 0 < count → ∀ (job : Job) (claim : ClaimKey),
      store.jobs[id]? = some job → job.state = .dead →
      claimKey job.queue job.dedupeKey = some claim → store.claims[claim]? = some id
  | .repair => ∀ claim, Shared store claim → StopsBeside store count claim
  | _ => True

theorem requeueWith_writes (now : Millis) (id : JobId) (options : RequeueOptions) :
    (requeueWith policy now id options).writes kv store = [] ∨
      ∃ job, store.jobs[id]? = some job ∧ job.state = .dead ∧
        (requeueWith policy now id options).writes kv store =
          [.putJob (job.revived policy now options), .delIndex (indexKey job .leased),
            .putIndex (indexKey job .ready)] := by
  unfold requeueWith load
  rw [query_bind, writes_ask, answer_job]
  cases hjob : store.jobs[id]? with
  | none => exact .inl rfl
  | some job =>
    by_cases hdead : job.state = .dead
    · right
      refine ⟨job, rfl, hdead, ?_⟩
      simp only [ne_eq, hdead, not_true_eq_false, if_false]
      rfl
    · left
      simp only [ne_eq, hdead, not_false_eq_true, if_true]
      rfl

theorem Op.coherent_stopped (op : Op) (count : ℕ) (hks : KeepsClaims store op count)
    (hcoh : Coherent store) : Coherent ((op.program policy).stopped kv count store) := by
  by_cases hop : op = .repair
  · subst hop
    unfold stopped Op.program
    rw [discard_writes]
    exact repair_coherent hcoh count hks
  have hgoes := (op.goes policy store hop).chain
  unfold stopped
  cases op with
  | enqueue now request =>
    apply hgoes.invariant_take _ hcoh
    intro current block taken hcur halwd
    exact halwd.2.coherent_take hcur taken
  | requeue now id options =>
    unfold Op.program
    rw [discard_writes]
    rcases @requeueWith_writes policy store now id options with
      hnone | ⟨job, hjob, hdead, hblc⟩
    · rw [hnone, take_nil]
      exact hcoh
    rw [hblc]
    obtain rfl := store.jobs_id id job hjob
    apply revived_coherent_take hjob hcoh
    intro hpos claim
    exact hks hpos job claim hjob hdead
  | repair => exact absurd rfl hop
  | _ =>
    apply hgoes.invariant_take _ hcoh
    intro current block taken hcur halwd
    exact Move.coherent_take halwd hcur taken

theorem CrashReached.coherent (hrch : CrashReached policy KeepsClaims store) : Coherent store := by
  induction hrch with
  | empty =>
    constructor
    · intro claim
      constructor
      · intro id job hjob
        simp [Store.empty] at hjob
      · intro id hid
        simp [Store.empty] at hid
    constructor
    · intro id job hjob
      simp [Store.empty] at hjob
    · decide
  | step op count _ hks ih => exact op.coherent_stopped count hks ih

/-- In every run of operations that may stop anywhere, and whose requeues and
repairs keep claims right, no two live jobs share a dedupe key. -/
theorem oneLive_of_keepsClaims (policy : Policy) (store : Store)
    (hreached : CrashReached policy KeepsClaims store) : OneLive store := by
  exact hreached.coherent.oneLive

/-- An `enqueue` of one attempt under a dedupe key. -/
def keyedEnqueue (now : Millis) : Op :=
  .enqueue now { EnqueueRequest.new "stt" [] with dedupeKey := some "k", maxAttempts := some 1 }

/-- The store after an `enqueue` that stopped before its record and a second one. -/
def twiceEnqueued : Store :=
  ((keyedEnqueue 1).program Policy.default).stopped kv 9
    (((keyedEnqueue 0).program Policy.default).stopped kv 2 Store.empty)

theorem oneLive_twiceEnqueued : OneLive twiceEnqueued :=
  oneLive_of_keepsClaims Policy.default _
    (.step _ 9 (.step _ 2 .empty trivial) trivial)

/-! ## The claim that is released early -/

/-- The job runs out of attempts, `reap` stops after it released the claim, the
key is enqueued again and the dead job is revived. -/
def revivedRun : List (Op × ℕ) :=
  [(keyedEnqueue 0, 9), (.take 0 "stt" "worker-1" none, 9), (.fail 0 1 none "no", 9),
    (.reap 9000000000000, 1), (keyedEnqueue 1, 9), (.requeue 2 1 ⟨true, none, true⟩, 9)]

/-- The store after operations that may stop. -/
def runStopped (policy : Policy) (steps : List (Op × ℕ)) (store : Store) : Store :=
  steps.foldl (fun current step => (step.1.program policy).stopped kv step.2 current) store

theorem runStopped_reached (policy : Policy) (steps : List (Op × ℕ)) :
    CrashReached policy (fun _ _ _ => True) (runStopped policy steps Store.empty) := by
  induction steps using reverseRecOn with
  | nil => exact CrashReached.empty
  | append_singleton steps step ih =>
    unfold runStopped at ih ⊢
    rw [foldl_append]
    exact CrashReached.step step.1 step.2 ih trivial

/-- Stops anywhere do reach two live jobs of one key. -/
theorem revived_breaks_oneLive :
    ¬ ∀ policy store, CrashReached policy (fun _ _ _ => True) store → OneLive store := by
  intro hlaw
  have hrevived : ¬ OneLive (runStopped Policy.default revivedRun Store.empty) := by
    decide
  exact hrevived (hlaw Policy.default _ (runStopped_reached Policy.default revivedRun))

end WasmAgent.Queue
