import WasmAgent.Queue.IndexInvariant
import WasmAgent.Queue.Dedupe

/-!
# What repair leaves behind

From any store, `repair` keeps the records, makes the index exact and leaves a
claim exactly where a record asks for one.  A second `repair` finds nothing to do
as far as no two records ask for one claim.
-/

namespace WasmAgent.Queue

open WasmAgent.Core WasmAgent.Core.Program

variable {store : Store}

theorem claims_repair (claim : ClaimKey) (id : JobId) :
    (repair.final kv store).claims[claim]? = some id ↔ Newest store claim id := by
  obtain ⟨-, hunw, hnmd⟩ := (@repair_goes store).outcome
  constructor
  · intro hheld
    by_cases hnone : ∀ other, ¬ Wants store claim other
    · rw [hunw claim hnone] at hheld
      cases hheld
    obtain ⟨other, hoth⟩ := not_forall.mp hnone
    obtain ⟨newest, hnew⟩ := exists_newest (not_not.mp hoth)
    rw [hnmd claim newest hnew] at hheld
    cases hheld
    exact hnew
  · intro hnew
    exact hnmd claim id hnew

/-- Repairs that stop anywhere, and one that does not, leave what one repair leaves. -/
theorem repair_restarts (store : Store) (counts : List ℕ) :
    let left := counts.foldl (fun left count => repair.stopped kv count left) store
    let again := repair.final kv left
    let once := repair.final kv store
    again.jobs = once.jobs ∧ (∀ key, key ∈ again.index ↔ key ∈ once.index) ∧
      ∀ claim : ClaimKey, again.claims[claim]? = once.claims[claim]? := by
  intro left again once
  have hjobs : left.jobs = store.jobs := by
    apply List.foldlRecOn (motive := fun left : Store => left.jobs = store.jobs)
    · rfl
    · intro left hleft count _
      exact mended_take repair_goes.chain (fun _ _ hcur hmend => hmend.jobs.trans hcur) hleft count
  have hagain : Indexed _ again := repair_goes.outcome.1
  have honce : Indexed _ once := repair_goes.outcome.1
  have hsame : again.jobs = once.jobs := by rw [hagain.jobs, honce.jobs, hjobs]
  refine ⟨hsame, ?_, ?_⟩
  · intro key
    have hasks := asked_congr hsame key
    exact ⟨fun hkey => honce.keys key (hasks.mp (hagain.orphans key hkey)),
      fun hkey => hagain.keys key (hasks.mpr (honce.orphans key hkey))⟩
  · intro claim
    apply Option.ext
    intro id
    rw [claims_repair, claims_repair]
    simp only [Newest, Wants, hjobs]

/-! ## A repair that finds nothing to do -/

/-- Index and claims say what the records ask for, no claim asked for twice. -/
structure Mended (store : Store) : Prop where
  clean : Clean store
  claims : ∀ claim id, store.claims[claim]? = some id ↔ Wants store claim id

theorem Mended.wantedHolder (hmen : Mended store) {claim : ClaimKey} {id : JobId}
    (hwants : Wants store claim id) :
    wantedHolder (dedupeWanted store.allJobs) claim = some id := by
  obtain ⟨oldest, hfind, hold, -⟩ := wantedHolder_le hwants
  have hboth : some oldest = some id := by
    calc some oldest = store.claims[claim]? := ((hmen.claims claim oldest).mpr hold).symm
      _ = some id := (hmen.claims claim id).mpr hwants
  rw [hfind, hboth]

theorem idle_foldlM {Item : Type} {body : ℕ → Item → Operation ℕ} (items : List Item)
    (hbody : ∀ item ∈ items, ∀ count, Goes kv (fun _ _ => False)
      (fun value final => value = count ∧ final = store) (body count item) store) :
    Goes kv (fun _ _ => False) (fun value final => value = 0 ∧ final = store)
      (items.foldlM body 0) store := by
  apply Goes.foldlM (fun left value current => value = 0 ∧ current = store ∧
    ∀ item ∈ left, item ∈ items)
  · intro item left value current hcur
    obtain ⟨rfl, rfl, hlt⟩ := hcur
    apply (hbody item (hlt item List.mem_cons_self) 0).weaken
    intro reached final hrch
    refine ⟨hrch.1, hrch.2, ?_⟩
    intro other hoth
    exact hlt other (List.mem_cons_of_mem item hoth)
  · intro value current hcur
    exact ⟨hcur.1, hcur.2.1⟩
  · exact ⟨rfl, rfl, fun item hitem => hitem⟩

theorem Mended.repair_idle (hmen : Mended store) :
    Goes kv (fun _ _ => False) (fun outcome _ => outcome = ⟨0, 0, 0, 0⟩) repair store := by
  obtain ⟨hkeys, horph⟩ := hmen.clean
  unfold repair
  simp only [query_bind, Goes.ask_iff, answer_jobs]
  apply Goes.bind
  apply (@idle_foldlM store _ _ _ ?_).weaken
  · intro indexRemoved current hrmd
    obtain ⟨rfl, rfl⟩ := hrmd
    apply Goes.bind
    apply (@idle_foldlM current _ _ _ ?_).weaken
    · intro indexAdded current hadded
      obtain ⟨rfl, rfl⟩ := hadded
      rw [Goes.ask_iff]
      apply Goes.bind
      apply (@idle_foldlM current _ _ _ ?_).weaken
      · intro dedupeRemoved current hrel
        obtain ⟨rfl, rfl⟩ := hrel
        apply Goes.bind
        apply (@idle_foldlM current _ _ _ ?_).weaken
        · intro dedupeAdded current hclmd
          obtain ⟨rfl, rfl⟩ := hclmd
          exact Goes.done_iff.mpr rfl
        intro entry hent count
        have hheld := (hmen.claims entry.1 entry.2).mpr ((mem_dedupeWanted entry.1 entry.2).mp hent)
        unfold addClaim
        simp only [query_bind, Goes.ask_iff, answer_claim]
        rw [if_pos hheld]
        exact Goes.done_iff.mpr ⟨rfl, rfl⟩
      intro entry hent count
      have hheld : current.claims[entry.1]? = some entry.2 :=
        Std.ExtTreeMap.mem_toList_iff_getElem?_eq_some.mp hent
      unfold removeClaim
      rw [if_pos (hmen.wantedHolder ((hmen.claims _ _).mp hheld))]
      exact Goes.done_iff.mpr ⟨rfl, rfl⟩
    intro key hkey count
    have hthere := hkeys key ((mem_indexWanted key).mp hkey)
    unfold addMissing
    simp only [query_bind, Goes.ask_iff, answer_hasIndex, decide_eq_true_eq]
    rw [if_pos hthere]
    exact Goes.done_iff.mpr ⟨rfl, rfl⟩
  intro key hkey count
  have hask := horph key ((mem_answer_index key store).mp hkey)
  unfold removeOrphan
  rw [if_pos ((mem_indexWanted key).mpr hask)]
  exact Goes.done_iff.mpr ⟨rfl, rfl⟩

theorem mended_repair (hapart : ∀ claim, ¬ Shared store claim) :
    Mended (repair.final kv store) := by
  have hidxd := (@repair_goes store).outcome.1
  have hsame : ∀ claim id, Wants (repair.final kv store) claim id ↔ Wants store claim id := by
    intro claim id
    rw [Wants, Wants, hidxd.jobs]
  constructor
  · exact ⟨hidxd.keys, hidxd.orphans⟩
  intro claim id
  rw [claims_repair, hsame]
  constructor
  · intro hnew
    exact hnew.1
  intro hwants
  obtain ⟨newest, hnew⟩ := exists_newest hwants
  have halone : newest = id := by
    by_contra hne
    exact hapart claim ⟨newest, id, hne, hnew.1, hwants⟩
  rwa [halone] at hnew

/-- From any store, `repair` keeps every record, makes the index exact and leaves a
claim exactly where a record asks for one, in the name of such a record; as far as no
two records ask for one claim, a second repair writes nothing and counts no change. -/
theorem repair_mends (store : Store) :
    (repair.final kv store).jobs = store.jobs ∧
      (∀ key, key ∈ (repair.final kv store).index ↔ Asked store key) ∧
      (∀ claim id, (repair.final kv store).claims[claim]? = some id → Wants store claim id) ∧
      (∀ claim id, Wants store claim id →
        ∃ holder, (repair.final kv store).claims[claim]? = some holder) ∧
      ((∀ claim, ¬ Shared store claim) →
        repair.writes kv (repair.final kv store) = [] ∧
          repair.result kv (repair.final kv store) = ⟨0, 0, 0, 0⟩) := by
  have hindexed := (@repair_goes store).outcome.1
  refine ⟨hindexed.jobs, ?_, ?_, ?_, ?_⟩
  · intro key
    rw [← asked_congr hindexed.jobs]
    exact ⟨hindexed.orphans key, hindexed.keys key⟩
  · intro claim id hheld
    exact ((claims_repair claim id).mp hheld).1
  · intro claim id hwants
    obtain ⟨newest, hnewest⟩ := exists_newest hwants
    exact ⟨newest, (claims_repair claim newest).mpr hnewest⟩
  · intro hapart
    have hidle := (mended_repair hapart).repair_idle
    exact ⟨hidle.chain.eq_nil_of_never, hidle.outcome⟩

/-! ## Claims of finished jobs -/

def LiveWants (store : Store) (claim : ClaimKey) (id : JobId) : Prop :=
  ∃ job, store.jobs[id]? = some job ∧ job.Live ∧ claimKey job.queue job.dedupeKey = some claim

def settledKeyed : Store :=
  runStopped Policy.default
    [(keyedEnqueue 0, 9), (.take 0 "stt" "worker-1" none, 9), (.settle 1 1 none [], 9)]
    Store.empty

/-- A finished record keeps its claim: the claims after a repair are not those of the
live jobs alone. -/
theorem finished_keeps_claim :
    ¬ ∀ policy store, CrashReached policy (fun _ _ _ => True) store →
      (repair.final kv store).jobs = store.jobs ∧
        (∀ key, key ∈ (repair.final kv store).index ↔ Asked store key) ∧
        (∀ claim id, (repair.final kv store).claims[claim]? = some id ↔
          LiveWants store claim id) ∧
        repair.writes kv (repair.final kv store) = [] ∧
        repair.result kv (repair.final kv store) = ⟨0, 0, 0, 0⟩ := by
  intro hlaw
  have hclaims := (hlaw Policy.default settledKeyed (runStopped_reached _ _)).2.2.1
  have hheld : (repair.final kv settledKeyed).claims[(⟨"stt", "k"⟩ : ClaimKey)]? = some 1 := by
    decide
  obtain ⟨job, hjob, hlive, -⟩ := (hclaims ⟨"stt", "k"⟩ 1).mp hheld
  have hfinished : ∀ stored ∈ settledKeyed.jobs[1]?, ¬ stored.Live := by
    decide
  exact hfinished job hjob hlive

end WasmAgent.Queue
