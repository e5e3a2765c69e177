import Mathlib.Data.Finset.Max
import WasmAgent.Queue.Index

/-!
# Repair

`repair` rewrites the index and the dedupe claims from the records.  It touches
no record; the index it leaves is exactly the one the records ask for, and every
claim it leaves names the newest record that asks for it.
-/

namespace WasmAgent.Queue

open List Option WasmAgent.Core WasmAgent.Core.Program

variable {start store : Store} {writes : List Write}

def Wants (store : Store) (claim : ClaimKey) (id : JobId) : Prop :=
  ∃ job, store.jobs[id]? = some job ∧ claimKey job.queue job.dedupeKey = some claim

def Newest (store : Store) (claim : ClaimKey) (id : JobId) : Prop :=
  Wants store claim id ∧ ∀ other, Wants store claim other → other ≤ id

/-- One write of `repair`, which started in `start`. -/
inductive Mend (start store : Store) : List Write → Prop where
  | orphan (key : IndexKey) (hstale : ¬ Asked store key) : Mend start store [.delIndex key]
  | missing (key : IndexKey) (hasked : Asked store key) : Mend start store [.putIndex key]
  | release (claim : ClaimKey) (holder : JobId) (hholder : start.claims[claim]? = some holder)
      (hother : ¬ Wants start claim holder ∨ ∃ other, Wants start claim other ∧ other < holder) :
      Mend start store [.delClaim claim]
  | claim (claim : ClaimKey) (id : JobId) (hwants : Wants start claim id) :
      Mend start store [.putClaim claim id]

variable (hmend : Mend start store writes)
include hmend

theorem Mend.jobs : (kv.applyAll writes store).jobs = store.jobs := by
  cases hmend <;> rfl

omit hmend in
theorem asked_congr {before after : Store} (hjobs : after.jobs = before.jobs)
    (key : IndexKey) : Asked after key ↔ Asked before key := by
  rw [Asked, Asked, hjobs]

theorem Mend.hasKeys (hkeys : HasKeys store) : HasKeys (kv.applyAll writes store) := by
  intro key hasked
  have hbef := (asked_congr hmend.jobs key).mp hasked
  cases hmend with
  | orphan removed hstale =>
    apply (mem_index_apply _ _ _).mpr
    refine ⟨?_, hkeys key hbef⟩
    rintro rfl
    exact hstale hbef
  | missing added hadded => exact (mem_index_apply _ _ _).mpr (.inr (hkeys key hbef))
  | release | claim => exact hkeys key hbef

theorem Mend.noOrphans (horph : NoOrphans store) : NoOrphans (kv.applyAll writes store) := by
  intro key hmem
  apply (asked_congr hmend.jobs key).mpr
  cases hmend with
  | orphan removed hstale => exact horph key ((mem_index_apply _ _ _).mp hmem).2
  | missing added hadded =>
    rcases (mem_index_apply _ _ _).mp hmem with rfl | hbef
    · exact hadded
    · exact horph key hbef
  | release | claim => exact horph key hmem

theorem Mend.take (count : ℕ) : writes.take count = [] ∨ writes.take count = writes := by
  rcases Nat.eq_zero_or_pos count with rfl | hpos
  · exact .inl take_zero
  · right
    apply take_of_length_le
    cases hmend <;> exact hpos

omit hmend

/-- What every mend keeps holds wherever the mending stops. -/
theorem mended_take {holds : Store → Prop} (hchain : Chain kv (Mend start) store writes)
    (hkeep : ∀ current block, holds current → Mend start current block →
      holds (kv.applyAll block current)) (hsta : holds store) (count : ℕ) :
    holds (kv.applyAll (writes.take count) store) := by
  apply hchain.invariant_take _ hsta
  intro current block taken hcur hmend
  rcases hmend.take taken with hnone | hall
  · rw [hnone]
    exact hcur
  · rw [hall]
    exact hkeep current block hcur hmend

/-! ## What the records ask for -/

theorem mem_indexWanted (key : IndexKey) : key ∈ indexWanted store.allJobs ↔ Asked store key := by
  rw [indexWanted, mem_filterMap]
  constructor
  · rintro ⟨job, hjob, hown⟩
    rw [mem_allJobs, ← id_of_ownKey hown] at hjob
    exact ⟨job, hjob, hown⟩
  · rintro ⟨job, hjob, hown⟩
    rw [id_of_ownKey hown] at hjob
    exact ⟨job, (mem_allJobs job store).mpr hjob, hown⟩

theorem mem_dedupeWanted (claim : ClaimKey) (id : JobId) :
    (claim, id) ∈ dedupeWanted store.allJobs ↔ Wants store claim id := by
  rw [dedupeWanted, mem_filterMap]
  constructor
  · rintro ⟨job, hjob, hent⟩
    obtain ⟨asked, hclm, heq⟩ := map_eq_some_iff.mp hent
    cases heq
    exact ⟨job, (mem_allJobs job store).mp hjob, hclm⟩
  rintro ⟨job, hjob, hclm⟩
  obtain rfl := store.jobs_id id job hjob
  refine ⟨job, (mem_allJobs job store).mpr hjob, ?_⟩
  rw [hclm]
  rfl

variable {claim : ClaimKey}

theorem exists_newest {id : JobId} (hwants : Wants store claim id) :
    ∃ newest, Newest store claim newest := by
  let askers : Finset JobId :=
    (((dedupeWanted store.allJobs).filter (fun entry => entry.1 = claim)).map Prod.snd).toFinset
  have hmem : ∀ other, other ∈ askers ↔ Wants store claim other := by
    intro other
    rw [List.mem_toFinset, List.mem_map, ← mem_dedupeWanted]
    constructor
    · intro hent
      obtain ⟨⟨key, asker⟩, hent, rfl⟩ := hent
      obtain ⟨hasked, hkey⟩ := List.mem_filter.mp hent
      obtain rfl : key = claim := of_decide_eq_true hkey
      exact hasked
    · intro hent
      exact ⟨(claim, other), List.mem_filter.mpr ⟨hent, decide_eq_true rfl⟩, rfl⟩
  obtain ⟨newest, hnew, hmax⟩ :=
    Finset.exists_max_image askers (fun other => other) ⟨id, (hmem id).mpr hwants⟩
  refine ⟨newest, (hmem newest).mp hnew, ?_⟩
  intro other hother
  exact hmax other ((hmem other).mpr hother)

theorem allJobs_sorted : store.allJobs.Pairwise (fun left right => left.id < right.id) := by
  rw [Store.allJobs, pairwise_map]
  apply (Std.ExtTreeMap.ordered_keys_toList (t := store.jobs)).imp_of_mem
  intro left right hleft hrt hlt
  rw [store.jobs_id left.1 left.2 (Std.ExtTreeMap.mem_toList_iff_getElem?_eq_some.mp hleft),
    store.jobs_id right.1 right.2 (Std.ExtTreeMap.mem_toList_iff_getElem?_eq_some.mp hrt)]
  exact Nat.compare_eq_lt.mp hlt

theorem dedupeWanted_sorted :
    (dedupeWanted store.allJobs).Pairwise (fun left right => left.2 < right.2) := by
  apply allJobs_sorted.filterMap
  intro left right hlt first hfst second hsnd
  obtain ⟨_, -, rfl⟩ := map_eq_some_iff.mp hfst
  obtain ⟨_, -, rfl⟩ := map_eq_some_iff.mp hsnd
  exact hlt

theorem wantedHolder_le {holder : JobId} (hwants : Wants store claim holder) :
    ∃ oldest, wantedHolder (dedupeWanted store.allJobs) claim = some oldest ∧
      Wants store claim oldest ∧ oldest ≤ holder := by
  have hmem := (mem_dedupeWanted claim holder).mpr hwants
  have hsrt := @dedupeWanted_sorted store
  unfold wantedHolder
  cases hfind : (dedupeWanted store.allJobs).find? (fun entry => entry.1 = claim) with
  | none =>
    have hnone := find?_eq_none.mp hfind (claim, holder) hmem
    simp at hnone
  | some entry =>
    obtain ⟨hclm, before, after, hlist, hbef⟩ := find?_eq_some_iff_append.mp hfind
    obtain ⟨key, oldest⟩ := entry
    obtain rfl : key = claim := by simpa using hclm
    have hold : (key, oldest) ∈ dedupeWanted store.allJobs := by
      rw [hlist]
      simp
    refine ⟨oldest, rfl, (mem_dedupeWanted key oldest).mp hold, ?_⟩
    rw [hlist] at hmem hsrt
    rcases mem_append.mp hmem with hely | hlate
    · have hskip := hbef _ hely
      simp at hskip
    · rcases mem_cons.mp hlate with heq | haft
      · rw [(Prod.mk.inj heq).2]
      · exact ((pairwise_cons.mp (pairwise_append.mp hsrt).2.1).1 _ haft).le

theorem wantedHolder_eq_none (hnone : ∀ id, ¬ Wants store claim id) :
    wantedHolder (dedupeWanted store.allJobs) claim = none := by
  rw [wantedHolder, map_eq_none_iff, find?_eq_none]
  intro entry hent hclm
  obtain ⟨key, id⟩ := entry
  obtain rfl : key = claim := by simpa using hclm
  exact hnone id ((mem_dedupeWanted key id).mp hent)

theorem release_reason {holder : JobId}
    (hother : wantedHolder (dedupeWanted store.allJobs) claim ≠ some holder) :
    ¬ Wants store claim holder ∨ ∃ other, Wants store claim other ∧ other < holder := by
  by_cases hwants : Wants store claim holder
  · obtain ⟨oldest, hfind, hold, hle⟩ := wantedHolder_le hwants
    refine .inr ⟨oldest, hold, Nat.lt_of_le_of_ne hle ?_⟩
    rintro rfl
    exact hother hfind
  · exact .inl hwants

/-! ## The four passes -/

def ClaimsAhead (start current : Store) (entries : List (ClaimKey × JobId)) : Prop :=
  ∀ claim id, Newest start claim id → (claim, id) ∈ entries ∨
    current.claims[claim]? = some id ∧ ∀ other, (claim, other) ∉ entries

variable {current : Store}

theorem ClaimsAhead.step {entry : ClaimKey × JobId} {entries : List (ClaimKey × JobId)}
    (hahead : ClaimsAhead start current (entry :: entries))
    (hwants : ∀ later ∈ entry :: entries, Wants start later.1 later.2)
    (hsrt : (entry :: entries).Pairwise (fun left right => left.2 < right.2)) {after : Store}
    (hput : after.claims[entry.1]? = some entry.2)
    (hsame : ∀ claim : ClaimKey, claim ≠ entry.1 → after.claims[claim]? = current.claims[claim]?) :
    ClaimsAhead start after entries := by
  intro claim id hnew
  rcases hahead claim id hnew with hmem | ⟨hclm, hnone⟩
  · rcases mem_cons.mp hmem with rfl | hrest
    · refine .inr ⟨hput, ?_⟩
      intro other hother
      have hlt := (pairwise_cons.mp hsrt).1 _ hother
      have hle := hnew.2 other (hwants _ (mem_cons_of_mem _ hother))
      exact Nat.not_lt.mpr hle hlt
    · exact .inl hrest
  have hne : claim ≠ entry.1 := by
    rintro rfl
    exact hnone entry.2 mem_cons_self
  refine .inr ⟨?_, ?_⟩
  · rwa [hsame claim hne]
  · intro other hother
    exact hnone other (mem_cons_of_mem _ hother)

theorem removeOrphans_goes :
    Goes kv (Mend start)
      (fun _ final => final.jobs = start.jobs ∧ final.claims = start.claims ∧ NoOrphans final)
      ((kv.answer Query.index start).foldlM (removeOrphan (indexWanted start.allJobs)) 0)
      start := by
  apply Goes.foldlM (fun keys _ current => current.jobs = start.jobs ∧
    current.claims = start.claims ∧ ∀ key, key ∈ current.index → Asked start key ∨ key ∈ keys)
  · intro key keys removed current hcur
    obtain ⟨hjobs, hclms, hlt⟩ := hcur
    unfold removeOrphan
    split
    · rename_i hwan
      apply Goes.done_iff.mpr
      refine ⟨hjobs, hclms, ?_⟩
      intro other hother
      rcases hlt other hother with hasked | hmem
      · exact .inl hasked
      · rcases mem_cons.mp hmem with rfl | hrest
        · exact .inl ((mem_indexWanted other).mp hwan)
        · exact .inr hrest
    rename_i hunw
    have hstale : ¬ Asked current key := by
      rw [asked_congr hjobs, ← mem_indexWanted]
      exact hunw
    apply Goes.block [Write.delIndex key] (Mend.orphan key hstale)
    apply Goes.done_iff.mpr
    refine ⟨hjobs, hclms, ?_⟩
    intro other hother
    obtain ⟨hne, hmem⟩ := (mem_index_apply _ _ _).mp hother
    rcases hlt other hmem with hasked | hscan
    · exact .inl hasked
    · exact .inr ((mem_cons.mp hscan).resolve_left (fun heq => hne heq.symm))
  · intro _ final hfin
    obtain ⟨hjobs, hclms, hlt⟩ := hfin
    refine ⟨hjobs, hclms, ?_⟩
    intro key hmem
    rw [asked_congr hjobs]
    exact (hlt key hmem).resolve_right not_mem_nil
  · refine ⟨rfl, rfl, ?_⟩
    intro key hmem
    exact .inr ((mem_answer_index key start).mpr hmem)

theorem addMissing_goes (hjobs : current.jobs = start.jobs)
    (hclms : current.claims = start.claims) (horph : NoOrphans current) :
    Goes kv (Mend start)
      (fun _ final => final.jobs = start.jobs ∧ final.claims = start.claims ∧
        HasKeys final ∧ NoOrphans final)
      ((indexWanted start.allJobs).foldlM addMissing 0) current := by
  apply Goes.foldlM (fun keys _ current => (current.jobs = start.jobs ∧
    current.claims = start.claims ∧ NoOrphans current) ∧
    (∀ key, Asked start key → key ∈ current.index ∨ key ∈ keys) ∧
    ∀ key ∈ keys, Asked start key)
  · intro key keys added current hcur
    obtain ⟨⟨hjobs, hclms, horph⟩, hpres, hwan⟩ := hcur
    have hasked := hwan key mem_cons_self
    have hrest : ∀ other ∈ keys, Asked start other := by
      intro other hother
      exact hwan other (mem_cons_of_mem key hother)
    unfold addMissing
    simp only [query_bind, Goes.ask_iff, answer_hasIndex, decide_eq_true_eq]
    split
    · rename_i hmem
      apply Goes.done_iff.mpr
      refine ⟨⟨hjobs, hclms, horph⟩, ?_, hrest⟩
      intro other hother
      rcases hpres other hother with hthere | hahead
      · exact .inl hthere
      · rcases mem_cons.mp hahead with rfl | hltr
        · exact .inl hmem
        · exact .inr hltr
    have hmend : Mend start current [.putIndex key] :=
      .missing key ((asked_congr hjobs key).mpr hasked)
    apply Goes.block [Write.putIndex key] hmend
    apply Goes.done_iff.mpr
    refine ⟨⟨hjobs, hclms, hmend.noOrphans horph⟩, ?_, hrest⟩
    intro other hother
    rcases hpres other hother with hthere | hahead
    · exact .inl ((mem_index_apply _ _ _).mpr (.inr hthere))
    · rcases mem_cons.mp hahead with rfl | hltr
      · exact .inl ((mem_index_apply _ _ _).mpr (.inl rfl))
      · exact .inr hltr
  · intro _ final hfin
    obtain ⟨⟨hjobs, hclms, horph⟩, hpres, -⟩ := hfin
    refine ⟨hjobs, hclms, ?_, horph⟩
    intro key hasked
    exact (hpres key ((asked_congr hjobs key).mp hasked)).resolve_right not_mem_nil
  refine ⟨⟨hjobs, hclms, horph⟩, ?_, ?_⟩
  · intro key hasked
    exact .inr ((mem_indexWanted key).mpr hasked)
  · intro key hmem
    exact (mem_indexWanted key).mp hmem

/-- Records and index agree; claims are another matter. -/
structure Indexed (start current : Store) : Prop where
  jobs : current.jobs = start.jobs
  keys : HasKeys current
  orphans : NoOrphans current

variable (hidxd : Indexed start current)
include hidxd

theorem Indexed.mend (hmend : Mend start current writes) :
    Indexed start (kv.applyAll writes current) :=
  ⟨hmend.jobs.trans hidxd.jobs, hmend.hasKeys hidxd.keys, hmend.noOrphans hidxd.orphans⟩

theorem removeClaims_goes (hclms : current.claims = start.claims) :
    Goes kv (Mend start)
      (fun _ final => Indexed start final ∧
        ∀ claim, (∀ id, ¬ Wants start claim id) → final.claims[claim]? = none)
      ((kv.answer Query.claims current).foldlM
        (removeClaim (dedupeWanted start.allJobs)) 0) current := by
  apply Goes.foldlM (fun entries _ current => Indexed start current ∧
    (∀ entry ∈ entries, start.claims[entry.1]? = some entry.2) ∧
    ∀ claim, (∀ id, ¬ Wants start claim id) →
      ∀ holder, current.claims[claim]? = some holder → (claim, holder) ∈ entries)
  · intro entry entries removed current hcur
    obtain ⟨hidxd, hheld, hlt⟩ := hcur
    have hrest : ∀ other ∈ entries, start.claims[other.1]? = some other.2 := by
      intro other hother
      exact hheld other (mem_cons_of_mem entry hother)
    unfold removeClaim
    split
    · rename_i hwan
      apply Goes.done_iff.mpr
      refine ⟨hidxd, hrest, ?_⟩
      intro claim hnone holder hhol
      rcases mem_cons.mp (hlt claim hnone holder hhol) with rfl | hltr
      · rw [wantedHolder_eq_none hnone] at hwan
        cases hwan
      · exact hltr
    rename_i hother
    have hmend : Mend start current [.delClaim entry.1] :=
      .release entry.1 entry.2 (hheld entry mem_cons_self) (release_reason hother)
    apply Goes.block [Write.delClaim entry.1] hmend
    apply Goes.done_iff.mpr
    refine ⟨hidxd.mend hmend, hrest, ?_⟩
    intro claim hnone holder hhol
    simp only [Machine.applyAll_cons, Machine.applyAll_nil, claims_apply] at hhol
    split at hhol
    · cases hhol
    rename_i hne
    rcases mem_cons.mp (hlt claim hnone holder hhol) with rfl | hltr
    · exact absurd rfl hne
    · exact hltr
  · intro _ final hfin
    obtain ⟨hidxd, -, hlt⟩ := hfin
    refine ⟨hidxd, ?_⟩
    intro claim hnone
    rw [eq_none_iff_forall_not_mem]
    intro holder hhol
    exact not_mem_nil (hlt claim hnone holder hhol)
  refine ⟨hidxd, ?_, ?_⟩
  · intro entry hent
    rw [← hclms]
    exact Std.ExtTreeMap.mem_toList_iff_getElem?_eq_some.mp hent
  · intro claim _ holder hhol
    exact Std.ExtTreeMap.mem_toList_iff_getElem?_eq_some.mpr hhol

theorem addClaims_goes
    (hunw : ∀ claim, (∀ id, ¬ Wants start claim id) → current.claims[claim]? = none) :
    Goes kv (Mend start)
      (fun _ final => Indexed start final ∧
        (∀ claim, (∀ id, ¬ Wants start claim id) → final.claims[claim]? = none) ∧
        ∀ claim id, Newest start claim id → final.claims[claim]? = some id)
      ((dedupeWanted start.allJobs).foldlM addClaim 0) current := by
  apply Goes.foldlM (fun entries _ current => Indexed start current ∧
    (∀ claim, (∀ id, ¬ Wants start claim id) → current.claims[claim]? = none) ∧
    (∀ entry ∈ entries, Wants start entry.1 entry.2) ∧
    entries.Pairwise (fun left right => left.2 < right.2) ∧
    ClaimsAhead start current entries)
  · intro entry entries added current hcur
    obtain ⟨hidxd, hunw, hwants, hsrt, hahead⟩ := hcur
    have hent := hwants entry mem_cons_self
    have hrest : ∀ other ∈ entries, Wants start other.1 other.2 := by
      intro other hother
      exact hwants other (mem_cons_of_mem entry hother)
    unfold addClaim
    simp only [query_bind, Goes.ask_iff, answer_claim]
    split
    · rename_i hheld
      apply Goes.done_iff.mpr
      exact ⟨hidxd, hunw, hrest, hsrt.of_cons, hahead.step hwants hsrt hheld (fun _ _ => rfl)⟩
    have hmend : Mend start current [.putClaim entry.1 entry.2] :=
      .claim entry.1 entry.2 hent
    apply Goes.block [Write.putClaim entry.1 entry.2] hmend
    apply Goes.done_iff.mpr
    refine ⟨hidxd.mend hmend, ?_, hrest, hsrt.of_cons, hahead.step hwants hsrt ?_ ?_⟩
    · intro claim hnone
      have hne : entry.1 ≠ claim := by
        rintro rfl
        exact hnone entry.2 hent
      simp [hne, hunw claim hnone]
    · simp
    · intro claim hne
      simp [hne.symm]
  · intro _ final hfin
    obtain ⟨hidxd, hunw, -, -, hahead⟩ := hfin
    refine ⟨hidxd, hunw, ?_⟩
    intro claim id hnew
    exact ((hahead claim id hnew).resolve_left not_mem_nil).1
  refine ⟨hidxd, hunw, ?_, dedupeWanted_sorted, ?_⟩
  · intro entry hent
    exact (mem_dedupeWanted entry.1 entry.2).mp hent
  · intro claim id hnew
    exact .inl ((mem_dedupeWanted claim id).mpr hnew.1)

omit hidxd

theorem repair_goes :
    Goes kv (Mend start)
      (fun _ final => Indexed start final ∧
        (∀ claim, (∀ id, ¬ Wants start claim id) → final.claims[claim]? = none) ∧
        ∀ claim id, Newest start claim id → final.claims[claim]? = some id)
      repair start := by
  unfold repair
  simp only [query_bind, Goes.ask_iff, answer_jobs]
  apply Goes.bind
  apply removeOrphans_goes.weaken
  intro indexRemoved cleaned hclean
  obtain ⟨hjobs, hclms, horph⟩ := hclean
  apply Goes.bind
  apply (addMissing_goes hjobs hclms horph).weaken
  intro indexAdded indexed hidxd
  obtain ⟨hjobs, hclms, hkeys, horph⟩ := hidxd
  rw [Goes.ask_iff]
  apply Goes.bind
  apply (removeClaims_goes ⟨hjobs, hkeys, horph⟩ hclms).weaken
  intro dedupeRemoved released hrel
  apply Goes.bind
  apply (addClaims_goes hrel.1 hrel.2).weaken
  intro dedupeAdded final hfin
  exact Goes.done_iff.mpr hfin

end WasmAgent.Queue
