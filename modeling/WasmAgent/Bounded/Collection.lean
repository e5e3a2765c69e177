import WasmAgent.Bounded.Blobs

/-!
# What a collection removes

A collection asks the counts, the pins and the age of each blob once.  What it removes was
due when it began, and what was due is gone when it succeeds.
-/

namespace WasmAgent.Bounded.BlobStore

open List WasmAgent.Core

variable {disk : GcDisk} {now : Instant} {ttl : ℕ} {store before middle after : BlobStore}
variable {key : BlobKey} {keys more : List BlobKey}

/-- Nobody references the blob, nobody pinned it, and it is old enough. -/
def Due (disk : GcDisk) (now : Instant) (ttl : ℕ) (store : BlobStore) (key : BlobKey) : Prop :=
  store.isPinned key = false ∧ store.refcount key = 0 ∧ ∃ file, store.file? key = some file ∧
    disk.aged key = true ∧ ttl ≤ since now file.modified

/-- How looking at some keys ends. -/
structure Collected (disk : GcDisk) (now : Instant) (ttl : ℕ) (keys : List BlobKey)
    (before : BlobStore) (finished : Prop) (after : BlobStore) : Prop where
  pins : after.pins = before.pins
  refs : after.refs = before.refs
  files : ∀ key, after.file? key = before.file? key ∨
    Due disk now ttl before key ∧ after.file? key = none
  done : finished → ∀ key ∈ keys, Due disk now ttl before key → after.file? key = none

theorem Collected.of_same {finished : Prop}
    (hdone : finished → ∀ key ∈ keys, ¬ Due disk now ttl store key) :
    Collected disk now ttl keys store finished store where
  pins := rfl
  refs := rfl
  files _ := .inl rfl
  done hfin key hkey hdue := absurd hdue (hdone hfin key hkey)

theorem Collected.due_middle {finished : Prop}
    (hfst : Collected disk now ttl keys before finished middle) (key : BlobKey) :
    (Due disk now ttl middle key → Due disk now ttl before key) ∧
      (Due disk now ttl before key → Due disk now ttl middle key ∨ middle.file? key = none) := by
  have hpin : middle.isPinned key = before.isPinned key := by
    rw [isPinned, isPinned, hfst.pins]
  have hcnt : middle.refcount key = before.refcount key := by
    rw [refcount, refcount, hfst.refs]
  rw [Due, Due, hpin, hcnt]
  cases hfst.files key with
  | inl hsame =>
    rw [hsame]
    exact ⟨id, .inl⟩
  | inr hgone =>
    rw [hgone.2]
    constructor
    · intro hdue
      obtain ⟨file, hfile, -⟩ := hdue.2.2
      cases hfile
    · exact fun _ => .inr rfl

theorem Collected.trans {first second : Prop}
    (hfst : Collected disk now ttl keys before first middle)
    (hsnd : Collected disk now ttl more middle second after) :
    Collected disk now ttl (keys ++ more) before (first ∧ second) after where
  pins := hsnd.pins.trans hfst.pins
  refs := hsnd.refs.trans hfst.refs
  files key := by
    cases hsnd.files key with
    | inl hsame =>
      rw [hsame]
      exact hfst.files key
    | inr hgone => exact .inr ⟨(hfst.due_middle key).1 hgone.1, hgone.2⟩
  done hboth key hkey hdue := by
    have hnone : middle.file? key = none → after.file? key = none := by
      intro hmid
      cases hsnd.files key with
      | inl hsame => rw [hsame, hmid]
      | inr hgone => exact hgone.2
    cases mem_append.mp hkey with
    | inl hkey => exact hnone (hfst.done hboth.1 key hkey hdue)
    | inr hkey =>
      cases (hfst.due_middle key).2 hdue with
      | inl hdue => exact hsnd.done hboth.2 key hkey hdue
      | inr hgone => exact hnone hgone

theorem Collected.weaken {first second : Prop}
    (hclt : Collected disk now ttl keys before first after) (hweak : second → first) :
    Collected disk now ttl keys before second after :=
  { hclt with done := fun hsnd => hclt.done (hweak hsnd) }

theorem file?_erase (key other : BlobKey) :
    (store.erase key).file? other = if other = key then none else store.file? other := by
  change (store.files.filter (fun file => file.key ≠ key)).find? _ = if other = key then none else
    store.files.find? (fun file => file.key = other)
  induction store.files with
  | nil => exact (ite_self none).symm
  | cons file files ih =>
    by_cases hkey : file.key = key
    · rw [filter_cons_of_neg (by rw [decide_eq_true_iff]; exact fun hne => hne hkey), ih,
        find?_cons]
      by_cases hoth : other = key
      · rw [if_pos hoth, if_pos hoth]
      · rw [if_neg hoth, if_neg hoth, decide_eq_false (fun hsame => hoth (hsame.symm.trans hkey))]
    rw [filter_cons_of_pos (by rwa [decide_eq_true_iff]), find?_cons, find?_cons]
    by_cases hfile : file.key = other
    · rw [decide_eq_true hfile, if_neg (fun hsame => hkey (hfile.trans hsame))]
    · rw [decide_eq_false hfile]
      exact ih

theorem collect_run (disk : GcDisk) (now : Instant) (ttl : ℕ) (report : GcReport)
    (key : BlobKey) (store : BlobStore) :
    Collected disk now ttl [key] store (∃ report', (collect disk now ttl report key store).1 =
      .ok report') (collect disk now ttl report key store).2 := by
  have honly : ∀ {other}, ¬ Due disk now ttl store key → other ∈ [key] →
      ¬ Due disk now ttl store other := by
    intro other hnot hoth
    rwa [mem_singleton.mp hoth]
  have hread : ∀ next : BlobStore → Effect BlobStore Error GcReport,
      (Effect.read >>= next) store = next store store := fun _ => rfl
  rw [collect, hread]
  dsimp only
  by_cases hheld : (store.isPinned key || decide (0 < store.refcount key)) = true
  · rw [if_pos hheld]
    apply Collected.of_same
    intro _ other
    apply honly
    intro hdue
    rw [hdue.1, hdue.2.1] at hheld
    cases hheld
  rw [if_neg hheld]
  rw [Bool.or_eq_true, decide_eq_true_iff, not_or] at hheld
  cases hfile : store.file? key with
  | none =>
    apply Collected.of_same
    intro _ other
    apply honly
    intro hdue
    obtain ⟨file, hfnd, -⟩ := hdue.2.2
    cases hfile.symm.trans hfnd
  | some file =>
    change Collected _ _ _ [key] store (∃ report', ((if !disk.aged key then _ else
      if since now file.modified < ttl then _ else _ : Effect BlobStore Error GcReport)
        store).1 = .ok report')
      ((if !disk.aged key then _ else
      if since now file.modified < ttl then _ else _ : Effect BlobStore Error GcReport) store).2
    by_cases haged : disk.aged key = true
    · rw [haged, if_neg (by decide)]
      by_cases hyng : since now file.modified < ttl
      · rw [if_pos hyng]
        apply Collected.of_same
        intro _ other
        apply honly
        intro hdue
        obtain ⟨found, hfnd, -, hold⟩ := hdue.2.2
        cases hfile.symm.trans hfnd
        exact Nat.not_lt.mpr hold hyng
      rw [if_neg hyng]
      have hdue : Due disk now ttl store key :=
        ⟨Bool.eq_false_iff.mpr hheld.1, Nat.eq_zero_of_not_pos hheld.2, file, hfile, haged,
          Nat.le_of_not_lt hyng⟩
      cases hrem : disk.remove key with
      | error why =>
        apply Collected.of_same
        intro hok
        cases hok.choose_spec
      | ok _ =>
        constructor
        · rfl
        · rfl
        · intro other
          change (store.erase key).file? other = _ ∨ _ ∧ (store.erase key).file? other = _
          rw [file?_erase]
          by_cases hsame : other = key
          · rw [if_pos hsame, hsame]
            exact .inr ⟨hdue, rfl⟩
          · rw [if_neg hsame]
            exact .inl rfl
        · intro _ other hoth _
          change (store.erase key).file? other = _
          rw [file?_erase, if_pos (mem_singleton.mp hoth)]
    rw [Bool.not_eq_true] at haged
    rw [haged, if_pos (by decide)]
    apply Collected.of_same
    intro _ other
    apply honly
    intro hdue
    obtain ⟨found, -, hoth, -⟩ := hdue.2.2
    cases haged.symm.trans hoth

theorem foldlM_collect (disk : GcDisk) (now : Instant) (ttl : ℕ) (keys : List BlobKey)
    (report : GcReport) (store : BlobStore) :
    Collected disk now ttl keys store
      (∃ report', (keys.foldlM (collect disk now ttl) report store).1 = .ok report')
      (keys.foldlM (collect disk now ttl) report store).2 := by
  induction keys generalizing report store with
  | nil => exact Collected.of_same (fun _ => nofun)
  | cons key keys ih =>
    have hfst := collect_run disk now ttl report key store
    rw [foldlM_cons]
    cases hcoll : collect disk now ttl report key store with
    | mk answer middle =>
      rw [hcoll] at hfst
      cases answer with
      | error fault =>
        rw [Effect.bind_of_error hcoll]
        constructor
        · exact hfst.pins
        · exact hfst.refs
        · exact hfst.files
        · intro hok
          cases hok.choose_spec
      | ok reached =>
        rw [Effect.bind_of_ok hcoll]
        exact (hfst.trans (ih reached middle)).weaken (fun hok => ⟨⟨reached, rfl⟩, hok⟩)

/-- How a collection ends. -/
structure Swept (disk : GcDisk) (now : Instant) (ttl : ℕ) (before : BlobStore)
    (answer : Except Error GcReport) (after : BlobStore) : Prop where
  refs : (∀ key, 0 < before.refs.count key → before.has key = true) → after.refs = before.refs
  spared : ∀ key, ¬ Due disk now ttl before key → after.has key = before.has key
  removed : ∀ report, answer = .ok report → ∀ key, Due disk now ttl before key →
    after.has key = false

theorem mem_keys_of_file? {file : BlobFile} (hfile : store.file? key = some file) :
    key ∈ store.keys := by
  rw [keys, mem_mergeSort, mem_map]
  have hkey := find?_some hfile
  exact ⟨file, mem_of_find?_eq_some hfile, of_decide_eq_true hkey⟩

theorem gc_run (disk : GcDisk) (now : Instant) (ttl : ℕ) (store : BlobStore) :
    Swept disk now ttl store (gc disk now ttl store).1 (gc disk now ttl store).2 := by
  have hrun : gc disk now ttl store = (perform disk.list >>= fun _ =>
      (store.keys.foldlM (collect disk now ttl) ⟨0, [], 0, 0, 0⟩) >>= fun report => do
        Effect.write (fun store => { store with refs := store.refs.keep store.has })
        perform disk.index
        return report : Effect BlobStore Error GcReport) store := by
    rw [gc]
    cases disk.list <;> rfl
  have hclt := foldlM_collect disk now ttl store.keys ⟨0, [], 0, 0, 0⟩ store
  rw [hrun]
  cases hlist : disk.list with
  | error why => exact ⟨fun _ => rfl, fun _ _ => rfl, fun _ hok => by cases hok⟩
  | ok _ =>
    change Swept disk now ttl store ((store.keys.foldlM (collect disk now ttl) _ >>= _ :
      Effect BlobStore Error GcReport) store).1 ((store.keys.foldlM (collect disk now ttl) _ >>= _ :
      Effect BlobStore Error GcReport) store).2
    cases hfold : store.keys.foldlM (collect disk now ttl) ⟨0, [], 0, 0, 0⟩ store with
    | mk answer middle =>
      rw [hfold] at hclt
      have hspa : ∀ key, ¬ Due disk now ttl store key → middle.has key = store.has key := by
        intro key hnot
        cases hclt.files key with
        | inl hsame => rw [has, has, hsame]
        | inr hgone => exact absurd hgone.1 hnot
      cases answer with
      | error fault =>
        rw [Effect.bind_of_error hfold]
        exact ⟨fun _ => hclt.refs, hspa, fun _ hok => by cases hok⟩
      | ok report =>
        rw [Effect.bind_of_ok hfold]
        have hlt : ∀ (answer : Answer), ((do
            Effect.write (fun store : BlobStore => { store with refs := store.refs.keep store.has })
            perform answer
            return report : Effect BlobStore Error GcReport) middle).2 =
              { middle with refs := middle.refs.keep middle.has } := by
          intro answer
          cases answer <;> rfl
        have hhas : ∀ key, BlobStore.has { middle with refs := middle.refs.keep middle.has } key =
            middle.has key := has_of_files rfl
        constructor
        · intro hcntd
          rw [hlt]
          ext key
          change (if middle.has key then middle.refs.count key else 0) = _
          rw [hclt.refs]
          split
          · rfl
          rename_i hgone
          by_contra hheld
          have hpos : 0 < store.refs.count key := Nat.pos_of_ne_zero (Ne.symm hheld)
          have hnot : ¬ Due disk now ttl store key := fun hdue =>
            Nat.ne_of_gt hpos hdue.2.1
          exact hgone ((hspa key hnot).trans (hcntd key hpos))
        · intro key hnot
          rw [hlt, hhas]
          exact hspa key hnot
        intro _ _ key hdue
        obtain ⟨file, hfile, -⟩ := hdue.2.2
        rw [hlt, hhas, has, hclt.done ⟨report, rfl⟩ key (mem_keys_of_file? hfile) hdue]
        rfl

end WasmAgent.Bounded.BlobStore
