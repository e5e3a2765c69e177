import WasmAgent.State.Folding
import WasmAgent.State.Reserved

/-!
# What a pre-migration snapshot holds

A migration hands its snapshot to the sink before it looks for a journal.  The
snapshot holds the data of one version exactly when no change of a step that is
still under way has been made.
-/

namespace WasmAgent.State

open List Std WasmAgent.Core

/-- Terms that ask nothing of the data or the steps; versions may be asked to start at one. -/
def Terms.free (crates : Crates) (component : String) (counted : Prop) : Terms :=
  ⟨crates, component, fun version _ => counted → version ≠ 0, fun _ => True, fun _ _ _ => True⟩

def AlongPath (holds : Batch → Batch → Prop) (migrator : Migrator) (target : UInt32)
    (store : Namespace) : Prop :=
  ∀ start progress steps, start.batch.entries = store.user →
    (∃ found, Meta.read store = .ok (some found) ∧ found.schemaVersion = start.version) →
    migrator.foldJournal store start = .ok progress →
    migrator.plan progress.version target = .ok steps →
    Along (fun _ batch next => holds batch next) steps progress.batch

/-- No step of the path that would be walked from here makes a key of the engine's own. -/
def Tidy (migrator : Migrator) (target : UInt32) (store : Namespace) : Prop :=
  AlongPath (fun _ next => Plain next.entries) migrator target store

theorem plain_fold {migrator : Migrator} {store : Namespace} {start progress : Migrator.Progress}
    (hsta : Plain start.batch.entries)
    (hfold : migrator.foldJournal store start = .ok progress) : Plain progress.batch.entries := by
  obtain ⟨found, -, hfold⟩ := bind_eq_ok.mp hfold
  cases found with
  | none =>
    cases hfold
    exact hsta
  | some journal =>
    dsimp only at hfold
    split at hfold
    · cases hfold
      exact hsta
    split at hfold
    · obtain ⟨changes, -, hfold⟩ := bind_eq_ok.mp hfold
      obtain ⟨replayed, hrpd, hfold⟩ := bind_eq_ok.mp hfold
      cases hfold
      exact plain_applyToBatch hsta hrpd
    · cases hfold
      exact hsta

theorem tidy_of_withdraws {migrator : Migrator} {up down : UInt32 → StepProgram}
    (hbuilt : Built migrator.registry up down) (hup : ∀ version batch, Withdraws (up version) batch)
    (hdown : ∀ version batch, Withdraws (down version) batch) (target : UInt32)
    (store : Namespace) : Tidy migrator target store := by
  intro start progress steps hents _ hfold hplan
  have hsta : Plain start.batch.entries := by
    rw [hents]
    exact Namespace.plain_user store
  apply (along_plain_iff hbuilt (Registry.plan_offers hplan) (plain_fold hsta hfold)).mpr
  apply Along.of_forall
  intro planned before _
  rw [PlannedStep.program]
  split
  · exact hup _ before
  · exact hdown _ before

theorem Notes.tidy (value back : Bytes) (target : UInt32) (store : Namespace) :
    Tidy (Notes.migrator (Notes.rewrite value) (Notes.rewrite back)) target store :=
  tidy_of_withdraws (Notes.built _ _) (fun _ => (Notes.rewrite_noMoves value).withdraws)
    (fun _ => (Notes.rewrite_noMoves back).withdraws) target store

def TidyAttempt (crates : Crates) (attempt : Attempt) (store : Namespace) : Prop :=
  attempt.migrator.crates = crates ∧ Tidy attempt.migrator attempt.target store

section Runs

variable {crates : Crates} {component : String} {counted : Prop} {state : Tracked}
  {store : Namespace}

variable {version : UInt32} {terms : Terms} (hstds : Stands terms state version)
include hstds

theorem Stands.named : Named state.store version terms.component := by
  cases hstds with
  | idle hidle => exact hidle.lands.store
  | underway _ _ _ hund => exact hund.lands.store
  | committed _ _ hcomm => exact hcomm.lands.store

theorem Stands.landed : Named state.landed version terms.component := by
  cases hstds with
  | idle hidle => exact hidle.lands.landed
  | underway _ _ _ hund => exact hund.lands.landed
  | committed _ _ hcomm => exact hcomm.lands.landed

theorem Stands.good : terms.good version state.landed.user := by
  cases hstds with
  | idle hidle => exact hidle.lands.good
  | underway _ _ _ hund => exact hund.lands.good
  | committed _ _ hcomm => exact hcomm.lands.good

omit hstds

theorem soundPath_of_tidy {migrator : Migrator} {target : UInt32}
    (hstg : Standing (.free crates component counted) state) (hcr : migrator.crates = crates)
    (htidy : Tidy migrator target state.store) :
    SoundPath (.free crates component counted) migrator target state.store := by
  intro start progress steps hents hnmd hfns hplan
  obtain ⟨version, hstds⟩ := hstg
  obtain ⟨known, hknw, hat, -⟩ := hnmd.read
  have hver : start.version = version := hat.symm.trans (hstds.named.of_read_eq hknw).1
  obtain ⟨folded, hfold, hsame, hbat⟩ := fold_of_finish hcr hstds hver hfns
  rw [← hsame] at hplan
  have halong := htidy start folded steps hents ⟨known, hknw, hat⟩ hfold hplan
  rw [hbat] at halong
  apply halong.weaken
  intro planned hplnd _ next hpln
  exact ⟨hpln, fun _ => (Registry.plan_offers hplan planned hplnd).nonzero,
    fun _ => trivial, fun _ => trivial⟩

/-- A namespace with no unfinished migration is at rest. -/
theorem standing_of_named (hnmd : Named store version component)
    (hver : counted → version ≠ 0) (hjrn : store.get Key.journal = none) :
    Standing (.free crates component counted) ⟨store, store⟩ :=
  Idle.standing ⟨⟨hnmd, hnmd, hver⟩, rfl, hjrn⟩

theorem standing_of_tidy {attempts : List Attempt}
    (hstg : Standing (.free crates component counted) state)
    (htidy : EachAttempt (TidyAttempt crates) attempts state.store) :
    Standing (.free crates component counted) (afterRunTracked attempts state) := by
  induction attempts generalizing state with
  | nil => exact hstg
  | cons attempt attempts ih =>
    obtain ⟨⟨hcr, hhead⟩, hrest⟩ := htidy
    rw [← Attempt.leavesTracked_store] at hrest
    exact ih (attempt.leaves_standing hstg hcr (soundPath_of_tidy hstg hcr hhead)) hrest

end Runs

def Untouched (crates : Crates) (store : Namespace) : Prop :=
  ∀ found journal pending first rest, Meta.read store = .ok (some found) →
    store.get Key.journal = some (crates.printJournal journal) →
    journal.pendingStep = some pending → pending.fromVersion = found.schemaVersion →
    store.get Key.pending = some (encodeChanges (first :: rest)) → Listable (first :: rest) →
    store.get first.key ≠ first.value

def HoldsLanding (snapshot : Snapshot) (landed : Namespace) : Prop :=
  snapshot.entries = landed.user.toList ∧
    ∃ found, Meta.read landed = .ok (some found) ∧
      found.schemaVersion = snapshot.header.schemaVersion

section Snapshots

variable {terms : Terms} {state : Tracked} {version : UInt32} {pending : PendingStep}
  {changes : List Change} {done : ℕ} {target : UInt32} {now : UInt64} {migrator : Migrator}
  {found : Meta} {snapshot : Snapshot}

theorem toList_inj {left right : Table} (hsame : left.toList = right.toList) : left = right := by
  rw [← Core.Change.applyAll_puts left, hsame, Core.Change.applyAll_puts]

theorem get_of_plain {store : Namespace} {key : Bytes} (hpln : isReserved key = false) :
    store.get key = store.user[key]? := by
  rw [Namespace.getElem?_user, hpln]
  rfl

theorem Underway.user_eq_iff (hund : Underway terms state version pending changes done) :
    state.store.user = state.landed.user ↔ Untouched terms.crates state.store := by
  obtain ⟨known, hknw, hat, -⟩ := hund.lands.store.read
  obtain ⟨journal, hjrn, hstep⟩ := hund.written.journal
  have hlsb := hund.written.listable
  constructor
  · intro hsame found other otherPending first rest hread hoth hotherStep hfrom hlist hfst
    cases changes with
    | nil =>
      rw [hund.written.list, Option.some.injEq] at hlist
      exact absurd hlist encodeChanges_nil_ne
    | cons change changes =>
      rw [hund.written.list, Option.some.injEq] at hlist
      obtain rfl := head_of_encodeChanges hlsb hfst hlist
      rw [get_of_plain (hlsb.plain change mem_cons_self), hsame]
      exact hund.alters change mem_cons_self
  intro hunt
  rw [hund.user]
  cases changes with
  | nil => rw [take_nil, Core.Change.applyAll_nil]
  | cons change changes =>
    cases done with
    | zero => rw [take_zero, Core.Change.applyAll_nil]
    | succ done =>
      have hmade : state.store.get change.key = change.value := by
        rw [get_of_plain (hlsb.plain change mem_cons_self), hund.user]
        apply Core.Change.getElem?_applyAll_mem
        · rw [map_take]
          exact (take_sublist _ _).nodup hlsb.nodup
        · rw [take_succ_cons]
          exact mem_cons_self
      exact absurd hmade (hunt known journal pending change changes hknw hjrn hstep
        (hund.starts.trans hat.symm) hund.written.list hlsb)

theorem Stands.user_eq_iff (hstds : Stands terms state version) :
    state.store.user = state.landed.user ↔ Untouched terms.crates state.store := by
  cases hstds with
  | idle hidle =>
    refine ⟨fun _ => ?_, fun _ => hidle.user⟩
    intro found journal pending first rest _ hjrn
    rw [hidle.journal] at hjrn
    cases hjrn
  | underway pending changes done hund => exact hund.user_eq_iff
  | committed pending changes hcomm =>
    refine ⟨fun _ => ?_, fun _ => hcomm.user⟩
    intro found other otherPending first rest hread hoth hotherStep hfrom
    obtain ⟨journal, hjrn, hstep⟩ := hcomm.written.journal
    rw [hjrn, Option.some.injEq] at hoth
    obtain rfl := terms.crates.printJournal_inj hoth
    rw [hstep, Option.some.injEq] at hotherStep
    obtain rfl := hotherStep
    have hat := (hcomm.lands.store.of_read_eq hread).1
    exact absurd (hfrom.trans (hat.trans hcomm.ends.symm)) hcomm.agreed.adjacent.ne

theorem holdsLanding_iff (hstds : Stands terms state version)
    (hprep : migrator.Prepared target now state.store found snapshot) :
    HoldsLanding snapshot state.landed ↔ state.store.user = state.landed.user := by
  obtain ⟨hents, hhead⟩ := Snapshot.of_take hprep.taken
  have hread := (Migrator.openMeta_ok_iff.mp hprep.opened).2.1
  have hat := (hstds.named.of_read_eq hread).1
  obtain ⟨known, hknw, hland, -⟩ := hstds.landed.read
  rw [HoldsLanding, hents]
  constructor
  · intro hhld
    exact toList_inj hhld.1
  · intro hsame
    rw [hsame]
    exact ⟨rfl, known, hknw, hland.trans (hat.symm.trans hhead.symm)⟩

end Snapshots

/-- In a run of tidy calls, the snapshot that a call hands to its sink holds the data of
the last landing exactly when nothing of a step under way is made. -/
theorem snapshot_settled_iff (crates : Crates) (store : Namespace)
    (hjournal : store.get Key.journal = none) (attempts : List Attempt)
    (htidy : EachAttempt (TidyAttempt crates) attempts store) (migrator : Migrator)
    (target : UInt32) (now : UInt64) (found : Meta) (snapshot : Snapshot)
    (hhanded : migrator.prepare target now (afterRun attempts store) = .ok (found, snapshot)) :
    HoldsLanding snapshot (afterRunTracked attempts ⟨store, store⟩).landed ↔
      Untouched crates (afterRun attempts store) := by
  have hprepared := Migrator.prepare_ok_iff.mp hhanded
  have hread := (Migrator.openMeta_ok_iff.mp hprepared.opened).2.1
  by_cases hunnamed : Unnamed store
  · rw [afterRun_unnamed attempts hunnamed] at hread
    exact absurd hread (hunnamed found)
  obtain ⟨first, hfirst⟩ := not_forall.mp hunnamed
  have hnamed := (Meta.of_read (not_not.mp hfirst)).1
  obtain ⟨version, hstands⟩ := 
    standing_of_tidy (standing_of_named hnamed False.elim hjournal) htidy
  have hstore : (afterRunTracked attempts ⟨store, store⟩).store = afterRun attempts store :=
    afterRunTracked_store attempts _
  rw [← hstore] at hprepared ⊢
  rw [holdsLanding_iff hstands hprepared]
  exact hstands.user_eq_iff

namespace Notes

/-- Two notes at the first version. -/
def notes : Namespace := store 1 [(utf8 "a", utf8 "1"), (utf8 "b", utf8 "1")]

/-- The component whose step writes the notes anew, and whose step back undoes that. -/
def rewriter : Migrator := migrator (rewrite (utf8 "2")) (rewrite (utf8 "1"))

/-- An upgrade that is stopped after some of its writes. -/
def upgrade (stop : ℕ) : Attempt := ⟨rewriter, 2, 5, stop⟩

end Notes

/-- An upgrade stopped before its first change: the next snapshot holds the first version. -/
theorem snapshot_settled_notes :
    ∃ found snapshot,
      Notes.rewriter.prepare 2 6 (afterRun [Notes.upgrade 2] Notes.notes) =
        .ok (found, snapshot) ∧
      (HoldsLanding snapshot (afterRunTracked [Notes.upgrade 2] ⟨Notes.notes, Notes.notes⟩).landed ↔
        Untouched Records.crates (afterRun [Notes.upgrade 2] Notes.notes)) := by
  obtain ⟨handed, hhanded⟩ : ∃ handed,
      Notes.rewriter.prepare 2 6 (afterRun [Notes.upgrade 2] Notes.notes) = .ok handed := by
    apply ok_of_isSome
    decide +kernel
  exact ⟨handed.1, handed.2, hhanded, snapshot_settled_iff Records.crates Notes.notes
    (by decide +kernel) [Notes.upgrade 2] ⟨⟨rfl, Notes.tidy _ _ _ _⟩, trivial⟩ Notes.rewriter 2 6
    handed.1 handed.2 hhanded⟩

/-- An upgrade stopped after its first change: the next snapshot holds one note of either
version, under the first. -/
theorem snapshot_mixes_notes :
    ∃ found snapshot,
      Notes.rewriter.prepare 2 6 (afterRun [Notes.upgrade 3] Notes.notes) =
        .ok (found, snapshot) ∧
      snapshot.header.schemaVersion = 1 ∧
      snapshot.entries = [(utf8 "a", utf8 "2"), (utf8 "b", utf8 "1")] ∧
      ¬HoldsLanding snapshot
        (afterRunTracked [Notes.upgrade 3] ⟨Notes.notes, Notes.notes⟩).landed := by
  have hentries : (Notes.rewriter.prepare 2 6 (afterRun [Notes.upgrade 3] Notes.notes)).map
      (fun handed => (handed.2.header.schemaVersion, handed.2.entries)) =
        .ok (1, [(utf8 "a", utf8 "2"), (utf8 "b", utf8 "1")]) := by
    decide +kernel
  have hlanded : (afterRunTracked [Notes.upgrade 3] ⟨Notes.notes, Notes.notes⟩).landed.user.toList =
      [(utf8 "a", utf8 "1"), (utf8 "b", utf8 "1")] := by
    decide +kernel
  cases hhanded : Notes.rewriter.prepare 2 6 (afterRun [Notes.upgrade 3] Notes.notes) with
  | error fault =>
    rw [hhanded] at hentries
    cases hentries
  | ok handed =>
    rw [hhanded] at hentries
    have hheld := Except.ok.inj hentries
    have hlist : handed.2.entries = [(utf8 "a", utf8 "2"), (utf8 "b", utf8 "1")] :=
      congrArg Prod.snd hheld
    refine ⟨handed.1, handed.2, rfl, congrArg Prod.fst hheld, hlist, ?_⟩
    intro hholds
    have hmixed := hholds.1
    rw [hlanded, hlist] at hmixed
    exact absurd hmixed (by decide +kernel)

end WasmAgent.State
