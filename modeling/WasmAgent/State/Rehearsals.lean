import WasmAgent.State.Retries

/-!
# A dry run and its migration

A dry run threads a batch through the steps where a migration reads, applies and
commits.  On a namespace whose journaled step is registered, the two end well
together and report the same.
-/

namespace WasmAgent.State

open Std WasmAgent.Core

section Silence

variable {Result Next : Type} {migrator : Migrator} {store : Namespace}

def Silent (program : Call Result) : Prop := ∀ store, Program.writes kv program store = []

theorem silent_tryAsk (question : Namespace → Except Error Result) :
    Silent (Fallible.tryAsk question) := by
  intro store
  rfl

theorem silent_check (checked : Except Error Result) : Silent (Fallible.check checked) := by
  intro store
  rfl

theorem Silent.bind {program : Call Result} {next : Result → Call Next} (hfst : Silent program)
    (hnext : ∀ value, Silent (next value)) : Silent (program >>= next) := by
  intro store
  refine (Program.writes_bind kv (program : Program Query Change (Except Error Result))
    (ExceptT.bindCont next) store).trans ?_
  rw [hfst store, List.nil_append]
  cases Program.result kv program store with
  | error fault => rfl
  | ok value => exact hnext value _

theorem dryRun_writes (target : UInt32) : Silent (migrator.dryRun target) := by
  apply (silent_tryAsk _).bind
  intro found
  apply (silent_tryAsk _).bind
  intro batch
  apply (silent_tryAsk _).bind
  intro folded
  apply (silent_check _).bind
  intro steps
  apply (silent_check _).bind
  intro progress store
  rfl

def dryRunOutcome (migrator : Migrator) (target : UInt32) (store : Namespace) :
    Except Error MigrationReport := do
  let found ← migrator.openMeta store
  let batch ← Batch.load migrator.options.maxBatchBytes store
  let progress ← migrator.foldJournal store
    ⟨found.schemaVersion, batch, .start found.schemaVersion target true none⟩
  let steps ← migrator.plan progress.version target
  let progress ← Migrator.rehearse steps progress
  return { progress.report with finalVersion := progress.version }

theorem dryRun_result (target : UInt32) :
    Program.result kv (migrator.dryRun target) store = dryRunOutcome migrator target store := by
  rw [Migrator.dryRun, dryRunOutcome, Fallible.result_bind, Fallible.result_tryAsk]
  change Except.bind (migrator.openMeta store) _ = _
  cases migrator.openMeta store with
  | error fault => rfl
  | ok found =>
    rw [ok_bind]
    change Program.result kv _ _ = _
    rw [Fallible.result_bind, Fallible.result_tryAsk]
    change Except.bind (Batch.load migrator.options.maxBatchBytes store) _ = _
    cases Batch.load migrator.options.maxBatchBytes store with
    | error fault => rfl
    | ok batch =>
      rw [ok_bind]
      change Program.result kv _ _ = _
      rw [Fallible.result_bind, Fallible.result_tryAsk]
      change Except.bind (migrator.foldJournal store _) _ = _
      cases migrator.foldJournal store
        ⟨found.schemaVersion, batch, .start found.schemaVersion target true none⟩ with
      | error fault => rfl
      | ok folded =>
        rw [ok_bind]
        change Program.result kv _ _ = _
        rw [Fallible.result_bind, Fallible.result_check]
        cases migrator.plan folded.version target with
        | error fault => rfl
        | ok steps =>
          rw [ok_bind]
          change Program.result kv _ _ = _
          rw [Fallible.result_bind, Fallible.result_check]
          cases Migrator.rehearse steps folded with
          | error | ok => rfl

end Silence

section Labels

variable {migrator : Migrator} {store : Namespace}

def MigrationReport.relabel (report : MigrationReport) (dryRun : Bool)
    (snapshot : Option Snapshot) : MigrationReport :=
  { report with dryRun := dryRun, snapshot := snapshot }

def Migrator.Progress.relabel (progress : Migrator.Progress) (dryRun : Bool)
    (snapshot : Option Snapshot) : Migrator.Progress :=
  { progress with report := progress.report.relabel dryRun snapshot }

theorem rehearse_relabel (steps : List PlannedStep) (progress : Migrator.Progress)
    (dryRun : Bool) (snapshot : Option Snapshot) :
    Migrator.rehearse steps (progress.relabel dryRun snapshot) =
      (Migrator.rehearse steps progress).map (fun walked => walked.relabel dryRun snapshot) := by
  induction steps generalizing progress with
  | nil => rfl
  | cons planned rest ih =>
    rw [Migrator.rehearse, Migrator.rehearse]
    change (planned.next progress.batch >>= _) = _
    cases planned.next progress.batch with
    | error fault => rfl
    | ok next => exact ih ⟨planned.toVersion, next, progress.report.push _⟩

theorem fold_relabel (progress : Migrator.Progress) (dryRun : Bool) (snapshot : Option Snapshot) :
    migrator.foldJournal store (progress.relabel dryRun snapshot) =
      (migrator.foldJournal store progress).map (fun folded => folded.relabel dryRun snapshot) := by
  rw [Migrator.foldJournal, Migrator.foldJournal]
  cases readJournal migrator.crates store with
  | error fault => rfl
  | ok found =>
    rw [ok_bind, ok_bind]
    cases found with
    | none => rfl
    | some journal =>
      dsimp only
      cases journal.pendingStep with
      | none => rfl
      | some pending =>
        dsimp only
        change (if progress.version = pending.fromVersion then _ else _) = _
        split
        · cases Migrator.pendingChanges "pending changes are missing" store with
          | error fault => rfl
          | ok changes =>
            rw [ok_bind, ok_bind]
            change (applyToBatch _ progress.batch _ >>= _) = _
            cases applyToBatch (changes.drop (min pending.applied changes.length))
              progress.batch .zero with
            | error | ok => rfl
        · rfl

theorem carryOutcome_ok {before after : Batch}
    (hlen : (encodeChanges (diff before after).2).length ≤ migrator.options.maxJournalBytes) :
    migrator.carryOutcome (diff before after).2 = .ok () := by
  rw [Migrator.carryOutcome]
  split
  · rw [Migrator.checkChanges, validateChanges_ok fits_diff, ok_bind, if_neg (Nat.not_lt.mpr hlen)]
    rfl
  · rfl

theorem walk_eq_rehearse {steps : List PlannedStep} {progress : Migrator.Progress}
    (hboun : Along (fun _ batch next => (encodeChanges (diff batch next).2).length ≤
      migrator.options.maxJournalBytes) steps progress.batch) :
    migrator.walkOutcome steps progress = Migrator.rehearse steps progress := by
  induction steps generalizing progress with
  | nil => rfl
  | cons planned rest ih =>
    rw [Migrator.walkOutcome, Migrator.rehearse]
    cases hnext : planned.next progress.batch with
    | error fault => rfl
    | ok next =>
      obtain ⟨hlen, hrest⟩ := hboun next hnext
      rw [ok_bind, ok_bind, carryOutcome_ok hlen, ok_bind]
      exact ih hrest

end Labels

def WithinBound (migrator : Migrator) (target : UInt32) (store : Namespace) : Prop :=
  AlongPath (fun batch next => (encodeChanges (diff batch next).2).length ≤
    migrator.options.maxJournalBytes) migrator target store

structure Predictable (migrator : Migrator) (target : UInt32) (now : UInt64) (store : Namespace) :
    Prop where
  foreseen : Foreseen migrator store
  list : store.get Key.journal ≠ none → ListFits store
  bound : WithinBound migrator target store
  sink : ∀ found snapshot, migrator.prepare target now store = .ok (found, snapshot) →
    migrator.sink found snapshot = .ok ()

section Agreement

variable {crates : Crates} {component : String} {state : Tracked} {version target : UInt32}
  {now : UInt64} {migrator : Migrator} {start folded : Migrator.Progress}
  {steps : List PlannedStep} {report : MigrationReport} {pending : PendingStep}

theorem up_of_registered {step : Step} (hadj : Adjacent pending)
    (hstep : migrator.registry.step pending.fromVersion = some step)
    (hto : step.toVersion = pending.toVersion) :
    pending.toVersion = pending.fromVersion + 1 ∧
      pending.fromVersion < pending.fromVersion + 1 := by
  have hfrom := (migrator.registry.lawful _ _ hstep).1
  have hnext : pending.toVersion = pending.fromVersion + 1 := by
    rw [← hto, Step.toVersion, hfrom]
  refine ⟨hnext, ?_⟩
  rw [← hnext, UInt32.lt_iff_toNat_lt]
  rcases hadj with hup | hdown
  · omega
  have hrsm := resumedStep_ok_iff.mpr ⟨hstep, hto⟩
  have hlast := pending.fromVersion.toNat_lt
  rw [← UInt32.toNat_inj, UInt32.toNat_add, show (1 : UInt32).toNat = 1 from rfl] at hnext
  omega

variable (hstds : Stands (.free crates component True) state version)
variable (hcr : migrator.crates = crates)
include hstds hcr

theorem plan_of_folded (hfor : Foreseen migrator state.store) (hver : start.version = version)
    (hfold : migrator.foldJournal state.store start = .ok folded)
    (hplan : migrator.plan folded.version target = .ok steps) :
    (∃ path, migrator.plan version target = .ok path) ∧ folded.version ≠ 0 := by
  obtain ⟨found, hread, -⟩ := bind_eq_ok.mp hfold
  cases hstds with
  | idle hidle =>
    obtain ⟨-, hsame⟩ := @finish_of_none state migrator start (readJournal_none hidle.journal)
    rw [hsame] at hfold
    cases hfold
    rw [hver] at hplan ⊢
    exact ⟨⟨steps, hplan⟩, hidle.lands.good trivial⟩
  | underway pending changes done hund =>
    obtain ⟨journal, rfl, hstep⟩ := hund.written.of_readJournal (hcr ▸ hread)
    obtain ⟨step, hstepAt, hto, -⟩ := hfor journal pending hread hstep
    obtain ⟨hnext, hless⟩ := up_of_registered hund.agreed.adjacent hstepAt hto
    rw [fold_underway hread hstep (hver.trans hund.starts.symm)] at hfold
    obtain ⟨listed, -, hfold⟩ := bind_eq_ok.mp hfold
    obtain ⟨replayed, -, hfold⟩ := bind_eq_ok.mp hfold
    cases hfold
    have hgood : pending.toVersion ≠ 0 := hund.good trivial
    refine ⟨?_, hgood⟩
    dsimp only at hplan
    rw [hnext] at hplan
    obtain ⟨path, hpath⟩ := Registry.plan_of_next hstepAt hless hplan
    rw [hund.starts] at hpath
    exact ⟨path, hpath⟩
  | committed pending changes hcomm =>
    obtain ⟨journal, rfl, hstep⟩ := hcomm.written.of_readJournal (hcr ▸ hread)
    have hnot : start.version ≠ pending.fromVersion := by
      rw [hver, ← hcomm.ends]
      exact hcomm.agreed.adjacent.ne.symm
    rw [fold_committed hread hstep hnot] at hfold
    cases hfold
    dsimp only at hplan ⊢
    rw [hver] at hplan ⊢
    exact ⟨⟨steps, hplan⟩, hcomm.lands.good trivial⟩

variable (hpred : Predictable migrator target now state.store)
include hpred

theorem migrate_of_dryRun (hdry : dryRunOutcome migrator target state.store = .ok report) :
    ∃ snapshot, migrator.migrateOutcome target now state.store =
      .ok (report.relabel false (some snapshot)) := by
  obtain ⟨found, hopd, hdry⟩ := bind_eq_ok.mp hdry
  obtain ⟨batch, hload, hdry⟩ := bind_eq_ok.mp hdry
  obtain ⟨folded, hfold, hdry⟩ := bind_eq_ok.mp hdry
  obtain ⟨steps, hplan, hdry⟩ := bind_eq_ok.mp hdry
  obtain ⟨walked, hwal, hdry⟩ := bind_eq_ok.mp hdry
  cases hdry
  have hread := (Migrator.openMeta_ok_iff.mp hopd).2.1
  have hat := (hstds.named.of_read_eq hread).1
  have hgood : version ≠ 0 := hstds.good trivial
  obtain ⟨⟨path, hpath⟩, hfol⟩ := plan_of_folded hstds hcr hpred.foreseen hat hfold hplan
  obtain ⟨snapshot, htkn⟩ := (@Snapshot.take_ok_iff state.store migrator.options.maxBatchBytes
    migrator.crates found now).mpr ⟨⟨by rw [hat]; exact hgood, (Meta.of_read hread).2⟩,
      Batch.load_ok_iff.mp ⟨batch, hload⟩⟩
  have hprp := Migrator.prepare_ok_iff.mpr
    (⟨hopd, Registry.plan_nonzero hplan hfol, ⟨path, by rw [hat]; exact hpath⟩, htkn⟩ :
      migrator.Prepared target now state.store found snapshot)
  obtain ⟨filled, hfil, hents⟩ := Snapshot.batch_of_take htkn
  obtain rfl : filled = batch := Batch.ext (hents.trans (Batch.entries_of_load hload).symm)
  have hfns : migrator.finishOutcome state.store
      ⟨found.schemaVersion, filled, .start found.schemaVersion target false (some snapshot)⟩ =
        .ok (folded.relabel false (some snapshot)) := by
    apply (finish_iff_fold hcr hstds hat hpred.foreseen hpred.list).mpr
    have hrel := @fold_relabel migrator state.store
      ⟨found.schemaVersion, filled, .start found.schemaVersion target true none⟩ false
      (some snapshot)
    rw [hfold] at hrel
    exact hrel
  have hboun := hpred.bound _ folded steps hents ⟨found, hread, rfl⟩ hfold hplan
  refine ⟨snapshot, ?_⟩
  rw [Migrator.migrateOutcome, hprp, ok_bind]
  dsimp only
  rw [hpred.sink _ _ hprp, ok_bind, Migrator.runOutcome, hfil, ok_bind, hfns, ok_bind]
  change (migrator.plan folded.version target >>= _) = _
  rw [hplan, ok_bind]
  have hwalk := @walk_eq_rehearse migrator steps (folded.relabel false (some snapshot)) hboun
  rw [hwalk, rehearse_relabel, hwal]
  rfl

theorem dryRun_of_migrate (hok : migrator.migrateOutcome target now state.store = .ok report) :
    dryRunOutcome migrator target state.store = .ok (report.relabel true none) := by
  obtain ⟨⟨found, snapshot⟩, hprp, hok⟩ := bind_eq_ok.mp hok
  obtain ⟨_, -, hok⟩ := bind_eq_ok.mp hok
  obtain ⟨batch, hbat, hok⟩ := bind_eq_ok.mp hok
  obtain ⟨progress, hfns, hok⟩ := bind_eq_ok.mp hok
  obtain ⟨steps, hplan, hok⟩ := bind_eq_ok.mp hok
  obtain ⟨walked, hwal, hok⟩ := bind_eq_ok.mp hok
  cases hok
  have hprep := Migrator.prepare_ok_iff.mp hprp
  have hread := (Migrator.openMeta_ok_iff.mp hprep.opened).2.1
  have hat := (hstds.named.of_read_eq hread).1
  obtain ⟨filled, hfil, hents⟩ := Snapshot.batch_of_take hprep.taken
  rw [hbat] at hfil
  cases hfil
  obtain ⟨loaded, hload⟩ := Batch.load_ok_iff.mpr
    (Snapshot.take_ok_iff.mp ⟨snapshot, hprep.taken⟩).2
  obtain rfl : loaded = batch := Batch.ext ((Batch.entries_of_load hload).trans hents.symm)
  have hfold := (finish_iff_fold hcr hstds hat hpred.foreseen hpred.list).mp hfns
  have hboun := hpred.bound _ progress steps hents ⟨found, hread, rfl⟩ hfold hplan
  have hrel := @fold_relabel migrator state.store
    ⟨found.schemaVersion, loaded, .start found.schemaVersion target false (some snapshot)⟩ true none
  rw [hfold] at hrel
  rw [walk_eq_rehearse hboun] at hwal
  have hreh := rehearse_relabel steps progress true none
  rw [hwal] at hreh
  rw [dryRunOutcome, hprep.opened, ok_bind, hload, ok_bind]
  change (migrator.foldJournal state.store (Migrator.Progress.relabel
    ⟨found.schemaVersion, loaded, .start found.schemaVersion target false (some snapshot)⟩
    true none) >>= _) = _
  rw [hrel]
  change (migrator.plan progress.version target >>= _) = _
  rw [hplan, ok_bind, hreh]
  rfl

end Agreement

/-- On every namespace that tidy migrations and their crashes can leave, a dry run
writes nothing, ends well exactly where its migration does, and reports what that
migration reports, where nothing keeps the migration from what the dry run sees. -/
theorem dryRun_agrees (crates : Crates) (store : Namespace)
    (hjournal : store.get Key.journal = none)
    (hcounted : ∀ found, Meta.read store = .ok (some found) → found.schemaVersion ≠ 0)
    (attempts : List Attempt) (htidy : EachAttempt (TidyAttempt crates) attempts store)
    (migrator : Migrator) (hcrates : migrator.crates = crates) (target : UInt32) (now : UInt64)
    (hpredictable : Predictable migrator target now (afterRun attempts store)) :
    Program.writes kv (migrator.dryRun target) (afterRun attempts store) = [] ∧
    (∀ report, Program.result kv (migrator.dryRun target) (afterRun attempts store) =
        .ok report →
      ∃ snapshot, Program.result kv (migrator.migrate target now) (afterRun attempts store) =
        .ok (report.relabel false (some snapshot))) ∧
    (∀ report, Program.result kv (migrator.migrate target now) (afterRun attempts store) =
        .ok report →
      Program.result kv (migrator.dryRun target) (afterRun attempts store) =
        .ok (report.relabel true none)) := by
  refine ⟨dryRun_writes target _, ?_⟩
  rw [dryRun_result, Migrator.migrate_result]
  by_cases hunnamed : Unnamed store
  · rw [afterRun_unnamed attempts hunnamed]
    constructor
    · intro report hdry
      obtain ⟨found, hopened, -⟩ := bind_eq_ok.mp hdry
      exact absurd (Migrator.openMeta_ok_iff.mp hopened).2.1 (hunnamed found)
    intro report hok
    obtain ⟨⟨found, snapshot⟩, hprepare, -⟩ := bind_eq_ok.mp hok
    exact absurd (Migrator.openMeta_ok_iff.mp (Migrator.prepare_ok_iff.mp hprepare).opened).2.1
      (hunnamed found)
  obtain ⟨first, hfirst⟩ := not_forall.mp hunnamed
  have hread := not_not.mp hfirst
  obtain ⟨version, hstands⟩ := standing_of_tidy
    (standing_of_named (Meta.of_read hread).1 (fun _ => hcounted first hread) hjournal) htidy
  have hstore : (afterRunTracked attempts ⟨store, store⟩).store = afterRun attempts store :=
    afterRunTracked_store attempts _
  rw [← hstore] at hpredictable ⊢
  exact ⟨fun report => migrate_of_dryRun hstands hcrates hpredictable,
    fun report => dryRun_of_migrate hstands hcrates hpredictable⟩

namespace Notes

def stopped : Namespace := afterRun [upgrade 3] notes

theorem stopped_journal :
    readJournal Records.crates stopped =
      .ok (some ⟨1, 2, 1, 5, 1, "notes", some ⟨1, 2, "rewrite", .up, 0⟩⟩) := by
  simp only [stopped, upgrade, rewriter, migrator, Records.crates_plain]
  decide +kernel

theorem stopped_foreseen : Foreseen rewriter stopped := by
  intro journal pending hread hstep
  have hknw := stopped_journal.symm.trans hread
  cases hknw
  cases hstep
  refine ⟨step (rewrite (utf8 "2")) (rewrite (utf8 "1")), ?_, rfl, rfl⟩
  change (registry _ _).step 1 = _
  rw [registry_step]
  rfl

/-- From there, the journaled step leads to the target, and no other is left. -/
theorem stopped_bound : WithinBound rewriter 2 stopped := by
  rintro start progress steps - ⟨found, hread, hat⟩ hfold hplan
  have hnmd : Meta.read stopped = .ok (some (named 1)) := by
    decide +kernel
  rw [hnmd] at hread
  cases hread
  have hfol := @fold_underway ⟨stopped, stopped⟩ rewriter start _ _ stopped_journal rfl hat.symm
  rw [hfold] at hfol
  obtain ⟨changes, -, hfol⟩ := bind_eq_ok.mp hfol.symm
  obtain ⟨replayed, -, hfol⟩ := bind_eq_ok.mp hfol
  cases hfol
  rw [Migrator.plan, Registry.plan_self] at hplan
  cases hplan
  trivial

theorem stopped_predictable : Predictable rewriter 2 6 stopped := by
  refine ⟨stopped_foreseen, ?_, stopped_bound, fun _ _ _ => rfl⟩
  intro _ raw hraw
  have hshrt : (stopped.get Key.pending).all (fun raw => raw.length ≤ maxJournalBytes) = true := by
    decide +kernel
  rw [hraw] at hshrt
  exact of_decide_eq_true hshrt

end Notes

/-- The stopped upgrade of the notes. -/
theorem dryRun_agrees_notes :
    Program.writes kv (Notes.rewriter.dryRun 2) Notes.stopped = [] ∧
    (∀ report, Program.result kv (Notes.rewriter.dryRun 2) Notes.stopped = .ok report →
      ∃ snapshot, Program.result kv (Notes.rewriter.migrate 2 6) Notes.stopped =
        .ok (report.relabel false (some snapshot))) ∧
    (∀ report, Program.result kv (Notes.rewriter.migrate 2 6) Notes.stopped = .ok report →
      Program.result kv (Notes.rewriter.dryRun 2) Notes.stopped =
        .ok (report.relabel true none)) := by
  have hversion : ∀ found, Meta.read Notes.notes = .ok (some found) → found.schemaVersion ≠ 0 := by
    intro found hread
    have hnamed : Meta.read Notes.notes = .ok (some (Notes.named 1)) := by
      decide +kernel
    rw [hnamed] at hread
    cases hread
    decide
  exact dryRun_agrees Records.crates Notes.notes (by decide +kernel) hversion [Notes.upgrade 3]
    ⟨⟨rfl, Notes.tidy _ _ _ _⟩, trivial⟩ Notes.rewriter rfl 2 6 Notes.stopped_predictable

/-- A step back that is stopped after its first change: a dry run reports that it would be
finished, and the migration is refused. -/
theorem dryRun_overlooks_direction :
    (Program.result kv (Notes.downgrader.dryRun 1)
        (afterRun [⟨Notes.downgrader, 1, 5, 3⟩] Notes.rewritten)).map MigrationReport.finalVersion =
      .ok 1 ∧
    Program.result kv (Notes.downgrader.migrate 1 6)
        (afterRun [⟨Notes.downgrader, 1, 5, 3⟩] Notes.rewritten) =
      .error (.journalInconsistent
        "the v2 -> v1 step is no longer registered; restore the pre-migration snapshot") := by
  simp only [Notes.downgrader, Notes.rewriter, Notes.migrator, Records.crates_plain]
  constructor
  · decide +kernel
  · decide +kernel

end WasmAgent.State
