import WasmAgent.State.Runs

/-!
# A journal folded in memory

A dry run folds an unfinished journal into its batch where a migration replays it
on the store.  Where the namespace stands, the two come to the same version and the
same data, and to the same report once the journaled step is registered.
-/

namespace WasmAgent.State

open Std WasmAgent.Core

section Folding

variable {terms : Terms} {state : Tracked} {version : UInt32} {migrator : Migrator}
  {start progress : Migrator.Progress} {pending : PendingStep} {changes : List Change}
  {journal : Journal} {step : Step}

theorem Written.pendingChanges_eq {store : Namespace}
    (hwrn : Written terms.crates store pending changes) (missing : String) :
    Migrator.pendingChanges missing store = decodeChanges (encodeChanges changes) := by
  rw [Migrator.pendingChanges, hwrn.list]

def resumedReport (report : MigrationReport) (pending : PendingStep) (name : String)
    (counts : ChangeCounts) : MigrationReport :=
  { report.push ⟨pending.fromVersion, pending.toVersion, name, counts, true⟩ with resumed := true }

variable (hread : readJournal migrator.crates state.store = .ok (some journal))
include hread

theorem fold_underway
    (hstep : journal.pendingStep = some pending) (hsta : start.version = pending.fromVersion) :
    migrator.foldJournal state.store start = (do
      let changes ← Migrator.pendingChanges "pending changes are missing" state.store
      let (batch, counts) ← applyToBatch (changes.drop (min pending.applied changes.length))
        start.batch .zero
      return ⟨pending.toVersion, batch, resumedReport start.report pending pending.name counts⟩) := by
  rw [Migrator.foldJournal, hread, ok_bind]
  dsimp only
  rw [hstep]
  dsimp only
  rw [if_pos hsta]
  rfl

theorem fold_committed
    (hstep : journal.pendingStep = some pending) (hsta : start.version ≠ pending.fromVersion) :
    migrator.foldJournal state.store start =
      .ok { start with report := { start.report with resumed := true } } := by
  rw [Migrator.foldJournal, hread, ok_bind]
  dsimp only
  rw [hstep]
  dsimp only
  rw [if_neg hsta]
  rfl

omit hread in
theorem finish_underway {found : Meta}
    (hread : readJournal migrator.crates state.store = .ok (some journal))
    (hstep : journal.pendingStep = some pending) (hrsm : migrator.resumedStep pending = .ok step)
    (hmeta : Meta.read state.store = .ok (some found))
    (hfrom : found.schemaVersion = pending.fromVersion)
    (hto : found.schemaVersion ≠ pending.toVersion) :
    migrator.finishOutcome state.store start = (do
      let changes ← Migrator.pendingChanges
        "pending changes are missing; restore the pre-migration snapshot" state.store
      let (batch, counts) ← applyToBatch (changes.drop (min pending.applied changes.length))
        start.batch .zero
      return ⟨pending.toVersion, batch, resumedReport start.report pending step.name counts⟩) := by
  rw [Migrator.finishOutcome, hread, ok_bind]
  dsimp only
  rw [Migrator.pickUpOutcome, hstep]
  dsimp only
  rw [Migrator.resumeOutcome, hrsm, ok_bind]
  cases Migrator.pendingChanges
    "pending changes are missing; restore the pre-migration snapshot" state.store with
  | error fault => rfl
  | ok changes =>
    rw [ok_bind, ok_bind, hmeta, ok_bind]
    dsimp only
    rw [if_neg hto, if_neg (fun hoth => hoth hfrom)]
    cases applyToBatch (changes.drop (min pending.applied changes.length)) start.batch .zero with
    | error fault => rfl
    | ok replayed => rfl

omit hread in
theorem finish_committed {found : Meta} {listed : List Change}
    (hread : readJournal migrator.crates state.store = .ok (some journal))
    (hstep : journal.pendingStep = some pending)
    (hrsm : migrator.resumedStep pending = .ok step)
    (hlst : Migrator.pendingChanges
      "pending changes are missing; restore the pre-migration snapshot" state.store = .ok listed)
    (hmeta : Meta.read state.store = .ok (some found))
    (hto : found.schemaVersion = pending.toVersion) :
    migrator.finishOutcome state.store start =
      .ok ⟨found.schemaVersion, start.batch, { start.report with resumed := true }⟩ := by
  rw [Migrator.finishOutcome, hread, ok_bind]
  dsimp only
  rw [Migrator.pickUpOutcome, hstep]
  dsimp only
  rw [Migrator.resumeOutcome, hrsm, ok_bind, hlst, ok_bind, hmeta, ok_bind]
  dsimp only
  rw [if_pos hto]
  rfl

omit hread in
theorem resumedStep_ok_iff : migrator.resumedStep pending = .ok step ↔
    migrator.registry.step pending.fromVersion = some step ∧
      step.toVersion = pending.toVersion := by
  rw [Migrator.resumedStep]
  cases migrator.registry.step pending.fromVersion with
  | none =>
    constructor
    · intro hok
      cases hok
    · intro hboth
      cases hboth.1
  | some found =>
    dsimp only
    split
    · next hto =>
      constructor
      · intro hok
        cases hok
        exact ⟨rfl, hto⟩
      · rintro ⟨hsame, -⟩
        cases hsame
        rfl
    rename_i hto
    constructor
    · intro hok
      cases hok
    · rintro ⟨hsame, hoth⟩
      cases hsame
      exact absurd hoth hto

theorem resumedStep_of_finish (hstep : journal.pendingStep = some pending)
    (hfns : migrator.finishOutcome state.store start = .ok progress) :
    ∃ step listed, migrator.resumedStep pending = .ok step ∧ Migrator.pendingChanges
      "pending changes are missing; restore the pre-migration snapshot" state.store =
        .ok listed := by
  rw [Migrator.finishOutcome, hread, ok_bind] at hfns
  dsimp only at hfns
  rw [Migrator.pickUpOutcome, hstep] at hfns
  dsimp only at hfns
  obtain ⟨resumed, hres, -⟩ := bind_eq_ok.mp hfns
  rw [Migrator.resumeOutcome] at hres
  obtain ⟨step, hrsm, hres⟩ := bind_eq_ok.mp hres
  obtain ⟨listed, hlst, -⟩ := bind_eq_ok.mp hres
  exact ⟨step, listed, hrsm, hlst⟩

omit hread

theorem finish_of_none (hread : readJournal migrator.crates state.store = .ok none) :
    migrator.finishOutcome state.store start = .ok start ∧
      migrator.foldJournal state.store start = .ok start := by
  rw [Migrator.finishOutcome, Migrator.foldJournal, hread]
  exact ⟨rfl, rfl⟩

variable (hcr : migrator.crates = terms.crates)
include hcr

/-- Reports of one step that differ at most in its name. -/
theorem fold_of_finish (hstds : Stands terms state version) (hver : start.version = version)
    (hfns : migrator.finishOutcome state.store start = .ok progress) :
    ∃ folded, migrator.foldJournal state.store start = .ok folded ∧
      folded.version = progress.version ∧ folded.batch = progress.batch := by
  cases hread : readJournal migrator.crates state.store with
  | error fault =>
    rw [Migrator.finishOutcome, hread] at hfns
    cases hfns
  | ok found =>
  cases hstds with
  | idle hidle =>
    rw [readJournal_none hidle.journal] at hread
    cases hread
    obtain ⟨hsame, hfold⟩ := @finish_of_none state migrator start (readJournal_none hidle.journal)
    rw [hsame] at hfns
    cases hfns
    exact ⟨start, hfold, rfl, rfl⟩
  | underway pending changes done hund =>
    obtain ⟨journal, rfl, hstep⟩ := hund.written.of_readJournal (hcr ▸ hread)
    obtain ⟨known, hknw, hat, -⟩ := hund.lands.store.read
    obtain ⟨step, listed, hrsm, hlst⟩ := resumedStep_of_finish hread hstep hfns
    have hfrom := hat.trans hund.starts.symm
    rw [finish_underway hread hstep hrsm hknw hfrom
      (fun hto => hund.agreed.adjacent.ne (hfrom.symm.trans hto)), hlst, ok_bind] at hfns
    rw [hund.written.pendingChanges_eq] at hlst
    rw [fold_underway hread hstep (hver.trans hund.starts.symm),
      hund.written.pendingChanges_eq, hlst, ok_bind]
    obtain ⟨replayed, hrpd, hfns⟩ := bind_eq_ok.mp hfns
    cases hfns
    rw [hrpd]
    exact ⟨_, rfl, rfl, rfl⟩
  | committed pending changes hcomm =>
    obtain ⟨journal, rfl, hstep⟩ := hcomm.written.of_readJournal (hcr ▸ hread)
    obtain ⟨known, hknw, hat, -⟩ := hcomm.lands.store.read
    obtain ⟨step, listed, hrsm, hlst⟩ := resumedStep_of_finish hread hstep hfns
    rw [finish_committed hread hstep hrsm hlst hknw (hat.trans hcomm.ends.symm)] at hfns
    cases hfns
    refine ⟨_, fold_committed hread hstep ?_, hver.trans hat.symm, rfl⟩
    rw [hver, ← hcomm.ends]
    exact hcomm.agreed.adjacent.ne.symm

def Foreseen (migrator : Migrator) (store : Namespace) : Prop :=
  ∀ journal pending, readJournal migrator.crates store = .ok (some journal) →
    journal.pendingStep = some pending →
    ∃ step, migrator.registry.step pending.fromVersion = some step ∧
      step.toVersion = pending.toVersion ∧ step.name = pending.name

/-- The list that was written down for a journal is not longer than its reader's bound. -/
def ListFits (store : Namespace) : Prop :=
  ∀ raw, store.get Key.pending = some raw → raw.length ≤ maxJournalBytes

theorem finish_iff_fold (hstds : Stands terms state version) (hver : start.version = version)
    (hfor : Foreseen migrator state.store)
    (hfits : state.store.get Key.journal ≠ none → ListFits state.store) :
    migrator.finishOutcome state.store start = .ok progress ↔
      migrator.foldJournal state.store start = .ok progress := by
  cases hread : readJournal migrator.crates state.store with
  | error fault => rw [Migrator.finishOutcome, Migrator.foldJournal, hread]; rfl
  | ok found =>
  cases hstds with
  | idle hidle =>
    obtain ⟨hsame, hfold⟩ := @finish_of_none state migrator start (readJournal_none hidle.journal)
    rw [hsame, hfold]
  | underway pending changes done hund =>
    obtain ⟨journal, rfl, hstep⟩ := hund.written.of_readJournal (hcr ▸ hread)
    obtain ⟨step, hstepAt, hto, hname⟩ := hfor journal pending hread hstep
    obtain ⟨known, hknw, hat, -⟩ := hund.lands.store.read
    have hfrom := hat.trans hund.starts.symm
    rw [finish_underway hread hstep (resumedStep_ok_iff.mpr ⟨hstepAt, hto⟩) hknw hfrom
      (fun hoth => hund.agreed.adjacent.ne (hfrom.symm.trans hoth)), hname,
      fold_underway hread hstep (hver.trans hund.starts.symm),
      hund.written.pendingChanges_eq, hund.written.pendingChanges_eq]
  | committed pending changes hcomm =>
    obtain ⟨journal, rfl, hstep⟩ := hcomm.written.of_readJournal (hcr ▸ hread)
    obtain ⟨step, hstepAt, hto, -⟩ := hfor journal pending hread hstep
    obtain ⟨known, hknw, hat, -⟩ := hcomm.lands.store.read
    obtain ⟨written, hwrn, -⟩ := hcomm.written.journal
    have hshrt := hfits (by rw [hwrn]; exact Option.some_ne_none _) _ hcomm.written.list
    have hnot : start.version ≠ pending.fromVersion := by
      rw [hver, ← hcomm.ends]
      exact hcomm.agreed.adjacent.ne.symm
    rw [finish_committed hread hstep (resumedStep_ok_iff.mpr ⟨hstepAt, hto⟩)
      ((hcomm.written.pendingChanges_eq _).trans
        (decodeChanges_encodeChanges hcomm.written.listable hshrt)) hknw
      (hat.trans hcomm.ends.symm), fold_committed hread hstep hnot, hat, ← hver]

end Folding

end WasmAgent.State
