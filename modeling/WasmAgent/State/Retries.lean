import WasmAgent.State.Settled

/-!
# Retries after crashes

A migration that would end well is stopped again and again, and called again.  The
path it is on leads to the same data from every landing; a retry ends well exactly
when it is not stuck on a bound or on a journal of a step back.
-/

namespace WasmAgent.State

open List Std WasmAgent.Core

/-- The batch that a path leads to, with the checks of each step's changes. -/
def follow (migrator : Migrator) : List PlannedStep → Batch → Except Error Batch
  | [], batch => .ok batch
  | planned :: rest, batch => do
      let next ← planned.next batch
      migrator.carryOutcome (diff batch next).2
      follow migrator rest next

/-- From a version and its data, the path to the target leads to `final`. -/
structure Leads (migrator : Migrator) (target : UInt32) (final : Table) (upward : Prop)
    (version : UInt32) (data : Table) : Prop where
  nonzero : version ≠ 0
  upward : upward → version ≤ target
  path : ∃ batch steps reached, batch.entries = data ∧
    migrator.plan version target = .ok steps ∧
    Along (fun _ _ next => Plain next.entries) steps batch ∧
    follow migrator steps batch = .ok reached ∧ reached.entries = final

structure Heads (migrator : Migrator) (upward : Prop) (pending : PendingStep) : Prop where
  up : pending.direction = .up → ∃ step,
    migrator.registry.step pending.fromVersion = some step ∧ step.toVersion = pending.toVersion
  down : pending.direction = .down → pending.toVersion.toNat + 1 = pending.fromVersion.toNat
  upward : upward → pending.direction = .up

/-- The terms of one migration that is tried again and again. -/
def Terms.leading (migrator : Migrator) (target : UInt32) (final : Table) (upward : Prop) : Terms :=
  ⟨migrator.crates, migrator.info.id, Leads migrator target final upward, Heads migrator upward,
    fun _ _ _ => True⟩

section Paths

variable {migrator : Migrator} {target version : UInt32} {final : Table} {upward : Prop}
  {steps : List PlannedStep} {batch : Batch}

theorem walk_iff_follow {progress : Migrator.Progress} :
    (∃ walked, migrator.walkOutcome steps progress = .ok walked) ↔
      ∃ reached, follow migrator steps progress.batch = .ok reached := by
  induction steps generalizing progress with
  | nil => exact ⟨fun _ => ⟨_, rfl⟩, fun _ => ⟨_, rfl⟩⟩
  | cons planned rest ih =>
    rw [Migrator.walkOutcome, follow]
    cases planned.next progress.batch with
    | error fault =>
      constructor
      · rintro ⟨walked, hwal⟩
        cases hwal
      · rintro ⟨reached, hrch⟩
        cases hrch
    | ok next =>
      rw [ok_bind, ok_bind]
      cases migrator.carryOutcome (diff progress.batch next).2 with
      | error fault =>
        constructor
        · rintro ⟨walked, hwal⟩
          cases hwal
        · rintro ⟨reached, hrch⟩
          cases hrch
      | ok _ => exact ih

theorem Registry.Offers.heads {planned : PlannedStep} (hofs : migrator.registry.Offers planned)
    (hupw : upward → planned.direction = .up) (applied : ℕ) :
    Heads migrator upward ⟨planned.fromVersion, planned.toVersion, planned.step.name,
      planned.direction, applied⟩ := by
  have hnext := hofs.next
  have hstep := hofs.step
  obtain ⟨step, direction⟩ := planned
  cases direction with
  | up =>
    refine ⟨fun _ => ⟨step, hstep, rfl⟩, ?_, hupw⟩
    intro hdown
    cases hdown
  | down =>
    refine ⟨?_, fun _ => hnext.symm, hupw⟩
    intro hup
    cases hup

theorem soundSteps (hupw : upward → version ≤ target)
    (hplan : migrator.plan version target = .ok steps)
    (hpln : Along (fun _ _ next => Plain next.entries) steps batch) {reached : Batch}
    (hfol : follow migrator steps batch = .ok reached) (hfin : reached.entries = final) :
    Along (fun planned batch next => Sound (.leading migrator target final upward) planned batch next)
      steps batch := by
  induction steps generalizing version batch with
  | nil => trivial
  | cons planned rest ih =>
    intro next hnext
    obtain ⟨hhead, htail⟩ := hpln next hnext
    obtain ⟨hofs, hfrom, hdir, hrest⟩ := Registry.plan_cons hplan
    rw [follow, hnext, ok_bind] at hfol
    obtain ⟨_, -, hfol⟩ := bind_eq_ok.mp hfol
    have hup : upward → planned.direction = .up := by
      intro hgo
      apply hdir.mpr
      apply lt_of_le_of_ne (hupw hgo)
      rintro rfl
      rw [Migrator.plan, Registry.plan_self] at hplan
      cases hplan
    have hbound : upward → planned.toVersion ≤ target := by
      intro hgo
      have hless := hdir.mp (hup hgo)
      have hstep := hofs.next
      rw [← hfrom, UInt32.lt_iff_toNat_lt] at hless
      rw [PlannedStep.toVersion, hup hgo, UInt32.le_iff_toNat_le]
      rw [PlannedStep.fromVersion, hup hgo] at hless
      dsimp only at hless ⊢
      omega
    exact ⟨⟨hhead, ⟨hofs.nonzero, hbound, next, rest, reached, rfl, hrest, htail, hfol,
      hfin⟩, hofs.heads hup, fun _ => trivial⟩, ih hbound hrest htail hfol⟩

theorem Leads.at_target {data : Table} (hleads : Leads migrator target final upward target data) :
    data = final := by
  obtain ⟨batch, steps, reached, rfl, hplan, -, hfol, rfl⟩ := hleads.path
  rw [Migrator.plan, Registry.plan_self] at hplan
  cases hplan
  cases hfol
  rfl

end Paths

section Standing

variable {terms : Terms} {state : Tracked} {version : UInt32} {migrator : Migrator}
  {start progress : Migrator.Progress}

theorem finish_good (hcr : migrator.crates = terms.crates) (hstds : Stands terms state version)
    (hver : start.version = version) (hbat : start.batch.entries = state.store.user)
    (hfns : migrator.finishOutcome state.store start = .ok progress) :
    terms.good progress.version progress.batch.entries := by
  have hend := (@finish_survives terms state version 0 migrator hcr start hstds hver
    hbat).outcome progress
  rw [Program.result_project tracked_projects, Migrator.finish_result] at hend
  obtain ⟨hidle, hents⟩ := hend hfns
  rw [hents]
  exact hidle.lands.good

theorem soundPath_of_leading {target : UInt32} {final : Table} {upward : Prop}
    (hstg : Standing (.leading migrator target final upward) state) :
    SoundPath (.leading migrator target final upward) migrator target state.store := by
  intro start progress steps hents hnmd hfns hplan
  obtain ⟨version, hstds⟩ := hstg
  obtain ⟨known, hknw, hat, -⟩ := hnmd.read
  have hver : start.version = version := hat.symm.trans (hstds.named.of_read_eq hknw).1
  have hgood : Leads migrator target final upward progress.version progress.batch.entries :=
    finish_good rfl hstds hver hents hfns
  obtain ⟨batch, path, reached, hbat, hpath, hpln, hfol, hfin⟩ := hgood.path
  obtain rfl := Batch.ext hbat
  rw [hplan] at hpath
  cases hpath
  exact soundSteps hgood.upward hplan hpln hfol hfin

end Standing

section Retries

variable {migrator : Migrator} {target version : UInt32} {now : UInt64} {final : Table}
  {upward : Prop} {state : Tracked} {pending : PendingStep} {changes : List Change} {done : ℕ}
  {start progress : Migrator.Progress}

theorem readJournal_ok_iff {crates : Crates} {store : Namespace} {journal : Journal}
    (hjrn : store.get Key.journal = some (crates.printJournal journal)) :
    (∃ found, readJournal crates store = .ok found) ↔
      (crates.printJournal journal).length ≤ maxJournalJson := by
  rw [readJournal, hjrn]
  dsimp only
  split
  · next hlong =>
    constructor
    · rintro ⟨found, hfnd⟩
      cases hfnd
    · intro hshrt
      exact absurd hlong (Nat.not_lt.mpr hshrt)
  · next hshrt =>
    rw [crates.parse_printJournal]
    exact ⟨fun _ => Nat.le_of_not_lt hshrt, fun _ => ⟨_, rfl⟩⟩

def SizedTable (table : Table) : Prop := ∀ key value, table[key]? = some value → Sized key value

theorem allSized_toList {table : Table} (hszd : SizedTable table) : AllSized table.toList := by
  intro entry hent
  exact hszd entry.1 entry.2 (ExtTreeMap.mem_toList_iff_getElem?_eq_some.mp hent)

theorem SizedTable.applyAll {table : Table} (hszd : SizedTable table)
    (hfits : ∀ change ∈ changes, Fits change) :
    SizedTable (Core.Change.applyAll changes table) := by
  induction changes generalizing table with
  | nil => exact hszd
  | cons change changes ih =>
    refine ih ?_ (fun other hoth => hfits other (mem_cons_of_mem _ hoth))
    intro key value hent
    rw [Core.Change.getElem?_apply] at hent
    split at hent
    · next hkey =>
      have hhead := hfits change mem_cons_self
      rw [← hkey]
      exact ⟨hhead.key, hhead.value value hent⟩
    · exact hszd key value hent

theorem Leads.sized {data : Table} (hleads : Leads migrator target final upward version data) :
    SizedTable data := by
  obtain ⟨batch, -, -, rfl, -⟩ := hleads.path
  exact batch.sized

variable (hstds : Stands (.leading migrator target final upward) state version)
include hstds

theorem Stands.sized : SizedTable state.store.user := by
  have hland : SizedTable state.landed.user := Leads.sized hstds.good
  cases hstds with
  | idle hidle => rwa [hidle.user]
  | underway pending changes done hund =>
    rw [hund.user]
    apply hland.applyAll
    intro change hchg
    exact hund.written.listable.fits change (mem_of_mem_take hchg)
  | committed _ _ hcomm => rwa [hcomm.user]

omit hstds in
theorem not_resumed_of_down {step : Step} (hdown : pending.toVersion.toNat + 1 =
    pending.fromVersion.toNat) : migrator.resumedStep pending ≠ .ok step := by
  intro hrsm
  obtain ⟨hstep, hto⟩ := resumedStep_ok_iff.mp hrsm
  have hfrom := (migrator.registry.lawful _ _ hstep).1
  have hlast := pending.fromVersion.toNat_lt
  rw [Step.toVersion, hfrom, ← UInt32.toNat_inj, UInt32.toNat_add,
    show (1 : UInt32).toNat = 1 from rfl] at hto
  omega

/-- The records of an unfinished step are not longer than their readers' bounds. -/
structure RecordsFit (store : Namespace) : Prop where
  journal : ∀ raw, store.get Key.journal = some raw → raw.length ≤ maxJournalJson
  list : store.get Key.journal ≠ none → ListFits store

def Forward (crates : Crates) (store : Namespace) : Prop :=
  ∀ journal pending, readJournal crates store = .ok (some journal) →
    journal.pendingStep = some pending → pending.direction = .up

omit hstds in
theorem finish_journaled_iff (hwrn : Written migrator.crates state.store pending changes)
    (hheads : Heads migrator upward pending)
    (hres : ∀ journal step listed,
      readJournal migrator.crates state.store = .ok (some journal) →
      journal.pendingStep = some pending → migrator.resumedStep pending = .ok step →
      Migrator.pendingChanges "pending changes are missing; restore the pre-migration snapshot"
        state.store = .ok listed →
      ∃ progress, migrator.finishOutcome state.store start = .ok progress) :
    (∃ progress, migrator.finishOutcome state.store start = .ok progress) ↔
      RecordsFit state.store ∧ Forward migrator.crates state.store := by
  obtain ⟨journal, hjrn, hstep⟩ := hwrn.journal
  have hlist : ListFits state.store ↔ (encodeChanges changes).length ≤ maxJournalBytes := by
    constructor
    · intro hfits
      exact hfits _ hwrn.list
    · intro hshrt raw hraw
      rw [hwrn.list, Option.some.injEq] at hraw
      rwa [← hraw]
  have hread : ∀ found, readJournal migrator.crates state.store = .ok found →
      found = some journal := by
    intro found hfnd
    obtain ⟨other, rfl, -⟩ := hwrn.of_readJournal hfnd
    rw [readJournal, hjrn] at hfnd
    dsimp only at hfnd
    split at hfnd
    · cases hfnd
    · rw [migrator.crates.parse_printJournal] at hfnd
      exact (Except.ok.inj hfnd).symm
  constructor
  · rintro ⟨progress, hfns⟩
    have hok : ∃ found, readJournal migrator.crates state.store = .ok found := by
      obtain ⟨found, hfnd, -⟩ := bind_eq_ok.mp hfns
      exact ⟨found, hfnd⟩
    obtain ⟨found, hfnd⟩ := hok
    obtain rfl := hread found hfnd
    obtain ⟨step, listed, hrsm, hlst⟩ := resumedStep_of_finish hfnd hstep hfns
    rw [Migrator.pendingChanges, hwrn.list] at hlst
    refine ⟨⟨?_, ?_⟩, ?_⟩
    · intro raw hraw
      rw [hjrn, Option.some.injEq] at hraw
      rw [← hraw]
      exact (readJournal_ok_iff hjrn).mp ⟨_, hfnd⟩
    · intro _
      exact hlist.mpr ((decodeChanges_ok_iff hwrn.listable).mp ⟨listed, hlst⟩)
    intro other otherPending hoth hotherStep
    cases hread _ hoth
    rw [hstep, Option.some.injEq] at hotherStep
    subst hotherStep
    cases hdir : pending.direction with
    | up => rfl
    | down => exact absurd hrsm (not_resumed_of_down (hheads.down hdir))
  rintro ⟨hrecs, hfwd⟩
  obtain ⟨found, hfnd⟩ := (readJournal_ok_iff hjrn).mpr (hrecs.journal _ hjrn)
  obtain rfl := hread found hfnd
  obtain ⟨step, hstepAt, hto⟩ := hheads.up (hfwd _ _ hfnd hstep)
  have hshrt := hlist.mp (hrecs.list (by rw [hjrn]; exact Option.some_ne_none _))
  apply hres journal step changes hfnd hstep (resumedStep_ok_iff.mpr ⟨hstepAt, hto⟩)
  rw [Migrator.pendingChanges, hwrn.list]
  exact decodeChanges_encodeChanges hwrn.listable hshrt

theorem finish_ok_iff :
    (∃ progress, migrator.finishOutcome state.store start = .ok progress) ↔
      RecordsFit state.store ∧ Forward migrator.crates state.store := by
  cases hstds with
  | idle hidle =>
    have hnone := hidle.journal
    have hread := @readJournal_none migrator.crates _ hnone
    refine ⟨fun _ => ⟨⟨?_, ?_⟩, ?_⟩, fun _ => ⟨start, (finish_of_none hread).1⟩⟩
    · intro raw hraw
      rw [hnone] at hraw
      cases hraw
    · intro hsome
      exact absurd hnone hsome
    · intro journal pending hoth
      rw [hread] at hoth
      cases hoth
  | underway pending changes done hund =>
    apply finish_journaled_iff hund.written (hund.agreed.named pending.applied)
    intro journal step listed hread hstep hrsm hlst
    obtain ⟨known, hknw, hat, -⟩ := hund.lands.store.read
    have hfrom := hat.trans hund.starts.symm
    have hlsb := hund.written.listable
    obtain rfl := hund.written.of_pendingChanges hlst
    obtain ⟨replayed, counted, hok, -⟩ := @applyToBatch_ok start.batch
      (listed.drop (min pending.applied listed.length))
      (fun change hchg => hlsb.plain change (mem_of_mem_drop hchg))
      (fun change hchg => hlsb.fits change (mem_of_mem_drop hchg)) .zero
    rw [finish_underway hread hstep hrsm hknw hfrom
      (fun hto => hund.agreed.adjacent.ne (hfrom.symm.trans hto)), hlst, ok_bind, hok]
    exact ⟨_, rfl⟩
  | committed pending changes hcomm =>
    apply finish_journaled_iff hcomm.written (hcomm.agreed.named pending.applied)
    intro journal step listed hread hstep hrsm hlst
    obtain ⟨known, hknw, hat, -⟩ := hcomm.lands.store.read
    exact ⟨_, finish_committed hread hstep hrsm hlst hknw (hat.trans hcomm.ends.symm)⟩

/-- A retry is stuck on no bound, and not on its sink. -/
structure Unstuck (migrator : Migrator) (target : UInt32) (now : UInt64) (store : Namespace) :
    Prop where
  room : weight store.user.toList ≤ migrator.options.maxBatchBytes
  records : RecordsFit store
  sink : ∀ found snapshot, migrator.prepare target now store = .ok (found, snapshot) →
    migrator.sink found snapshot = .ok ()

/-- A retry of such a migration ends well exactly when it is not stuck. -/
theorem migrate_ok_iff (hinfo : migrator.info.validate = .ok ()) (htgt : target ≠ 0) :
    (∃ report, migrator.migrateOutcome target now state.store = .ok report) ↔
      Unstuck migrator target now state.store ∧ Forward migrator.crates state.store := by
  obtain ⟨known, hknw, hat, hown⟩ := hstds.named.read
  have hleads : Leads migrator target final upward version state.landed.user := hstds.good
  have hopd : migrator.openMeta state.store = .ok known :=
    Migrator.openMeta_ok_iff.mpr ⟨hinfo, hknw, hown⟩
  obtain ⟨-, path, -, -, hplan, -⟩ := hleads.path
  rw [← hat] at hplan
  have hhol : Holdable migrator.options.maxBatchBytes state.store ↔
      weight state.store.user.toList ≤ migrator.options.maxBatchBytes :=
    ⟨fun hhld => hhld.room, fun hroom => ⟨allSized_toList hstds.sized, hroom⟩⟩
  have htake := @Snapshot.take_ok_iff state.store migrator.options.maxBatchBytes migrator.crates
    known now
  rw [hhol] at htake
  constructor
  · rintro ⟨report, hok⟩
    obtain ⟨⟨found, snapshot⟩, hprp, hok⟩ := bind_eq_ok.mp hok
    obtain ⟨_, hsink, hok⟩ := bind_eq_ok.mp hok
    obtain ⟨batch, hbat, hok⟩ := bind_eq_ok.mp hok
    obtain ⟨progress, hfns, -⟩ := bind_eq_ok.mp hok
    have hprep := Migrator.prepare_ok_iff.mp hprp
    have hsame := hprep.opened
    rw [hopd] at hsame
    cases hsame
    obtain ⟨hrecs, hfwd⟩ := (finish_ok_iff hstds).mp ⟨progress, hfns⟩
    refine ⟨⟨(htake.mp ⟨snapshot, hprep.taken⟩).2, hrecs, ?_⟩, hfwd⟩
    intro other otherSnapshot hoth
    rw [hprp] at hoth
    cases hoth
    exact hsink
  rintro ⟨huns, hfwd⟩
  have hvld := (Meta.of_read hknw).2
  obtain ⟨snapshot, htkn⟩ := htake.mpr ⟨⟨by rw [hat]; exact hleads.nonzero, hvld⟩, huns.room⟩
  have hprp := Migrator.prepare_ok_iff.mpr
    (⟨hopd, htgt, ⟨path, hplan⟩, htkn⟩ : migrator.Prepared target now state.store known snapshot)
  obtain ⟨batch, hbat, hents⟩ := Snapshot.batch_of_take htkn
  obtain ⟨progress, hfns⟩ := (@finish_ok_iff _ _ _ _ _ _
    ⟨known.schemaVersion, batch, .start known.schemaVersion target false (some snapshot)⟩
    hstds).mpr ⟨huns.records, hfwd⟩
  have hgood : Leads migrator target final upward progress.version progress.batch.entries :=
    finish_good rfl hstds hat hents hfns
  obtain ⟨other, steps, reached, hoth, hstps, -, hfol, -⟩ := hgood.path
  obtain rfl := Batch.ext hoth
  obtain ⟨walked, hwal⟩ := walk_iff_follow.mpr ⟨reached, hfol⟩
  rw [Migrator.migrateOutcome, hprp, ok_bind]
  dsimp only
  rw [huns.sink _ _ hprp, ok_bind, Migrator.runOutcome, hbat, ok_bind, hfns,
    ok_bind, hstps, ok_bind, hwal]
  exact ⟨_, rfl⟩

end Retries

/-- The calls of one migration, each at its own time and stopped after some of its writes. -/
def crashed (migrator : Migrator) (target : UInt32) (crashes : List (UInt64 × ℕ)) : List Attempt :=
  crashes.map (fun crash => ⟨migrator, target, crash.1, crash.2⟩)

section Crashes

variable {migrator : Migrator} {target : UInt32} {now : UInt64} {store : Namespace}
  {report : MigrationReport} {final : Table} {upward : Prop} {state : Tracked}

theorem leading_of_ok (hjrn : store.get Key.journal = none)
    (hok : migrator.migrateOutcome target now store = .ok report)
    (htidy : Tidy migrator target store)
    (hupw : upward → ∀ found, Meta.read store = .ok (some found) → found.schemaVersion ≤ target) :
    ∃ final, Standing (.leading migrator target final upward) ⟨store, store⟩ ∧
      migrator.info.validate = .ok () ∧ target ≠ 0 := by
  obtain ⟨⟨found, snapshot⟩, hprp, hok⟩ := bind_eq_ok.mp hok
  obtain ⟨_, -, hok⟩ := bind_eq_ok.mp hok
  obtain ⟨batch, hbat, hok⟩ := bind_eq_ok.mp hok
  obtain ⟨progress, hfns, hok⟩ := bind_eq_ok.mp hok
  obtain ⟨steps, hplan, hok⟩ := bind_eq_ok.mp hok
  obtain ⟨walked, hwal, -⟩ := bind_eq_ok.mp hok
  have hprep := Migrator.prepare_ok_iff.mp hprp
  obtain ⟨hinfo, hread, hown⟩ := Migrator.openMeta_ok_iff.mp hprep.opened
  obtain ⟨filled, hfil, hents⟩ := Snapshot.batch_of_take hprep.taken
  rw [hbat] at hfil
  cases hfil
  have hnone := @readJournal_none migrator.crates store hjrn
  obtain ⟨hsame, hfold⟩ := @finish_of_none ⟨store, store⟩ migrator
    ⟨found.schemaVersion, batch, .start found.schemaVersion target false (some snapshot)⟩ hnone
  rw [hsame] at hfns
  cases hfns
  obtain ⟨reached, hrch⟩ := walk_iff_follow.mp ⟨walked, hwal⟩
  have hnmd := (Meta.of_read hread).1
  rw [hown] at hnmd
  refine ⟨reached.entries, Idle.standing ⟨⟨hnmd, hnmd, ?_⟩, rfl, hjrn⟩, hinfo, hprep.nonzero⟩
  exact ⟨(Snapshot.take_ok_iff.mp ⟨snapshot, hprep.taken⟩).1.1,
    fun hgo => hupw hgo found hread,
    ⟨batch, steps, reached, hents, hplan,
      htidy _ _ steps hents ⟨found, hread, rfl⟩ hfold hplan, hrch, rfl⟩⟩

variable (hstg : Standing (.leading migrator target final upward) state)
include hstg

theorem leading_afterRun (crashes : List (UInt64 × ℕ)) :
    Standing (.leading migrator target final upward)
      (afterRunTracked (crashed migrator target crashes) state) := by
  induction crashes generalizing state with
  | nil => exact hstg
  | cons crash crashes ih =>
    apply ih
    exact Attempt.leaves_standing hstg rfl (soundPath_of_leading hstg)

theorem ends_at_target
    (hok : ∃ report, Program.result kv (migrator.migrate target now) state.store = .ok report) :
    (Program.final kv (migrator.migrate target now) state.store).user = final ∧
      Named (Program.final kv (migrator.migrate target now) state.store) target migrator.info.id ∧
      (Program.final kv (migrator.migrate target now) state.store).get Key.journal = none ∧
      (Program.final kv (migrator.migrate target now) state.store).get Key.pending = none := by
  obtain ⟨report, hrep⟩ := hok
  obtain ⟨version, hstds⟩ := hstg
  have hend := (@migrate_survives _ state version now migrator rfl target hstds
    (soundPath_of_leading ⟨version, hstds⟩)).outcome report
  rw [Program.result_project tracked_projects] at hend
  have hrsts := hend hrep
  have hleads : Leads migrator target final upward target _ := hrsts.idle.lands.good
  rw [← Program.final_project tracked_projects]
  exact ⟨hrsts.idle.user.trans hleads.at_target, hrsts.idle.lands.store, hrsts.idle.journal,
    hrsts.pending⟩

/-- What a migration is to leave: this data at this version, and nothing unfinished. -/
structure Migrated (store : Namespace) (data : Table) (version : UInt32) : Prop where
  data : store.user = data
  version : ∃ found, Meta.read store = .ok (some found) ∧ found.schemaVersion = version
  journal : store.get Key.journal = none
  pending : store.get Key.pending = none

theorem forward_of_upward (hupw : upward) : Forward migrator.crates state.store := by
  obtain ⟨version, hstds⟩ := hstg
  have hjour : ∀ pending changes,
      Written migrator.crates state.store pending changes → Heads migrator upward pending →
      Forward migrator.crates state.store := by
    intro pending changes hwrn hheads journal other hread hstep
    obtain ⟨same, hsame, hsameStep⟩ := hwrn.of_readJournal hread
    cases hsame
    rw [hstep, Option.some.injEq] at hsameStep
    rw [hsameStep]
    exact hheads.upward hupw
  cases hstds with
  | idle hidle =>
    intro journal pending hread
    rw [readJournal_none hidle.journal] at hread
    cases hread
  | underway pending changes done hund =>
    exact hjour pending changes hund.written (hund.agreed.named pending.applied)
  | committed pending changes hcomm =>
    exact hjour pending changes hcomm.written (hcomm.agreed.named pending.applied)

omit hstg

/-- Where a retry that ends well takes a migration on its path. -/
theorem migrated_of_ok {whole : Namespace} {again : UInt64}
    (hstg : Standing (.leading migrator target final upward) ⟨whole, whole⟩)
    (haft : Standing (.leading migrator target final upward) state)
    (hok : ∃ report, Program.result kv (migrator.migrate target now) whole = .ok report)
    (hagain : ∃ report,
      Program.result kv (migrator.migrate target again) state.store = .ok report) :
    Migrated (Program.final kv (migrator.migrate target again) state.store)
      (Program.final kv (migrator.migrate target now) whole).user target := by
  obtain ⟨hdata, hnmd, hjrn, hpnd⟩ := ends_at_target haft hagain
  obtain ⟨found, hread, hver, -⟩ := hnmd.read
  have hwhole := (ends_at_target hstg hok).1
  exact ⟨hdata.trans hwhole.symm, ⟨found, hread, hver⟩, hjrn, hpnd⟩

end Crashes

namespace Notes

def downgrader : Migrator :=
  { rewriter with options := { MigrateOptions.default with allowDowngrade := true } }

/-- Two notes at the second version. -/
def rewritten : Namespace := store 2 [(utf8 "a", utf8 "2"), (utf8 "b", utf8 "2")]

end Notes

end WasmAgent.State
