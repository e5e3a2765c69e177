import WasmAgent.Host.Install

/-!
# What the migrated copy holds

A copy is imported from an export of the live namespace, opened, and migrated.  It
ends with what the registered steps make of the data that was exported, at the
declared version; the live namespace's own records of a migration are not in it.
-/

namespace WasmAgent.Host

open Std WasmAgent.Core WasmAgent.State

inductive Reached (steps : UInt32 → Option Step) : UInt32 → Table → UInt32 → Table → Prop where
  | refl (version : UInt32) (data : Table) : Reached steps version data version data
  | step {version target : UInt32} {step : Step} {batch next : Batch} {data : Table}
      (hstep : steps version = some step)
      (hnext : (⟨step, .up⟩ : PlannedStep).next batch = .ok next)
      (hrest : Reached steps step.toVersion next.entries target data) :
      Reached steps version batch.entries target data

def Kernel.steps (kernel : Kernel) (component : String) (version : UInt32) : Option Step :=
  (kernel.registryFor component).bind (fun registry => registry.step version)

/-- No step up makes a key of the engine's own out of a component's data. -/
def KeepsPlain (steps : UInt32 → Option Step) : Prop :=
  ∀ version step batch next, steps version = some step →
    (⟨step, .up⟩ : PlannedStep).next batch = .ok next → Plain batch.entries → Plain next.entries

section Paths

variable {steps : UInt32 → Option Step} {registry : Registry} {version target : UInt32}
  {before after data : Table}

theorem Reached.trans {middle : UInt32} (hfst : Reached steps version before middle data)
    (hsnd : Reached steps middle data target after) :
    Reached steps version before target after := by
  induction hfst with
  | refl version data => exact hsnd
  | step hstep hnext _ ih => exact .step hstep hnext (ih hsnd)

theorem Reached.rest {step : Step} {batch next : Batch}
    (hrch : Reached steps version batch.entries target after) (hoth : version ≠ target)
    (hstep : steps version = some step)
    (hnext : (⟨step, .up⟩ : PlannedStep).next batch = .ok next) :
    Reached steps step.toVersion next.entries target after := by
  generalize hents : batch.entries = entries at hrch
  cases hrch with
  | refl => exact absurd rfl hoth
  | step hfnd hmade hrest =>
    rw [hstep, Option.some.injEq] at hfnd
    obtain rfl := Batch.ext hents
    rw [hfnd, hmade] at hnext
    cases hnext
    rwa [hfnd]

theorem reached_of_follow {migrator : Migrator} {planned : List PlannedStep}
    {batch reached : Batch} (hplan : registry.plan version target false = .ok planned)
    (hfol : follow migrator planned batch = .ok reached) :
    Reached registry.step version batch.entries target reached.entries := by
  induction planned generalizing version batch with
  | nil =>
    cases Registry.plan_nil hplan
    cases hfol
    exact .refl _ _
  | cons planned rest ih =>
    obtain ⟨hofs, hfrom, hdir, hrest⟩ := Registry.plan_cons hplan
    have hup : planned.direction = .up := by
      apply hdir.mpr
      rcases lt_trichotomy version target with hless | hsame | hless
      · exact hless
      · rw [hsame, Registry.plan_self] at hplan
        cases hplan
      · cases ((Registry.plan_down hless).mp hplan).1
    obtain ⟨next, hnext, hchkd⟩ := bind_eq_ok.mp hfol
    obtain ⟨_, -, hgoes⟩ := bind_eq_ok.mp hchkd
    obtain ⟨step, direction⟩ := planned
    cases hup
    cases hfrom
    exact .step hofs.step hnext (ih hrest hgoes)

theorem tidy_of_keepsPlain {migrator : Migrator} (hks : KeepsPlain migrator.registry.step)
    (hupw : migrator.options.allowDowngrade = false) (target : UInt32) (store : Namespace) :
    Tidy migrator target store := by
  intro start progress steps hents _ hfold hplan
  have hpln : Plain progress.batch.entries := by
    apply plain_fold _ hfold
    rw [hents]
    exact Namespace.plain_user store
  rw [Migrator.plan, hupw] at hplan
  clear hfold hents
  generalize progress.version = version at hplan
  generalize progress.batch = batch at hpln
  induction steps generalizing version batch with
  | nil => trivial
  | cons planned rest ih =>
    intro next hnext
    obtain ⟨hofs, hfrom, hdir, hrest⟩ := Registry.plan_cons hplan
    obtain ⟨step, direction⟩ := planned
    cases direction with
    | down =>
      obtain hless | hsame | hless := lt_trichotomy version target
      · cases hdir.mpr hless
      · rw [hsame, Registry.plan_self] at hplan
        cases hplan
      · cases ((Registry.plan_down hless).mp hplan).1
    | up =>
      have hkept := hks _ step batch next hofs.step hnext hpln
      exact ⟨hkept, ih _ hrest _ hkept⟩

end Paths

section Copies

variable {kernel : Kernel} {declared : StateDeclaration} {info : ComponentInfo} {clock : Clock}
  {registry : Registry} {current found : Meta} {file : Bytes} {store : Namespace}

structure Opened (store : Namespace) (found : Meta) (left : Namespace) : Prop where
  named : Named left found.schemaVersion found.component
  user : left.user = store.user
  journal : left.get Key.journal = store.get Key.journal

theorem Opened.put {key : Bytes} {text : String} {left : Namespace} (hopd : Opened store found left)
    (hrsv : isReserved key = true) (hoth : key ≠ Key.journal)
    (hwan : Wanted found.schemaVersion found.component key text) :
    Opened store found ((Core.Change.put key (utf8 text) : State.Change).apply left) := by
  have hchg : isReserved (Core.Change.put key (utf8 text) : State.Change).key = true := hrsv
  refine ⟨hopd.named.put hwan, ?_, ?_⟩
  · rw [Namespace.user_apply_reserved left hchg]
    exact hopd.user
  · rw [Namespace.get_apply, ← hopd.journal]
    exact if_neg hoth

theorem openMeta_survives {initialVersion : UInt32} {now : UInt64}
    (hread : Meta.read store = .ok (some found)) :
    Survives kv (Opened store found)
      (IfOk (fun _ final => Opened store found final)) (openMeta info initialVersion now) store := by
  have hsame : Opened store found store := ⟨(Meta.of_read hread).1, rfl, rfl⟩
  apply Survives.checkBind hsame (fun fault _ => IfOk.failed fault store)
  intro _ hvld
  split
  · exact Survives.throw hsame (IfOk.failed _ store)
  apply Survives.tryAskBind hsame (fun fault _ => IfOk.failed fault store)
  intro read hans
  change Meta.read store = .ok read at hans
  rw [hread] at hans
  cases hans
  rw [ComponentInfo.enter]
  split
  · exact Survives.throw hsame (IfOk.failed _ store)
  split
  · have hbuild := hsame.put (by decide) (by decide)
      (⟨fun hkey => absurd hkey (by decide), fun hkey => absurd hkey (by decide),
        fun _ => (ComponentInfo.validate_ok_iff.mp hvld).2.1, fun hkey => absurd hkey (by decide),
        fun hkey => absurd hkey (by decide), fun hkey => absurd hkey (by decide)⟩ :
        Wanted found.schemaVersion found.component Key.componentVersion info.version)
    have hupd := hbuild.put (by decide) (by decide)
      (⟨fun hkey => absurd hkey (by decide), fun hkey => absurd hkey (by decide),
        fun hkey => absurd hkey (by decide), fun hkey => absurd hkey (by decide),
        fun hkey => absurd hkey (by decide), fun hkey => absurd hkey (by decide)⟩ :
        Wanted found.schemaVersion found.component Key.updatedAt (toString now.toNat))
    apply Survives.okBind
    apply Survives.writeBind hsame
    apply Survives.writeBind hbuild
    exact Survives.pure hupd (IfOk.ok (Survives.pure hupd (IfOk.ok hupd)))
  · exact Survives.pure hsame (IfOk.ok hsame)

theorem importSnapshot_copies {header : SnapshotHeader} {options : ImportOptions}
    (hexp : exportSnapshot kernel.archive exportDefault current clock.exported store =
      .ok (header, file))
    (hmax : options.maxBytes = maxStateBytes) :
    Survives kv (fun _ => True)
      (IfOk (fun _ final => ∃ found, Meta.read final = .ok (some found) ∧
        found.schemaVersion = current.schemaVersion ∧ found.component = current.component ∧
        final.user = store.user ∧ final.get Key.journal = none))
      (importSnapshot kernel.archive.toCrates options clock.imported file) ∅ := by
  obtain ⟨payload, hexpo⟩ := of_exportSnapshot hexp
  apply importSnapshot_ends.weaken
  intro outcome final hends header hok
  obtain ⟨snapshot, hread, -, -, rfl⟩ := hends header hok
  have hpln := readSnapshot_plain hread
  have hbound : options.maxBytes = exportDefault.maxBytes.toNat := hmax
  rw [hbound] at hread
  rw [hexpo.read (hexpo.framed hread)] at hread
  cases hread
  rw [emptied, if_pos userKeys_empty]
  let snapshot := payload.readAs kernel.archive.toCrates (current.head clock.exported)
    store.user.toList
  have hvld : (snapshot.meta clock.imported).Valid := hexpo.valid.identity
  refine ⟨snapshot.meta clock.imported, ?_, rfl, rfl, ReadSnapshot.user_writes rfl, ?_⟩
  · rw [ReadSnapshot.writes, Core.Change.applyAll_append]
    exact Meta.read_written hvld clock.imported _
  · exact settled_of_writes _ hpln (by decide) (by decide)

theorem migrate_reaches (hks : KeepsPlain registry.step) {copy : Namespace}
    (hread : Meta.read copy = .ok (some found)) (hjrn : copy.get Key.journal = none) :
    Survives kv (fun _ => True)
      (IfOk (fun _ final => Named final declared.version info.id ∧ found.component = info.id ∧
        Reached registry.step found.schemaVersion copy.user declared.version final.user))
      ((copyMigrator kernel info registry).migrate declared.version clock.migrated) copy := by
  refine ⟨fun _ => trivial, fun report hok => ?_⟩
  have hoc := (Migrator.migrate_result declared.version clock.migrated).symm.trans hok
  obtain ⟨final, hstg, -⟩ := @leading_of_ok _ _ _ _ _ False hjrn hoc
    (tidy_of_keepsPlain hks rfl declared.version copy) False.elim
  obtain ⟨huser, hnmd, -⟩ := @ends_at_target _ _ clock.migrated _ _ _ hstg ⟨report, hok⟩
  obtain ⟨version, hstds⟩ := hstg
  obtain ⟨hver, hown⟩ := hstds.named.of_read_eq hread
  have hleads : Leads (copyMigrator kernel info registry) declared.version final False version
    copy.user := hstds.good
  obtain ⟨batch, planned, reached, hbat, hplan, -, hfol, hfin⟩ := hleads.path
  refine ⟨hnmd, hown, ?_⟩
  rw [huser, hver, ← hbat, ← hfin]
  exact reached_of_follow hplan hfol

theorem reporting_survives {Result : Type} {tell : Error → InstallError} {call : Call Result}
    {crash : Namespace → Prop} {post : Result → Namespace → Prop}
    (hsurv : Survives kv crash (IfOk post) call store) :
    Survives kv crash (IfOk post) (reporting tell call) store := by
  apply Survives.bind
  refine ⟨hsurv.stops, ?_⟩
  have hpost := hsurv.outcome
  have hlast := hsurv.last
  cases hoc : Program.result kv call store with
  | error fault => exact Survives.done hlast (IfOk.failed _ _)
  | ok value => exact Survives.done hlast (IfOk.ok (hpost value hoc))

theorem migrateCopy_reaches {header : SnapshotHeader} (hks : KeepsPlain registry.step)
    (hexp : exportSnapshot kernel.archive exportDefault current clock.exported store =
      .ok (header, file)) :
    Survives kv (fun _ => True)
      (IfOk (fun _ final => Named final declared.version current.component ∧
        Reached registry.step current.schemaVersion store.user declared.version final.user))
      (migrateCopy kernel declared info clock registry current file) ∅ := by
  apply Survives.okBind
  apply (reporting_survives (importSnapshot_copies hexp rfl)).weaken
  intro outcome imported himp header hok
  obtain ⟨found, hread, hver, hown, huser, hjrn⟩ := himp header hok
  apply Survives.okBind
  refine ⟨fun _ => trivial, ?_⟩
  intro opened hopens
  obtain ⟨hnmd, hsame, hunw⟩ :=
    (reporting_survives (@openMeta_survives info found imported current.schemaVersion clock.reopened
      hread)).outcome opened hopens
  obtain ⟨known, hknw, hat, hof⟩ := hnmd.read
  have hmig := @migrate_reaches kernel declared info clock registry known hks _ hknw
    (hunw.trans hjrn)
  apply (reporting_survives hmig).weaken
  intro outcome final hends report hrep
  obtain ⟨hfin, hmine, hrch⟩ := hends report hrep
  rw [← hown, ← hof, hmine]
  refine ⟨hfin, ?_⟩
  rwa [hat, hver, hsame, huser] at hrch

end Copies

end WasmAgent.Host
