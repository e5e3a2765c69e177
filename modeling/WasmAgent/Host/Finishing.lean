import WasmAgent.Host.Swaps

/-!
# Installs over an unfinished migration

An install exports the live data and not the record of a step under way.  The copy
takes that step from its start: it comes to what finishing the step would have come
to where the step goes up and none of its changes had been made.
-/

namespace WasmAgent.Host

open List Std WasmAgent.Core WasmAgent.State

inductive Finishes (crates : Crates) (live : Namespace) : UInt32 → Table → Prop where
  | settled {found : Meta} (hread : Meta.read live = .ok (some found))
      (hnone : ∀ journal pending, live.get Key.journal = some (crates.printJournal journal) →
        journal.pendingStep = some pending → pending.fromVersion ≠ found.schemaVersion) :
      Finishes crates live found.schemaVersion live.user
  | finished {found : Meta} {journal : Journal} {pending : PendingStep}
      {changes : List State.Change} (hread : Meta.read live = .ok (some found))
      (hjournal : live.get Key.journal = some (crates.printJournal journal))
      (hpending : journal.pendingStep = some pending)
      (hstarts : pending.fromVersion = found.schemaVersion)
      (hlist : live.get Key.pending = some (encodeChanges changes))
      (hlistable : Listable changes) :
      Finishes crates live pending.toVersion (Core.Change.applyAll changes live.user)

def Retakes (crates : Crates) (declared : UInt32) (live : Namespace) : Prop :=
  ∀ found journal pending, Meta.read live = .ok (some found) →
    live.get Key.journal = some (crates.printJournal journal) →
    journal.pendingStep = some pending → pending.fromVersion = found.schemaVersion →
    pending.direction = .up ∧ found.schemaVersion ≠ declared ∧ Untouched crates live

/-- A step that goes up is one of these, and makes of its data what they make of it. -/
def MadeBy (steps : UInt32 → Option Step) (pending : PendingStep) (before after : Table) : Prop :=
  pending.direction = .up → ∃ step batch next, steps pending.fromVersion = some step ∧
    step.toVersion = pending.toVersion ∧ batch.entries = before ∧
    (⟨step, .up⟩ : PlannedStep).next batch = .ok next ∧ next.entries = after

def Terms.stepped (crates : Crates) (component : String) (steps : UInt32 → Option Step) : Terms :=
  ⟨crates, component, fun _ _ => True, fun _ => True, MadeBy steps⟩

section Runs

variable {crates : Crates} {component : String} {steps : UInt32 → Option Step} {state : Tracked}
  {migrator : Migrator} {target : UInt32}

theorem soundSteps_of_tidy {path : List PlannedStep} {batch : Batch}
    (htidy : Along (fun _ _ next => Plain next.entries) path batch)
    (hofs : ∀ planned ∈ path, migrator.registry.Offers planned)
    (hstps : ∀ version step, migrator.registry.step version = some step →
      steps version = some step) :
    Along (fun planned batch next => Sound (Terms.stepped crates component steps) planned batch next)
      path batch := by
  induction path generalizing batch with
  | nil => trivial
  | cons planned rest ih =>
    intro next hnext
    obtain ⟨hpln, hrest⟩ := htidy next hnext
    refine ⟨⟨hpln, trivial, fun _ => trivial, fun applied hup => ?_⟩, ih hrest ?_⟩
    · have hstep := hstps _ _ (hofs planned mem_cons_self).step
      obtain ⟨step, direction⟩ := planned
      cases hup
      exact ⟨step, batch, next, hstep, rfl, rfl, hnext, rfl⟩
    · intro other hoth
      exact hofs other (mem_cons_of_mem planned hoth)

theorem soundPath_of_steps (hstg : Standing (Terms.stepped crates component steps) state)
    (hcr : migrator.crates = crates) (htidy : Tidy migrator target state.store)
    (hstps : ∀ version step, migrator.registry.step version = some step →
      steps version = some step) :
    SoundPath (Terms.stepped crates component steps) migrator target state.store := by
  intro start progress path hents hnmd hfns hplan
  obtain ⟨version, hstds⟩ := hstg
  obtain ⟨known, hknw, hat, -⟩ := hnmd.read
  have hver : start.version = version := hat.symm.trans (hstds.named.of_read_eq hknw).1
  obtain ⟨folded, hfold, hsame, hbat⟩ := fold_of_finish hcr hstds hver hfns
  rw [← hsame] at hplan
  have halong := htidy start folded path hents ⟨known, hknw, hat⟩ hfold hplan
  rw [hbat] at halong
  exact soundSteps_of_tidy halong (Registry.plan_offers hplan) hstps

def SteppedAttempt (crates : Crates) (component : String) (steps : UInt32 → Option Step)
    (attempt : Attempt) (store : Namespace) : Prop :=
  TidyAttempt crates attempt store ∧ (attempt.migrator.info.id = component →
    ∀ version step, attempt.migrator.registry.step version = some step → steps version = some step)

theorem Attempt.leaves_stepped {attempt : Attempt}
    (hstg : Standing (Terms.stepped crates component steps) state)
    (hatt : SteppedAttempt crates component steps attempt state.store) :
    Standing (Terms.stepped crates component steps) (attempt.leavesTracked state) := by
  obtain ⟨⟨hcr, htidy⟩, hstps⟩ := hatt
  by_cases hown : attempt.migrator.info.id = component
  · exact attempt.leaves_standing hstg hcr
      (soundPath_of_steps hstg hcr htidy (hstps hown))
  obtain ⟨version, hstds⟩ := id hstg
  -- another component's migration is refused before it writes
  have hwrs := @Attempt.writes_refused state.store attempt (fun prepared hprep => by
    obtain ⟨-, hread, hmine⟩ := Migrator.openMeta_ok_iff.mp
      (Migrator.prepare_ok_iff.mp hprep).opened
    exact hown (hmine.symm.trans (hstds.named.of_read_eq hread).2))
  rw [Attempt.leavesTracked, Program.stopped, Program.writes_project tracked_projects, hwrs,
    take_nil]
  exact hstg

theorem standing_of_stepped {attempts : List Attempt}
    (hstg : Standing (Terms.stepped crates component steps) state)
    (hatts : EachAttempt (SteppedAttempt crates component steps) attempts state.store) :
    Standing (Terms.stepped crates component steps) (afterRunTracked attempts state) := by
  induction attempts generalizing state with
  | nil => exact hstg
  | cons attempt attempts ih =>
    obtain ⟨hhead, hrest⟩ := hatts
    rw [← Attempt.leavesTracked_store] at hrest
    exact ih (Attempt.leaves_stepped hstg hhead) hrest

theorem finishes_of_stands {version declared : UInt32} {found : Meta} {final : Table}
    (hstds : Stands (Terms.stepped crates component steps) state version)
    (hread : Meta.read state.store = .ok (some found)) (hret : Retakes crates declared state.store)
    (hrch : Reached steps found.schemaVersion state.store.user declared final) :
    ∃ reached data, Finishes crates state.store reached data ∧
      Reached steps reached data declared final := by
  have hat : found.schemaVersion = version := (hstds.named.of_read_eq hread).1
  cases hstds with
  | idle hidle =>
    refine ⟨_, _, .settled hread ?_, hrch⟩
    intro journal pending hjour
    rw [hidle.journal] at hjour
    cases hjour
  | underway pending changes done hund =>
    obtain ⟨journal, hjour, hpen⟩ := hund.written.journal
    have hstar : pending.fromVersion = found.schemaVersion := hund.starts.trans hat.symm
    obtain ⟨hup, hbelow, hunt⟩ := hret found journal pending hread hjour hpen hstar
    have huser : state.store.user = state.landed.user := hund.user_eq_iff.mpr hunt
    obtain ⟨step, batch, next, hstep, hto, hbat, hnext, hmade⟩ := hund.made pending.applied hup
    refine ⟨_, _, .finished hread hjour hpen hstar hund.written.list hund.written.listable, ?_⟩
    rw [huser, ← hmade, ← hto]
    rw [huser, ← hbat] at hrch
    exact hrch.rest hbelow (hstar ▸ hstep) hnext
  | committed pending changes hcomm =>
    refine ⟨_, _, .settled hread ?_, hrch⟩
    intro other otherPending hoth hotherStep hstar
    obtain ⟨journal, hjour, hstep⟩ := hcomm.written.journal
    rw [hjour, Option.some.injEq] at hoth
    obtain rfl := crates.printJournal_inj hoth
    rw [hstep, Option.some.injEq] at hotherStep
    obtain rfl := hotherStep
    exact hcomm.agreed.adjacent.ne (hstar.trans (hat.trans hcomm.ends.symm))

end Runs

structure Finished (kernel : Kernel) (component : String) (live : Namespace) (declared : UInt32)
    (final : Files) : Prop where
  installed : ∃ store version data, final.database .live = some store ∧
    Finishes kernel.archive.toCrates live version data ∧ Named store declared component ∧
    Reached (kernel.steps component) version data declared store.user

/-- However the migrations of a namespace were crashed: an install over it that goes well
ends with what finishing the step under way and going on would have ended with, where
that step is retaken from its start. -/
theorem install_finishes_step (kernel : Kernel) (start : Namespace) (first : Meta)
    (hfirst : Meta.read start = .ok (some first)) (hjournal : start.get Key.journal = none)
    (attempts : List Attempt)
    (hattempts : EachAttempt (SteppedAttempt kernel.archive.toCrates first.component
      (kernel.steps first.component)) attempts start)
    (hkeeps : KeepsPlain (kernel.steps first.component)) (files : Files)
    (hlive : files.database .live = some (afterRun attempts start)) (declared : StateDeclaration)
    (hretakes : Retakes kernel.archive.toCrates declared.version (afterRun attempts start))
    (sha256 : String) (clock : Clock) (outcome : StateOutcome)
    (hok : Program.result disk (prepareInstall kernel (some declared) sha256 clock) files =
      .ok outcome) :
    Finished kernel first.component (afterRun attempts start) declared.version
      (Program.final disk (prepareInstall kernel (some declared) sha256 clock) files) := by
  have hidle : Standing (Terms.stepped kernel.archive.toCrates first.component
      (kernel.steps first.component)) ⟨start, start⟩ :=
    Idle.standing ⟨⟨(Meta.of_read hfirst).1, (Meta.of_read hfirst).1, trivial⟩, rfl, hjournal⟩
  obtain ⟨version, hstands⟩ := standing_of_stepped hidle hattempts
  have hstore := afterRunTracked_store attempts ⟨start, start⟩
  rw [← hstore] at hlive hretakes ⊢
  obtain ⟨found, hread, hversion, howner⟩ := hstands.named.read
  have hcarried : Carried (kernel.steps found.component) found
      (afterRunTracked attempts ⟨start, start⟩).store.user found.schemaVersion
      (afterRunTracked attempts ⟨start, start⟩).store :=
    ⟨(Meta.of_read hread).1, .refl _ _⟩
  have hmine : found.component = first.component := howner
  rw [← hmine] at hkeeps
  have hprojects := Program.traced_projects disk
  have hresult := Program.result_project hprojects (prepareInstall kernel (some declared) sha256 clock)
    (files, none)
  have hfinal := Program.final_project hprojects (prepareInstall kernel (some declared) sha256 clock)
    (files, none)
  have hends := (@prepareInstall_survives kernel declared clock files none _ found _ _ sha256 hlive
    hcarried hkeeps).outcome outcome (hresult.trans hok)
  obtain ⟨store, hinstalled, hnamed, hreached⟩ := hends.carried
  rw [hfinal] at hinstalled
  rw [hmine] at hnamed hreached
  obtain ⟨reached, data, hfinishes, hcarries⟩ := finishes_of_stands hstands hread hretakes hreached
  exact ⟨store, reached, data, hinstalled, hfinishes, hnamed, hcarries⟩

namespace Notes

open WasmAgent.State.Notes

/-- The two notes change places. -/
def exchange : StepProgram :=
  .remove (utf8 "a") fun first => .remove (utf8 "b") fun second =>
    .insert (utf8 "a") (second.getD []) fun _ => .insert (utf8 "b") (first.getD []) fun _ =>
      .done (.ok ())

/-- A host with that step. -/
def exchanging : Kernel :=
  ⟨Records.archive, fun component =>
    if component = info.id then some (registry exchange exchange) else none⟩

def differing : Namespace := store 1 [(utf8 "a", utf8 "1"), (utf8 "b", utf8 "2")]

/-- The notes while their exchange is stopped after some of its writes. -/
def exchanged (stop : ℕ) : Namespace :=
  afterRun [⟨migrator exchange exchange, 2, 5, stop⟩] differing

def exchangeJournal : Journal := ⟨1, 2, 1, 5, 1, info.id, some ⟨1, 2, "rewrite", .up, 0⟩⟩

def exchangeList : List State.Change := [.put (utf8 "a") (utf8 "2"), .put (utf8 "b") (utf8 "1")]

theorem exchange_noMoves : exchange.NoMoves :=
  fun _ _ _ _ => trivial

theorem listable_exchangeList : Listable exchangeList := by
  refine ⟨by decide, by decide, ?_⟩
  intro change hchg
  simp only [exchangeList, mem_cons, not_mem_nil, or_false] at hchg
  rcases hchg with rfl | rfl
  · exact ⟨by decide, fun value hval => by cases hval; decide⟩
  · exact ⟨by decide, fun value hval => by cases hval; decide⟩

theorem retakes_exchanged : Retakes Records.crates 2 (exchanged 2) := by
  intro found journal pending hread hjour hpen _
  have hnmd : Meta.read (exchanged 2) = .ok (some (named 1)) := by
    decide +kernel
  have hown : (exchanged 2).get Key.journal = some (Records.crates.printJournal exchangeJournal) := by
    decide +kernel
  have hlst : (exchanged 2).get Key.pending = some (encodeChanges exchangeList) := by
    decide +kernel
  have hsame : (exchanged 2).get (utf8 "a") = some (utf8 "1") := by
    decide +kernel
  cases hread
  rw [hown, Option.some.injEq] at hjour
  obtain rfl := Records.crates.printJournal_inj hjour
  cases hpen
  refine ⟨rfl, by decide, ?_⟩
  intro other record step first rest _ _ _ _ hlist hfst
  rw [hlst, Option.some.injEq] at hlist
  obtain rfl := head_of_encodeChanges listable_exchangeList hfst hlist
  rw [show Core.Change.key (.put (utf8 "a") (utf8 "2") : State.Change) = utf8 "a" from rfl, hsame]
  decide

end Notes

/-- The exchange of the notes, stopped before its first change, and an install over it. -/
theorem install_finishes_notes :
    Finished Notes.exchanging Notes.info.id (Notes.exchanged 2) 2
      (Program.final disk (prepareInstall Notes.exchanging (some Notes.declared) Notes.info.sha256
        Notes.clock) (Notes.installed (Notes.exchanged 2))) := by
  have hok : ∃ outcome, Program.result disk (prepareInstall Notes.exchanging (some Notes.declared)
      Notes.info.sha256 Notes.clock) (Notes.installed (Notes.exchanged 2)) = .ok outcome := by
    apply ok_of_isSome
    simp only [Notes.exchanging, Notes.exchanged, Notes.migrator, Records.archive_plain,
      Records.crates_plain]
    decide +kernel
  obtain ⟨outcome, hok⟩ := hok
  have htidy : Tidy (Notes.migrator Notes.exchange Notes.exchange) 2 Notes.differing :=
    tidy_of_withdraws (Notes.built Notes.exchange Notes.exchange)
      (fun _ => Notes.exchange_noMoves.withdraws) (fun _ => Notes.exchange_noMoves.withdraws) 2
      Notes.differing
  exact install_finishes_step Notes.exchanging Notes.differing (Notes.named 1) (by decide +kernel)
    (by decide +kernel) [⟨Notes.migrator Notes.exchange Notes.exchange, 2, 5, 2⟩]
    ⟨⟨⟨rfl, htidy⟩, fun _ _ _ hstep => hstep⟩, trivial⟩
    (Notes.keepsPlain (fun batch => Notes.exchange_noMoves.withdraws batch))
    (Notes.installed (Notes.exchanged 2)) rfl Notes.declared Notes.retakes_exchanged
    Notes.info.sha256 Notes.clock outcome hok

/-- Stopped after its first change, the exchange is taken once more from what it had made:
an install over it goes well, and a note is lost that finishing the exchange would keep. -/
theorem install_repeats_exchange :
    (∃ outcome, Program.result disk (prepareInstall Notes.exchanging (some Notes.declared)
        Notes.info.sha256 Notes.clock) (Notes.installed (Notes.exchanged 3)) = .ok outcome) ∧
      (∃ data, Finishes Records.crates (Notes.exchanged 3) 2 data ∧
        data.toList = [(utf8 "a", utf8 "2"), (utf8 "b", utf8 "1")]) ∧
      Option.map (fun store => store.user.toList) ((Program.final disk (prepareInstall
          Notes.exchanging (some Notes.declared) Notes.info.sha256 Notes.clock)
          (Notes.installed (Notes.exchanged 3))).database .live) =
        some [(utf8 "a", utf8 "2"), (utf8 "b", utf8 "2")] := by
  have hrun : ((Program.run disk (prepareInstall Notes.exchanging (some Notes.declared)
      Notes.info.sha256 Notes.clock) (Notes.installed (Notes.exchanged 3))).map
      (fun outcome => outcome.toOption.isSome)
      (fun final => Option.map (fun store => store.user.toList) (final.database .live))) =
      (true, some [(utf8 "a", utf8 "2"), (utf8 "b", utf8 "2")]) := by
    simp only [Notes.exchanging, Notes.exchanged, Notes.migrator, Records.archive_plain,
      Records.crates_plain]
    decide +kernel
  rw [Program.run_eq, Prod.map_apply, Prod.mk.injEq] at hrun
  refine ⟨ok_of_isSome hrun.1, ⟨_, @Finishes.finished _ _ (Notes.named 1) Notes.exchangeJournal _
    Notes.exchangeList ?_ ?_ rfl rfl ?_ Notes.listable_exchangeList, ?_⟩, hrun.2⟩
  · decide +kernel
  · decide +kernel
  · decide +kernel
  · decide +kernel

end WasmAgent.Host
