import WasmAgent.Host.Copies

/-!
# Installs that are stopped

An install works on a copy next to the live directory, and puts it in place with two
renames.  A stop anywhere but between the two leaves the live namespace as it was or
as it was migrated; after a stop between them the next install finds none.
-/

namespace WasmAgent.Host

open List Std WasmAgent.Core WasmAgent.State

/-- The files, with the last operation on them. -/
abbrev Watched := Files × Option FileOp

abbrev watched : Machine FileQuery FileOp Watched := Program.traced disk

namespace Files

variable {files : Files} {place other : Place} {database : Option Namespace}

theorem database_put : (files.put place database).database place = database := if_pos rfl

theorem database_put_other (hoth : other ≠ place) :
    (files.put place database).database other = files.database other :=
  if_neg hoth

theorem put_put (first : Option Namespace) :
    (files.put place first).put place database = files.put place database := by
  rw [put, put, put, mk.injEq]
  refine ⟨funext fun found => ?_, rfl⟩
  dsimp only
  split
  · rfl
  · rfl

theorem put_self (hthere : files.database place = database) : files.put place database = files := by
  rw [put, ← hthere]
  apply congrArg (mk · files.snapshots)
  funext found
  split
  · next hplace => rw [hplace]
  · rfl

theorem contents_of_database {store : Namespace} (hthere : files.database place = some store) :
    files.contents place = store := by
  rw [contents, hthere]
  rfl

end Files

variable {Result : Type} {crash : Watched → Prop}

section Within

variable {files : Files} {place : Place} {store : Namespace} {last : Option FileOp}

theorem watched_writes (changes : List State.Change) (hthere : files.database place = some store) :
    ∃ seen, watched.applyAll (changes.map (FileOp.write place)) (files, last) =
      (files.put place (some (Core.Change.applyAll changes store)), seen) := by
  induction changes generalizing files store last with
  | nil => exact ⟨last, congrArg (·, last) (Files.put_self hthere).symm⟩
  | cons change changes ih =>
    obtain ⟨seen, hseen⟩ := @ih (files.put place (some (change.apply store))) (change.apply store)
      (some (.write place change)) Files.database_put
    refine ⟨seen, ?_⟩
    rw [Files.put_put] at hseen
    rw [map_cons, Machine.applyAll_cons]
    refine Eq.trans ?_ hseen
    change watched.applyAll _ (files.put place (some (change.apply (files.contents place))), _) = _
    rw [Files.contents_of_database hthere]

theorem embeds_within (place : Place) :
    Program.Embeds watched kv (fun question files => question (files.contents place))
      (FileOp.write place) (fun state => state.1.contents place) := by
  refine ⟨fun _ _ => rfl, fun change state => ?_⟩
  exact Files.contents_of_database Files.database_put

theorem within_survives {calls : Fallible Query State.Change InstallError Result}
    {inner : Namespace → Prop} {innerPost : Except InstallError Result → Namespace → Prop}
    {post : Except InstallError Result → Watched → Prop}
    (hthere : files.database place = some store)
    (hsurv : Survives kv inner innerPost calls store)
    (hcra : ∀ left seen, inner left → crash (files.put place (some left), seen))
    (hpost : ∀ outcome left seen, innerPost outcome left →
      post outcome (files.put place (some left), seen)) :
    Survives watched crash post (within place calls) (files, last) := by
  have hcon : (files, last).1.contents place = store := Files.contents_of_database hthere
  have hwrs := Program.writes_relabel (embeds_within place) calls (files, last)
  have hres := Program.result_relabel (embeds_within place) calls (files, last)
  rw [hcon] at hwrs hres
  constructor
  · intro count
    have hstop := hsurv.stops count
    obtain ⟨seen, hseen⟩ := @watched_writes files place store last
      ((Program.writes kv calls store).take count) hthere
    rw [Program.stopped, within]
    refine (congrArg crash ?_).mpr (hcra _ seen hstop)
    refine Eq.trans ?_ hseen
    rw [map_take, ← hwrs]
    rfl
  have hend := hsurv.outcome
  obtain ⟨seen, hseen⟩ := @watched_writes files place store last
    (Program.writes kv calls store) hthere
  have hfin : Program.final watched (within place calls) (files, last) =
      (files.put place (some (Program.final kv calls store)), seen) := by
    refine Eq.trans ?_ hseen
    rw [← hwrs]
    rfl
  rw [hfin]
  exact (congrArg (post · _) hres).mpr (hpost _ _ seen hend)

end Within

structure Carried (steps : UInt32 → Option Step) (start : Meta) (data : Table) (version : UInt32)
    (store : Namespace) : Prop where
  named : Named store version start.component
  reached : Reached steps start.schemaVersion data version store.user

def Safe (steps : UInt32 → Option Step) (start : Meta) (data : Table) (state : Watched) : Prop :=
  (∃ store version, state.1.database .live = some store ∧
      Carried steps start data version store) ∨
    state.2 = some (.rename .live .previous)

/-- How an install that goes well ends. -/
structure Ends (steps : UInt32 → Option Step) (start : Meta) (data : Table) (version : UInt32)
    (outcome : StateOutcome) (final : Files) : Prop where
  known : ∀ schema, outcome ≠ .fresh schema
  carried : ∃ store, final.database .live = some store ∧ Carried steps start data version store

section Installing

variable {kernel : Kernel} {declared : StateDeclaration} {info : ComponentInfo} {clock : Clock}
  {files : Files} {last : Option FileOp} {store : Namespace} {steps : UInt32 → Option Step}
  {start found : Meta} {data : Table} {version target : UInt32}

variable (hlive : files.database .live = some store)
include hlive

theorem Safe.of_live (hcard : Carried steps start data version store) (seen : Option FileOp) :
    Safe steps start data (files, seen) :=
  .inl ⟨store, version, hlive, hcard⟩

omit hlive in
theorem live_put {place : Place} {database : Option Namespace}
    (hlive : files.database .live = some store) (hoth : place ≠ .live) :
    (files.put place database).database .live = some store := by
  rw [Files.database_put_other hoth.symm]
  exact hlive

variable {tell : Error → InstallError}

omit hlive in
theorem within_ask {question : Namespace → Except Error Result}
    (hlive : files.database .live = some store) (hcra : ∀ seen, crash (files, seen)) :
    Survives watched crash
      (IfOk (fun value final => final.1 = files ∧ question store = .ok value))
      (within .live (reporting tell (Fallible.tryAsk question))) (files, last) := by
  have hsame : files.put .live (some store) = files := Files.put_self hlive
  have hask : Survives kv (fun left => left = store)
      (IfOk (fun value left => left = store ∧ question store = .ok value))
      (Fallible.tryAsk question : Call Result) store := by
    apply Survives.ask
    exact Survives.done rfl (fun value hval => ⟨rfl, hval⟩)
  apply within_survives hlive (reporting_survives hask)
  · rintro left seen rfl
    rw [hsame]
    exact hcra seen
  · intro outcome left seen hpost value hval
    obtain ⟨rfl, hans⟩ := hpost value hval
    exact ⟨hsame, hans⟩

variable {initialVersion : UInt32}

omit hlive in
theorem within_open {now : UInt64}
    (hlive : files.database .live = some store) (hread : Meta.read store = .ok (some found))
    (hcard : Carried steps start data found.schemaVersion store) :
    Survives watched (Safe steps start data)
      (IfOk (fun _ final => ∃ left, final.1.database .live = some left ∧
        Carried steps start data found.schemaVersion left))
      (within .live (reporting tell (openMeta info initialVersion now))) (files, last) := by
  have hown : found.component = start.component := (hcard.named.of_read_eq hread).2
  have hks : ∀ left, Opened store found left →
      Carried steps start data found.schemaVersion left := by
    intro left hopd
    refine ⟨hown ▸ hopd.named, ?_⟩
    rw [hopd.user]
    exact hcard.reached
  apply within_survives hlive (reporting_survives (openMeta_survives hread))
  · intro left seen hopd
    exact Safe.of_live Files.database_put (hks left hopd) seen
  · intro outcome left seen hpost opened hok
    exact ⟨left, Files.database_put, hks left (hpost opened hok)⟩

theorem inspect_survives (hread : Meta.read store = .ok (some found))
    (hcard : Carried steps start data found.schemaVersion store) :
    Survives watched (Safe steps start data)
      (IfOk (fun inspected final =>
        (∀ outcome, inspected = .inl outcome →
          Ends steps start data declared.version outcome final.1) ∧
        ∀ current, inspected = .inr current → final.1 = files ∧ current = found ∧
          found.component = declared.component))
      (inspect kernel declared info clock) (files, last) := by
  have hsafe : ∀ seen, Safe steps start data (files, seen) := Safe.of_live hlive hcard
  have hcre : FileOp.apply (.create .live) files = files := by
    rw [FileOp.apply, Files.contents_of_database hlive]
    exact Files.put_self hlive
  apply Survives.writeBind (hsafe last)
  change Survives watched _ _ _ (FileOp.apply (.create .live) files, _)
  rw [hcre]
  apply Survives.okBind
  apply (within_ask hlive hsafe).weaken
  rintro outcome ⟨same, seen⟩ hfnd read hok
  obtain ⟨rfl, hans⟩ := hfnd read hok
  rw [hread] at hans
  cases hans
  dsimp only
  split
  · exact Survives.throw (hsafe seen) (IfOk.failed _ _)
  rename_i hown
  rw [not_not] at hown
  apply Survives.okBind
  apply (within_ask hlive hsafe).weaken
  rintro outcome ⟨same, seen⟩ hpnd pending hok
  obtain ⟨rfl, -⟩ := hpnd pending hok
  split
  · next hupt =>
    apply Survives.okBind
    refine ⟨(within_open hlive hread hcard).stops, fun opened hopd => ?_⟩
    obtain ⟨left, hlt, hkept⟩ := (within_open hlive hread hcard).outcome opened hopd
    refine Survives.pure (.inl ⟨left, _, hlt, hkept⟩) (IfOk.ok ⟨?_, ?_⟩)
    · intro outcome hsame
      cases hsame
      constructor
      · intro schema hfre
        cases hfre
      · exact ⟨left, hlt, hupt.1 ▸ hkept⟩
    · intro current hoth
      cases hoth
  refine Survives.pure (hsafe seen) (IfOk.ok ⟨?_, ?_⟩)
  · intro outcome hoth
    cases hoth
  · intro current hsame
    cases hsame
    exact ⟨rfl, rfl, hown⟩

theorem removePrevious_survives (hcard : Carried steps start data version store) :
    Survives watched (Safe steps start data)
      (IfOk (fun _ final => final.1.database .live = files.database .live ∧
        final.1.database .next = files.database .next))
      removePrevious (files, last) := by
  have hsafe : Safe steps start data (files, last) := Safe.of_live hlive hcard last
  apply Survives.askBind
  split
  · apply Survives.put hsafe
    refine Survives.done (Safe.of_live (live_put hlive (by decide)) hcard _) (IfOk.ok ⟨?_, ?_⟩)
    · exact Files.database_put_other (by decide)
    · exact Files.database_put_other (by decide)
  · exact Survives.pure hsafe (IfOk.ok ⟨rfl, rfl⟩)

theorem setAside_survives (hcard : Carried steps start data version store) :
    Survives watched (Safe steps start data)
      (IfOk (fun _ final => Safe steps start data final ∧
        final.1.database .next = files.database .next))
      setAside (files, last) := by
  have hsafe : Safe steps start data (files, last) := Safe.of_live hlive hcard last
  apply Survives.askBind
  split
  · apply Survives.put hsafe
    refine Survives.done (.inr rfl) (IfOk.ok ⟨.inr rfl, ?_⟩)
    refine (Files.database_put_other (by decide)).trans ?_
    exact Files.database_put_other (by decide)
  · exact Survives.pure hsafe (IfOk.ok ⟨hsafe, rfl⟩)

omit hlive

variable {copy : Namespace}

theorem putInPlace_survives (hsafe : Safe steps start data (files, last))
    (hnext : files.database .next = some copy) (hcop : Carried steps start data target copy) :
    Survives watched (Safe steps start data)
      (IfOk (fun _ final => final.1.database .live = some copy)) putInPlace (files, last) := by
  have hmoved : (FileOp.apply (.rename .next .live) files).database .live = some copy := by
    refine (Files.database_put_other (by decide)).trans ?_
    rw [Files.database_put, hnext]
  apply Survives.askBind
  split
  · apply Survives.put hsafe
    exact Survives.done (Safe.of_live hmoved hcop _) (IfOk.ok hmoved)
  rename_i hnone
  change ¬(files.database .next).isSome = true at hnone
  rw [hnext] at hnone
  exact absurd rfl hnone

theorem swapIn_survives (hlive : files.database .live = some store)
    (hcard : Carried steps start data version store)
    (hnext : files.database .next = some copy) (hcop : Carried steps start data target copy) :
    Survives watched (Safe steps start data)
      (IfOk (fun _ final => final.1.database .live = some copy)) swapIn (files, last) := by
  apply Survives.okBind
  apply (removePrevious_survives hlive hcard).weaken
  rintro outcome ⟨cleared, seen⟩ hrmd _ hok
  obtain ⟨hstill, hwts⟩ := hrmd () hok
  apply Survives.okBind
  apply (setAside_survives (hstill.trans hlive) hcard).weaken
  rintro outcome ⟨aside, seen⟩ hset _ hok
  obtain ⟨hsafe, hwtg⟩ := hset () hok
  exact putInPlace_survives hsafe (hwtg.trans (hwts.trans hnext)) hcop

theorem unlinkAll_survives (names : List Bytes) (hlive : files.database .live = some store)
    (hcard : Carried steps start data version store) :
    Survives watched (Safe steps start data)
      (IfOk (fun _ final => final.1.database .live = some store)) (unlinkAll names)
      (files, last) := by
  induction names generalizing files last with
  | nil => exact Survives.pure (Safe.of_live hlive hcard last) (IfOk.ok hlive)
  | cons name names ih =>
    apply Survives.writeBind (Safe.of_live hlive hcard last)
    exact ih hlive

variable {post : Except InstallError Result → Watched → Prop}

theorem attempt_survives {calls : Install Result} {state : Watched}
    (hsurv : Survives watched crash post calls state) :
    Survives watched crash (IfOk post) (ExceptT.mk
      ((calls : Program FileQuery FileOp (Except InstallError Result)) >>= fun outcome =>
        Program.done (.ok outcome)) : Install (Except InstallError Result)) state := by
  apply Survives.bind
  refine ⟨hsurv.stops, ?_⟩
  exact Survives.done hsurv.last (IfOk.ok hsurv.outcome)

theorem write_survives {op : FileOp} {next : Unit → Install Result} (hcra : crash (files, last))
    (hnext : ∀ seen, Survives watched crash post (next ()) (op.apply files, seen)) :
    Survives watched crash post (Fallible.write op >>= next : Install Result) (files, last) :=
  Survives.writeBind hcra (hnext _)

theorem conclude_survives {outcome : Except InstallError MigrationReport}
    (hlive : files.database .live = some store) (hcard : Carried steps start data version store)
    (hnext : files.database .next = some copy)
    (hcop : ∀ report, outcome = .ok report → Carried steps start data target copy) :
    Survives watched (Safe steps start data)
      (IfOk (fun outcome final => Ends steps start data target outcome final.1))
      (conclude clock outcome) (files, last) := by
  have hsafe : Safe steps start data (files, last) := Safe.of_live hlive hcard last
  cases outcome with
  | error why =>
    apply Survives.writeBind hsafe
    exact Survives.throw (Safe.of_live (live_put hlive (by decide)) hcard _) (IfOk.failed _ _)
  | ok report =>
    have hended := hcop report rfl
    apply Survives.okBind
    apply (swapIn_survives hlive hcard hnext hended).weaken
    rintro outcome ⟨swapped, seen⟩ hswap _ hok
    have hin := hswap () hok
    apply Survives.okBind
    apply Survives.askBind
    apply (unlinkAll_survives _ hin hended).weaken
    rintro outcome ⟨pruned, seen⟩ hprn _ hok
    have hlast := hprn () hok
    refine Survives.pure (Safe.of_live hlast hended seen) (IfOk.ok ⟨?_, copy, hlast, hended⟩)
    intro schema hfre
    cases hfre

theorem Kernel.steps_of_offer {registry : Registry}
    (hoffer : kernel.offer declared found = .ok registry) :
    kernel.steps declared.component = registry.step := by
  rw [Kernel.offer] at hoffer
  split at hoffer
  · next other hfor =>
    cases hoffer
    funext version
    rw [Kernel.steps, hfor]
    rfl
  · cases hoffer

theorem migrateExport_survives {registry : Registry} {exported : Except Error (SnapshotHeader × Bytes)}
    (hlive : files.database .live = some store)
    (hcard : Carried registry.step start data found.schemaVersion store)
    (hown : found.component = start.component) (hks : KeepsPlain registry.step)
    (hexp : exportSnapshot kernel.archive exportDefault found clock.exported store = exported) :
    Survives watched (Safe registry.step start data)
      (IfOk (fun outcome final =>
        Ends registry.step start data declared.version outcome final.1))
      (migrateExport kernel declared info clock registry found exported) (files, last) := by
  have hsafe : ∀ {others : Files}, others.database .live = some store → ∀ seen,
      Safe registry.step start data (others, seen) :=
    fun hstill => Safe.of_live hstill hcard
  cases exported with
  | error why =>
    apply write_survives (hsafe hlive last)
    intro seen
    exact Survives.throw (hsafe hlive seen) (IfOk.failed _ _)
  | ok exported =>
    obtain ⟨header, file⟩ := exported
    apply write_survives (hsafe hlive last)
    intro saved
    have hsaved : (FileOp.apply (.save (snapshotName clock) file) files).database .live =
        some store := hlive
    apply write_survives (hsafe hsaved saved)
    intro removed
    have hstill : (FileOp.apply (.removeDir .next)
        (FileOp.apply (.save (snapshotName clock) file) files)).database .live = some store :=
      live_put hlive (by decide)
    apply write_survives (hsafe hstill removed)
    intro created
    generalize hmade : FileOp.apply (.create .next) _ = made
    have hfre : made.database .next = some ∅ := by
      rw [← hmade]
      refine Files.database_put.trans (congrArg some ?_)
      rw [Files.contents, FileOp.apply, Files.database_put]
      rfl
    have hthere : made.database .live = some store := by
      rw [← hmade]
      exact live_put hstill (by decide)
    have hmig := @migrateCopy_reaches kernel declared info clock registry found file store
      header hks hexp
    apply Survives.okBind
    apply attempt_survives
    apply within_survives hfre hmig
    · intro left seen _
      exact hsafe (live_put hthere (by decide)) seen
    intro outcome left seen hends
    apply conclude_survives (live_put hthere (by decide)) hcard Files.database_put
    intro report hok
    obtain ⟨hnmd, hrch⟩ := hends report hok
    exact ⟨hown ▸ hnmd, hcard.reached.trans hrch⟩

theorem upgrade_survives (hlive : files.database .live = some store)
    (hcard : Carried (kernel.steps declared.component) start data found.schemaVersion store)
    (hown : found.component = start.component)
    (hks : KeepsPlain (kernel.steps declared.component)) :
    Survives watched (Safe (kernel.steps declared.component) start data)
      (IfOk (fun outcome final =>
        Ends (kernel.steps declared.component) start data declared.version outcome final.1))
      (upgrade kernel declared info clock found) (files, last) := by
  have hsafe : ∀ {others : Files}, others.database .live = some store → ∀ seen,
      Safe (kernel.steps declared.component) start data (others, seen) :=
    fun hstill => Safe.of_live hstill hcard
  apply Survives.checkBind (hsafe hlive last) (fun fault _ => IfOk.failed fault _)
  intro registry hoffer
  rw [Kernel.steps_of_offer hoffer] at hcard hks hsafe ⊢
  apply Survives.checkBind (hsafe hlive last) (fun fault _ => IfOk.failed fault _)
  intro planned hplan
  apply write_survives (hsafe hlive last)
  intro seen
  apply Survives.askBind
  have hsaved : (FileOp.apply (.save (snapshotName clock) []) files).database .live =
      some store := hlive
  apply migrateExport_survives hsaved hcard hown hks
  rw [← Files.contents_of_database hsaved]
  rfl

theorem prepareInstall_survives {sha256 : String} (hlive : files.database .live = some store)
    (hcard : Carried (kernel.steps start.component) start data version store)
    (hks : KeepsPlain (kernel.steps start.component)) :
    Survives watched (Safe (kernel.steps start.component) start data)
      (IfOk (fun outcome final =>
        Ends (kernel.steps start.component) start data declared.version outcome final.1))
      (prepareInstall kernel (some declared) sha256 clock) (files, last) := by
  obtain ⟨found, hread, hver, hown⟩ := hcard.named.read
  rw [← hver] at hcard
  have hsafe : Safe (kernel.steps start.component) start data (files, last) :=
    Safe.of_live hlive hcard last
  apply Survives.checkBind hsafe (fun fault _ => IfOk.failed fault _)
  intro _ hvld
  apply Survives.okBind
  have hins := @inspect_survives kernel declared
    ⟨declared.component, declared.semver, sha256⟩ clock files last store _ _ _ _ hlive hread hcard
  refine ⟨hins.stops, fun inspected hinsp => ?_⟩
  obtain ⟨hdone, hgoes⟩ := hins.outcome inspected hinsp
  cases inspected with
  | inl outcome => exact Survives.pure hins.last (IfOk.ok (hdone outcome rfl))
  | inr current =>
    obtain ⟨hsame, rfl, hmine⟩ := hgoes current rfl
    rw [← hown, hmine] at hcard hks ⊢
    have hthere := hlive
    rw [← hsame] at hthere
    exact upgrade_survives hthere hcard hown hks

/-- Data without readable metadata is not adopted. -/
theorem openMeta_refuses {now : UInt64} {crash : Namespace → Prop}
    (hcra : crash store) (hread : Meta.read store = .ok none) (hkeys : userKeys store ≠ []) :
    Survives kv crash (IfOk (fun _ _ => False)) (openMeta info initialVersion now) store := by
  apply Survives.checkBind hcra (fun fault _ => IfOk.failed fault _)
  intro _ _
  split
  · exact Survives.throw hcra (IfOk.failed _ _)
  apply Survives.tryAskBind hcra (fun fault _ => IfOk.failed fault _)
  intro read hans
  change Meta.read store = .ok read at hans
  rw [hread] at hans
  cases hans
  apply Survives.askBind
  change Survives kv _ _ (if userKeys store ≠ [] then _ else _ : Call Meta) store
  rw [if_pos hkeys]
  exact Survives.throw hcra (IfOk.failed _ _)

/-- There is something in the namespace: data, or metadata. -/
def HasState (store : Namespace) : Prop := userKeys store ≠ [] ∨ Meta.read store ≠ .ok none

def Stays (store : Namespace) (state : Watched) : Prop := state.1.database .live = some store

theorem prepareInstall_refuses {sha256 : String} (hlive : files.database .live = some store)
    (hst : HasState store) (hoth : ∀ found, Meta.read store ≠ .ok (some found)) :
    Survives watched (Stays store) (IfOk (fun _ _ => False))
      (prepareInstall kernel (some declared) sha256 clock) (files, last) := by
  have hstays : ∀ seen, Stays store (files, seen) := fun _ => hlive
  have hcre : FileOp.apply (.create .live) files = files := by
    rw [FileOp.apply, Files.contents_of_database hlive]
    exact Files.put_self hlive
  apply Survives.checkBind (hstays last) (fun fault _ => IfOk.failed fault _)
  intro _ _
  apply Survives.okBind
  apply write_survives (hstays last)
  intro seen
  rw [hcre]
  apply Survives.okBind
  apply (within_ask hlive hstays).weaken
  rintro outcome ⟨same, seen⟩ hfnd read hok
  obtain ⟨rfl, hread⟩ := hfnd read hok
  cases read with
  | some found => exact absurd hread (hoth found)
  | none =>
    apply Survives.okBind
    have hkeys := hst.resolve_right (not_not_intro hread)
    have href := @openMeta_refuses ⟨declared.component, declared.semver, sha256⟩ store
      declared.version clock.opened (fun left => left = store) rfl hread hkeys
    apply within_survives hlive (reporting_survives href)
    · rintro left seen rfl
      exact Files.database_put
    · intro outcome left seen hpost value hok
      exact (hpost value hok).elim

end Installing

/-- One install of a run, stopped after `stop` operations on the files. -/
structure InstallAttempt where
  declaration : Option StateDeclaration
  sha256 : String
  clock : Clock
  stop : ℕ

namespace InstallAttempt

variable (attempt : InstallAttempt) (kernel : Kernel)

def call : Install StateOutcome :=
  prepareInstall kernel attempt.declaration attempt.sha256 attempt.clock

def leaves (files : Files) : Files := Program.stopped disk (attempt.call kernel) attempt.stop files

/-- The install is stopped when the old directory is aside, and the copy not yet in place. -/
def BetweenRenames (files : Files) : Prop :=
  ((Program.writes disk (attempt.call kernel) files).take attempt.stop).getLast? =
    some (.rename .live .previous)

end InstallAttempt

def afterInstalls (kernel : Kernel) (attempts : List InstallAttempt) (files : Files) : Files :=
  attempts.foldl (fun current attempt => attempt.leaves kernel current) files

def EachInstall (kernel : Kernel) (holds : InstallAttempt → Files → Prop) :
    List InstallAttempt → Files → Prop
  | [], _ => True
  | attempt :: rest, files =>
      holds attempt files ∧ EachInstall kernel holds rest (attempt.leaves kernel files)

section Runs

variable {kernel : Kernel} {start : Namespace} {files : Files} {attempts : List InstallAttempt}

def Kept (kernel : Kernel) (start : Namespace) (files : Files) : Prop :=
  ∃ store, files.database .live = some store ∧
    ((store = start ∧ ∀ found, Meta.read start ≠ .ok (some found)) ∨
      ∃ found version, Meta.read start = .ok (some found) ∧
        Carried (kernel.steps found.component) found start.user version store)

theorem kept_of_live (hlive : files.database .live = some start) : Kept kernel start files := by
  refine ⟨start, hlive, ?_⟩
  by_cases hnmd : ∃ found, Meta.read start = .ok (some found)
  · obtain ⟨found, hread⟩ := hnmd
    exact .inr ⟨found, found.schemaVersion, hread, (Meta.of_read hread).1, .refl _ _⟩
  · exact .inl ⟨rfl, not_exists.mp hnmd⟩

theorem InstallAttempt.leaves_kept {attempt : InstallAttempt} (hst : HasState start)
    (hks : ∀ found, Meta.read start = .ok (some found) → KeepsPlain (kernel.steps found.component))
    (hkept : Kept kernel start files) (hspa : ¬attempt.BetweenRenames kernel files) :
    Kept kernel start (attempt.leaves kernel files) := by
  have hproj : (Program.stopped watched (attempt.call kernel) attempt.stop (files, none)).1 =
      attempt.leaves kernel files :=
    Program.stopped_project (Program.traced_projects disk) _ _ _
  have hlast : (Program.stopped watched (attempt.call kernel) attempt.stop (files, none)).2 ≠
      some (.rename .live .previous) := by
    rw [Program.stopped, Program.traced_last,
      Program.writes_project (Program.traced_projects disk), Option.or_none]
    exact hspa
  obtain ⟨declaration, sha256, clock, stop⟩ := attempt
  cases declaration with
  | none =>
    rw [← hproj]
    rwa [show Program.stopped watched _ stop (files, none) = (files, none) from by
      exact congrArg (watched.applyAll · (files, none)) take_nil]
  | some declared =>
  obtain ⟨store, hlive, ⟨rfl, hunr⟩ | ⟨found, version, hread, hcard⟩⟩ := hkept
  · have hstill := (@prepareInstall_refuses kernel declared clock files none store sha256 hlive hst
      hunr).stops stop
    exact ⟨store, hproj ▸ hstill, .inl ⟨rfl, hunr⟩⟩
  obtain ⟨left, reached, hlt, hcar⟩ | hbet :=
    (@prepareInstall_survives kernel declared clock files none store found start.user version
      sha256 hlive hcard (hks found hread)).stops stop
  · exact ⟨left, hproj ▸ hlt, .inr ⟨found, reached, hread, hcar⟩⟩
  · exact absurd hbet hlast

theorem kept_afterInstalls (hst : HasState start)
    (hks : ∀ found, Meta.read start = .ok (some found) → KeepsPlain (kernel.steps found.component))
    (hkept : Kept kernel start files)
    (hspa : EachInstall kernel (fun attempt files => ¬attempt.BetweenRenames kernel files)
      attempts files) : Kept kernel start (afterInstalls kernel attempts files) := by
  induction attempts generalizing files with
  | nil => exact hkept
  | cons attempt attempts ih =>
    obtain ⟨hhead, hrest⟩ := hspa
    exact ih (attempt.leaves_kept hst hks hkept hhead) hrest

end Runs

/-- The next install: never taken for a first one, and where it goes well the live store
holds the old data, migrated to the declared version. -/
structure CarriedOn (kernel : Kernel) (start : Namespace) (declared : StateDeclaration)
    (outcome : Except InstallError StateOutcome) (final : Files) : Prop where
  known : ∀ schema, outcome ≠ .ok (.fresh schema)
  carried : ∀ ended, outcome = .ok ended → ∃ found store, Meta.read start = .ok (some found) ∧
    final.database .live = some store ∧
    Carried (kernel.steps found.component) found start.user declared.version store

namespace Notes

open WasmAgent.State.Notes

/-- A host with the notes' step, which writes both anew. -/
def kernel : Kernel :=
  ⟨Records.archive, fun component =>
    if component = info.id then some rewriter.registry else none⟩

def installed (store : Namespace) : Files :=
  ⟨fun place => if place = .live then some store else none, ∅⟩

/-- A build that wants the second version. -/
def declared : StateDeclaration := ⟨info.id, 2, "1.0.1", by decide⟩

def clock : Clock := ⟨5, 5, 6, 7, 8, 9⟩

/-- An install of that build, stopped after some of its operations. -/
def attempt (stop : ℕ) : InstallAttempt := ⟨some declared, info.sha256, clock, stop⟩

theorem keepsPlain {up down : StepProgram} (hup : ∀ batch, Withdraws up batch) :
    KeepsPlain (registry up down).step := by
  intro version found batch next hstep hnext hpln
  rw [registry_step] at hstep
  split at hstep
  · cases hstep
    have hrun : (up.run batch).1 = next := PlannedStep.of_next hnext
    rw [← hrun]
    exact (plain_run_iff up hpln).mpr (hup batch)
  · cases hstep

end Notes

end WasmAgent.Host
