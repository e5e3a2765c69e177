import Mathlib.Data.List.Nodup
import WasmAgent.Jobs.Calls

/-!
# The ledger of deliveries

Any number of callers work on one store.  What happens to every delivery is written down beside
the tables, by comparing them before and after each operation.
-/

namespace WasmAgent.Jobs

open List Option WasmAgent.Core

/-- The unique key of `deliveries`. -/
def Delivery.key (row : Delivery) : String × ℤ × String := (row.jobId, row.revision, row.eventId)

def Store.row (store : Store) (id : ℕ) : Option Delivery := store.deliveries.find? (·.id = id)

inductive Turn where
  | enqueued (row : Delivery) (job : Option JobRow)
  | claimed (given : Option Claim) (job : Option JobRow)
  | deferred
  | settled (outcome : Outcome)
  | removed (job : Option JobRow)

namespace Turn

def isClaimed : Turn → Bool
  | .claimed _ _ => true
  | _ => false

def isDeferred : Turn → Bool
  | .deferred => true
  | _ => false

def isSettled : Turn → Bool
  | .settled _ => true
  | _ => false

end Turn

def Turn.between (given : Option Claim) (job : Option JobRow) (old new : DeliveryState) :
    Option Turn :=
  if old = new then none
  else match new with
    | .queued => some .deferred
    | .running => some (.claimed given job)
    | .settled outcome => some (.settled outcome)

theorem Turn.between_self (given : Option Claim) (job : Option JobRow) (state : DeliveryState) :
    Turn.between given job state state = none :=
  if_pos rfl

/-- What an operation made of a delivery, where a claim was answered `given`. -/
def turn (before after : Store) (given : Option Claim) (id : ℕ) : Option Turn :=
  match before.row id, after.row id with
  | none, none => none
  | none, some row => some (.enqueued row after.jobs[row.jobId]?)
  | some row, none => some (.removed after.jobs[row.jobId]?)
  | some old, some row => Turn.between given before.jobs[row.jobId]? old.state row.state

/-- The tables, what has happened to the deliveries, and the claims that callers hold. -/
structure Ledger where
  store : Store
  course : ℕ → List Turn
  answered : List Claim

def Ledger.empty : Ledger := ⟨Store.empty, fun _ => [], []⟩

def given : (op : Op) → Checked op.Reply → Option Claim
  | .claim _ _ _, .ok claim => claim
  | _, _ => none

def Ledger.extend (ledger : Ledger) (after : Store) (given : Option Claim) : Ledger :=
  ⟨after, fun id => ledger.course id ++ (turn ledger.store after given id).toList,
    ledger.answered ++ given.toList⟩

/-- An operation is carried out as a whole, or the database refuses it. -/
def Performs (serde : Serde) (op : Op) (ledger : Ledger) (answer : Checked op.Reply)
    (after : Ledger) : Prop :=
  (answer = (op.run serde ledger.store).1 ∧
    after = ledger.extend (op.run serde ledger.store).2 (given op answer)) ∨
  ((∃ why, answer = .error why) ∧ after = ledger)

/-- A call as one of many: what it returns is its caller's. -/
def begun {Value : Type} (call : Call Value) : Script Op (fun op => Checked op.Reply) Unit :=
  call.run >>= fun _ => pure ()

/-- The calls that programs make. -/
inductive Requested (serde : Serde) : Script Op (fun op => Checked op.Reply) Unit → Prop where
  | put (definition : Json) : Requested serde (begun (put serde definition))
  | setControls (id : String) (controls : Json) :
      Requested serde (begun (setControls serde id controls))
  | putArtifact (importArtifact : Importer) (artifact bindings : Json) (approved : Bool)
      (importerRole : String) : Requested serde
        (begun (putArtifact serde importArtifact artifact bindings approved importerRole))
  | get (id : String) : Requested serde (begun (get id))
  | list : Requested serde (begun list)
  | enable (id : String) (enabled : Bool) : Requested serde (begun (enable id enabled))
  | forget (id : String) : Requested serde (begun (forget id))
  | enqueue (id : String) (revision : ℤ) (eventId : String) (payload : Json) (now : ℤ) :
      Requested serde (begun (enqueue serde id revision eventId payload now))
  | emit (topic eventId : String) (payload : Json) (now : ℤ) :
      Requested serde (begun (emit serde topic eventId payload now))
  | schedule (now : ℤ) : Requested serde (begun (schedule serde now))
  | claimNext (now wakeBudget : ℤ) (allowInference : Bool) :
      Requested serde (begun (claimNext now wakeBudget allowInference))
  | claimInference (now wakeBudget : ℤ) : Requested serde (begun (claimInference now wakeBudget))
  | finish (id : ℕ) (state detail : String) (now : ℤ) :
      Requested serde (begun (finish id state detail now))
  | recover (now : ℤ) : Requested serde (begun (recover now))
  | defer (id : ℕ) (detail : String) : Requested serde (begun (defer id detail))

inductive Course : List Turn → Option DeliveryState → Prop where
  | queued : Course [] (some .queued)
  | claimed {turns : List Turn} (given : Option Claim) (job : Option JobRow)
      (hbefore : Course turns (some .queued)) :
      Course (turns ++ [.claimed given job]) (some .running)
  | deferred {turns : List Turn} (hbefore : Course turns (some .running)) :
      Course (turns ++ [.deferred]) (some .queued)
  | cancelled {turns : List Turn} (outcome : Outcome) (hbefore : Course turns (some .queued)) :
      Course (turns ++ [.settled outcome]) (some (.settled outcome))
  | finished {turns : List Turn} (outcome : Outcome) (hbefore : Course turns (some .running)) :
      Course (turns ++ [.settled outcome]) (some (.settled outcome))
  | removed {turns : List Turn} (outcome : Outcome)
      (hbefore : Course turns (some (.settled outcome))) :
      Course (turns ++ [.removed none]) none

def Carries (serde : Serde) (row : Delivery) (job : JobRow) (claim : Claim) : Prop :=
  claim.id = row.id ∧ (claim.jobId, claim.revision, claim.eventId) = row.key ∧
    ∃ definition, readJson serde job.definition = .ok definition ∧
      claim.action = definition.field "action" ∧ claim.controls = definition.field "controls"

def Pinned (serde : Serde) (row : Delivery) (job : JobRow) : Turn → Prop
  | .claimed given found => ∃ current, found = some current ∧ current.enabled = true ∧
      current.revision = row.revision ∧ current.definition = job.definition ∧
      ∀ claim, given = some claim → Carries serde row job claim
  | _ => True

/-- What holds of the deliveries at every moment. -/
structure Ledger.Sound (serde : Serde) (ledger : Ledger) : Prop where
  single : (ledger.store.deliveries.map Delivery.key).Nodup
  alone : ∀ first ∈ ledger.store.deliveries, ∀ second ∈ ledger.store.deliveries,
    first.state = .running → second.state = .running → first.jobId = second.jobId → first = second
  told : ∀ id row, ledger.store.row id = some row → ∃ born job rest,
    ledger.course id = .enqueued born job :: rest
  course : ∀ id turn turns, ledger.course id = turn :: turns → ∃ row job,
    turn = .enqueued row (some job) ∧ row.id = id ∧ row.revision = job.revision ∧
      Course turns ((ledger.store.row id).map (·.state)) ∧
      ∀ later ∈ turns, Pinned serde row job later
  unrepeated : ∀ first second row row' job job', first ≠ second →
    Turn.enqueued row job ∈ ledger.course first → Turn.enqueued row' job' ∈ ledger.course second →
      row.key = row'.key →
        Turn.removed none ∈ ledger.course first ∨ Turn.removed none ∈ ledger.course second
  relayed : ∀ id, (ledger.course id).countP Turn.isClaimed ≤
    (ledger.course id).countP Turn.isDeferred + 1
  once : ∀ id, (ledger.course id).countP Turn.isSettled ≤ 1
  held : ∀ claim ∈ ledger.answered, ∃ job, Turn.claimed (some claim) job ∈ ledger.course claim.id

variable {row : Delivery}

section Courses

variable {turns : List Turn} {place : Option DeliveryState}

def DeliveryState.isSettled : DeliveryState → Bool
  | .settled _ => true
  | _ => false

theorem Course.settledOnce (hcour : Course turns place) :
    turns.countP Turn.isSettled = if place.all DeliveryState.isSettled then 1 else 0 := by
  induction hcour with
  | queued => rfl
  | claimed given job _ ih | deferred _ ih | cancelled outcome _ ih | finished outcome _ ih
  | removed outcome _ ih =>
    rw [countP_append, ih]
    rfl

theorem Course.claims (hcour : Course turns place) :
    turns.countP Turn.isClaimed ≤ turns.countP Turn.isDeferred + 1 ∧
      (place = some .queued → turns.countP Turn.isClaimed = turns.countP Turn.isDeferred) ∧
      (place = some .running → turns.countP Turn.isClaimed = turns.countP Turn.isDeferred + 1) := by
  induction hcour with
  | queued => exact ⟨Nat.zero_le _, fun _ => rfl, nofun⟩
  | claimed given job _ ih =>
    have hheld : (_ : ℕ) = _ := congrArg (· + 1) (ih.2.1 rfl)
    simp only [countP_append]
    exact ⟨hheld.le, nofun, fun _ => hheld⟩
  | deferred _ ih =>
    have hback := ih.2.2 rfl
    simp only [countP_append]
    exact ⟨hback.le.trans (Nat.le_succ _), fun _ => hback, nofun⟩
  | cancelled outcome _ ih | finished outcome _ ih | removed outcome _ ih =>
    simp only [countP_append]
    exact ⟨ih.1, nofun, nofun⟩

theorem Course.noneEnqueued {job : Option JobRow} (hcour : Course turns place) :
    Turn.enqueued row job ∉ turns := by
  induction hcour with
  | queued => exact not_mem_nil
  | claimed given job _ ih | deferred _ ih | cancelled outcome _ ih | finished outcome _ ih
  | removed outcome _ ih =>
    rw [mem_append, mem_singleton]
    rintro (hbef | hlast)
    · exact ih hbef
    · exact nomatch hlast

theorem Course.endsRemoved (hcour : Course turns none) : Turn.removed none ∈ turns := by
  cases hcour with
  | removed outcome hbef => exact mem_append_right _ (mem_singleton_self _)

theorem Course.between {old new : DeliveryState} (given : Option Claim) (job : Option JobRow)
    (hcour : Course turns (some old)) (hset : old.isSettled = true → new = old) :
    Course (turns ++ (Turn.between given job old new).toList) (some new) := by
  by_cases hsame : old = new
  · subst hsame
    simpa [Turn.between] using hcour
  simp only [Turn.between, if_neg hsame]
  cases old with
  | settled outcome => exact absurd (hset rfl).symm hsame
  | queued =>
    cases new with
    | queued => exact absurd rfl hsame
    | running => exact hcour.claimed given job
    | settled outcome => exact hcour.cancelled outcome
  | running =>
    cases new with
    | queued => exact hcour.deferred
    | running => exact absurd rfl hsame
    | settled outcome => exact hcour.finished outcome

end Courses

variable {id : ℕ}

section Rows

variable {store : Store}

theorem Store.row_eq_some (hids : (store.deliveries.map (·.id)).Nodup) :
    store.row id = some row ↔ row ∈ store.deliveries ∧ row.id = id := by
  constructor
  · intro hrow
    exact ⟨mem_of_find?_eq_some hrow, by simpa using find?_some hrow⟩
  rintro ⟨hmem, hid⟩
  have hfnd : (store.row id).isSome := by
    rw [Store.row, find?_isSome]
    exact ⟨row, hmem, by simpa using hid⟩
  obtain ⟨found, hrow⟩ := isSome_iff_exists.mp hfnd
  have hoth : found ∈ store.deliveries := mem_of_find?_eq_some hrow
  have hsame : found.id = id := by simpa using find?_some hrow
  have heq := inj_on_of_nodup_map hids hoth hmem (hsame.trans hid.symm)
  rw [hrow, heq]

theorem Store.row_of_mem (hids : (store.deliveries.map (·.id)).Nodup)
    (hmem : row ∈ store.deliveries) : store.row row.id = some row :=
  (store.row_eq_some hids).mpr ⟨hmem, rfl⟩

theorem Store.row_eq_none (habs : ∀ row ∈ store.deliveries, row.id ≠ id) : store.row id = none := by
  rw [Store.row, find?_eq_none]
  intro row hmem
  simpa using habs row hmem

end Rows

def Grows (before after : Store) : Prop :=
  ∀ (id : String) (job : JobRow), before.jobs[id]? = some job →
    ∃ later : JobRow, after.jobs[id]? = some later ∧ job.revision ≤ later.revision ∧
      (later.revision = job.revision → later.definition = job.definition)

structure Starts (serde : Serde) (store : Store) (given : Option Claim) (row : Delivery) :
    Prop where
  idle : ∀ active ∈ store.deliveries, active.jobId = row.jobId → active.state ≠ .running
  current : ∃ job : JobRow, store.jobs[row.jobId]? = some job ∧ job.enabled = true ∧
    job.revision = row.revision ∧ ∀ claim, given = some claim → Carries serde row job claim

/-- What an operation does to the deliveries: it changes them in place, adds one, or forgets a
job with its own. -/
inductive Evolves (serde : Serde) (before : Store) : Store → Option Claim → Prop where
  | changed {after : Store} {given : Option Claim} (change : Delivery → Delivery) (only : ℕ)
      (hrows : after.deliveries = before.deliveries.map change)
      (hlast : after.lastDelivery = before.lastDelivery) (hgrows : Grows before after)
      (hid : ∀ row, (change row).id = row.id) (hkey : ∀ row, (change row).key = row.key)
      (hsettled : ∀ row, row.state.isSettled = true → (change row).state = row.state)
      (hstarts : ∀ row ∈ before.deliveries, row.state ≠ .running → (change row).state = .running →
        row.id = only ∧ Starts serde before given row)
      (hgiven : ∀ claim, given = some claim → ∃ row ∈ before.deliveries, row.id = claim.id ∧
        row.state = .queued ∧ (change row).state = .running) :
      Evolves serde before after given
  | added (row : Delivery) {job : JobRow} (hjob : before.jobs[row.jobId]? = some job)
      (hrevision : row.revision = job.revision) (hid : row.id = before.lastDelivery + 1)
      (hqueued : row.state = .queued) (hfresh : row.key ∉ before.deliveries.map Delivery.key) :
      Evolves serde before ⟨before.jobs, before.deliveries ++ [row], before.lastDelivery + 1⟩ none
  | forgotten (id : String)
      (hidle : ∀ row ∈ before.deliveries, row.jobId = id → row.state.isSettled = true) :
      Evolves serde before ⟨before.jobs.erase id, before.deliveries.filter (·.jobId ≠ id),
        before.lastDelivery⟩ none

variable {change : Delivery → Delivery} {job : JobRow}

section Operations

variable {serde : Serde} {store : Store}

theorem Grows.refl : Grows store store :=
  fun _ job hjob => ⟨job, hjob, Int.le_refl _, fun _ => rfl⟩

theorem Grows.of_jobs {before after : Store} (hjobs : after.jobs = before.jobs) :
    Grows before after := by
  intro id job hjob
  rw [hjobs]
  exact ⟨job, hjob, Int.le_refl _, fun _ => rfl⟩

theorem Evolves.quiet {before after : Store} (change : Delivery → Delivery)
    (hrows : after.deliveries = before.deliveries.map change)
    (hlast : after.lastDelivery = before.lastDelivery) (hgrows : Grows before after)
    (hid : ∀ row, (change row).id = row.id) (hkey : ∀ row, (change row).key = row.key)
    (hset : ∀ row, row.state.isSettled = true → (change row).state = row.state)
    (hrsts : ∀ row, (change row).state = .running → row.state = .running) :
    Evolves serde before after none :=
  .changed change 0 hrows hlast hgrows hid hkey hset
    (fun row _ hidle hruns => absurd (hrsts row hruns) hidle) nofun

theorem Evolves.refl : Evolves serde store store none :=
  .quiet id (List.map_id _).symm rfl Grows.refl (fun _ => rfl) (fun _ => rfl) (fun _ _ => rfl)
    (fun _ hruns => hruns)

variable (stale : Delivery → Bool) (why : String)

theorem cancelIf_id (row : Delivery) : (Store.cancelIf stale why row).id = row.id := by
  rw [Store.cancelIf]
  split <;> rfl

theorem cancelIf_key (row : Delivery) : (Store.cancelIf stale why row).key = row.key := by
  rw [Store.cancelIf]
  split <;> rfl

theorem cancelIf_state (row : Delivery) :
    (Store.cancelIf stale why row).state = row.state ∨
      row.state = .queued ∧ (Store.cancelIf stale why row).state = .settled .cancelled := by
  rw [Store.cancelIf]
  split
  case isTrue hstl => exact Or.inr ⟨hstl.1, rfl⟩
  case isFalse => exact Or.inl rfl

theorem cancelIf_settled (row : Delivery) (hset : row.state.isSettled = true) :
    (Store.cancelIf stale why row).state = row.state := by
  rcases cancelIf_state stale why row with hsame | ⟨hqueued, _⟩
  · exact hsame
  · rw [hqueued] at hset
    exact absurd hset Bool.false_ne_true

theorem cancelIf_running (row : Delivery)
    (hruns : (Store.cancelIf stale why row).state = .running) : row.state = .running := by
  rcases cancelIf_state stale why row with hsame | ⟨_, hcan⟩
  · exact hsame ▸ hruns
  · rw [hcan] at hruns
    exact nomatch hruns

theorem Grows.setJob {id : String} {changed : JobRow}
    (hltr : ∀ job : JobRow, store.jobs[id]? = some job → job.revision ≤ changed.revision ∧
      (changed.revision = job.revision → changed.definition = job.definition)) :
    Grows store (store.setJob id changed) := by
  intro other job hjob
  by_cases hsame : id = other
  · subst hsame
    exact ⟨changed, by simp [Store.setJob], hltr job hjob⟩
  · refine ⟨job, ?_, Int.le_refl _, fun _ => rfl⟩
    rw [Store.setJob, Std.ExtTreeMap.getElem?_insert]
    simpa [hsame] using hjob

theorem evolves_edit {id why : String} {changed : JobRow}
    (hltr : ∀ job : JobRow, store.jobs[id]? = some job → job.revision < changed.revision) :
    Evolves serde store ((store.setJob id changed).cancelQueued id why) none := by
  apply Evolves.quiet (Store.cancelIf (fun row => row.jobId = id) why)
  · rfl
  · rfl
  · intro other job hjob
    exact Grows.setJob (fun job hjob => ⟨Int.le_of_lt (hltr job hjob),
      fun hsame => absurd hsame (Int.ne_of_gt (hltr job hjob))⟩) other job hjob
  · exact cancelIf_id _ _
  · exact cancelIf_key _ _
  · exact cancelIf_settled _ _
  · exact cancelIf_running _ _

theorem replace_evolves (id prepared : String) :
    Evolves serde store (store.replace id prepared).2 none := by
  unfold Store.replace
  split
  case h_1 habs =>
    apply evolves_edit
    intro job hjob
    exact nomatch habs.symm.trans hjob
  case h_2 job hjob =>
    split
    · exact Evolves.refl
    apply evolves_edit
    intro found hfnd
    obtain rfl := Option.some.inj (hjob.symm.trans hfnd)
    exact Int.lt_succ _

theorem enable_evolves (id : String) (enabled : Bool) :
    Evolves serde store (store.enable id enabled).2 none := by
  unfold Store.enable
  split
  case h_1 => exact Evolves.refl
  case h_2 job hjob =>
    apply evolves_edit
    intro found hfnd
    obtain rfl := Option.some.inj (hjob.symm.trans hfnd)
    exact Int.lt_succ _

theorem forget_evolves (id : String) : Evolves serde store (store.forget id).2 none := by
  unfold Store.forget
  split
  case isTrue => exact Evolves.refl
  case isFalse hidle =>
    split
    · exact Evolves.refl
    apply Evolves.forgotten id
    intro row hmem hown
    have hquiet : ¬ Store.isActive row = true := by
      intro hact
      apply hidle
      rw [List.any_eq_true]
      exact ⟨row, hmem, by simp [hown, hact]⟩
    cases hst : row.state with
    | settled outcome => rfl
    | queued | running => exact absurd (by simp [Store.isActive, hst]) hquiet

theorem enqueue_evolves (id : String) (revision : ℤ) (eventId payload : String) (now : ℤ) :
    Evolves serde store (store.enqueue serde id revision eventId payload now).2 none := by
  unfold Store.enqueue
  split
  case h_1 => exact Evolves.refl
  case h_2 job hjob =>
    split
    case isTrue => exact Evolves.refl
    case isFalse hcur =>
      split
      case isTrue => exact Evolves.refl
      case isFalse hfresh =>
        split
        case isTrue => exact Evolves.refl
        case isFalse =>
          split
          case h_1 => exact Evolves.refl
          case h_2 kind _ =>
            have hrev : job.enabled = true ∧ job.revision = revision := by
              simpa using hcur
            apply Evolves.added _ hjob hrev.2.symm rfl rfl
            intro hused
            apply hfresh
            obtain ⟨row, hmem, hkey⟩ := List.mem_map.mp hused
            rw [List.any_eq_true]
            refine ⟨row, hmem, ?_⟩
            simpa [Delivery.key, and_assoc] using hkey

theorem touch_evolves (id : String) (revision : ℤ) {change : JobRow → JobRow}
    (hchg : ∀ job, (change job).revision = job.revision ∧
      (change job).definition = job.definition) :
    Evolves serde store (store.touch id revision change) none := by
  unfold Store.touch
  split
  case h_1 => exact Evolves.refl
  case h_2 job hjob =>
    split
    case isTrue =>
      apply Evolves.quiet (fun row => row)
      · exact (List.map_id _).symm
      · rfl
      · apply Grows.setJob
        intro found hfnd
        obtain rfl := Option.some.inj (hjob.symm.trans hfnd)
        exact ⟨Int.le_of_eq (hchg job).1.symm, fun _ => (hchg job).2⟩
      · exact fun _ => rfl
      · exact fun _ => rfl
      · exact fun _ _ => rfl
      · exact fun _ hruns => hruns
    case isFalse => exact Evolves.refl

theorem evolves_running {touched : Delivery → Prop} [DecidablePred touched]
    (htouc : ∀ row, touched row → row.state = .running) (hid : ∀ row, (change row).id = row.id)
    (hkey : ∀ row, (change row).key = row.key) :
    Evolves serde store
      (store.update (fun row => if touched row then change row else row)) none := by
  apply Evolves.quiet (fun row => if touched row then change row else row)
  · rfl
  · rfl
  · exact Grows.of_jobs rfl
  · intro row
    rw [apply_ite Delivery.id, hid, ite_self]
  · intro row
    rw [apply_ite Delivery.key, hkey, ite_self]
  · intro row hset
    rw [if_neg]
    intro htouch
    rw [htouc row htouch] at hset
    exact absurd hset Bool.false_ne_true
  intro row hruns
  by_cases htouch : touched row
  · exact htouc row htouch
  · rwa [if_neg htouch] at hruns

theorem settle_evolves (id : ℕ) (why : String) (hid : ∀ row, (change row).id = row.id)
    (hkey : ∀ row, (change row).key = row.key) :
    Evolves serde store (store.settle id change why).2 none := by
  unfold Store.settle
  split
  · exact evolves_running (fun _ htouch => htouch.2) hid hkey
  · exact Evolves.refl

theorem recover_evolves (now : ℤ) : Evolves serde store (store.recover now).2 none :=
  evolves_running (fun _ hruns => hruns) (fun _ => rfl) (fun _ => rfl)

theorem mem_waiting {definition : String} (hmem : (row, definition) ∈ store.waiting) :
    row ∈ store.deliveries ∧ row.state = .queued ∧
      (∀ active ∈ store.deliveries, active.jobId = row.jobId → active.state ≠ .running) ∧
      ∃ job : JobRow, store.jobs[row.jobId]? = some job ∧ job.definition = definition := by
  obtain ⟨found, hfnd, hwts⟩ := List.mem_filterMap.mp hmem
  split at hwts
  case h_1 => exact nomatch hwts
  case h_2 job hjob =>
    split at hwts
    case isFalse => exact nomatch hwts
    case isTrue hqueued =>
      obtain ⟨rfl, rfl⟩ := Prod.mk.inj (Option.some.inj hwts)
      rw [Bool.and_eq_true, Bool.not_eq_true', List.any_eq_false] at hqueued
      refine ⟨hfnd, by simpa using hqueued.1, ?_, job, hjob, rfl⟩
      intro active hact hown hruns
      exact hqueued.2 active hact (by simp [hown, hruns])

theorem choose_spec {now wakeBudget : ℤ} {kinds : Option (List String)}
    {rows : List (Delivery × String)} {job : Json}
    (hchos : store.choose serde now wakeBudget kinds rows = .ok (some (row, job))) :
    ∃ definition, (row, definition) ∈ rows ∧ readJson serde definition = .ok job := by
  induction rows with
  | nil => exact nomatch hchos
  | cons first rest ih =>
    have hltr (hrest : store.choose serde now wakeBudget kinds rest = .ok (some (row, job))) :
        ∃ definition, (row, definition) ∈ first :: rest ∧ readJson serde definition = .ok job := by
      obtain ⟨definition, hmem, hread⟩ := ih hrest
      exact ⟨definition, mem_cons_of_mem _ hmem, hread⟩
    unfold Store.choose at hchos
    split at hchos
    case h_1 => exact nomatch hchos
    case h_2 found hread =>
      dsimp only at hchos
      split at hchos
      · exact hltr hchos
      split at hchos
      · exact hltr hchos
      · obtain ⟨rfl, rfl⟩ := Prod.mk.inj (Option.some.inj (Except.ok.inj hchos))
        exact ⟨_, mem_cons_self, hread⟩

theorem cancelIf_queued {stale : Delivery → Bool} {why : String}
    (hqueued : (Store.cancelIf stale why row).state = .queued) :
    Store.cancelIf stale why row = row ∧ stale row = false := by
  rw [Store.cancelIf] at hqueued ⊢
  split at hqueued
  case isTrue => exact nomatch hqueued
  case isFalse hkept =>
    rw [if_neg hkept]
    exact ⟨rfl, by simpa [hqueued] using hkept⟩

theorem isCurrent_spec (hcur : store.isCurrent row = true) :
    ∃ job : JobRow, store.jobs[row.jobId]? = some job ∧ job.enabled = true ∧
      job.revision = row.revision := by
  unfold Store.isCurrent at hcur
  split at hcur
  case h_1 => exact absurd hcur Bool.false_ne_true
  case h_2 job hjob => exact ⟨job, hjob, by simpa using hcur⟩

theorem claimed_spec {definition : Json} {claim : Claim}
    (hread : readJson serde job.definition = .ok definition)
    (hclmd : Store.claimed serde row definition = .ok claim) : Carries serde row job claim := by
  unfold Store.claimed at hclmd
  cases hev : readJson serde row.payload with
  | error why =>
    rw [hev] at hclmd
    exact nomatch hclmd
  | ok event =>
    rw [hev] at hclmd
    obtain rfl := Except.ok.inj hclmd
    exact ⟨rfl, rfl, definition, hread, rfl, rfl⟩

theorem chosen_starts {why : String} {chosen : Delivery} {text : String} {definition : Json}
    {given : Option Claim}
    (hwts : (chosen, text) ∈
      (store.update (Store.cancelIf (fun row => !store.isCurrent row) why)).waiting)
    (hread : readJson serde text = .ok definition)
    (hgiven : ∀ claim, given = some claim → Store.claimed serde chosen definition = .ok claim) :
    chosen ∈ store.deliveries ∧ chosen.state = .queued ∧ store.isCurrent chosen = true ∧
      Starts serde store given chosen := by
  obtain ⟨hmem, hqueued, hidle, job, hjob, rfl⟩ := mem_waiting hwts
  obtain ⟨row, hrow, rfl⟩ := List.mem_map.mp hmem
  obtain ⟨hsame, hstl⟩ := cancelIf_queued hqueued
  rw [hsame] at hqueued hidle hjob hgiven ⊢
  have hcur : store.isCurrent row = true := by simpa using hstl
  refine ⟨hrow, hqueued, hcur, ⟨?_, ?_⟩⟩
  · intro active hact hown hruns
    apply hidle (Store.cancelIf (fun row => !store.isCurrent row) why active)
      (List.mem_map_of_mem hact)
    · rw [← hown]
      exact congrArg Prod.fst (cancelIf_key _ why active)
    · rw [Store.cancelIf, if_neg (by simp [hruns])]
      exact hruns
  obtain ⟨found, hfnd, hena, hrev⟩ := isCurrent_spec hcur
  obtain rfl := Option.some.inj (hjob.symm.trans hfnd)
  exact ⟨job, hfnd, hena, hrev,
    fun claim hclm => claimed_spec hread (hgiven claim hclm)⟩

theorem startIf_id (id : ℕ) (now : ℤ) (row : Delivery) : (Store.startIf id now row).id = row.id := by
  rw [Store.startIf]
  split <;> rfl

theorem startIf_key (id : ℕ) (now : ℤ) (row : Delivery) :
    (Store.startIf id now row).key = row.key := by
  rw [Store.startIf]
  split <;> rfl

theorem startIf_settled (id : ℕ) (now : ℤ) (row : Delivery)
    (hset : row.state.isSettled = true) : (Store.startIf id now row).state = row.state := by
  rw [Store.startIf, if_neg]
  rintro ⟨_, hqueued⟩
  rw [hqueued] at hset
  exact absurd hset Bool.false_ne_true

theorem startIf_running {now : ℤ} (hruns : (Store.startIf id now row).state = .running) :
    row.state = .running ∨ row.id = id ∧ row.state = .queued := by
  rw [Store.startIf] at hruns
  split at hruns
  case isTrue hstar => exact Or.inr hstar
  case isFalse => exact Or.inl hruns

theorem claim_evolves (now wakeBudget : ℤ) (kinds : Option (List String))
    (hids : (store.deliveries.map (·.id)).Nodup) :
    Evolves serde store (store.claim serde now wakeBudget kinds).2
      (given (.claim now wakeBudget kinds) (store.claim serde now wakeBudget kinds).1) := by
  have hcan (stale : Delivery → Bool) (why : String) :
      Evolves serde store (store.update (Store.cancelIf stale why)) none := by
    apply Evolves.quiet (Store.cancelIf stale why)
    · rfl
    · rfl
    · exact Grows.of_jobs rfl
    · exact cancelIf_id _ _
    · exact cancelIf_key _ _
    · exact cancelIf_settled _ _
    · exact cancelIf_running _ _
  unfold Store.claim
  dsimp only
  split
  case h_1 => exact Evolves.refl
  case h_2 => exact hcan _ _
  case h_3 chosen definition hchos =>
    obtain ⟨text, hwts, hread⟩ := choose_spec hchos
    have hans : ∀ claim, given (.claim now wakeBudget kinds)
        ((Store.claimed serde chosen definition).map some) = some claim →
          Store.claimed serde chosen definition = .ok claim := by
      intro claim hgiven
      cases hclmd : Store.claimed serde chosen definition with
      | error why =>
        rw [hclmd] at hgiven
        exact nomatch hgiven
      | ok made =>
        rw [hclmd] at hgiven
        exact congrArg Except.ok (Option.some.inj hgiven)
    obtain ⟨hmem, hqueued, hcur, hstar⟩ := chosen_starts hwts hread hans
    apply Evolves.changed (fun row => Store.startIf chosen.id now
      (Store.cancelIf (fun row => !store.isCurrent row) "disabled or superseded" row)) chosen.id
    · exact List.map_map
    · rfl
    · exact Grows.of_jobs rfl
    · intro row
      rw [startIf_id, cancelIf_id]
    · intro row
      rw [startIf_key, cancelIf_key]
    · intro row hset
      have hkept := cancelIf_settled (fun row => !store.isCurrent row) "disabled or superseded" row
        hset
      rw [startIf_settled, hkept]
      rwa [hkept]
    · intro row hrow hrsts hruns
      rcases startIf_running hruns with hran | ⟨hid, hwait⟩
      · exact absurd (cancelIf_running _ _ _ hran) hrsts
      · rw [cancelIf_id] at hid
        obtain rfl := inj_on_of_nodup_map hids hrow hmem hid
        exact ⟨rfl, hstar⟩
    intro claim hgiven
    refine ⟨chosen, hmem, ?_, hqueued, ?_⟩
    · obtain ⟨job, _, _, _, hcar⟩ := hstar.current
      exact (hcar claim hgiven).1.symm
    · rw [Store.cancelIf, if_neg (by simp [hcur]), Store.startIf, if_pos ⟨rfl, hqueued⟩]

theorem run_evolves (op : Op) (hids : (store.deliveries.map (·.id)).Nodup) :
    Evolves serde store (op.run serde store).2 (given op (op.run serde store).1) := by
  cases op with
  | replace id prepared => exact replace_evolves id prepared
  | definition | list => exact Evolves.refl
  | enable id enabled => exact enable_evolves id enabled
  | forget id => exact forget_evolves id
  | enqueue id revision eventId payload now => exact enqueue_evolves id revision eventId payload now
  | nextAt id => exact Evolves.refl
  | setNextAt id revision next => exact touch_evolves id revision (fun _ => ⟨rfl, rfl⟩)
  | sourceStatus id revision status => exact touch_evolves id revision (fun _ => ⟨rfl, rfl⟩)
  | claim now wakeBudget kinds => exact claim_evolves now wakeBudget kinds hids
  | finish id outcome detail now => exact settle_evolves id _ (fun _ => rfl) (fun _ => rfl)
  | recover now => exact recover_evolves now
  | defer id detail => exact settle_evolves id _ (fun _ => rfl) (fun _ => rfl)

end Operations

section Invariant

variable {serde : Serde} {store before after : Store} {claim : Option Claim}

def Stands (store : Store) (row : Delivery) (job : JobRow) : Prop :=
  ∃ later : JobRow, store.jobs[row.jobId]? = some later ∧ job.revision ≤ later.revision ∧
    (later.revision = job.revision → later.definition = job.definition)

inductive Story (serde : Serde) (store : Store) (id : ℕ) : List Turn → Option Delivery → Prop where
  | absent : Story serde store id [] none
  | told {born : Delivery} {job : JobRow} {turns : List Turn} {now : Option Delivery}
      (hid : born.id = id) (hrevision : born.revision = job.revision)
      (hcourse : Course turns (now.map (·.state)))
      (hpinned : ∀ turn ∈ turns, Pinned serde born job turn)
      (hkey : ∀ row, now = some row → row.key = born.key)
      (hactive : ∀ row, now = some row → row.state.isSettled = false → Stands store born job) :
      Story serde store id (.enqueued born (some job) :: turns) now

theorem Grows.stands (hgrows : Grows before after) (hstds : Stands before row job) :
    Stands after row job := by
  obtain ⟨middle, hmidd, hle, hsame⟩ := hstds
  obtain ⟨later, hltr, hle', hsame'⟩ := hgrows _ middle hmidd
  refine ⟨later, hltr, Int.le_trans hle hle', ?_⟩
  intro heq
  have hmid : middle.revision = job.revision := Int.le_antisymm (heq ▸ hle') hle
  exact (hsame' (heq.trans hmid.symm)).trans (hsame hmid)

theorem Starts.pinned {born : Delivery} (hstar : Starts serde store claim row)
    (hid : row.id = born.id) (hkey : row.key = born.key)
    (hrevis : born.revision = job.revision) (hstds : Stands store born job) :
    Pinned serde born job (.claimed claim store.jobs[row.jobId]?) := by
  obtain ⟨current, hcur, hena, hsame, hcar⟩ := hstar.current
  obtain ⟨hjob, hrev, hev⟩ : row.jobId = born.jobId ∧ row.revision = born.revision ∧
      row.eventId = born.eventId := by
    simpa [Delivery.key] using hkey
  obtain ⟨later, hltr, _, hdef⟩ := hstds
  obtain rfl : current = later := Option.some.inj (hcur.symm.trans (hjob ▸ hltr))
  have hrevs : current.revision = job.revision := hsame.trans (hrev.trans hrevis)
  refine ⟨current, hcur, hena, hsame.trans hrev, hdef hrevs, ?_⟩
  intro given hgiven
  obtain ⟨hgid, hgkey, definition, hread, hrest⟩ := hcar given hgiven
  exact ⟨hgid.trans hid, hgkey.trans hkey, definition, hdef hrevs ▸ hread, hrest⟩

structure Ledger.Kept (serde : Serde) (ledger : Ledger) : Prop where
  ids : (ledger.store.deliveries.map (·.id)).Nodup
  last : ∀ row ∈ ledger.store.deliveries, row.id ≤ ledger.store.lastDelivery
  keys : (ledger.store.deliveries.map Delivery.key).Nodup
  alone : ∀ first ∈ ledger.store.deliveries, ∀ second ∈ ledger.store.deliveries,
    first.state = .running → second.state = .running → first.jobId = second.jobId →
      first.id = second.id
  stories : ∀ id, Story serde ledger.store id (ledger.course id) (ledger.store.row id)
  young : ∀ id, ledger.store.lastDelivery < id → ledger.course id = []
  held : ∀ claim ∈ ledger.answered, ∃ job, Turn.claimed (some claim) job ∈ ledger.course claim.id

variable {now : Option Delivery} {turns : List Turn}

theorem Story.grow (hstory : Story serde before id turns now)
    (hgrows : Grows before after) : Story serde after id turns now := by
  cases hstory with
  | absent => exact Story.absent
  | told hid hrev hcour hpin hkey hact =>
    exact Story.told hid hrev hcour hpin hkey
      (fun row hrow hwts => hgrows.stands (hact row hrow hwts))

theorem pinned_between {row' born : Delivery} {later : Turn}
    (hturn : Turn.between claim before.jobs[row'.jobId]? row.state row'.state = some later)
    (hkey' : row'.key = row.key) (hid : row.id = born.id) (hkey : row.key = born.key)
    (hrev : born.revision = job.revision)
    (hstds : row.state.isSettled = false → Stands before born job)
    (hset : row.state.isSettled = true → row'.state = row.state)
    (hstar : row.state ≠ .running → row'.state = .running → Starts serde before claim row) :
    Pinned serde born job later := by
  unfold Turn.between at hturn
  split at hturn
  case isTrue => exact nomatch hturn
  case isFalse hmoved =>
    split at hturn
    case h_1 =>
      obtain rfl := Option.some.inj hturn
      exact trivial
    case h_3 =>
      obtain rfl := Option.some.inj hturn
      exact trivial
    case h_2 hruns =>
      obtain rfl := Option.some.inj hturn
      have hres : row.state ≠ .running := fun hran => hmoved (hran.trans hruns.symm)
      have hwts : row.state.isSettled = false := by
        by_contra hover
        exact hmoved (hset (eq_true_of_ne_false hover)).symm
      have hjob : row'.jobId = row.jobId := congrArg Prod.fst hkey'
      rw [hjob]
      exact (hstar hres hruns).pinned hid hkey hrev (hstds hwts)

theorem Story.changed {row' : Delivery} (hstory : Story serde before id turns (some row))
    (hgrows : Grows before after) (hid : row.id = id) (hkey : row'.key = row.key)
    (hset : row.state.isSettled = true → row'.state = row.state)
    (hstar : row.state ≠ .running → row'.state = .running → Starts serde before claim row) :
    Story serde after id (turns ++
      (Turn.between claim before.jobs[row'.jobId]? row.state row'.state).toList) (some row') := by
  cases hstory with
  | @told born job turns _ hborn hrev hcour hpin hkeys hact =>
    have hsame := hkeys row rfl
    refine Story.told hborn hrev (hcour.between _ _ hset) ?_ ?_ ?_
    · intro later hltr
      rcases mem_append.mp hltr with hold | hnew
      · exact hpin later hold
      · exact pinned_between (mem_toList.mp hnew) hkey (hid.trans hborn.symm) hsame hrev
          (hact row rfl) hset hstar
    · intro found hfnd
      obtain rfl := Option.some.inj hfnd
      exact hkey.trans hsame
    intro found hfnd hwts
    obtain rfl := Option.some.inj hfnd
    apply hgrows.stands
    apply hact row rfl
    by_contra hover
    have hover' := eq_true_of_ne_false hover
    rw [hset hover', hover'] at hwts
    exact Bool.false_ne_true hwts.symm

theorem Story.removed (hstory : Story serde before id turns (some row))
    (hset : row.state.isSettled = true) : Story serde after id (turns ++ [.removed none]) none := by
  cases hstory with
  | @told born job turns _ hborn hrev hcour hpin hkeys hact =>
    have hends : Course (turns ++ [.removed none]) none := by
      cases hst : row.state with
      | queued | running => exact absurd hset (by simp [hst, DeliveryState.isSettled])
      | settled outcome =>
        rw [map_some, hst] at hcour
        exact hcour.removed outcome
    refine Story.told hborn hrev hends ?_ nofun nofun
    intro later hltr
    rcases mem_append.mp hltr with hold | hnew
    · exact hpin later hold
    · rw [mem_singleton.mp hnew]
      exact trivial

theorem row_changed (hid : ∀ row, (change row).id = row.id)
    (hrows : after.deliveries = before.deliveries.map change) (id : ℕ) :
    after.row id = (before.row id).map change := by
  rw [Store.row, Store.row, hrows, find?_map]
  congr 2
  funext row
  simp [hid]

theorem row_added (row : Delivery) (id : ℕ) (habs : before.row row.id = none) :
    Store.row ⟨before.jobs, before.deliveries ++ [row], before.lastDelivery + 1⟩ id =
      if row.id = id then some row else before.row id := by
  rw [Store.row, find?_append]
  by_cases hid : row.id = id
  · subst hid
    rw [if_pos rfl, show before.deliveries.find? _ = none from habs]
    simp
  · rw [if_neg hid, find?_singleton, if_neg (by simpa using hid), or_none]
    rfl

theorem row_forgotten (hids : (before.deliveries.map (·.id)).Nodup) (job : String) (id : ℕ) :
    Store.row ⟨before.jobs.erase job, before.deliveries.filter (·.jobId ≠ job),
      before.lastDelivery⟩ id = (before.row id).filter (·.jobId ≠ job) := by
  have hids' : ((before.deliveries.filter (·.jobId ≠ job)).map (·.id)).Nodup :=
    hids.sublist (filter_sublist.map _)
  apply ext
  intro row
  rw [Store.row_eq_some hids', filter_eq_some_iff, Store.row_eq_some hids, mem_filter]
  tauto

variable {ledger : Ledger} (hkept : ledger.Kept serde)
include hkept

theorem Ledger.Kept.row_young
    (hyng : ledger.store.lastDelivery < id) : ledger.store.row id = none := by
  apply Store.row_eq_none
  intro row hmem hsame
  exact absurd (hkept.last row hmem) (Nat.not_le_of_lt (hsame ▸ hyng))

theorem Ledger.Kept.step_changed {only : ℕ}
    (hrows : after.deliveries = ledger.store.deliveries.map change)
    (hlast : after.lastDelivery = ledger.store.lastDelivery) (hgrows : Grows ledger.store after)
    (hid : ∀ row, (change row).id = row.id) (hkey : ∀ row, (change row).key = row.key)
    (hset : ∀ row, row.state.isSettled = true → (change row).state = row.state)
    (hstar : ∀ row ∈ ledger.store.deliveries, row.state ≠ .running →
      (change row).state = .running → row.id = only ∧ Starts serde ledger.store claim row)
    (hgiven : ∀ given, claim = some given → ∃ row ∈ ledger.store.deliveries, row.id = given.id ∧
      row.state = .queued ∧ (change row).state = .running) :
    (ledger.extend after claim).Kept serde := by
  have hrow := row_changed hid hrows
  constructor
  · change (after.deliveries.map (·.id)).Nodup
    rw [hrows, List.map_map, show (·.id) ∘ change = (·.id) from funext hid]
    exact hkept.ids
  · change ∀ row ∈ after.deliveries, row.id ≤ after.lastDelivery
    rw [hrows, hlast]
    intro row hmem
    obtain ⟨old, hold, rfl⟩ := List.mem_map.mp hmem
    rw [hid]
    exact hkept.last old hold
  · change (after.deliveries.map Delivery.key).Nodup
    rw [hrows, List.map_map, show Delivery.key ∘ change = Delivery.key from funext hkey]
    exact hkept.keys
  · change ∀ first ∈ after.deliveries, ∀ second ∈ after.deliveries, _
    rw [hrows]
    intro first hfst second hsnd hruns hruns' hjob
    obtain ⟨one, hone, rfl⟩ := List.mem_map.mp hfst
    obtain ⟨other, hoth, rfl⟩ := List.mem_map.mp hsnd
    have hjobs (row : Delivery) : (change row).jobId = row.jobId := congrArg Prod.fst (hkey row)
    rw [hjobs, hjobs] at hjob
    rw [hid, hid]
    by_cases hran : one.state = .running
    · by_cases hran' : other.state = .running
      · exact hkept.alone one hone other hoth hran hran' hjob
      · exact absurd hran ((hstar other hoth hran' hruns').2.idle one hone hjob)
    · by_cases hran' : other.state = .running
      · exact absurd hran' ((hstar one hone hran hruns).2.idle other hoth hjob.symm)
      · exact (hstar one hone hran hruns).1.trans (hstar other hoth hran' hruns').1.symm
  · intro id
    change Story serde after id (ledger.course id ++ (turn ledger.store after claim id).toList)
      (after.row id)
    have hstory := hkept.stories id
    rw [turn, hrow]
    cases hnow : ledger.store.row id with
    | none =>
      rw [hnow] at hstory
      simpa using hstory.grow hgrows
    | some row =>
      obtain ⟨hmem, hsame⟩ := (Store.row_eq_some hkept.ids).mp hnow
      rw [hnow] at hstory
      exact hstory.changed hgrows hsame (hkey row) (hset row)
        (fun hrsts hruns => (hstar row hmem hrsts hruns).2)
  · intro id hltr
    change ledger.course id ++ (turn ledger.store after claim id).toList = []
    have hyng : ledger.store.lastDelivery < id := hlast ▸ hltr
    rw [hkept.young id hyng, turn, hrow, hkept.row_young hyng]
    rfl
  intro given hmem
  rcases List.mem_append.mp hmem with hold | hnew
  · obtain ⟨job, hjob⟩ := hkept.held given hold
    exact ⟨job, List.mem_append_left _ hjob⟩
  obtain ⟨row, hmem, hsame, hqueued, hruns⟩ := hgiven given (Option.mem_toList.mp hnew)
  refine ⟨ledger.store.jobs[(change row).jobId]?, List.mem_append_right _ ?_⟩
  rw [turn, hrow, ← hsame, Store.row_of_mem hkept.ids hmem]
  simp [Turn.between, hqueued, hruns, Option.mem_toList.mp hnew]

theorem Ledger.Kept.held_extend (after : Store) :
    ∀ claim ∈ (ledger.extend after none).answered, ∃ job,
      Turn.claimed (some claim) job ∈ (ledger.extend after none).course claim.id := by
  intro given hmem
  obtain ⟨job, hjob⟩ := hkept.held given (by simpa [Ledger.extend] using hmem)
  exact ⟨job, mem_append_left _ hjob⟩

theorem Ledger.Kept.step_added (hjob : ledger.store.jobs[row.jobId]? = some job)
    (hrev : row.revision = job.revision) (hid : row.id = ledger.store.lastDelivery + 1)
    (hqueued : row.state = .queued) (hfresh : row.key ∉ ledger.store.deliveries.map Delivery.key) :
    (ledger.extend ⟨ledger.store.jobs, ledger.store.deliveries ++ [row],
      ledger.store.lastDelivery + 1⟩ none).Kept serde := by
  have hnew : ledger.store.lastDelivery < row.id := hid ▸ Nat.lt_succ_self _
  have habs := hkept.row_young hnew
  have hrow (id : ℕ) := row_added row id habs
  constructor
  · change ((ledger.store.deliveries ++ [row]).map (·.id)).Nodup
    rw [map_append, map_singleton, nodup_append]
    refine ⟨hkept.ids, nodup_singleton _, ?_⟩
    intro id hused other hoth
    obtain ⟨old, hold, rfl⟩ := List.mem_map.mp hused
    rw [mem_singleton.mp hoth]
    exact Nat.ne_of_lt (Nat.lt_of_le_of_lt (hkept.last old hold) hnew)
  · intro old hold
    change old.id ≤ ledger.store.lastDelivery + 1
    rcases mem_append.mp hold with hbef | hlast
    · exact Nat.le_succ_of_le (hkept.last old hbef)
    · rw [mem_singleton.mp hlast, hid]
  · change ((ledger.store.deliveries ++ [row]).map Delivery.key).Nodup
    rw [map_append, map_singleton, nodup_append]
    refine ⟨hkept.keys, nodup_singleton _, ?_⟩
    intro key hused other hoth
    rw [mem_singleton.mp hoth]
    exact fun hsame => hfresh (hsame ▸ hused)
  · intro first hfst second hsnd hruns hruns' hjobs
    have hold : ∀ found ∈ ledger.store.deliveries ++ [row], found.state = .running →
        found ∈ ledger.store.deliveries := by
      intro found hfnd hrun
      rcases mem_append.mp hfnd with hbef | hlast
      · exact hbef
      · rw [mem_singleton.mp hlast, hqueued] at hrun
        exact nomatch hrun
    exact hkept.alone first (hold first hfst hruns) second (hold second hsnd hruns') hruns
      hruns' hjobs
  · intro id
    have hstory := hkept.stories id
    dsimp only [Ledger.extend]
    rw [turn, hrow]
    by_cases hown : row.id = id
    · subst hown
      rw [if_pos rfl, habs, hkept.young _ hnew]
      dsimp only
      rw [hjob, toList_some, nil_append]
      refine Story.told rfl hrev ?_ (fun _ hnone => absurd hnone not_mem_nil) ?_ ?_
      · rw [map_some, hqueued]
        exact Course.queued
      · intro found hfnd
        rw [Option.some.inj hfnd]
      · intro found _ _
        exact ⟨job, hjob, Int.le_refl _, fun _ => rfl⟩
    rw [if_neg hown]
    cases hnow : ledger.store.row id with
    | none =>
      rw [hnow] at hstory
      rw [toList_none, append_nil]
      exact hstory.grow (Grows.of_jobs rfl)
    | some found =>
      rw [hnow] at hstory
      dsimp only
      rw [Turn.between_self, toList_none, append_nil]
      exact hstory.grow (Grows.of_jobs rfl)
  · intro id hltr
    have hyng : ledger.store.lastDelivery < id := Nat.lt_of_succ_lt hltr
    have hoth : row.id ≠ id := hid ▸ Nat.ne_of_lt hltr
    change ledger.course id ++ (turn ledger.store _ none id).toList = []
    rw [hkept.young id hyng, turn, hrow, if_neg hoth, hkept.row_young hyng]
    rfl
  · exact hkept.held_extend _

theorem Ledger.Kept.step_forgotten {job : String}
    (hidle : ∀ row ∈ ledger.store.deliveries, row.jobId = job → row.state.isSettled = true) :
    (ledger.extend ⟨ledger.store.jobs.erase job, ledger.store.deliveries.filter (·.jobId ≠ job),
      ledger.store.lastDelivery⟩ none).Kept serde := by
  have hrow := row_forgotten hkept.ids job
  have hsub : (ledger.store.deliveries.filter (·.jobId ≠ job)).Sublist ledger.store.deliveries :=
    filter_sublist
  constructor
  · exact hkept.ids.sublist (hsub.map _)
  · exact fun row hmem => hkept.last row (hsub.mem hmem)
  · exact hkept.keys.sublist (hsub.map _)
  · exact fun first hfst second hsnd => hkept.alone first (hsub.mem hfst) second
      (hsub.mem hsnd)
  · intro id
    have hstory := hkept.stories id
    dsimp only [Ledger.extend]
    rw [turn, hrow]
    cases hnow : ledger.store.row id with
    | none =>
      rw [hnow] at hstory
      generalize ledger.course id = turns at hstory ⊢
      cases hstory with
      | absent => exact Story.absent
      | told hid hrev hcour hpin hkey hact =>
        rw [filter_none, toList_none, append_nil]
        exact Story.told hid hrev hcour hpin nofun nofun
    | some row =>
      obtain ⟨hmem, _⟩ := (Store.row_eq_some hkept.ids).mp hnow
      rw [hnow] at hstory
      by_cases hown : row.jobId = job
      · have hgone : (ledger.store.jobs.erase job)[row.jobId]? = none := by
          simp [hown]
        rw [filter_some, if_neg (by simpa using hown)]
        dsimp only
        rw [hgone]
        exact hstory.removed (hidle row hmem hown)
      rw [filter_some, if_pos (by simpa using hown)]
      dsimp only
      rw [Turn.between_self, toList_none, append_nil]
      generalize ledger.course id = turns at hstory ⊢
      cases hstory with
      | told hid hrev hcour hpin hkey hact =>
        refine Story.told hid hrev hcour hpin hkey ?_
        intro found hfnd hwts
        obtain ⟨later, hltr, hrest⟩ := hact found hfnd hwts
        refine ⟨later, ?_, hrest⟩
        have hjob : _ = _ := congrArg Prod.fst (hkey row rfl)
        rw [Std.ExtTreeMap.getElem?_erase, ← hltr, if_neg]
        rw [Std.compare_eq_iff_eq]
        exact fun hsame => hown (hjob.trans hsame.symm)
  · intro id hyng
    change ledger.course id ++ (turn ledger.store _ none id).toList = []
    rw [hkept.young id hyng, turn, hrow, hkept.row_young hyng]
    rfl
  · exact hkept.held_extend _

theorem Ledger.Kept.step
    (hevo : Evolves serde ledger.store after claim) : (ledger.extend after claim).Kept serde := by
  cases hevo with
  | changed change only hrows hlast hgrows hid hkey hset hstar hgiven =>
    exact hkept.step_changed hrows hlast hgrows hid hkey hset hstar hgiven
  | added row hjob hrev hid hqueued hfresh =>
    exact hkept.step_added hjob hrev hid hqueued hfresh
  | forgotten id hidle => exact hkept.step_forgotten hidle

omit hkept in
theorem Ledger.Kept.empty : Ledger.empty.Kept serde :=
  ⟨nodup_nil, nofun, nodup_nil, nofun, fun _ => Story.absent, fun _ _ => rfl, nofun⟩

theorem Ledger.Kept.performs {op : Op} {answer : Checked op.Reply}
    {later : Ledger} (hper : Performs serde op ledger answer later) : later.Kept serde := by
  rcases hper with ⟨rfl, rfl⟩ | ⟨_, rfl⟩
  · exact hkept.step (run_evolves op hkept.ids)
  · exact hkept

omit hkept

theorem Story.once (hstory : Story serde store id turns now) : turns.countP Turn.isSettled ≤ 1 := by
  cases hstory with
  | absent => exact Nat.zero_le 1
  | told _ _ hcour =>
    rw [countP_cons_of_neg (by exact Bool.false_ne_true), hcour.settledOnce]
    split
    · exact Nat.le_refl 1
    · exact Nat.zero_le 1

theorem Story.relayed (hstory : Story serde store id turns now) :
    turns.countP Turn.isClaimed ≤ turns.countP Turn.isDeferred + 1 := by
  cases hstory with
  | absent => exact Nat.zero_le 1
  | told _ _ hcour =>
    rw [countP_cons_of_neg (by exact Bool.false_ne_true),
      countP_cons_of_neg (by exact Bool.false_ne_true)]
    exact hcour.claims.1

theorem Story.keyed {job : Option JobRow}
    (hstory : Story serde store id turns now) (hborn : Turn.enqueued row job ∈ turns) :
    (∃ found, now = some found ∧ found.key = row.key) ∨ Turn.removed none ∈ turns := by
  cases hstory with
  | absent => exact absurd hborn not_mem_nil
  | @told born _ turns _ _ _ hcour _ hkey =>
    obtain heq | hltr := mem_cons.mp hborn
    · obtain ⟨rfl, _⟩ := Turn.enqueued.inj heq
      cases now with
      | none => exact Or.inr (mem_cons_of_mem _ hcour.endsRemoved)
      | some found => exact Or.inl ⟨found, rfl, hkey found rfl⟩
    · exact absurd hltr hcour.noneEnqueued

theorem Ledger.Kept.sound (hkept : ledger.Kept serde) : ledger.Sound serde := by
  constructor
  · exact hkept.keys
  · intro first hfst second hsnd hruns hruns' hjob
    exact inj_on_of_nodup_map hkept.ids hfst hsnd
      (hkept.alone first hfst second hsnd hruns hruns' hjob)
  · intro id row hrow
    have hstory := hkept.stories id
    rw [hrow] at hstory
    generalize ledger.course id = turns at hstory ⊢
    cases hstory with
    | told => exact ⟨_, _, _, rfl⟩
  · intro id first turns hcour
    have hstory := hkept.stories id
    rw [hcour] at hstory
    generalize ledger.store.row id = now at hstory ⊢
    cases hstory with
    | told hid hrev hcour hpin => exact ⟨_, _, rfl, hid, hrev, hcour, hpin⟩
  · intro first second row row' job job' hoth hborn hborn' hsame
    rcases (hkept.stories first).keyed hborn with ⟨found, hfnd, hkey⟩ | hgone
    · rcases (hkept.stories second).keyed hborn' with ⟨found', hfnd', hkey'⟩ | hgone
      · obtain ⟨hmem, rfl⟩ := (Store.row_eq_some hkept.ids).mp hfnd
        obtain ⟨hmem', rfl⟩ := (Store.row_eq_some hkept.ids).mp hfnd'
        have hboth : found.key = found'.key := hkey.trans (hsame.trans hkey'.symm)
        exact absurd (congrArg Delivery.id (inj_on_of_nodup_map hkept.keys hmem hmem' hboth)) hoth
      · exact Or.inr hgone
    · exact Or.inl hgone
  · exact fun id => (hkept.stories id).relayed
  · exact fun id => (hkept.stories id).once
  · exact hkept.held

/-- Whatever callers do, in any order, the deliveries are kept so. -/
theorem deliveries_sound {Caller : Type} [DecidableEq Caller] (serde : Serde)
    {team : Team Op (fun op => Checked op.Reply) Ledger Unit Caller}
    (hreaches : team.Reaches (Performs serde) (Requested serde) (· = Ledger.empty)) :
    team.state.Sound serde := by
  apply Ledger.Kept.sound
  apply hreaches.invariant
  · rintro ledger rfl
    exact Ledger.Kept.empty
  · intro op ledger answer later hkept hperforms
    exact hkept.performs hperforms

end Invariant

section Sample

def knownTexts (values : List Json) : Serde where
  parse bytes :=
    match values.find? (fun value =>
      (String.ofList (value.text fun _ => [])).toUTF8.toList = bytes) with
    | some value => .ok value
    | none => .error "expected value"
  print value := String.ofList (value.text fun _ => [])

def runner (script : String) : Json :=
  .object [("action", .object [("kind", .string "run"), ("script", .string script)]),
    ("id", .string "job"), ("name", .string "Job"),
    ("trigger", .object [("kind", .string "event"), ("topic", .string "mail")])]

def samples : Serde := knownTexts [runner "/bin/one", runner "/bin/two", .null]

/-- The database takes every operation. -/
def Ledger.respond (serde : Serde) (op : Op) (ledger : Ledger) : Checked op.Reply × Ledger :=
  ((op.run serde ledger.store).1,
    ledger.extend (op.run serde ledger.store).2 (given op (op.run serde ledger.store).1))

theorem Ledger.respond_performs (serde : Serde) (op : Op) (ledger : Ledger) :
    Performs serde op ledger (ledger.respond serde op).1 (ledger.respond serde op).2 :=
  Or.inl ⟨rfl, rfl⟩

def firstCalls : List (Script Op (fun op => Checked op.Reply) Unit) :=
  [begun (put samples (runner "/bin/one")), begun (enable "job" true),
    begun (enqueue samples "job" 2 "mail-1" .null 5), begun (claimNext 7 0 true)]

theorem requested_firstCalls : ∀ script ∈ firstCalls, Requested samples script := by
  simp only [firstCalls, forall_mem_cons]
  exact ⟨.put _, .enable _ _, .enqueue _ _ _ _ _, .claimNext _ _ _, nofun⟩

theorem deliveries_sound_first :
    ∃ team : Team Op (fun op => Checked op.Reply) Ledger Unit Unit,
      team.Reaches (Performs samples) (Requested samples) (· = Ledger.empty) ∧
        team.state.answered.map (·.jobId) = ["job"] ∧ team.state.Sound samples := by
  have hstart : (⟨Ledger.empty, fun _ => none⟩ :
      Team Op (fun op => Checked op.Reply) Ledger Unit Unit).Reaches (Performs samples)
        (Requested samples) (· = Ledger.empty) := .start rfl
  obtain ⟨team, hreaches, hstate⟩ := hstart.session (Ledger.respond_performs samples) () 9
    firstCalls requested_firstCalls rfl
  refine ⟨team, hreaches, ?_, deliveries_sound samples hreaches⟩
  rw [hstate]
  decide +kernel

end Sample

end WasmAgent.Jobs
