import WasmAgent.Core.Survival
import WasmAgent.Jobs.Revisions

/-!
# The two lanes

Actions that need a model are claimed on one lane and the others on another.  A claim takes the first
delivery that may run on its lane.
-/

namespace WasmAgent.Jobs

open List WasmAgent.Core

/-- An action that starts a model run, or has a step that does. -/
inductive NeedsModel : Json → Prop where
  | turn {action : Json} (hkind : kindOf action = "wake" ∨ kindOf action = "subagent") :
      NeedsModel action
  | step {action inner : Json} {steps : List Json} (hkind : kindOf action = "pipeline")
      (hsteps : asArray (action.field "steps") = some steps) (hmem : inner ∈ steps)
      (hinner : NeedsModel inner) : NeedsModel action
  | each {action : Json} (hkind : kindOf action = "foreach")
      (hinner : NeedsModel (action.field "step")) : NeedsModel action

/-- The store as the calls leave it: ids in order, definitions that passed `validate`, payloads that
can be read. -/
structure Store.Stocked (serde : Serde) (store : Store) : Prop where
  ids : (store.deliveries.map (·.id)).Pairwise (· < ·)
  jobs : ∀ (id : String) (job : JobRow), store.jobs[id]? = some job →
    ∃ definition, readJson serde job.definition = .ok definition ∧ validate serde definition = .ok ()
  payloads : ∀ row ∈ store.deliveries, ∃ event, readJson serde row.payload = .ok event

/-- What a claim looks at: without the deliveries of jobs that are off or have changed. -/
def Store.swept (store : Store) : Store :=
  store.update (Store.cancelIf (fun row => !store.isCurrent row) "disabled or superseded")

/-- A queued delivery of an enabled job, at its revision, none of which runs. -/
structure Store.Ready (store : Store) (row : Delivery) : Prop where
  mem : row ∈ store.deliveries
  queued : row.state = .queued
  current : store.isCurrent row = true
  idle : ∀ active ∈ store.deliveries, active.jobId = row.jobId → active.state ≠ .running

section Lanes

variable (serde : Serde) (now wakeBudget : ℤ) (kinds : Option (List String)) (store : Store)

/-- The action is for the lane, and a wake is within the allowance. -/
def Store.Takes (action : Json) : Prop :=
  wanted kinds action = true ∧
    ((action.field "kind").asStr = some "wake" → store.wakesUsed now < wakeBudget)

/-- A delivery that may be claimed on a lane. -/
structure Store.Claimable (row : Delivery) : Prop where
  ready : store.Ready row
  taken : ∃ (job : JobRow) (definition : Json), store.jobs[row.jobId]? = some job ∧
    readJson serde job.definition = .ok definition ∧
      store.Takes now wakeBudget kinds (definition.field "action")

end Lanes

section Actions

variable {action step : Json}

theorem innerIsInference_eq (fields : List (String × Json)) :
    innerIsInference fields = stepIsInference ((Json.object fields).field "step") := by
  induction fields with
  | nil => rfl
  | cons field fields ih =>
    rw [innerIsInference, Json.field, Json.field?, find?_cons]
    by_cases hname : field.1 = "step"
    · rw [if_pos hname, decide_eq_true hname]
      rfl
    · rw [if_neg hname, decide_eq_false hname, ih]
      rfl

theorem object_of_kind {kind : String} (hkind : kindOf step = kind) (hne : kind ≠ "") :
    ∃ fields, step = .object fields := by
  cases step with
  | object fields => exact ⟨fields, rfl⟩
  | _ => exact absurd hkind.symm hne

theorem stepIsInference_turn (hkind : kindOf step = "wake" ∨ kindOf step = "subagent") :
    stepIsInference step = true := by
  obtain ⟨fields, rfl⟩ : ∃ fields, step = .object fields :=
    hkind.elim (object_of_kind · (by decide)) (object_of_kind · (by decide))
  rw [stepIsInference]
  rcases hkind with hkind | hkind <;> rw [hkind] <;> rfl

theorem stepIsInference_each (hkind : kindOf step = "foreach") :
    stepIsInference step = stepIsInference (step.field "step") := by
  obtain ⟨fields, rfl⟩ := object_of_kind hkind (by decide)
  rw [stepIsInference, hkind]
  exact innerIsInference_eq fields

/-- What a pipeline may have as a step is classified as what the step starts. -/
theorem step_needsModel_iff {number : ℕ} (hvld : validateStep number step = .ok ()) :
    stepIsInference step = true ↔ NeedsModel step := by
  rw [validateStep] at hvld
  split at hvld
  · next hrun =>
    constructor
    · intro hinf
      cases step with
      | object fields =>
        rw [stepIsInference, hrun] at hinf
        cases hinf
      | _ => cases hinf
    · rintro (⟨hkind | hkind⟩ | ⟨hkind, -, -, -⟩ | ⟨hkind, -⟩) <;>
        exact absurd (hrun.symm.trans hkind) (by decide)
  · next heach =>
    rw [foreachStep] at hvld
    obtain ⟨-, hvld⟩ := of_guard hvld
    obtain ⟨-, hvld⟩ := of_guard hvld
    obtain ⟨-, hvld⟩ := of_guard hvld
    obtain ⟨hinner, -⟩ := of_guard hvld
    have hturn : kindOf (step.field "step") = "subagent" := by
      rw [kindOf, textOf, not_not.mp hinner]
      rfl
    rw [stepIsInference_each heach, stepIsInference_turn (.inr hturn)]
    exact ⟨fun _ => .each heach (.turn (.inr hturn)), fun _ => rfl⟩
  · next hturn =>
    rw [stepIsInference_turn (.inr hturn)]
    exact ⟨fun _ => .turn (.inr hturn), fun _ => rfl⟩
  · cases hvld
  · cases hvld

theorem validateSteps_mem {number : ℕ} {steps : List Json} (hvld : validateSteps number steps = .ok ())
    (hmem : step ∈ steps) : ∃ number, validateStep number step = .ok () := by
  induction steps generalizing number with
  | nil => cases hmem
  | cons first rest ih =>
    obtain ⟨_, hfst, hrest⟩ := bind_eq_ok.mp hvld
    cases hmem with
    | head => exact ⟨number, hfst⟩
    | tail _ hmem => exact ih hrest hmem

theorem action_needsModel_iff (hvld : validateAction action = .ok ()) :
    actionIsInference action = true ↔ NeedsModel action := by
  obtain ⟨_, hvld, -⟩ := bind_eq_ok.mp hvld
  rw [validateKind] at hvld
  rw [actionIsInference]
  split at hvld
  · next hkind =>
    rw [hkind]
    exact ⟨fun _ => .turn (.inl hkind), fun _ => rfl⟩
  · next hkind =>
    rw [hkind]
    exact ⟨fun _ => .turn (.inr hkind), fun _ => rfl⟩
  · next hkind =>
    rw [hkind]
    refine ⟨nofun, ?_⟩
    rintro (⟨hother | hother⟩ | ⟨hother, -, -, -⟩ | ⟨hother, -⟩) <;>
      exact absurd (hkind.symm.trans hother) (by decide)
  · next hkind =>
    rw [hkind]
    rw [validatePipeline] at hvld
    obtain ⟨-, hvld⟩ := of_guard hvld
    obtain ⟨-, hvld⟩ := of_guard hvld
    cases hsteps : asArray (action.field "steps") with
    | none =>
      refine ⟨nofun, ?_⟩
      rintro (⟨hother | hother⟩ | ⟨-, hother, -, -⟩ | ⟨hother, -⟩)
      · exact absurd (hkind.symm.trans hother) (by decide)
      · exact absurd (hkind.symm.trans hother) (by decide)
      · exact nomatch hsteps.symm.trans hother
      · exact absurd (hkind.symm.trans hother) (by decide)
    | some steps =>
      rw [hsteps] at hvld
      change steps.any stepIsInference = true ↔ _
      rw [List.any_eq_true]
      constructor
      · rintro ⟨step, hmem, hinf⟩
        obtain ⟨_, hstep⟩ := validateSteps_mem hvld hmem
        exact .step hkind hsteps hmem ((step_needsModel_iff hstep).mp hinf)
      rintro (⟨hother | hother⟩ | ⟨-, hother, hmem, hinner⟩ | ⟨hother, -⟩)
      · exact absurd (hkind.symm.trans hother) (by decide)
      · exact absurd (hkind.symm.trans hother) (by decide)
      · cases hsteps.symm.trans hother
        obtain ⟨_, hstep⟩ := validateSteps_mem hvld hmem
        exact ⟨_, hmem, (step_needsModel_iff hstep).mpr hinner⟩
      · exact absurd (hkind.symm.trans hother) (by decide)
  · cases hvld

theorem validateAction_of_validate {serde : Serde} {definition : Json}
    (hvld : validate serde definition = .ok ()) :
    validateAction (definition.field "action") = .ok () := by
  rw [validate] at hvld
  obtain ⟨-, hvld⟩ := of_guard hvld
  obtain ⟨-, hvld⟩ := of_guard hvld
  obtain ⟨-, hvld⟩ := of_guard hvld
  obtain ⟨_, -, hvld⟩ := bind_eq_ok.mp hvld
  obtain ⟨_, hvld, -⟩ := bind_eq_ok.mp hvld
  exact hvld

end Actions

section Claims

variable {serde : Serde} {now wakeBudget : ℤ} {kinds : Option (List String)} {store : Store}
  {row : Delivery}

theorem takes_swept {action : Json} :
    store.swept.Takes now wakeBudget kinds action ↔ store.Takes now wakeBudget kinds action := by
  have hused : store.swept.wakesUsed now = store.wakesUsed now := by
    rw [Store.wakesUsed, Store.swept, Store.update, countP_map]
    apply countP_congr
    intro row _
    rw [Function.comp_apply, Store.cancelIf]
    split <;> rfl
  rw [Store.Takes, Store.Takes, hused]

theorem mem_waiting_swept {definition : String} :
    (row, definition) ∈ store.swept.waiting ↔
      store.Ready row ∧ ∃ job : JobRow, store.jobs[row.jobId]? = some job ∧
        job.definition = definition := by
  constructor
  · intro hmem
    obtain ⟨hmem, hqueued, hidle, hjob⟩ := mem_waiting hmem
    obtain ⟨found, hfnd, rfl⟩ := mem_map.mp hmem
    obtain ⟨hsame, hstl⟩ := cancelIf_queued hqueued
    rw [hsame] at hqueued hidle hjob ⊢
    refine ⟨⟨hfnd, hqueued, by simpa using hstl, ?_⟩, hjob⟩
    intro active hact hown hruns
    refine hidle active (mem_map.mpr ⟨active, hact, ?_⟩) hown hruns
    rw [Store.cancelIf, if_neg (by simp [hruns])]
  rintro ⟨hready, job, hjob, rfl⟩
  have hidle : store.swept.deliveries.any
      (fun active => active.jobId = row.jobId && active.state = .running) = false := by
    rw [List.any_eq_false]
    intro active hact hruns
    simp only [Bool.and_eq_true, decide_eq_true_eq] at hruns
    obtain ⟨found, hfnd, rfl⟩ := mem_map.mp hact
    have hkey := congrArg Prod.fst
      (cancelIf_key (fun row => !store.isCurrent row) "disabled or superseded" found)
    exact hready.idle found hfnd (hkey.symm.trans hruns.1) (cancelIf_running _ _ _ hruns.2)
  refine mem_filterMap.mpr ⟨row, mem_map.mpr ⟨row, hready.mem, ?_⟩, ?_⟩
  · rw [Store.cancelIf, if_neg (by simp [hready.current])]
  rw [show store.swept.jobs[row.jobId]? = some job from hjob]
  dsimp only
  rw [hidle, hready.queued]
  rfl

theorem waiting_pairwise (hids : (store.deliveries.map (·.id)).Pairwise (· < ·)) :
    store.waiting.Pairwise fun left right => left.1.id < right.1.id := by
  rw [pairwise_map] at hids
  apply hids.filterMap
  intro left right hlt first hleft second hright
  have hfst : first.1 = left := by
    split at hleft
    · cases hleft
    · split at hleft <;> cases hleft
      rfl
  have hsec : second.1 = right := by
    split at hright
    · cases hright
    · split at hright <;> cases hright
      rfl
  rw [hfst, hsec]
  exact hlt

/-- The loop of `claim` takes the first that it may. -/
theorem choose_first {rows : List (Delivery × String)}
    (hread : ∀ entry ∈ rows, ∃ definition, readJson serde entry.2 = .ok definition) :
    (store.choose serde now wakeBudget kinds rows = .ok none ∧ ∀ entry ∈ rows, ∀ definition,
        readJson serde entry.2 = .ok definition →
          ¬store.Takes now wakeBudget kinds (definition.field "action")) ∨
      ∃ before entry after definition, rows = before ++ entry :: after ∧
        readJson serde entry.2 = .ok definition ∧
        store.Takes now wakeBudget kinds (definition.field "action") ∧
        store.choose serde now wakeBudget kinds rows = .ok (some (entry.1, definition)) ∧
        ∀ other ∈ before, ∀ definition, readJson serde other.2 = .ok definition →
          ¬store.Takes now wakeBudget kinds (definition.field "action") := by
  induction rows with
  | nil => exact .inl ⟨rfl, fun _ hmem => nomatch hmem⟩
  | cons first rest ih =>
    obtain ⟨definition, hdef⟩ := hread first mem_cons_self
    rw [Store.choose, hdef]
    dsimp only
    by_cases htakes : store.Takes now wakeBudget kinds (definition.field "action")
    · refine .inr ⟨[], first, rest, definition, rfl, hdef, htakes, ?_, fun _ hmem => nomatch hmem⟩
      rw [if_neg (by simp [htakes.1]), if_neg fun hwake => absurd (htakes.2 hwake.1) (Int.not_lt.mpr hwake.2)]
    have hnone : ∀ other, readJson serde first.2 = .ok other →
        ¬store.Takes now wakeBudget kinds (other.field "action") := by
      intro other hother
      cases hdef.symm.trans hother
      exact htakes
    have hskip : ∀ {Result : Type} (later sooner : Result), (if (!Store.wanted kinds (definition.field "action"))
        = true then later else if ((definition.field "action").field "kind").asStr = some "wake" ∧
          wakeBudget ≤ store.wakesUsed now then later else sooner) = later := by
      intro Result later sooner
      by_cases hwan : Store.wanted kinds (definition.field "action") = true
      · rw [if_neg (by simp [hwan]), if_pos]
        by_contra hwake
        exact htakes ⟨hwan, fun hkind => Int.not_le.mp fun hused => hwake ⟨hkind, hused⟩⟩
      · rw [if_pos (by simp [hwan])]
    rw [hskip]
    rcases ih fun entry hmem => hread entry (mem_cons_of_mem _ hmem) with ⟨hchos, hrest⟩ | hfnd
    · exact .inl ⟨hchos, fun entry hmem => (mem_cons.mp hmem).elim (fun hsame => hsame ▸ hnone)
        (hrest entry)⟩
    · obtain ⟨before, entry, after, found, rfl, hfound, htaken, hchos, hbef⟩ := hfnd
      exact .inr ⟨first :: before, entry, after, found, rfl, hfound, htaken, hchos,
        fun entry hmem => (mem_cons.mp hmem).elim (fun hsame => hsame ▸ hnone) (hbef entry)⟩

/-- A claim on a lane takes the first delivery that may be claimed there, if there is one. -/
theorem claim_first (hstore : store.Stocked serde) :
    ((store.claim serde now wakeBudget kinds).1 = .ok none ∧
        ∀ row, ¬store.Claimable serde now wakeBudget kinds row) ∨
      ∃ (row : Delivery) (claim : Claim) (job : JobRow) (definition : Json),
        (store.claim serde now wakeBudget kinds).1 = .ok (some claim) ∧ claim.id = row.id ∧
        store.Claimable serde now wakeBudget kinds row ∧ store.jobs[row.jobId]? = some job ∧
        readJson serde job.definition = .ok definition ∧ claim.action = definition.field "action" ∧
        ∀ other, store.Claimable serde now wakeBudget kinds other → row.id ≤ other.id := by
  have hread : ∀ entry ∈ store.swept.waiting, ∃ definition, readJson serde entry.2 = .ok definition := by
    rintro ⟨row, text⟩ hmem
    obtain ⟨-, job, hjob, rfl⟩ := mem_waiting_swept.mp hmem
    obtain ⟨definition, hdef, -⟩ := hstore.jobs _ job hjob
    exact ⟨definition, hdef⟩
  have hclaim : ∀ {row}, store.Claimable serde now wakeBudget kinds row →
      ∃ (job : JobRow) (definition : Json), (row, job.definition) ∈ store.swept.waiting ∧
          readJson serde job.definition = .ok definition ∧ store.swept.Takes now
              wakeBudget kinds (definition.field "action") := by
    rintro row ⟨hready, job, definition, hjob, hdef, htakes⟩
    exact ⟨job, definition, mem_waiting_swept.mpr ⟨hready, job, hjob, rfl⟩, hdef,
      takes_swept.mpr htakes⟩
  have hids : (store.swept.deliveries.map (·.id)).Pairwise (· < ·) := by
    rw [Store.swept, Store.update, map_map]
    refine (congrArg (List.Pairwise (· < ·)) (map_congr_left ?_)).mpr hstore.ids
    exact fun row _ => cancelIf_id _ _ row
  rw [Store.claim, ← Store.swept]
  rcases choose_first hread with ⟨hchos, hnone⟩ | ⟨before, ⟨row, text⟩, after, definition, hrows,
    hdef, htakes, hchos, hbef⟩
  · refine .inl ⟨by rw [hchos], ?_⟩
    intro row hrow
    obtain ⟨job, definition, hmem, hdef, htakes⟩ := hclaim hrow
    exact hnone _ hmem definition hdef htakes
  have hmem : (row, text) ∈ store.swept.waiting := by
    rw [hrows]
    exact mem_append_right before mem_cons_self
  obtain ⟨hready, job, hjob, rfl⟩ := mem_waiting_swept.mp hmem
  obtain ⟨event, hevent⟩ := hstore.payloads row hready.mem
  refine .inr ⟨row, ⟨row.id, row.jobId, row.revision, row.eventId, event, definition.field "action",
    definition.field "controls"⟩, job, definition, ?_, rfl,
    ⟨hready, job, definition, hjob, hdef, takes_swept.mp htakes⟩, hjob, hdef, rfl, ?_⟩
  · rw [hchos]
    dsimp only
    rw [Store.claimed, hevent]
    rfl
  intro other hother
  obtain ⟨found, action, hmem, hfound, htaken⟩ := hclaim hother
  have hord := waiting_pairwise hids
  rw [hrows] at hmem hord
  rcases mem_append.mp hmem with hmem | hmem
  · exact absurd htaken (hbef _ hmem action hfound)
  · rcases mem_cons.mp hmem with hsame | hmem
    · exact Nat.le_of_eq (congrArg (fun entry => entry.1.id) hsame.symm)
    · exact Nat.le_of_lt (rel_of_pairwise_cons (pairwise_append.mp hord).2.1 hmem)

end Claims

/-- Neither lane takes what is for the other; what is queued, current and of an idle job may be claimed
on one of them, save a wake beyond the allowance; and each takes the first that it may. -/
theorem lanes_exact (serde : Serde) (store : Store) (now wakeBudget : ℤ)
    (hstore : store.Stocked serde) :
    (∀ claim, (store.claim serde now wakeBudget (some ["run"])).1 = .ok (some claim) →
        ¬NeedsModel claim.action) ∧
      (∀ claim, (store.claim serde now wakeBudget (some ["wake", "subagent"])).1 = .ok (some claim) →
        NeedsModel claim.action) ∧
      (∀ row job definition, store.Ready row → store.jobs[row.jobId]? = some job →
        readJson serde job.definition = .ok definition →
          if ((definition.field "action").field "kind").asStr = some "wake" ∧
              wakeBudget ≤ store.wakesUsed now then
            ¬store.Claimable serde now wakeBudget (some ["run"]) row ∧
              ¬store.Claimable serde now wakeBudget (some ["wake", "subagent"]) row
          else
            Xor (store.Claimable serde now wakeBudget (some ["run"]) row)
              (store.Claimable serde now wakeBudget (some ["wake", "subagent"]) row)) ∧
      ∀ kinds ∈ [some ["run"], some ["wake", "subagent"]],
        ((store.claim serde now wakeBudget kinds).1 = .ok none ∧
            ∀ row, ¬store.Claimable serde now wakeBudget kinds row) ∨
          ∃ row claim, (store.claim serde now wakeBudget kinds).1 = .ok (some claim) ∧
            claim.id = row.id ∧ store.Claimable serde now wakeBudget kinds row ∧
            ∀ other, store.Claimable serde now wakeBudget kinds other → row.id ≤ other.id := by
  have hclass : ∀ (id : String) (job : JobRow) (definition : Json), store.jobs[id]? = some job →
      readJson serde job.definition = .ok definition →
        (actionIsInference (definition.field "action") = true ↔
          NeedsModel (definition.field "action")) := by
    intro id job definition hjob hdef
    obtain ⟨other, hother, hvld⟩ := hstore.jobs id job hjob
    cases hdef.symm.trans hother
    exact action_needsModel_iff (validateAction_of_validate hvld)
  have hlane : ∀ {kinds : Option (List String)} {claim : Claim},
      (store.claim serde now wakeBudget kinds).1 = .ok (some claim) →
        Store.wanted kinds claim.action = true ∧
          (actionIsInference claim.action = true ↔ NeedsModel claim.action) := by
    intro kinds claim hclaim
    rcases claim_first hstore with ⟨hnone, -⟩ | ⟨row, found, job, definition, hfound, -, hrow, hjob, hdef,
      haction, -⟩
    · exact nomatch hnone.symm.trans hclaim
    cases hfound.symm.trans hclaim
    obtain ⟨-, other, action, hother, haction', htakes⟩ := hrow
    cases hjob.symm.trans hother
    cases hdef.symm.trans haction'
    rw [haction]
    exact ⟨htakes.1, hclass _ job definition hjob hdef⟩
  refine ⟨?_, ?_, ?_, ?_⟩
  · intro claim hclaim hneeds
    obtain ⟨hwanted, hiff⟩ := hlane hclaim
    rw [Store.wanted, if_pos (hiff.mpr hneeds)] at hwanted
    exact absurd hwanted (by decide)
  · intro claim hclaim
    obtain ⟨hwanted, hiff⟩ := hlane hclaim
    by_contra hneeds
    rw [Store.wanted, if_neg (mt hiff.mp hneeds)] at hwanted
    exact absurd hwanted (by decide)
  · intro row job definition hready hjob hdef
    have hiff : ∀ kinds, store.Claimable serde now wakeBudget kinds row ↔
        store.Takes now wakeBudget kinds (definition.field "action") := by
      intro kinds
      constructor
      · rintro ⟨-, other, action, hother, haction, htakes⟩
        cases hjob.symm.trans hother
        cases hdef.symm.trans haction
        exact htakes
      · exact fun htakes => ⟨hready, job, definition, hjob, hdef, htakes⟩
    rw [hiff, hiff, Store.Takes, Store.Takes]
    split
    · next hwake =>
      exact ⟨fun htakes => Int.not_lt.mpr hwake.2 (htakes.2 hwake.1),
        fun htakes => Int.not_lt.mpr hwake.2 (htakes.2 hwake.1)⟩
    rename_i hwake
    have hallowed : ((definition.field "action").field "kind").asStr = some "wake" →
        store.wakesUsed now < wakeBudget :=
      fun hkind => Int.not_le.mp fun hused => hwake ⟨hkind, hused⟩
    simp only [Store.wanted]
    by_cases hinf : actionIsInference (definition.field "action") = true
    · rw [if_pos hinf, if_pos hinf]
      exact .inr ⟨⟨by decide, hallowed⟩, fun hrun => absurd hrun.1 (by decide)⟩
    · rw [if_neg hinf, if_neg hinf]
      exact .inl ⟨⟨by decide, hallowed⟩, fun hrun => absurd hrun.1 (by decide)⟩
  intro kinds _
  refine (claim_first hstore).imp_right ?_
  rintro ⟨row, claim, -, -, hclaim, hid, hrow, -, -, -, hfirst⟩
  exact ⟨row, claim, hclaim, hid, hrow, hfirst⟩

section Sample

def stocked : Store :=
  ⟨(∅ : Std.ExtTreeMap String JobRow).insert "job" ⟨1, true, samples.print (runner "/bin/one"), 0, ""⟩,
    [⟨1, "job", 1, "mail-1", samples.print (runner "/bin/one"), "run", .queued, 5, none, none, none⟩],
    1⟩

end Sample

theorem lanes_exact_stocked :
    ∃ claim, (stocked.claim samples 7 0 (some ["run"])).1 = .ok (some claim) ∧
      ¬NeedsModel claim.action := by
  have hread : readJson samples (samples.print (runner "/bin/one")) = .ok (runner "/bin/one") := by
    rw [readJson, samples, knownTexts]
    simp
  have hstore : stocked.Stocked samples := by
    refine ⟨by decide, ?_, ?_⟩
    · intro id job hjob
      rw [stocked, Std.ExtTreeMap.getElem?_insert] at hjob
      split at hjob
      · cases hjob
        exact ⟨_, hread, validate_runner⟩
      · rw [Std.ExtTreeMap.getElem?_empty] at hjob
        cases hjob
    · intro row hrow
      rw [mem_singleton.mp hrow]
      exact ⟨_, hread⟩
  have hsome : ((stocked.claim samples 7 0 (some ["run"])).1.toOption.bind id).isSome = true := by
    decide +kernel
  cases hclaim : (stocked.claim samples 7 0 (some ["run"])).1 with
  | error why =>
    rw [hclaim] at hsome
    cases hsome
  | ok found =>
    cases found with
    | none =>
      rw [hclaim] at hsome
      cases hsome
    | some claim => exact ⟨claim, rfl, (lanes_exact samples stocked 7 0 hstore).1 claim hclaim⟩

end WasmAgent.Jobs
