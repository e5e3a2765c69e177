import WasmAgent.Watchdog.Home
import WasmAgent.Watchdog.Machine

/-!
# The supervisor and its table

Between two passes the supervisor is where the observed inputs have led the machine of the table,
and what the actions promise has been done.
-/

namespace WasmAgent.Watchdog

open Option WasmAgent.Core

section Refinement

variable {config : Config} {sup : Supervisor} {seen after : Sight} {now : ℕ}

theorem Tracked.putOff (htrk : Tracked config sup seen) (hfree : seen.claimed = none) (restarts : ℕ)
    (recorded : Option ℕ) (hnow : seen.clock ≤ now) {phase : Phase} (hph : phase = .backoff)
    {child : Option (ActiveKernel × ℕ)} (hchild : child = none) :
    AtRest config
      { sup with
        phase := phase
        child := none
        childPid := none
        attempt := nextAttempt sup.attempt
        restarts := restarts
        restartAt := now + delayFor config (nextAttempt sup.attempt) }
      (({ seen with
        machine := { seen.machine.act seen.claimed .killAndRestart with phase := .backoff }
        child := child
        recorded := recorded } : Sight).later now) := by
  subst hph hchild
  apply AtRest.mk _ (by exact hfree)
  constructor
  · exact ⟨htrk.active, htrk.known, congrArg nextAttempt htrk.attempt, htrk.exited,
      rfl, rfl, htrk.window.later hnow⟩
  · rfl
  · rfl
  apply And.intro rfl
  apply Exists.intro now
  apply And.intro le_rfl
  rw [htrk.attempt]
  rfl

theorem Tracked.recorded (htrk : Tracked config sup seen) (hchild : seen.child ≠ none) :
    some (sup.childPid.getD 0) = seen.child.map Prod.snd := by
  rw [htrk.childPid]
  obtain ⟨kernel, hker⟩ := ne_none_iff_exists'.mp hchild
  rw [hker]
  rfl

theorem observe_stop (machine : Machine) (claimed : Option SwapRequest)
    (hidle : machine.phase = .stopped ∨ machine.phase = .backoff → machine.running = none) :
    (machine.observe claimed .stopRequested).observe claimed .stopComplete =
      { machine with phase := .stopped, running := none, exited := true } := by
  obtain ⟨phase, attempt, active, kept, running, exited⟩ := machine
  cases phase with
  | stopped =>
    cases hidle (Or.inl rfl)
    rfl
  | backoff =>
    cases hidle (Or.inr rfl)
    rfl
  | _ => rfl

theorem Agrees.idle (hagr : Agrees config sup seen)
    (hph : seen.machine.phase = .stopped ∨ seen.machine.phase = .backoff) :
    seen.machine.running = none := by
  have hdone := hagr.done
  rw [← hagr.running]
  cases hph with
  | inl hstp =>
    rw [hstp] at hdone
    rw [hdone]
    rfl
  | inr hbac =>
    rw [hbac] at hdone
    rw [hdone.1]
    rfl

variable (hrest : AtRest config sup seen)
include hrest

theorem stop_seen (hflag : seen.look = .flagged) :
    (stop sup).Follows (referee config) (fun result after => AtRest config result.1 after)
      seen := by
  have htrk := hrest.agrees.tracked
  have hstop := observe_stop seen.machine seen.claimed hrest.agrees.idle
  apply And.intro hflag
  intro _ _
  apply Script.Follows.bind (stopChild_seen (by exact htrk.child) (by exact htrk.childPid))
  rintro ⟨stopped, pid⟩ after ⟨hstp, recorded, rfl⟩
  obtain rfl : stopped = _ := hstp
  apply And.intro trivial
  intro _ _
  apply And.intro rfl
  intro _ _
  change Script.Follows _ _ _ ({ seen with
    machine := (seen.machine.observe seen.claimed .stopRequested).observe seen.claimed .stopComplete
    child := none
    recorded := recorded } : Sight)
  rw [hstop]
  apply And.intro trivial
  intro _ _
  apply And.intro trivial
  intro now hnow
  apply AtRest.mk _ (by exact hrest.free)
  constructor
  · exact ⟨htrk.active, htrk.known, htrk.attempt, rfl, rfl, rfl,
      htrk.window.later hnow.2⟩
  · rfl
  · rfl
  · rfl

theorem watchStart_seen (hph : sup.phase = .starting) :
    (watchStart config sup).Follows (referee config)
      (fun result after => AtRest config result.1 after) seen := by
  apply And.intro trivial
  intro now hnow
  have hltr := hrest.agrees.later hnow.2
  have hstag : (seen.later now).machine.phase = .starting := hrest.agrees.phase.symm.trans hph
  have hdone := hltr.done
  rw [hstag] at hdone
  obtain ⟨hchild, hstad, hansd⟩ := hdone
  change Script.Follows _ (if config.startTimeoutMs ≤ now - sup.childStarted then _ else _) _ _
  by_cases hlate : config.startTimeoutMs ≤ now - sup.childStarted
  · rw [if_pos hlate]
    have htimedOut : transition (seen.later now).machine.phase .startTimedOut =
        (.backoff, .killAndRestart) := by
      rw [hstag]
      rfl
    apply follows_saw (by exact ⟨hansd, sup.childStarted, hstad, hlate⟩)
      (by exact htimedOut) (by nofun)
    apply Script.Follows.bind
      (stopChild_seen (by exact hltr.tracked.child) (by exact hltr.tracked.childPid))
    rintro ⟨stopped, pid⟩ after ⟨hstp, recorded, rfl⟩
    obtain rfl : stopped = _ := hstp
    apply Script.Follows.bind restartLater_seen
    rintro ⟨later, delay⟩ after ⟨then_, hthen, rfl, hltr'⟩
    obtain rfl : later = _ := hltr'
    exact hltr.tracked.putOff hrest.free _ recorded hthen rfl rfl
  rw [if_neg hlate]
  apply And.intro trivial
  intro answer _
  change Script.Follows _ (if answer.ready = true then _ else _) _ ((seen.later now).probed answer)
  rw [Sight.probed]
  by_cases hrdy : answer.ready = true
  · rw [if_pos hrdy, if_pos hrdy]
    have hanss : transition (seen.later now).machine.phase .healthOk =
        (.healthy, .markHealthy) := by
      rw [hstag]
      rfl
    apply follows_saw (by rfl) (by exact hanss) (by nofun)
    apply And.intro trivial
    intro _ _
    apply AtRest.mk _ (by exact hrest.free)
    constructor
    · exact { hltr.tracked with attempt := rfl }
    · rfl
    · exact hltr.running
    · exact ⟨hchild, rfl, hltr.tracked.recorded hchild⟩
  rw [if_neg hrdy, if_neg hrdy]
  apply AtRest.mk _ (by exact hrest.free)
  constructor
  · exact hltr.tracked.glance _ _ _
  · exact hltr.phase
  · exact hltr.running
  · change Done config sup _ (seen.later now).machine.phase
    rw [hstag]
    exact ⟨hchild, hstad, hansd⟩

theorem watchMisses_seen (hph : sup.phase = .healthy) :
    (watchMisses config sup).Follows (referee config)
      (fun result after => AtRest config result.1 after) seen := by
  have htrk := hrest.agrees.tracked
  have hhea : seen.machine.phase = .healthy := hrest.agrees.phase.symm.trans hph
  have hdone := hrest.agrees.done
  rw [hhea] at hdone
  obtain ⟨hchild, hmiss, hrecd⟩ := hdone
  apply And.intro trivial
  intro answer _
  change Script.Follows _ (if answer.ready = true then _ else _) _ (seen.probed answer)
  rw [Sight.probed]
  by_cases hrdy : answer.ready = true
  · rw [if_pos hrdy, if_pos hrdy]
    have hanss : transition seen.machine.phase .healthOk = (.healthy, .none) := by
      rw [hhea]
      rfl
    apply follows_saw (by rfl) (by exact hanss) (by nofun)
    apply AtRest.mk _ (by exact hrest.free)
    constructor
    · exact { htrk with }
    · exact hph
    · exact hrest.agrees.running
    · exact ⟨hchild, rfl, hrecd⟩
  rw [if_neg hrdy, if_neg hrdy]
  by_cases hmany : config.healthMissLimit ≤ sup.probeMisses + 1
  · rw [if_pos hmany]
    have hunh : transition seen.machine.phase .unhealthy = (.backoff, .killAndRestart) := by
      rw [hhea]
      rfl
    rw [← hmiss] at hmany
    apply follows_saw (by exact ⟨rfl, hmany⟩) (by exact hunh) (by nofun)
    apply Script.Follows.bind (stopChild_seen (by exact htrk.child) (by exact htrk.childPid))
    rintro ⟨stopped, pid⟩ after ⟨hstp, recorded, rfl⟩
    obtain rfl : stopped = _ := hstp
    apply Script.Follows.bind restartLater_seen
    rintro ⟨later, delay⟩ after ⟨now, hnow, rfl, hltr⟩
    obtain rfl : later = _ := hltr
    have hmis : Tracked config { sup with probeMisses := sup.probeMisses + 1 }
        { seen with look := .unready, misses := seen.misses + 1 } :=
      { htrk with }
    exact hmis.putOff hrest.free _ recorded hnow rfl rfl
  rw [if_neg hmany]
  apply AtRest.mk _ (by exact hrest.free)
  constructor
  · exact { htrk with }
  · exact hrest.agrees.phase
  · exact hrest.agrees.running
  · change Done config _ _ seen.machine.phase
    rw [hhea]
    exact ⟨hchild, congrArg (· + 1) hmiss, hrecd⟩

theorem closeWindow_seen :
    (closeWindow sup).Follows (referee config) (fun result after => AtRest config result after)
      seen := by
  rw [closeWindow]
  split
  · exact hrest
  rename_i previous settledUntil hstab
  apply And.intro trivial
  intro now hnow
  have hltr := hrest.agrees.later hnow.2
  change Script.Follows _ (if settledUntil ≤ now then _ else _) _ (seen.later now)
  by_cases hpast : settledUntil ≤ now
  · rw [if_pos hpast]
    have hwin := hltr.tracked.window
    rw [hstab] at hwin
    obtain ⟨_, _, armed, harmed, huntil⟩ := hwin
    have hclos : Window config (seen.later now) none :=
      Or.inr (Or.inr ⟨armed, harmed, huntil ▸ hpast⟩)
    apply AtRest.mk _ (by exact hrest.free)
    exact { hltr with tracked := { hltr.tracked with window := hclos } }
  · rw [if_neg hpast]
    exact ⟨hltr, hrest.free⟩

theorem watchHealth_seen :
    (watchHealth config sup).Follows (referee config)
      (fun result after => AtRest config result.1 after) seen := by
  rw [watchHealth]
  split
  · next hph => exact watchStart_seen hrest hph
  · next hph =>
    split
    · exact watchMisses_seen hrest hph
    · apply Script.Follows.bind (closeWindow_seen hrest)
      intro closed after haft
      exact haft
  · exact hrest

omit hrest

theorem adoptConfiguredKernel_seen {kernel : ActiveKernel}
    (hker : seen.current.or config.configured = some kernel) :
    (adoptConfiguredKernel kernel).Follows (referee config)
      (fun _ after => ∃ current, after = { seen with current := current } ∧
        current.or config.configured = some kernel) seen := by
  apply And.intro trivial
  intro read _
  cases read with
  | some recorded => exact ⟨seen.current, rfl, hker⟩
  | none => exact writeCurrent_seen kernel

theorem active_seen (htrk : Tracked config sup seen) :
    (active config).Follows (referee config)
      (fun found after => after = seen ∧ found = seen.machine.active) seen := by
  apply And.intro trivial
  intro read hread
  have hcur : read = seen.current := hread.2
  have hact := htrk.active
  rw [← hcur] at hact
  cases read with
  | some | none => exact ⟨rfl, hact⟩

/-- There is a kernel to start, and the table waits for that. -/
structure Startable (config : Config) (sup : Supervisor) (seen : Sight) : Prop where
  tracked : Tracked config sup seen
  free : seen.claimed = none
  child : seen.child = none
  phase : seen.machine.phase = .stopped ∨
    seen.machine.phase = .backoff ∧ seen.machine.running = none ∨
    seen.machine.phase = .starting ∧ seen.machine.running = seen.machine.active

theorem Agrees.startable (hagr : Agrees config sup seen) (hfree : seen.claimed = none)
    (hchild : sup.child = none) : Startable config sup seen := by
  have hnone : seen.child = none := by
    have hmap := hagr.tracked.child.symm.trans hchild
    exact map_eq_none_iff.mp hmap
  apply Startable.mk hagr.tracked hfree hnone
  have hdone := hagr.done
  have hidle := hagr.idle
  cases hph : seen.machine.phase with
  | stopped => exact Or.inl rfl
  | backoff => exact Or.inr (Or.inl ⟨rfl, hidle (Or.inr hph)⟩)
  | starting =>
    rw [hph] at hdone
    exact absurd hnone hdone.1
  | healthy =>
    rw [hph] at hdone
    exact absurd hnone hdone.1
  | swapping =>
    rw [hph] at hdone
    exact hdone.elim
  | stopping =>
    rw [hph] at hdone
    exact hdone.elim

theorem Startable.launched (hsbl : Startable config sup seen) :
    ∃ action, transition seen.machine.phase .launched = (.starting, action) ∧
      { seen.machine.act seen.claimed action with phase := .starting } =
        { seen.machine with running := seen.machine.active, phase := .starting } := by
  rcases hsbl.phase with hph | ⟨hph, _⟩ | ⟨hph, hrun⟩
  · rw [hph]
    exact ⟨.launch, rfl, rfl⟩
  · rw [hph]
    exact ⟨.launch, rfl, rfl⟩
  · rw [hph, ← hrun]
    exact ⟨.none, rfl, rfl⟩

/-- A start that may fail is a restart. -/
theorem Startable.backoff (hsbl : Startable config sup seen) (kernel : ActiveKernel)
    (error : String) (hexpt : Expected config seen (.spawn kernel) (.error error)) :
    seen.machine.phase = .backoff ∧ seen.machine.running = none := by
  rcases hsbl.phase with hstp | hbac | ⟨hstag, _⟩
  · rcases hexpt with hph | hph | ⟨hph, _⟩
    · exact Phase.noConfusion (hstp.symm.trans hph)
    · exact Phase.noConfusion (hstp.symm.trans hph)
    · exact Phase.noConfusion (hstp.symm.trans hph)
  · exact hbac
  rcases hexpt with hph | hph | ⟨_, hclmd⟩
  · exact Phase.noConfusion (hstag.symm.trans hph)
  · exact Phase.noConfusion (hstag.symm.trans hph)
  · exact absurd hsbl.free hclmd

theorem startActive_seen {kernel : ActiveKernel} (hsbl : Startable config sup seen)
    (hact : seen.machine.active = some kernel) :
    (startActive config sup kernel).Follows (referee config)
      (fun result after => AtRest config result.1 after) seen := by
  have htrk := hsbl.tracked
  apply Script.Follows.bind (adoptConfiguredKernel_seen (htrk.active.trans hact))
  rintro _ after ⟨current, rfl, hcur⟩
  rw [← hact] at hcur
  apply And.intro trivial
  intro answer hans
  cases answer with
  | error error =>
    obtain ⟨hbac, hidle⟩ := hsbl.backoff kernel error hans.1
    change Script.Follows _ _ _ ({ seen with
      machine := seen.machine.putOff
      look := .unspawned
      current := current } : Sight)
    rw [Machine.putOff, if_pos hbac]
    apply Script.Follows.bind restartLater_seen
    rintro ⟨later, delay⟩ after ⟨now, hnow, rfl, hltr⟩
    obtain rfl : later = _ := hltr
    apply AtRest.mk _ (by exact hsbl.free)
    constructor
    · exact { htrk with
      active := hcur
      attempt := congrArg nextAttempt htrk.attempt
      window := htrk.window.later hnow }
    · exact hbac.symm
    · exact (congrArg (Option.map Prod.fst) hsbl.child).trans hidle.symm
    change Done config _ _ seen.machine.phase
    rw [hbac]
    apply And.intro hsbl.child
    apply Exists.intro now
    apply And.intro le_rfl
    rw [htrk.attempt]
    rfl
  | ok pid =>
    obtain ⟨action, htran, hlaun⟩ := hsbl.launched
    apply follows_saw (by rfl) (by exact htran) (by nofun)
    apply And.intro trivial
    intro now hnow
    change AtRest config _ (Sight.later { (seen.spawned kernel pid) with
      machine := { seen.machine.act seen.claimed action with phase := .starting }
      current := current } now)
    rw [hlaun]
    apply AtRest.mk _ (by exact hsbl.free)
    constructor
    · exact ⟨hcur, htrk.known, htrk.attempt, htrk.exited, rfl, rfl,
        htrk.window.later hnow.2⟩
    · rfl
    · exact hact.symm
    · exact ⟨nofun, rfl, rfl⟩

theorem Relaunching.startable (hrel : Relaunching config sup seen)
    (hfree : seen.claimed = none) : Startable config sup seen :=
  { hrel with
    free := hfree
    phase := Or.inr (Or.inr ⟨hrel.phase, hrel.running⟩) }

theorem Relaunching.child_none (hrel : Relaunching config sup seen) : sup.child = none := by
  rw [hrel.tracked.child, hrel.child]
  rfl

theorem startKernel_seen (hmid : Midway config sup seen) :
    (startKernel config sup).Follows (referee config)
      (fun result after => AtRest config result.1 after) seen := by
  change Script.Follows _
    (if sup.child ≠ none ∨ sup.exited = true ∨ sup.phase = .swapping then _ else _) _ _
  by_cases hskip : sup.child ≠ none ∨ sup.exited = true ∨ sup.phase = .swapping
  · rw [if_pos hskip]
    cases hmid.standing with
    | inl hagr => exact ⟨hagr, hmid.free⟩
    | inr hrel =>
      rcases hskip with hchild | hexit | hswg
      · exact absurd hrel.child_none hchild
      · exact Bool.noConfusion (hmid.alive.symm.trans hexit)
      · cases hrel.between with
        | inl hbac => exact Phase.noConfusion (hswg.symm.trans hbac)
        | inr hstag => exact Phase.noConfusion (hswg.symm.trans hstag)
  rw [if_neg hskip]
  apply And.intro trivial
  intro now hnow
  change Script.Follows _ (if now < sup.restartAt then _ else _) _ (seen.later now)
  by_cases hely : now < sup.restartAt
  · rw [if_pos hely]
    cases hmid.standing with
    | inl hagr => exact ⟨hagr.later hnow.2, hmid.free⟩
    | inr hrel => exact absurd (hrel.due.trans hnow.2) (Nat.not_le.mpr hely)
  rw [if_neg hely]
  have hsbl : Startable config sup (seen.later now) := by
    cases hmid.standing with
    | inl hagr =>
      have hchild : sup.child = none := not_not.mp (not_or.mp hskip).1
      exact (hagr.later hnow.2).startable hmid.free hchild
    | inr hrel => exact (hrel.later hnow.2).startable hmid.free
  apply Script.Follows.bind (active_seen hsbl.tracked)
  rintro found after ⟨rfl, rfl⟩
  cases hact : seen.machine.active with
  | none => exact absurd hact hsbl.tracked.known
  | some kernel =>
    rw [show (seen.later now).machine.active = some kernel from hact]
    exact startActive_seen hsbl hact

theorem Agrees.up (hagr : Agrees config sup seen) (hchild : sup.child ≠ none) :
    seen.machine.phase = .starting ∨ seen.machine.phase = .healthy := by
  have hdone := hagr.done
  rw [hagr.tracked.child] at hchild
  cases hph : seen.machine.phase with
  | stopped =>
    rw [hph] at hdone
    exact absurd (congrArg (Option.map Prod.snd) hdone) hchild
  | starting => exact Or.inl rfl
  | healthy => exact Or.inr rfl
  | backoff =>
    rw [hph] at hdone
    exact absurd (congrArg (Option.map Prod.snd) hdone.1) hchild
  | swapping =>
    rw [hph] at hdone
    exact hdone.elim
  | stopping =>
    rw [hph] at hdone
    exact hdone.elim

structure Ended (config : Config) (sup : Supervisor) (seen : Sight) : Prop where
  tracked : Tracked config sup seen
  phase : sup.phase = seen.machine.phase
  up : seen.machine.phase = .starting ∨ seen.machine.phase = .healthy
  child : seen.child = none
  look : seen.look = .ended
  free : seen.claimed = none
  alive : sup.exited = false

theorem Ended.later (hended : Ended config sup seen) (hnow : seen.clock ≤ now) :
    Ended config sup (seen.later now) :=
  { hended with tracked := hended.tracked.later hnow }

theorem isRecentSwap_seen (hended : Ended config sup seen) :
    (isRecentSwap sup).Follows (referee config) (fun found after => Ended config sup after ∧
      match found with
      | some previous => after.machine.phase = .healthy ∧ Early config after ∧
          after.machine.kept = some previous
      | none => ¬ (after.machine.phase = .healthy ∧ Early config after)) seen := by
  rw [isRecentSwap]
  split
  · next hstab =>
    have hwin := hended.tracked.window
    rw [hstab] at hwin
    exact ⟨hended, fun hely => hwin.not_early hely.2⟩
  rename_i previous settledUntil hstab
  apply And.intro trivial
  intro now hnow
  have hltr := hended.later hnow.2
  have hwin := hltr.tracked.window
  rw [hstab] at hwin
  obtain ⟨harms, hkept, armed, harmed, huntil⟩ := hwin
  apply And.intro hltr
  by_cases hrcnt : now < settledUntil ∧ sup.phase = .healthy
  · rw [if_pos hrcnt]
    have hker : (seen.later now).machine.kept ≠ none := by
      rw [hkept]
      nofun
    have hbef : now < armed + config.stabilityMs := huntil ▸ hrcnt.1
    exact ⟨hltr.phase.symm.trans hrcnt.2, ⟨harms, hker, armed, harmed, hbef⟩, hkept⟩
  rw [if_neg hrcnt]
  rintro ⟨hhea, _, _, since, hsince, hbef⟩
  obtain rfl : armed = since := Option.some.inj (harmed.symm.trans hsince)
  exact hrcnt ⟨huntil ▸ hbef, hltr.phase.trans hhea⟩

theorem rollBackToPrevious_seen {previous : ActiveKernel} {uptimeMs : ℕ}
    (hended : Ended config sup seen) (hhea : seen.machine.phase = .healthy)
    (hely : Early config seen) (hkept : seen.machine.kept = some previous) :
    (rollBackToPrevious sup previous uptimeMs).Follows (referee config)
      (fun result after => Midway config result.1 after) seen := by
  have hviol : transition seen.machine.phase .stabilityViolated =
      (.starting, .rollbackToPrevious) := by
    rw [hhea]
    rfl
  apply follows_saw (by exact ⟨hended.look, hely⟩) (by exact hviol) (by nofun)
  apply Script.Follows.bind
    (stopChild_seen (by exact hended.tracked.child) (by exact hended.tracked.childPid))
  rintro ⟨stopped, pid⟩ after ⟨hstp, recorded, rfl⟩
  obtain rfl : stopped = _ := hstp
  apply Script.Follows.bind (writeCurrent_seen previous)
  rintro _ after ⟨current, rfl, hcur⟩
  rw [← hkept] at hcur
  apply And.intro trivial
  intro now hnow
  apply Script.Follows.bind (recordRollback_seen _ previous)
  rintro ⟨rolled, events⟩ after ⟨rfl, summary, hrol⟩
  obtain rfl : rolled = _ := hrol
  apply Midway.mk _ (by exact hended.free) (by exact hended.alive)
  apply Or.inr
  constructor
  · constructor
    · exact hcur
    · change seen.machine.kept ≠ none
      rw [hkept]
      nofun
    · rfl
    · exact hended.tracked.exited
    · rfl
    · rfl
    · exact Or.inr (Or.inl rfl)
  · rfl
  · rfl
  · rfl
  · exact Or.inl rfl
  · exact le_rfl

theorem settleExit_seen (hrest : AtRest config sup seen) (halive : sup.exited = false) :
    (settleExit config sup).Follows (referee config)
      (fun result after => Midway config result.1 after) seen := by
  have htrk := hrest.agrees.tracked
  change Script.Follows _ (if sup.phase = .swapping ∨ sup.child = none then _ else _) _ _
  by_cases hskip : sup.phase = .swapping ∨ sup.child = none
  · rw [if_pos hskip]
    exact ⟨Or.inl hrest.agrees, hrest.free, halive⟩
  rw [if_neg hskip]
  apply And.intro trivial
  intro status _
  cases status with
  | none => exact ⟨Or.inl hrest.agrees, hrest.free, halive⟩
  | some status =>
    have hup := hrest.agrees.up (not_or.mp hskip).2
    apply And.intro trivial
    intro now hnow
    apply And.intro trivial
    intro wall _
    have hended : Ended config
        { sup with
          child := none
          childPid := none
          lastExit := some ⟨sup.childPid.getD 0, status.code, now - sup.childStarted, wall⟩ }
        (({ seen with child := none, look := .ended } : Sight).later now) := by
      have htold : Tracked config { sup with child := none, childPid := none }
          (({ seen with child := none, look := .ended } : Sight).later now) :=
        { htrk with child := rfl, childPid := rfl, window := htrk.window.later hnow.2 }
      exact ⟨{ htold with child := rfl, childPid := rfl },
        hrest.agrees.phase, hup, rfl, rfl, hrest.free, halive⟩
    apply Script.Follows.bind (isRecentSwap_seen hended)
    rintro found after ⟨haft, hfnd⟩
    cases found with
    | some previous => exact rollBackToPrevious_seen haft hfnd.1 hfnd.2.1 hfnd.2.2
    | none =>
      have hexit : transition after.machine.phase .exited = (.backoff, .restartLater) := by
        cases haft.up with
        | inl hstag =>
          rw [hstag]
          rfl
        | inr hhea =>
          rw [hhea]
          rfl
      have hph : (transition sup.phase .exited).1 = .backoff := by
        rw [show sup.phase = after.machine.phase from haft.phase, hexit]
      apply follows_saw (by exact ⟨haft.look, hfnd⟩) (by exact hexit) (by nofun)
      apply Script.Follows.bind restartLater_seen
      rintro ⟨later, delay⟩ last ⟨then_, hthen, rfl, hltr⟩
      obtain rfl : later = _ := hltr
      have hput := haft.tracked.putOff haft.free (sup.restarts + 1) after.recorded hthen hph
        haft.child
      exact ⟨Or.inl hput.agrees, hput.free, halive⟩

theorem childEnd_seen :
    (childEnd sup).Follows (referee config) (fun ended after =>
      match ended with
      | none => after = seen
      | some _ => after = { seen with child := none, look := .ended } ∧
          ¬ (seen.machine.phase = .starting ∧ seen.claimed ≠ none)) seen := by
  rw [childEnd]
  split
  · rfl
  apply And.intro trivial
  intro ended hended
  cases ended with
  | none => rfl
  | some status => exact ⟨rfl, hended.1⟩

structure Awaiting (sup : Supervisor) (seen : Sight) : Prop where
  running : seen.child.map Prod.fst = seen.machine.running
  up : seen.child ≠ none
  started : seen.started = some sup.childStarted
  answered : seen.answered = false
  fresh : sup.probeMisses = 0

/-- The kernel that was started has answered. -/
structure Proved (sup : Supervisor) (seen : Sight) : Prop where
  running : seen.child.map Prod.fst = seen.machine.running
  up : seen.child ≠ none
  look : seen.look = .ready
  misses : seen.misses = 0
  fresh : sup.probeMisses = 0

variable (hawg : Awaiting sup seen)
include hawg

theorem Awaiting.later : Awaiting sup (seen.later now) := by
  have hstad : some (seen.started.getD now) = some sup.childStarted := by
    rw [hawg.started]
    rfl
  exact { hawg with started := hstad }

theorem Awaiting.unready (misses : ℕ) :
    Awaiting sup { seen with look := .unready, misses := misses } :=
  { hawg with }

theorem Awaiting.proved : Proved sup { seen with look := .ready, answered := true, misses := 0 } :=
  { hawg with look := rfl, misses := rfl }

omit hawg

/-- Inside a swap, until it is decided. -/
structure MidSwap (config : Config) (request : SwapRequest) (previous : ActiveKernel)
    (sup : Supervisor) (seen : Sight) : Prop where
  tracked : Tracked config sup seen
  phase : seen.machine.phase = .swapping
  running : seen.machine.running = some request.kernel
  previous : seen.machine.active = some previous
  claimed : seen.claimed = some request
  alive : sup.exited = false

section Swaps

variable {request : SwapRequest} {previous : ActiveKernel}
variable (hswg : MidSwap config request previous sup seen)
include hswg

theorem MidSwap.glance (look : Look) (answered : Bool) (misses : ℕ) :
    MidSwap config request previous sup
      { seen with look := look, answered := answered, misses := misses } :=
  { hswg with tracked := hswg.tracked.glance look answered misses }

theorem MidSwap.later
    (hnow : seen.clock ≤ now) : MidSwap config request previous sup (seen.later now) :=
  { hswg with tracked := hswg.tracked.later hnow }

theorem MidSwap.gone (look : Look) :
    MidSwap config request previous { sup with child := none, childPid := none }
      { seen with child := none, look := look } :=
  { hswg with tracked := hswg.tracked.gone look seen.recorded }

omit hswg

/-- How the wait for a kernel that was swapped in ends. -/
def Judged (config : Config) (request : SwapRequest) (previous : ActiveKernel)
    (result : Supervisor × Option String)
    (seen : Sight) : Prop :=
  MidSwap config request previous result.1 seen ∧
    match result.2 with
    | none => Proved result.1 seen
    | some _ => Observed config seen .swapFailed

theorem awaitProof_seen {deadline : ℕ} (patience : ℕ)
    (hswg : MidSwap config request previous sup seen) (hawg : Awaiting sup seen)
    (hdead : sup.childStarted + config.swapHealthWindowMs ≤ deadline) :
    (awaitProof config deadline patience sup).Follows (referee config)
      (fun result after => Judged config request previous result after) seen := by
  induction patience generalizing seen with
  | zero =>
    apply And.intro trivial
    intro more _
    exact more.elim
  | succ patience ih =>
    apply Script.Follows.bind childEnd_seen
    intro ended after hended
    cases ended with
    | some status =>
      obtain ⟨rfl, _⟩ := hended
      exact ⟨hswg.gone .ended, Or.inr (Or.inr (Or.inl rfl))⟩
    | none =>
      obtain rfl : after = seen := hended
      apply And.intro trivial
      intro answer _
      change Script.Follows _ (if answer.ready = true then _ else _) _ (after.probed answer)
      rw [Sight.probed]
      by_cases hrdy : answer.ready = true
      · rw [if_pos hrdy, if_pos hrdy]
        exact ⟨hswg.glance .ready true 0, hawg.proved⟩
      rw [if_neg hrdy, if_neg hrdy]
      apply And.intro trivial
      intro now hnow
      have haft := (hswg.glance .unready after.answered (after.misses + 1)).later hnow.2
      have hunr := @Awaiting.later sup _ now (hawg.unready (after.misses + 1))
      change Script.Follows _ (if deadline ≤ now then _ else _) _ _
      by_cases hlate : deadline ≤ now
      · rw [if_pos hlate]
        have hwait : config.swapHealthWindowMs ≤ now - sup.childStarted := by omega
        exact ⟨haft, Or.inr (Or.inr (Or.inr
          ⟨rfl, hawg.answered, sup.childStarted, hunr.started, hwait⟩))⟩
      rw [if_neg hlate]
      apply And.intro trivial
      intro _ _
      exact ih haft hunr

variable (patience : ℕ)

theorem proveCandidate_seen (hswg : MidSwap config request previous sup seen) :
    (proveCandidate config patience sup request.kernel).Follows (referee config)
      (fun result after => Judged config request previous result after) seen := by
  have htrk := hswg.tracked
  apply And.intro trivial
  intro freed _
  cases freed with
  | false => exact ⟨hswg.glance .occupied seen.answered seen.misses, Or.inl rfl⟩
  | true =>
    apply And.intro trivial
    intro answer _
    cases answer with
    | error error =>
      change Judged config request previous _ ({ seen with
        machine := seen.machine.putOff
        look := .unspawned } : Sight)
      rw [Machine.putOff, if_neg (by rw [hswg.phase]; nofun)]
      exact ⟨hswg.glance .unspawned seen.answered seen.misses, Or.inr (Or.inl rfl)⟩
    | ok pid =>
      have hlaun : transition seen.machine.phase .launched = (.swapping, .none) := by
        rw [hswg.phase]
        rfl
      apply follows_saw (by rfl) (by exact hlaun) (by nofun)
      apply And.intro trivial
      intro started hstad
      apply And.intro trivial
      intro now hnow
      apply awaitProof_seen
      · exact { hswg with
        tracked := { htrk with
          child := rfl
          childPid := rfl
          window := (htrk.window.later hstad.2).later hnow.2 }
        phase := rfl }
      · exact ⟨hswg.running.symm, nofun, rfl, rfl, rfl⟩
      · exact Nat.add_le_add_right hnow.2 _

theorem Standing.summarized (hstg : Standing config sup seen) (summary : Option SwapSummary) :
    Standing config { sup with lastSwap := summary } seen := by
  cases hstg with
  | inl hagr =>
    have htrk := hagr.tracked
    exact Or.inl { hagr with tracked := { htrk with } }
  | inr hrel =>
    have htrk := hrel.tracked
    exact Or.inr { hrel with tracked := { htrk with } }

theorem Standing.released (hstg : Standing config sup seen) :
    Standing config sup { seen with claimed := none } := by
  cases hstg with
  | inl hagr =>
    have htrk := hagr.tracked
    exact Or.inl { hagr with tracked := { htrk with } }
  | inr hrel =>
    have htrk := hrel.tracked
    exact Or.inr { hrel with tracked := { htrk with } }

/-- A swap is over, whatever became of it. -/
def Over (config : Config) (sup : Supervisor) (seen : Sight) : Prop :=
  Standing config sup seen ∧ sup.exited = false

theorem armStability_seen (hkept : seen.machine.kept = some previous) (harmed : seen.armed = none) :
    (armStability config previous).Follows (referee config)
      (fun window after => Window config after window ∧
        ∃ now, seen.clock ≤ now ∧ (after = seen ∨ after = seen.later now)) seen := by
  change Script.Follows _ (if config.armsStability = true then _ else _) _ _
  by_cases harms : config.armsStability = true
  · rw [if_pos harms]
    apply And.intro trivial
    intro now hnow
    apply And.intro _ ⟨now, hnow.2, Or.inr rfl⟩
    apply And.intro harms
    apply And.intro hkept
    apply Exists.intro now
    apply And.intro _ rfl
    change some (seen.armed.getD now) = _
    rw [harmed]
    rfl
  · rw [if_neg harms]
    exact ⟨Or.inl (Bool.eq_false_of_not_eq_true harms), seen.clock, le_rfl, Or.inl rfl⟩

theorem settleSwap_seen (hswg : MidSwap config request previous sup seen)
    (hprov : Proved sup seen) :
    (settleSwap config sup request previous request.kernel).Follows (referee config)
      (fun result after => Over config result.1 after) seen := by
  have htrk := hswg.tracked
  have hsaw : seen.saw .swapProved = { seen with
      machine := { seen.machine with
        phase := .healthy
        attempt := 0
        active := seen.machine.running
        kept := seen.machine.active }
      armed := none } := by
    rw [Sight.saw, Machine.observe, hswg.phase]
    rfl
  apply And.intro hprov.look
  intro _ _
  change Script.Follows _ _ _ (seen.saw .swapProved)
  rw [hsaw]
  apply Script.Follows.bind (writeCurrent_seen request.kernel)
  rintro _ after ⟨current, rfl, hcur⟩
  rw [← hswg.running] at hcur
  apply And.intro trivial
  intro _ _
  apply Script.Follows.bind (armStability_seen hswg.previous rfl)
  rintro window after ⟨hwin, now, hnow, haft⟩
  apply And.intro trivial
  intro at₁ _
  apply And.intro trivial
  intro at₂ _
  apply And.intro trivial
  intro written _
  apply And.intro _ hswg.alive
  apply Or.inl
  have hknw : seen.machine.running ≠ none := by
    rw [hswg.running]
    exact Option.some_ne_none _
  have hmis : seen.misses = sup.probeMisses := hprov.misses.trans hprov.fresh.symm
  cases haft with
  | inl hsame =>
    subst hsame
    exact ⟨⟨hcur, hknw, rfl, htrk.exited, htrk.child, htrk.childPid, hwin⟩,
      rfl, hprov.running, hprov.up, hmis, htrk.recorded hprov.up⟩
  | inr hltr =>
    subst hltr
    exact ⟨⟨hcur, hknw, rfl, htrk.exited, htrk.child, htrk.childPid, hwin⟩,
      rfl, hprov.running, hprov.up, hmis, htrk.recorded hprov.up⟩

/-- The kernel before is being put back. -/
structure Restoring (config : Config) (sup : Supervisor) (seen : Sight) : Prop where
  tracked : Tracked config sup seen
  phase : seen.machine.phase = .starting
  running : seen.machine.running = seen.machine.active
  claimed : seen.claimed ≠ none
  alive : sup.exited = false

variable (hrsg : Restoring config sup seen)
include hrsg

theorem Restoring.later (hnow : seen.clock ≤ now) : Restoring config sup (seen.later now) :=
  { hrsg with tracked := hrsg.tracked.later hnow }

theorem Restoring.glance (look : Look) (answered : Bool) (misses : ℕ) :
    Restoring config sup { seen with look := look, answered := answered, misses := misses } :=
  { hrsg with tracked := hrsg.tracked.glance look answered misses }

/-- What has become of the kernel that was put back: it serves, or it may still, or it could not be
started. -/
def Restored (config : Config) (result : Supervisor × Bool) (seen : Sight) : Prop :=
  if result.2 then
    Tracked config { result.1 with attempt := 0 } seen ∧ Proved result.1 seen ∧
      seen.machine.phase = .healthy ∧ result.1.exited = false
  else Restoring config result.1 seen ∧ (seen.child = none ∨ Awaiting result.1 seen)

omit hrsg in
theorem awaitRestored_seen {deadline : ℕ} (patience : ℕ) (hrsg : Restoring config sup seen)
    (hawg : Awaiting sup seen) :
    (awaitRestored config deadline patience sup).Follows (referee config)
      (fun result after => Restored config result after) seen := by
  induction patience generalizing seen with
  | zero =>
    apply And.intro trivial
    intro more _
    exact more.elim
  | succ patience ih =>
    apply And.intro trivial
    intro now hnow
    have hltr := hrsg.later hnow.2
    have hawt := @Awaiting.later sup _ now hawg
    change Script.Follows _ (if deadline ≤ now then _ else _) _ (seen.later now)
    by_cases hlate : deadline ≤ now
    · rw [if_pos hlate]
      exact ⟨hltr, Or.inr hawt⟩
    rw [if_neg hlate]
    apply Script.Follows.bind childEnd_seen
    intro ended after hended
    cases ended with
    | some status => exact absurd ⟨hltr.phase, hltr.claimed⟩ hended.2
    | none =>
      obtain rfl : after = seen.later now := hended
      apply And.intro trivial
      intro answer _
      change Script.Follows _ (if answer.ready = true then _ else _) _
        ((seen.later now).probed answer)
      rw [Sight.probed]
      by_cases hrdy : answer.ready = true
      · rw [if_pos hrdy, if_pos hrdy]
        have hanss : transition (seen.later now).machine.phase .healthOk =
            (.healthy, .markHealthy) := by
          rw [hltr.phase]
          rfl
        have htold := hltr.tracked
        apply follows_saw (by rfl) (by exact hanss) (by nofun)
        exact ⟨{ htold with attempt := rfl }, { hawt with look := rfl, misses := rfl }, rfl,
          hltr.alive⟩
      rw [if_neg hrdy, if_neg hrdy]
      apply And.intro trivial
      intro _ _
      exact ih (hltr.glance .unready seen.answered (seen.misses + 1))
        (hawt.unready (seen.misses + 1))

theorem restorePrevious_seen
    (hchild : seen.child = none) (hprev : seen.machine.active = some previous) :
    (restorePrevious config patience sup previous).Follows (referee config)
      (fun result after => Restored config result after) seen := by
  have htrk := hrsg.tracked
  apply And.intro trivial
  intro answer _
  cases answer with
  | error error =>
    change Restoring config sup ({ seen with
      machine := seen.machine.putOff
      look := .unspawned } : Sight) ∧ _
    rw [Machine.putOff, if_neg (by rw [hrsg.phase]; nofun)]
    exact ⟨hrsg.glance .unspawned seen.answered seen.misses, Or.inl hchild⟩
  | ok pid =>
    have hlaun : transition seen.machine.phase .launched = (.starting, .none) := by
      rw [hrsg.phase]
      rfl
    apply follows_saw (by rfl) (by exact hlaun) (by nofun)
    apply And.intro trivial
    intro started hstad
    apply And.intro trivial
    intro now hnow
    apply awaitRestored_seen
    · exact { hrsg with
      tracked := { htrk with
        child := rfl
        childPid := rfl
        window := (htrk.window.later hstad.2).later hnow.2 }
      phase := rfl }
    · exact ⟨(hrsg.running.trans hprev).symm, nofun, rfl, rfl, rfl⟩

omit hrsg

theorem standAfter_seen {result : Supervisor × Bool} (hrstd : Restored config result seen) :
    (standAfter result.2 result.1).Follows (referee config)
      (fun sup after => Over config sup after) seen := by
  obtain ⟨sup, restored⟩ := result
  cases restored with
  | true =>
    obtain ⟨htrk, hprov, hph, halive⟩ := hrstd
    apply And.intro trivial
    intro _ _
    apply And.intro _ halive
    apply Or.inl
    constructor
    · exact { htrk with }
    · exact hph.symm
    · exact hprov.running
    · change Done config _ _ seen.machine.phase
      rw [hph]
      exact ⟨hprov.up, hprov.misses.trans hprov.fresh.symm, htrk.recorded hprov.up⟩
  | false =>
    obtain ⟨hrsg, hker⟩ := hrstd
    apply And.intro trivial
    intro now hnow
    have hltr := hrsg.later hnow.2
    have htrk := hltr.tracked
    apply And.intro _ hrsg.alive
    have htold : Tracked config { sup with phase := .starting, restartAt := now }
        (seen.later now) :=
      { htrk with }
    cases hker with
    | inl hnone => exact Or.inr ⟨htold, hltr.phase, hltr.running, hnone, Or.inr rfl, le_rfl⟩
    | inr hawg =>
      have hawt := @Awaiting.later sup _ now hawg
      apply Or.inl
      apply Agrees.mk htold hltr.phase.symm hawt.running
      change Done config _ _ seen.machine.phase
      rw [hrsg.phase]
      exact ⟨hawt.up, hawt.started, hawt.answered⟩

theorem rollBack_seen (why : String) (hswg : MidSwap config request previous sup seen)
    (hfail : Observed config seen .swapFailed) :
    (rollBack config patience sup request previous why).Follows (referee config)
      (fun result after => Over config result.1 after) seen := by
  have htrk := hswg.tracked
  have hrol : transition seen.machine.phase .swapFailed = (.starting, .rollback) := by
    rw [hswg.phase]
    rfl
  apply follows_saw hfail (by exact hrol) (by nofun)
  apply Script.Follows.bind (stopChild_seen (by exact htrk.child) (by exact htrk.childPid))
  rintro ⟨stopped, pid⟩ after ⟨hstp, recorded, rfl⟩
  obtain rfl : stopped = _ := hstp
  apply Script.Follows.bind (writeCurrent_seen previous)
  rintro _ after ⟨current, rfl, hcur⟩
  rw [← hswg.previous] at hcur
  apply And.intro trivial
  intro freed _
  have hrsg : ∀ look, Restoring config { sup with child := none, childPid := none }
      { seen with
        machine := { seen.machine.act seen.claimed .rollback with phase := .starting }
        child := none
        recorded := recorded
        current := current
        look := look } := by
    intro look
    have hclmd : seen.claimed ≠ none := by
      rw [hswg.claimed]
      nofun
    exact ⟨{ htrk with
      active := hcur
      child := rfl
      childPid := rfl }, rfl, rfl, hclmd, hswg.alive⟩
  have hrstd : ∀ look, (restorePrevious config patience
      { sup with child := none, childPid := none } previous).Follows (referee config)
        (fun result after => Restored config result after)
        { seen with
          machine := { seen.machine.act seen.claimed .rollback with phase := .starting }
          child := none
          recorded := recorded
          current := current
          look := look } :=
    fun look => restorePrevious_seen patience (hrsg look) rfl hswg.previous
  have haft : (restorePrevious config patience
      { sup with child := none, childPid := none } previous).Follows (referee config)
        (fun result after => Restored config result after)
        ((referee config).step (.waitPortBindable (min config.swapHealthWindowMs 10000)) freed
          { seen with
            machine := { seen.machine.act seen.claimed .rollback with phase := .starting }
            child := none
            recorded := recorded
            current := current }) := by
    cases freed with
    | true => exact hrstd seen.look
    | false => exact hrstd .occupied
  apply Script.Follows.bind haft
  intro result restored hres
  apply Script.Follows.bind (standAfter_seen hres)
  intro stood standing hstg
  apply Script.Follows.bind (recordRollback_seen _ previous)
  rintro ⟨rolled, events⟩ after ⟨rfl, summary, hroll⟩
  obtain rfl : rolled = _ := hroll
  apply And.intro trivial
  intro wall _
  apply And.intro trivial
  intro written _
  exact ⟨hstg.1.summarized summary, hstg.2⟩

theorem performSwap_seen (hagr : Agrees config sup seen)
    (hup : seen.machine.phase = .starting ∨ seen.machine.phase = .healthy)
    (hclmd : seen.claimed = some request) (halive : sup.exited = false) :
    (performSwap config patience sup request).Follows (referee config)
      (fun result after => Over config result.1 after) seen := by
  have htrk := hagr.tracked
  have hbegin : transition seen.machine.phase .swapRequested = (.swapping, .beginSwap) := by
    cases hup with
    | inl hstag =>
      rw [hstag]
      rfl
    | inr hhea =>
      rw [hhea]
      rfl
  apply Script.Follows.bind (active_seen htrk)
  rintro found after ⟨rfl, rfl⟩
  cases hprev : after.machine.active with
  | none => exact absurd hprev htrk.known
  | some previous =>
    change Script.Follows _
      (if (transition sup.phase .swapRequested).2 ≠ .beginSwap then _ else _) _ _
    rw [hagr.phase, hbegin, if_neg (not_not.mpr rfl)]
    have hreq : after.claimed ≠ none := by
      rw [hclmd]
      nofun
    apply follows_saw (by exact hreq) (by exact hbegin) (by nofun)
    apply Script.Follows.bind (stopChild_seen (by exact htrk.child) (by exact htrk.childPid))
    rintro ⟨stopped, pid⟩ seen ⟨hstp, recorded, rfl⟩
    obtain rfl : stopped = _ := hstp
    have hker : after.claimed.map SwapRequest.kernel = some request.kernel := by
      rw [hclmd]
      rfl
    apply Script.Follows.bind (proveCandidate_seen patience (by
      exact ⟨{ htrk with
        child := rfl
        childPid := rfl
        window := Or.inr (Or.inl rfl) }, rfl, hker, hprev, hclmd, halive⟩))
    rintro ⟨proved, refuted⟩ judged ⟨hswg, hjud⟩
    have hconc : (conclude config patience proved request previous refuted).Follows
        (referee config) (fun result after => Over config result.1 after) judged := by
      cases refuted with
      | none => exact settleSwap_seen hswg hjud
      | some why => exact rollBack_seen patience why hswg hjud
    apply Script.Follows.bind hconc
    intro result after hover
    exact hover

theorem takeSwap_seen (hmid : Midway config sup seen) :
    (takeSwap config patience sup).Follows (referee config)
      (fun result after => Midway config result.1 after) seen := by
  change Script.Follows _
    (if sup.child = none ∨ ¬ (sup.phase = .starting ∨ sup.phase = .healthy) then _ else _) _ _
  by_cases hskip : sup.child = none ∨ ¬ (sup.phase = .starting ∨ sup.phase = .healthy)
  · rw [if_pos hskip]
    exact hmid
  rw [if_neg hskip]
  have hchild := (not_or.mp hskip).1
  apply And.intro trivial
  intro requests _
  cases requests with
  | nil => exact hmid
  | cons request requests =>
    apply And.intro trivial
    intro claimed _
    cases claimed with
    | false => exact hmid
    | true =>
      cases hmid.standing with
      | inr hrel => exact absurd hrel.child_none hchild
      | inl hagr =>
        have htrk := hagr.tracked
        have hclmd : Agrees config sup { seen with claimed := some request } :=
          { hagr with tracked := { htrk with } }
        apply Script.Follows.bind (performSwap_seen patience hclmd (hagr.up hchild) rfl hmid.alive)
        intro result after hover
        apply And.intro trivial
        intro _ _
        exact ⟨hover.1.released, rfl, hover.2⟩

theorem writeStatus_seen (force : Bool) (hrest : AtRest config sup seen) :
    (writeStatus force sup).Follows (referee config) (fun result after => AtRest config result after)
      seen := by
  have hdue : (statusDue force sup).Follows (referee config)
      (fun _ after => AtRest config sup after) seen := by
    rw [statusDue]
    split
    · exact hrest
    · apply And.intro trivial
      intro now hnow
      exact ⟨hrest.agrees.later hnow.2, hrest.free⟩
  apply Script.Follows.bind hdue
  intro due after haft
  cases due with
  | false => exact haft
  | true =>
    apply And.intro trivial
    intro _ _
    apply And.intro trivial
    intro now hnow
    have hltr := haft.agrees.later hnow.2
    have htrk := hltr.tracked
    exact ⟨{ hltr with tracked := { htrk with } }, haft.free⟩

theorem pass_seen (hrest : AtRest config sup seen) (halive : sup.exited = false) :
    (pass config patience sup).Follows (referee config) (fun result after => AtRest config result after)
      seen := by
  have htick : (tick config patience sup).Follows (referee config)
      (fun result after => AtRest config result.1 after) seen := by
    apply And.intro trivial
    intro stopping _
    cases stopping with
    | true =>
      change Script.Follows _ (if (true && !sup.exited) = true then _ else _) _
        { seen with look := .flagged }
      rw [halive, if_pos (by rfl)]
      have hagr := hrest.agrees
      have htrk := hagr.tracked
      apply stop_seen _ rfl
      exact ⟨{ hagr with tracked := { htrk with } }, hrest.free⟩
    | false =>
      apply Script.Follows.bind (settleExit_seen hrest halive)
      intro settled afterExit hexits
      apply Script.Follows.bind (takeSwap_seen patience hexits)
      intro swapped afterSwap hswaps
      apply Script.Follows.bind (startKernel_seen hswaps)
      intro started afterStart hstas
      apply Script.Follows.bind (watchHealth_seen hstas)
      intro watched afterWatch hwatch
      apply Script.Follows.bind (writeStatus_seen _ hwatch)
      intro written afterStatus hstt
      exact hstt
  apply Script.Follows.bind htick
  intro result after haft
  apply And.intro trivial
  intro _ _
  exact haft

end Swaps

end Refinement

section Runs

variable {config : Config} {asks : SwapRequest → Prop} {home : Home} {seen : Sight}

/-- What is known of a supervisor that starts. -/
def Sight.fresh (config : Config) (current : Option ActiveKernel) (clock : ℕ) : Sight :=
  ⟨.new (current.or config.configured), none, none, .nothing, clock, none, none, false, 0, none,
    current⟩

/-- Runs in which the kernels come up as the table expects. -/
def expected (config : Config) : Terms Op Answer Sight where
  fair op seen answer := Expected config seen op answer
  mayEnd _ := True
  started seen := Sight.fresh config seen.current seen.clock
  ended seen := seen

structure Watched (home : Home) (seen : Sight) : Prop where
  current : seen.current = home.readCurrent
  clock : seen.clock ≤ home.clock

theorem Watched.drift {after : Home} (hwat : Watched home seen) (hdrift : Drift asks home after) :
    Watched after seen := by
  cases hdrift with
  | ask | stop => exact { hwat with }
  | wait now hnow => exact ⟨hwat.current, hwat.clock.trans hnow⟩

theorem Watched.boot (hwat : Watched home seen) (hact : (home.active config).isSome = true) :
    AtRest config (.new home.clock) (Sight.fresh config seen.current seen.clock) := by
  have hknw : seen.current.or config.configured ≠ none := by
    rw [hwat.current]
    exact isSome_iff_ne_none.mp hact
  apply AtRest.mk _ rfl
  exact ⟨⟨rfl, hknw, rfl, rfl, rfl, rfl, Or.inr (Or.inl rfl)⟩, rfl, rfl, rfl⟩

theorem Watched.answer {op : Op} {answer : Answer op} (hwat : Watched home seen)
    (hrep : home.Replies op answer) (hexpt : Expected config seen op answer) :
    (referee config).admits op seen answer ∧
      Watched (home.after op answer) ((referee config).step op answer seen) := by
  cases op with
  | instant => exact ⟨⟨trivial, hwat.clock.trans hrep⟩, hwat.current, le_rfl⟩
  | readCurrent =>
    have hread : answer = seen.current := hrep.trans hwat.current.symm
    exact ⟨⟨trivial, hread⟩, hwat.current, hwat.clock⟩
  | writeCurrent kernel =>
    cases answer with
    | nothing => exact ⟨⟨hexpt, trivial⟩, hwat.current, hwat.clock⟩
    | record | both => exact ⟨⟨trivial, trivial⟩, rfl, hwat.clock⟩
  | stopRequested =>
    cases answer with
    | false | true => exact ⟨⟨trivial, trivial⟩, hwat.current, hwat.clock⟩
  | tryWait =>
    cases answer with
    | none => exact ⟨⟨trivial, trivial⟩, hwat.current, hwat.clock⟩
    | some status => exact ⟨⟨hexpt, trivial⟩, hwat.current, hwat.clock⟩
  | claim request =>
    cases answer with
    | false | true => exact ⟨⟨trivial, trivial⟩, hwat.current, hwat.clock⟩
  | waitPortBindable timeoutMs =>
    cases answer with
    | false | true => exact ⟨⟨trivial, trivial⟩, hwat.current, hwat.clock⟩
  | spawn kernel =>
    cases answer with
    | ok pid => exact ⟨⟨trivial, trivial⟩, hwat.current, hwat.clock⟩
    | error error => exact ⟨⟨hexpt, trivial⟩, hwat.current, hwat.clock⟩
  | probe =>
    apply And.intro ⟨trivial, trivial⟩
    change Watched home (seen.probed answer)
    rw [Sight.probed]
    split
    · exact { hwat with }
    · exact { hwat with }
  | writeResult result =>
    cases answer with
    | false | true => exact ⟨⟨trivial, trivial⟩, hwat.current, hwat.clock⟩
  | _ => exact ⟨⟨trivial, trivial⟩, hwat.current, hwat.clock⟩

/-- The inputs that the machine is told were observed, and between two passes the supervisor is
where they have led the machine, with the actions of the table done. -/
structure Refines (config : Config) (process : Process Op Answer Supervisor) (seen : Sight) :
    Prop where
  observed : ∀ input next, process = .busy (.ask (.saw input) next) → Observed config seen input
  agrees : ∀ sup, process = .resting sup → AtRest config sup seen

/-- The supervisor refines its table in every run in which the kernels come up as the table
expects. -/
theorem expected_runs_refine_table (config : Config) (asks : SwapRequest → Prop)
    {process : Process Op Answer Supervisor} {home : Home} {seen : Sight}
    (hreaches : (supervision config asks).Reaches (referee config) (expected config)
      (fun home seen => seen = Sight.fresh config home.readCurrent home.clock) process home seen) :
    Refines config process seen := by
  have hholds : Watched home seen ∧ Server.Stands (referee config) (fun _ => True)
      (fun sup seen => AtRest config sup seen) process seen := by
    apply Server.Reaches.invariant _ _ _ _ _ _ hreaches
    · rintro home seen rfl
      exact ⟨⟨rfl, le_rfl⟩, trivial⟩
    · intro home after seen hwatched hdrift
      exact hwatched.drift hdrift
    · intro home seen sup hwatched _ hboots
      apply And.intro { hwatched with }
      rw [hboots.1]
      exact hwatched.boot hboots.2
    · intro patience sup seen hrest hresumes
      exact pass_seen patience hrest hresumes
    · intro op home answer after seen hwatched _ hperform hfair
      rw [hperform.2]
      exact hwatched.answer hperform.1 hfair
    · intro home seen hwatched _
      exact ⟨hwatched, trivial⟩
  obtain ⟨_, hstands⟩ := hholds
  constructor
  · rintro input next rfl
    exact hstands.1
  · rintro sup rfl
    exact hstands

def anyKernels (config : Config) : Terms Op Answer Sight :=
  { expected config with fair := fun _ _ _ => True }

theorem reaches_booted (config : Config) (terms : Terms Op Answer Sight)
    (hact : (emptyHome.active config).isSome = true) :
    (supervision config asks).Reaches (referee config) terms
      (fun home seen => seen = Sight.fresh config home.readCurrent home.clock)
      (.resting (.new 5000)) emptyHome (terms.started (Sight.fresh config none 5000)) := by
  have hsta := @Server.Reaches.start Op Answer Home Supervisor Sight (supervision config asks)
    (referee config) terms (fun home seen => seen = Sight.fresh config home.readCurrent home.clock)
    emptyHome _ rfl
  exact hsta.boot (.new 5000) ⟨rfl, hact⟩

def strays (process : Process Op Answer Supervisor) (seen : Sight) : Bool :=
  match process with
  | .resting sup => sup.phase ≠ seen.machine.phase
  | _ => false

theorem Refines.strays_eq_false {process : Process Op Answer Supervisor}
    (href : Refines config process seen) : strays process seen = false := by
  cases process with
  | resting sup =>
    have hph := (href.agrees sup rfl).agrees.phase
    exact decide_eq_false (not_not.mpr hph)
  | _ => rfl

/-- Some moves of a supervisor that has just been started, in a world in which nothing happens. -/
def movesOf (kernel : String) (count : ℕ) : Process Op Answer Supervisor × Home × Sight :=
  playOn (smallConfig kernel) (referee (smallConfig kernel)) calm count (.resting (.new 5000))
    emptyHome (Sight.fresh (smallConfig kernel) none 5000)

def starting (op : Op) (home : Home) : Option (Answer op) :=
  match op with
  | .spawn _ => some (.ok 7)
  | op => calm op home

theorem expected_of_starting {op : Op} {answer : Answer op}
    (hreply : starting op home = some answer) : (expected config).fair op seen answer := by
  cases op with
  | spawn kernel =>
    cases hreply
    trivial
  | tryWait =>
    cases hreply
    trivial
  | writeCurrent kernel =>
    cases hreply
    trivial
  | _ => trivial

theorem replies_of_starting {op : Op} {answer : Answer op}
    (hreply : starting op home = some answer) : home.Replies op answer := by
  cases op with
  | spawn kernel => trivial
  | _ => exact replies_of_calm hreply

theorem expected_runs_refine_table_first :
    let played := playOn (smallConfig "/bin/wa") (referee (smallConfig "/bin/wa")) starting 17
      (.resting (.new 5000)) emptyHome (Sight.fresh (smallConfig "/bin/wa") none 5000)
    Refines (smallConfig "/bin/wa") played.1 played.2.2 ∧
      played.2.2.machine.phase = .healthy := by
  apply And.intro
  · apply expected_runs_refine_table (smallConfig "/bin/wa") (fun _ => True)
    exact reaches_playOn (fun _ _ _ => replies_of_starting)
      (fun _ _ _ _ => expected_of_starting) 17 (reaches_booted _ (expected _) rfl)
  · decide +kernel

/-- A kernel that cannot be started: the supervisor waits in `Backoff`, and nothing it has observed
leads there from `Stopped`. -/
theorem failed_launch_leaves_table :
    ¬ ∀ process home seen,
      (supervision (smallConfig "broken") (fun _ => True)).Reaches (referee (smallConfig "broken"))
        (anyKernels (smallConfig "broken"))
        (fun home seen => seen = Sight.fresh (smallConfig "broken") home.readCurrent home.clock)
        process home seen →
      Refines (smallConfig "broken") process seen := by
  intro hrefines
  have hreaches := @reaches_playOn _ _ (fun _ => True) _ (anyKernels (smallConfig "broken")) _ calm
    (fun _ _ _ => replies_of_calm) (fun _ _ _ _ _ => trivial) 12 _ _ _
    (reaches_booted (smallConfig "broken") (anyKernels _) rfl)
  have hstrays : strays (movesOf "broken" 12).1 (movesOf "broken" 12).2.2 = true := by
    decide +kernel
  exact Bool.noConfusion (hstrays.symm.trans (hrefines _ _ _ hreaches).strays_eq_false)

end Runs

end WasmAgent.Watchdog
