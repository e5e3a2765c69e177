import WasmAgent.Watchdog.Supervisor

/-!
# The machine of the table

A machine that knows the table alone is told what the supervisor observes, and what it means that
the supervisor is where the machine is.
-/

namespace WasmAgent.Watchdog

open WasmAgent.Core

/-- What the actions of the table are about: `active` is the kernel to run, `kept` the one to go
back to, `running` the one that is up. -/
structure Machine where
  phase : Phase
  attempt : ℕ
  active : Option ActiveKernel
  kept : Option ActiveKernel
  running : Option ActiveKernel
  exited : Bool

namespace Machine

def new (active : Option ActiveKernel) : Machine := ⟨.stopped, 0, active, none, none, false⟩

def act (machine : Machine) (claimed : Option SwapRequest) : Action → Machine
  | .none => machine
  | .launch => { machine with running := machine.active }
  | .markHealthy => { machine with attempt := 0 }
  | .killAndRestart => { machine with running := none, attempt := nextAttempt machine.attempt }
  | .restartLater => { machine with running := none, attempt := nextAttempt machine.attempt }
  | .beginSwap => { machine with running := claimed.map SwapRequest.kernel, kept := none }
  | .settleSwap =>
      { machine with active := machine.running, kept := machine.active, attempt := 0 }
  | .rollback => { machine with running := machine.active }
  | .rollbackToPrevious =>
      { machine with active := machine.kept, running := machine.kept, kept := none, attempt := 0 }
  | .killAndExit => { machine with running := none, exited := true }
  | .exit => { machine with exited := true }

def observe (machine : Machine) (claimed : Option SwapRequest) (input : Input) : Machine :=
  { machine.act claimed (transition machine.phase input).2 with
    phase := (transition machine.phase input).1 }

/-- A restart that fails is put off once more: the table has no input for it. -/
def putOff (machine : Machine) : Machine :=
  if machine.phase = .backoff then { machine with attempt := nextAttempt machine.attempt }
  else machine

end Machine

/-- What the last operation has shown. -/
inductive Look where
  | nothing
  | flagged
  | ended
  | occupied
  | spawned
  | unspawned
  | ready
  | unready
  deriving DecidableEq

/-- What is seen of a supervisor: the machine that is told what was observed, the kernel that is up,
the pid on record, the last look, the time, when the kernel was started and the window armed,
whether the kernel has answered and how often it has not since, the request that is claimed and the
recorded kernel. -/
structure Sight where
  machine : Machine
  child : Option (ActiveKernel × ℕ)
  recorded : Option ℕ
  look : Look
  clock : ℕ
  started : Option ℕ
  armed : Option ℕ
  answered : Bool
  misses : ℕ
  claimed : Option SwapRequest
  current : Option ActiveKernel

namespace Sight

def later (seen : Sight) (now : ℕ) : Sight :=
  { seen with
    clock := now
    started := some (seen.started.getD now)
    armed := some (seen.armed.getD now) }

def saw (seen : Sight) (input : Input) : Sight :=
  { seen with
    machine := seen.machine.observe seen.claimed input
    armed := if input = .swapProved then none else seen.armed }

def spawned (seen : Sight) (kernel : ActiveKernel) (pid : ℕ) : Sight :=
  { seen with
    child := some (kernel, pid)
    look := .spawned
    started := none
    answered := false
    misses := 0 }

def unspawned (seen : Sight) : Sight :=
  { seen with machine := seen.machine.putOff, look := .unspawned }

def probed (seen : Sight) (answer : Probe) : Sight :=
  if answer.ready then { seen with look := .ready, answered := true, misses := 0 }
  else { seen with look := .unready, misses := seen.misses + 1 }

/-- So much time has gone since the start, and no answer has come. -/
def Waited (seen : Sight) (ms : ℕ) : Prop :=
  seen.answered = false ∧ ∃ started, seen.started = some started ∧ ms ≤ seen.clock - started

end Sight

section Refinement

variable (config : Config)

/-- The window in which a kernel that was swapped in may not die. -/
def Config.armsStability : Bool := config.rollbackOnEarlyCrash && 0 < config.stabilityMs

/-- The window is open. -/
def Early (seen : Sight) : Prop :=
  config.armsStability = true ∧ seen.machine.kept ≠ none ∧
    ∃ armed, seen.armed = some armed ∧ seen.clock < armed + config.stabilityMs

def Observed (seen : Sight) : Input → Prop
  | .launched => seen.look = .spawned
  | .healthOk => seen.look = .ready
  | .startTimedOut => seen.Waited config.startTimeoutMs
  | .exited => seen.look = .ended ∧ ¬ (seen.machine.phase = .healthy ∧ Early config seen)
  | .unhealthy => seen.look = .unready ∧ config.healthMissLimit ≤ seen.misses
  | .swapRequested => seen.claimed ≠ none
  | .swapProved => seen.look = .ready
  | .swapFailed => seen.look = .occupied ∨ seen.look = .unspawned ∨ seen.look = .ended ∨
      seen.look = .unready ∧ seen.Waited config.swapHealthWindowMs
  | .stabilityViolated => seen.look = .ended ∧ Early config seen
  | .stopRequested => seen.look = .flagged
  | .stopComplete => seen.child = none

/-- A start fails only where the table waits for the next one or goes back to the kernel before, a
kernel that is put back does not end while it is waited for, and a write of `current` fails only
where it changes nothing. -/
def Expected (seen : Sight) : (op : Op) → Answer op → Prop
  | .spawn _, .error _ => seen.machine.phase = .backoff ∨ seen.machine.phase = .swapping ∨
      seen.machine.phase = .starting ∧ seen.claimed ≠ none
  | .tryWait, some _ => ¬ (seen.machine.phase = .starting ∧ seen.claimed ≠ none)
  | .writeCurrent kernel, .nothing => seen.current.or config.configured = some kernel
  | _, _ => True

/-- Who tells the machine what the supervisor observes. -/
def referee : Observer Op Answer Sight where
  lawful
    | .saw input, seen => Observed config seen input
    | _, _ => True
  admits op seen answer := Expected config seen op answer ∧
    match op, answer with
    | .instant, now => seen.clock ≤ now
    | .readCurrent, read => read = seen.current
    | _, _ => True
  step
    | .saw input, _, seen => seen.saw input
    | .stopRequested, true, seen => { seen with look := .flagged }
    | .tryWait, some _, seen => { seen with child := none, look := .ended }
    | .killAndWait, _, seen => { seen with child := none, recorded := none }
    | .instant, now, seen => seen.later now
    | .claim request, true, seen => { seen with claimed := some request }
    | .putBack _, _, seen => { seen with claimed := none }
    | .removeClaimed _, _, seen => { seen with claimed := none }
    | .writeCurrent kernel, .record, seen => { seen with current := some kernel }
    | .writeCurrent kernel, .both, seen => { seen with current := some kernel }
    | .waitPortBindable _, false, seen => { seen with look := .occupied }
    | .spawn kernel, .ok pid, seen => seen.spawned kernel pid
    | .spawn _, .error _, seen => seen.unspawned
    | .probe, answer, seen => seen.probed answer
    | .writePid pid, _, seen => { seen with recorded := some pid }
    | _, _, seen => seen

def Window (seen : Sight) : Option (ActiveKernel × ℕ) → Prop
  | some (previous, settledUntil) =>
      config.armsStability = true ∧ seen.machine.kept = some previous ∧
        ∃ armed, seen.armed = some armed ∧ settledUntil = armed + config.stabilityMs
  | none => config.armsStability = false ∨ seen.machine.kept = none ∨
      ∃ armed, seen.armed = some armed ∧ armed + config.stabilityMs ≤ seen.clock

/-- What the supervisor knows, whatever its phase. -/
structure Tracked (sup : Supervisor) (seen : Sight) : Prop where
  active : seen.current.or config.configured = seen.machine.active
  known : seen.machine.active ≠ none
  attempt : sup.attempt = seen.machine.attempt
  exited : sup.exited = seen.machine.exited
  child : sup.child = seen.child.map Prod.snd
  childPid : sup.childPid = seen.child.map Prod.snd
  window : Window config seen sup.stability

def Done (sup : Supervisor) (seen : Sight) : Phase → Prop
  | .stopped => seen.child = none
  | .starting => seen.child ≠ none ∧ seen.started = some sup.childStarted ∧ seen.answered = false
  | .healthy => seen.child ≠ none ∧ seen.misses = sup.probeMisses ∧
      seen.recorded = seen.child.map Prod.snd
  | .backoff => seen.child = none ∧
      ∃ since, since ≤ seen.clock ∧ sup.restartAt = since + delayFor config seen.machine.attempt
  | .swapping => False
  | .stopping => False

/-- The supervisor is where the machine is, and the kernel that is up is the one that the table has
asked for. -/
structure Agrees (sup : Supervisor) (seen : Sight) : Prop where
  tracked : Tracked config sup seen
  phase : sup.phase = seen.machine.phase
  running : seen.child.map Prod.fst = seen.machine.running
  done : Done config sup seen seen.machine.phase

/-- The table has asked for the kernel before, and it is the next to be started. -/
structure Relaunching (sup : Supervisor) (seen : Sight) : Prop where
  tracked : Tracked config sup seen
  phase : seen.machine.phase = .starting
  running : seen.machine.running = seen.machine.active
  child : seen.child = none
  between : sup.phase = .backoff ∨ sup.phase = .starting
  due : sup.restartAt ≤ seen.clock

/-- Inside a pass the kernel before may still have to be started. -/
def Standing (sup : Supervisor) (seen : Sight) : Prop :=
  Agrees config sup seen ∨ Relaunching config sup seen

/-- In a pass, but not in a swap. -/
structure Midway (sup : Supervisor) (seen : Sight) : Prop where
  standing : Standing config sup seen
  free : seen.claimed = none
  alive : sup.exited = false

/-- Between two passes. -/
structure AtRest (sup : Supervisor) (seen : Sight) : Prop where
  agrees : Agrees config sup seen
  free : seen.claimed = none

variable {config} {sup : Supervisor} {seen after : Sight}

theorem follows_saw {Value : Type} {input : Input} {next : Phase} {action : Action}
    {script : Watch Value} {post : Value → Sight → Prop}
    (hobs : Observed config seen input)
    (htran : transition seen.machine.phase input = (next, action))
    (hinput : input ≠ .swapProved)
    (hrest : script.Follows (referee config) post
      { seen with machine := { seen.machine.act seen.claimed action with phase := next } }) :
    (saw input >>= fun _ => script).Follows (referee config) post seen := by
  have hsaw : seen.saw input =
      { seen with machine := { seen.machine.act seen.claimed action with phase := next } } := by
    rw [Sight.saw, Machine.observe, htran, if_neg hinput]
  apply And.intro hobs
  intro _ _
  rw [← hsaw] at hrest
  exact hrest

theorem Window.later {stability : Option (ActiveKernel × ℕ)} {now : ℕ}
    (hwin : Window config seen stability) (hnow : seen.clock ≤ now) :
    Window config (seen.later now) stability := by
  cases stability with
  | none =>
    apply hwin.imp_right
    apply Or.imp_right
    rintro ⟨armed, harmed, hpast⟩
    apply Exists.intro armed
    apply And.intro _ (Nat.le_trans hpast hnow)
    change some (seen.armed.getD now) = some armed
    rw [harmed]
    rfl
  | some window =>
    obtain ⟨harms, hkept, armed, harmed, huntil⟩ := hwin
    apply And.intro harms
    apply And.intro hkept
    apply Exists.intro armed
    apply And.intro _ huntil
    change some (seen.armed.getD now) = some armed
    rw [harmed]
    rfl

theorem Window.not_early (hwin : Window config seen none) : ¬ Early config seen := by
  rintro ⟨harms, hkept, armed, harmed, hbef⟩
  rcases hwin with hnever | hnone | ⟨since, hsince, hpast⟩
  · exact Bool.noConfusion (hnever.symm.trans harms)
  · exact hkept hnone
  · rw [harmed] at hsince
    cases hsince
    exact absurd hbef (Nat.not_lt.mpr hpast)

theorem Tracked.later {now : ℕ} (htrk : Tracked config sup seen) (hnow : seen.clock ≤ now) :
    Tracked config sup (seen.later now) :=
  { htrk with window := htrk.window.later hnow }

theorem Tracked.glance (htrk : Tracked config sup seen) (look : Look) (answered : Bool)
    (misses : ℕ) :
    Tracked config sup { seen with look := look, answered := answered, misses := misses } :=
  { htrk with }

theorem Tracked.gone (htrk : Tracked config sup seen) (look : Look) (recorded : Option ℕ) :
    Tracked config { sup with child := none, childPid := none }
      { seen with child := none, look := look, recorded := recorded } :=
  { htrk with child := rfl, childPid := rfl }

theorem Agrees.later {now : ℕ} (hagr : Agrees config sup seen) (hnow : seen.clock ≤ now) :
    Agrees config sup (seen.later now) := by
  apply Agrees.mk (hagr.tracked.later hnow) hagr.phase hagr.running
  have hdone := hagr.done
  change Done config sup (seen.later now) seen.machine.phase
  cases hph : seen.machine.phase with
  | starting =>
    rw [hph] at hdone
    obtain ⟨hchild, hstad, hansd⟩ := hdone
    apply And.intro hchild
    apply And.intro _ hansd
    change some (seen.started.getD now) = _
    rw [hstad]
    rfl
  | backoff =>
    rw [hph] at hdone
    obtain ⟨hchild, since, hsince, hdue⟩ := hdone
    exact ⟨hchild, since, Nat.le_trans hsince hnow, hdue⟩
  | _ =>
    rw [hph] at hdone
    exact hdone

theorem Relaunching.later {now : ℕ} (hrel : Relaunching config sup seen)
    (hnow : seen.clock ≤ now) : Relaunching config sup (seen.later now) :=
  { hrel with
    tracked := hrel.tracked.later hnow
    due := Nat.le_trans hrel.due hnow }

theorem stopChild_seen (hchild : sup.child = seen.child.map Prod.snd)
    (hpid : sup.childPid = seen.child.map Prod.snd) :
    (stopChild sup).Follows (referee config)
      (fun result after => result.1 = { sup with child := none, childPid := none } ∧
        ∃ recorded, after = { seen with child := none, recorded := recorded }) seen := by
  rw [stopChild]
  cases hker : seen.child with
  | none =>
    rw [hker] at hchild hpid
    rw [hchild]
    apply And.intro
    · cases sup
      cases hchild
      cases hpid
      rfl
    · apply Exists.intro seen.recorded
      rw [← hker]
  | some kernel =>
    rw [hker] at hchild
    rw [hchild]
    apply And.intro trivial
    intro _ _
    exact ⟨rfl, none, rfl⟩

theorem restartLater_seen :
    (restartLater config sup).Follows (referee config)
      (fun result after => ∃ now, seen.clock ≤ now ∧ after = seen.later now ∧
        result.1 = { sup with
          attempt := nextAttempt sup.attempt
          restartAt := now + delayFor config (nextAttempt sup.attempt) }) seen := by
  apply And.intro trivial
  intro now hnow
  exact ⟨now, hnow.2, rfl, rfl⟩

theorem writeCurrent_seen (kernel : ActiveKernel) :
    (writeCurrent kernel).Follows (referee config)
      (fun _ after => ∃ current, after = { seen with current := current } ∧
        current.or config.configured = some kernel) seen := by
  apply And.intro trivial
  intro written hwrn
  cases written with
  | nothing => exact ⟨seen.current, rfl, hwrn.1⟩
  | record | both => exact ⟨some kernel, rfl, rfl⟩

theorem recordRollback_seen (detail : String) (previous : ActiveKernel) :
    (recordRollback sup detail previous).Follows (referee config)
      (fun result after => after = seen ∧
        ∃ summary, result.1 = { sup with lastSwap := summary }) seen := by
  apply And.intro trivial
  intro at₁ _
  apply And.intro trivial
  intro at₂ _
  apply And.intro trivial
  intro written _
  exact ⟨rfl, _, rfl⟩

end Refinement

end WasmAgent.Watchdog
