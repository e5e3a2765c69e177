import Mathlib.Algebra.Group.Nat.Defs
import WasmAgent.Core.Server
import WasmAgent.Watchdog.Table

/-!
# The supervisor

One pass looks, acts and reports, one operation at a time: it settles an exit, performs a swap
that was asked for, starts what is not running, and asks the kernel for its health.
-/

namespace WasmAgent.Watchdog

open WasmAgent.Core

structure ActiveKernel where
  binary : String
  sha256 : Option String
  args : List String
  deriving DecidableEq

/-- `<requests>/{id}.json`. -/
structure SwapRequest where
  id : String
  binary : String
  sha256 : String
  args : List String
  atMs : ℕ
  deriving DecidableEq

/-- `<results>/{id}.json`. -/
structure SwapResult where
  id : String
  ok : Bool
  rolledBack : Bool
  previous : String
  active : String
  detail : String
  atMs : ℕ
  deriving DecidableEq

structure SwapSummary where
  id : String
  ok : Bool
  rolledBack : Bool
  previous : String
  active : String
  detail : String
  atMs : ℕ
  deriving DecidableEq

structure LastExit where
  pid : ℕ
  code : Option ℤ
  uptimeMs : ℕ
  atMs : ℕ
  deriving DecidableEq

structure Config where
  kernel : Option String
  kernelArgs : List String
  port : ℕ
  startTimeoutMs : ℕ
  tickMs : ℕ
  backoffBaseMs : ℕ
  backoffFactor : ℕ
  backoffMaxMs : ℕ
  swapHealthWindowMs : ℕ
  stabilityMs : ℕ
  rollbackOnEarlyCrash : Bool
  healthMissLimit : ℕ

/-- How a process ended, and how that is written out. -/
structure ExitStatus where
  code : Option ℤ
  text : String

/-- What `/health` answered. -/
structure Probe where
  answered : Bool
  status : ℕ
  ok : Option Bool
  state : Option String
  detail : Option String

namespace Probe

def answers (probe : Probe) : Bool := probe.answered && probe.status == 200

def ready (probe : Probe) : Bool := probe.answers && probe.ok == some true

def whyNot (probe : Probe) : String :=
  match probe.detail with
  | some detail => detail
  | none =>
      if !probe.answered then "no answer"
      else if probe.status ≠ 200 then s!"status {probe.status}"
      else match probe.ok with
        | some true => "ready"
        | some false => "ok:false (state " ++ probe.state.getD "unknown" ++ ")"
        | none => "no top-level \"ok\" in /health"

end Probe

inductive Event where
  | launched (pid : ℕ) (binary : String) (attempt : ℕ)
  | healthy (pid : ℕ)
  | exited (pid : ℕ) (code : Option ℤ) (uptimeMs restartInMs restarts : ℕ)
  | startTimedOut (pid afterMs restartInMs : ℕ)
  | swapStarted (id previous next : String)
  | swapSettled (id active : String)
  | swapRolledBack (id active detail : String)
  | stopRequested (kernelPid : Option ℕ)
  | stopped
  | note (text : String)
  deriving DecidableEq

/-- What the supervisor asks for: of its home, its kernel and the clocks.  `saw` does nothing: it
names the input of the table that the source has observed at that point. -/
inductive Op where
  | stopRequested
  | removeStop
  | tryWait
  | killAndWait
  | instant
  | nowMs
  | pendingRequests
  | claim (request : SwapRequest)
  | putBack (request : SwapRequest)
  | removeClaimed (request : SwapRequest)
  | readCurrent
  | writeCurrent (active : ActiveKernel)
  | waitPortBindable (timeoutMs : ℕ)
  | spawn (active : ActiveKernel)
  | probe
  | writePid (pid : ℕ)
  | writeResult (result : SwapResult)
  | writeStatus
  | sleep (ms : ℕ)
  | report (events : List Event)
  | waitLonger
  | saw (input : Input)

/-- How far the writing of the active kernel came: the record for programs is written first, and
then the line for people. -/
inductive Written where
  | nothing
  | record
  | both
  deriving DecidableEq

/-- A loop that is still waiting asks for more time and is not answered. -/
@[reducible] def Answer : Op → Type
  | .stopRequested => Bool
  | .tryWait => Option ExitStatus
  | .instant => ℕ
  | .nowMs => ℕ
  | .pendingRequests => List SwapRequest
  | .claim _ => Bool
  | .readCurrent => Option ActiveKernel
  | .writeCurrent _ => Written
  | .waitPortBindable _ => Bool
  | .spawn _ => Except String ℕ
  | .probe => Probe
  | .writeResult _ => Bool
  | .waitLonger => Empty
  | _ => Unit

/-- A procedure of the supervisor. -/
abbrev Watch (Value : Type) : Type := Script Op Answer Value

section Operations

def ask (op : Op) : Watch (Answer op) := Script.call op

def stopRequested : Watch Bool := ask .stopRequested
def removeStop : Watch Unit := ask .removeStop
def tryWait : Watch (Option ExitStatus) := ask .tryWait
def killAndWait : Watch Unit := ask .killAndWait
def instant : Watch ℕ := ask .instant
def nowMs : Watch ℕ := ask .nowMs
def pendingRequests : Watch (List SwapRequest) := ask .pendingRequests
def claim (request : SwapRequest) : Watch Bool := ask (.claim request)
def putBack (request : SwapRequest) : Watch Unit := ask (.putBack request)
def removeClaimed (request : SwapRequest) : Watch Unit := ask (.removeClaimed request)
def readCurrent : Watch (Option ActiveKernel) := ask .readCurrent
def waitPortBindable (timeoutMs : ℕ) : Watch Bool := ask (.waitPortBindable timeoutMs)
def spawn (active : ActiveKernel) : Watch (Except String ℕ) := ask (.spawn active)
def probe : Watch Probe := ask .probe
def writePid (pid : ℕ) : Watch Unit := ask (.writePid pid)
def writeResult (result : SwapResult) : Watch Bool := ask (.writeResult result)
def sleep (ms : ℕ) : Watch Unit := ask (.sleep ms)
def report (events : List Event) : Watch Unit := ask (.report events)
def waitLonger : Watch Empty := ask .waitLonger
def saw (input : Input) : Watch Unit := ask (.saw input)

/-- What was written is not looked at. -/
def writeCurrent (active : ActiveKernel) : Watch Unit := do
  let _ ← ask (.writeCurrent active)
  pure ()

end Operations

structure Supervisor where
  phase : Phase
  child : Option ℕ
  childPid : Option ℕ
  childStarted : ℕ
  attempt : ℕ
  restarts : ℕ
  restartAt : ℕ
  probeMisses : ℕ
  lastExit : Option LastExit
  lastSwap : Option SwapSummary
  stability : Option (ActiveKernel × ℕ)
  exited : Bool
  lastStatusWrite : ℕ

namespace Supervisor

def new (now : ℕ) : Supervisor where
  phase := .stopped
  child := none
  childPid := none
  childStarted := now
  attempt := 0
  restarts := 0
  restartAt := now
  probeMisses := 0
  lastExit := none
  lastSwap := none
  stability := none
  exited := false
  lastStatusWrite := now

end Supervisor

/-- `saturating_add(1)` on 32 bits. -/
def nextAttempt (attempt : ℕ) : ℕ := min (attempt + 1) (2 ^ 32 - 1)

section Tick

variable (config : Config)

/-- The configured kernel, as `active` takes it. -/
def Config.configured : Option ActiveKernel :=
  config.kernel.map (fun binary => ⟨binary, none, config.kernelArgs⟩)

def delayFor (attempt : ℕ) : ℕ :=
  (Backoff.new config.backoffBaseMs config.backoffFactor config.backoffMaxMs).delayMs (attempt - 1)

def active : Watch (Option ActiveKernel) := do
  match ← readCurrent with
  | some active => pure (some active)
  | none => pure config.configured

def adoptConfiguredKernel (active : ActiveKernel) : Watch Unit := do
  match ← readCurrent with
  | some _ => pure ()
  | none => writeCurrent active

/-- Unless it is forced, the status is written once a second. -/
def statusDue (force : Bool) (sup : Supervisor) : Watch Bool :=
  if force then pure true
  else do
    let now ← instant
    pure (1000 ≤ now - sup.lastStatusWrite)

def writeStatus (force : Bool) (sup : Supervisor) : Watch Supervisor := do
  let due ← statusDue force sup
  if due then
    let _ : Unit ← ask .writeStatus
    let now ← instant
    pure { sup with lastStatusWrite := now }
  else pure sup

def launch (sup : Supervisor) (kernel : ActiveKernel) : Watch (Supervisor × Except String ℕ) := do
  match ← spawn kernel with
  | .error error => pure (sup, .error error)
  | .ok pid =>
      saw .launched
      let now ← instant
      pure ({ sup with
        child := some pid
        childPid := some pid
        childStarted := now
        phase := .starting
        probeMisses := 0 }, .ok pid)

def stopChild (sup : Supervisor) : Watch (Supervisor × Option ℕ) := do
  match sup.child with
  | none => pure (sup, none)
  | some _ =>
      killAndWait
      pure ({ sup with child := none, childPid := none }, sup.childPid)

def childEnd (sup : Supervisor) : Watch (Option ExitStatus) :=
  match sup.child with
  | none => pure none
  | some _ => tryWait

/-- A restart, put off for as long as this attempt is put off. -/
def restartLater (sup : Supervisor) : Watch (Supervisor × ℕ) := do
  let attempt := nextAttempt sup.attempt
  let now ← instant
  pure ({ sup with attempt := attempt, restartAt := now + delayFor config attempt },
    delayFor config attempt)

def recordRollback (sup : Supervisor) (detail : String) (previous : ActiveKernel) :
    Watch (Supervisor × List Event) := do
  let id := (sup.lastSwap.map SwapSummary.id).getD "swap"
  let at₁ ← nowMs
  let at₂ ← nowMs
  let _ ← writeResult ⟨id ++ ".rollback", false, true, previous.binary, previous.binary, detail, at₂⟩
  pure ({ sup with
    lastSwap := some ⟨id, false, true, previous.binary, previous.binary, detail, at₁⟩ },
    [.swapRolledBack id previous.binary detail])

def stop (sup : Supervisor) : Watch (Supervisor × List Event) := do
  saw .stopRequested
  let next := (transition sup.phase .stopRequested).1
  let (sup, pid) ← stopChild sup
  let sup := { sup with phase := next, exited := true }
  removeStop
  saw .stopComplete
  let sup ← writeStatus true { sup with phase := .stopped }
  pure (sup, [.stopRequested pid, .stopped])

def rollBackToPrevious (sup : Supervisor) (previous : ActiveKernel) (uptimeMs : ℕ) :
    Watch (Supervisor × List Event) := do
  saw .stabilityViolated
  let (sup, _) ← stopChild { sup with stability := none }
  writeCurrent previous
  let now ← instant
  let (sup, events) ← recordRollback { sup with attempt := 0, restartAt := now }
    s!"the swapped-in kernel exited after {uptimeMs}ms (stability window)" previous
  pure ({ sup with phase := .backoff }, events)

def isRecentSwap (sup : Supervisor) : Watch (Option ActiveKernel) := do
  match sup.stability with
  | none => pure none
  | some (previous, settledUntil) =>
      let now ← instant
      pure (if now < settledUntil ∧ sup.phase = .healthy then some previous else none)

def settleExit (sup : Supervisor) : Watch (Supervisor × List Event) := do
  if sup.phase = .swapping ∨ sup.child = none then pure (sup, [])
  else match ← tryWait with
    | none => pure (sup, [])
    | some status =>
        let now ← instant
        let wall ← nowMs
        let pid := sup.childPid.getD 0
        let uptimeMs := now - sup.childStarted
        let sup := { sup with
          child := none
          childPid := none
          lastExit := some ⟨pid, status.code, uptimeMs, wall⟩ }
        match ← isRecentSwap sup with
        | some previous => rollBackToPrevious sup previous uptimeMs
        | none =>
            saw .exited
            let (sup, delay) ← restartLater config
              { sup with phase := (transition sup.phase .exited).1, restarts := sup.restarts + 1 }
            pure (sup, [.exited pid status.code uptimeMs delay sup.restarts])

def awaitProof (deadline : ℕ) : ℕ → Supervisor → Watch (Supervisor × Option String)
  | 0, _ => do
      let more ← waitLonger
      nomatch more
  | patience + 1, sup => do
      match ← childEnd sup with
      | some status =>
          pure ({ sup with child := none, childPid := none },
            some s!"the new kernel exited ({status.text}) before answering /health")
      | none =>
          let answer ← probe
          if answer.ready then pure (sup, none)
          else
            let now ← instant
            if deadline ≤ now then
              pure (sup, some (s!"the new kernel did not answer /health within " ++
                s!"{config.swapHealthWindowMs}ms ({answer.whyNot})"))
            else
              sleep (max 20 (min config.tickMs 250))
              awaitProof deadline patience sup

def proveCandidate (patience : ℕ) (sup : Supervisor) (next : ActiveKernel) :
    Watch (Supervisor × Option String) := do
  let freed ← waitPortBindable (min config.swapHealthWindowMs 10000)
  if !freed then
    pure (sup, some s!"the previous kernel did not release port {config.port} for the new one")
  else match ← launch sup next with
    | (sup, .error error) => pure (sup, some error)
    | (sup, .ok _) =>
        let now ← instant
        awaitProof config (now + config.swapHealthWindowMs) patience sup

/-- The wait for the kernel that was put back. -/
def awaitRestored (deadline : ℕ) : ℕ → Supervisor → Watch (Supervisor × Bool)
  | 0, _ => do
      let more ← waitLonger
      nomatch more
  | patience + 1, sup => do
      let now ← instant
      if deadline ≤ now then pure (sup, false)
      else match ← childEnd sup with
        | some _ =>
            saw .exited
            pure ({ sup with child := none, childPid := none }, false)
        | none =>
            let answer ← probe
            if answer.ready then
              saw .healthOk
              pure (sup, true)
            else
              sleep (max 20 (min config.tickMs 250))
              awaitRestored deadline patience sup

def restorePrevious (patience : ℕ) (sup : Supervisor) (previous : ActiveKernel) :
    Watch (Supervisor × Bool) := do
  match ← launch sup previous with
  | (sup, .error _) => pure (sup, false)
  | (sup, .ok _) =>
      let now ← instant
      awaitRestored config (now + config.startTimeoutMs) patience sup

/-- The kernel to go back to, for as long as the window is open. -/
def armStability (previous : ActiveKernel) : Watch (Option (ActiveKernel × ℕ)) :=
  if config.rollbackOnEarlyCrash && 0 < config.stabilityMs then do
    let now ← instant
    pure (some (previous, now + config.stabilityMs))
  else pure none

def settleSwap (sup : Supervisor) (request : SwapRequest) (previous next : ActiveKernel) :
    Watch (Supervisor × List Event) := do
  saw .swapProved
  writeCurrent next
  let sup := { sup with phase := .healthy, attempt := 0 }
  writePid (sup.childPid.getD 0)
  let stability ← armStability config previous
  let at₁ ← nowMs
  let sup := { sup with
    stability := stability
    lastSwap := some ⟨request.id, true, false, previous.binary, next.binary,
      s!"proved on :{config.port}", at₁⟩ }
  let at₂ ← nowMs
  let _ ← writeResult ⟨request.id, true, false, previous.binary, next.binary,
    s!"proved on :{config.port}", at₂⟩
  pure (sup, [.swapSettled request.id next.binary])

/-- Where the supervisor stands once the previous kernel was put back. -/
def standAfter (restored : Bool) (sup : Supervisor) : Watch Supervisor :=
  if restored then do
    writePid (sup.childPid.getD 0)
    pure { sup with phase := .healthy, attempt := 0 }
  else do
    let now ← instant
    pure { sup with phase := .starting, restartAt := now }

def rollBack (patience : ℕ) (sup : Supervisor) (request : SwapRequest) (previous : ActiveKernel)
    (why : String) : Watch (Supervisor × List Event) := do
  saw .swapFailed
  let (sup, _) ← stopChild sup
  writeCurrent previous
  let _ ← waitPortBindable (min config.swapHealthWindowMs 10000)
  let (sup, restored) ← restorePrevious config patience sup previous
  let sup ← standAfter restored sup
  let outcome := if restored then "is serving again" else "did not answer either"
  let detail := s!"{why}; the previous kernel {outcome}"
  let (sup, events) ← recordRollback sup detail previous
  let wall ← nowMs
  let _ ← writeResult ⟨request.id, false, true, previous.binary, previous.binary, detail, wall⟩
  pure (sup, events)

def SwapRequest.kernel (request : SwapRequest) : ActiveKernel :=
  ⟨request.binary, some request.sha256, request.args⟩

def conclude (patience : ℕ) (sup : Supervisor) (request : SwapRequest) (previous : ActiveKernel) :
    Option String → Watch (Supervisor × List Event)
  | none => settleSwap config sup request previous request.kernel
  | some why => rollBack config patience sup request previous why

def performSwap (patience : ℕ) (sup : Supervisor) (request : SwapRequest) :
    Watch (Supervisor × List Event) := do
  match ← active config with
  | none => pure (sup, [.note s!"swap {request.id} refused: no kernel is recorded to replace"])
  | some previous =>
      if (transition sup.phase .swapRequested).2 ≠ .beginSwap then
        -- It is not refused, it is early.
        putBack request
        pure (sup, [.note s!"swap {request.id} waits: the supervisor is {sup.phase.asStr}"])
      else
        saw .swapRequested
        let (sup, _) ← stopChild { sup with phase := .swapping, stability := none }
        let (sup, refuted) ← proveCandidate config patience sup request.kernel
        let (sup, events) ← conclude config patience sup request previous refuted
        pure (sup, .swapStarted request.id previous.binary request.binary :: events)

def takeSwap (patience : ℕ) (sup : Supervisor) : Watch (Supervisor × List Event) := do
  if sup.child = none ∨ ¬ (sup.phase = .starting ∨ sup.phase = .healthy) then pure (sup, [])
  else match ← pendingRequests with
    | [] => pure (sup, [])
    | request :: _ =>
        let claimed ← claim request
        if claimed then
          let (sup, events) ← performSwap config patience sup request
          removeClaimed request
          pure (sup, events)
        else pure (sup, [.note s!"swap request {request.id} is already claimed"])

def startActive (sup : Supervisor) (active : ActiveKernel) : Watch (Supervisor × List Event) := do
  adoptConfiguredKernel active
  match ← launch sup active with
  | (sup, .ok pid) => pure (sup, [.launched pid active.binary sup.attempt])
  | (sup, .error error) =>
      let (sup, delay) ← restartLater config { sup with phase := .backoff }
      pure (sup, [.note s!"{error}; retrying in {delay}ms"])

def startKernel (sup : Supervisor) : Watch (Supervisor × List Event) := do
  if sup.child ≠ none ∨ sup.exited ∨ sup.phase = .swapping then pure (sup, [])
  else
    let now ← instant
    if now < sup.restartAt then pure (sup, [])
    else match ← active config with
      | some kernel => startActive config sup kernel
      | none => pure ({ sup with exited := true },
          [.note ("no kernel is configured: set `kernel` in the config " ++
            "(or run `wa-watchdog init`)")])

def watchStart (sup : Supervisor) : Watch (Supervisor × List Event) := do
  let now ← instant
  if config.startTimeoutMs ≤ now - sup.childStarted then
    saw .startTimedOut
    let (sup, pid) ← stopChild sup
    let (sup, delay) ← restartLater config
      { sup with phase := .backoff, restarts := sup.restarts + 1 }
    pure (sup, [.startTimedOut (pid.getD 0) (now - sup.childStarted) delay])
  else
    let answer ← probe
    if answer.ready then
      saw .healthOk
      let pid := sup.childPid.getD 0
      writePid pid
      pure ({ sup with phase := .healthy, attempt := 0, probeMisses := 0 }, [.healthy pid])
    else pure (sup, [])

/-- With a limit, so many misses in a row end a kernel that is up. -/
def watchMisses (sup : Supervisor) : Watch (Supervisor × List Event) := do
  let answer ← probe
  if answer.ready then
    saw .healthOk
    pure ({ sup with probeMisses := 0 }, [])
  else
    let sup := { sup with probeMisses := sup.probeMisses + 1 }
    if config.healthMissLimit ≤ sup.probeMisses then
      saw .unhealthy
      let (sup, pid) ← stopChild sup
      let (sup, delay) ← restartLater config
        { sup with phase := .backoff, restarts := sup.restarts + 1 }
      pure (sup, [.note
        s!"pid {pid.getD 0} missed {sup.probeMisses} health probes; restarting in {delay}ms"])
    else pure (sup, [])

def closeWindow (sup : Supervisor) : Watch Supervisor := do
  match sup.stability with
  | none => pure sup
  | some (_, settledUntil) =>
      let now ← instant
      if settledUntil ≤ now then pure { sup with stability := none } else pure sup

def watchHealth (sup : Supervisor) : Watch (Supervisor × List Event) :=
  match sup.phase with
  | .starting => watchStart config sup
  | .healthy =>
      if 0 < config.healthMissLimit then watchMisses config sup
      else do
        let sup ← closeWindow sup
        pure (sup, [])
  | _ => pure (sup, [])

/-- One pass. -/
def tick (patience : ℕ) (sup : Supervisor) : Watch (Supervisor × List Event) := do
  let stopping ← stopRequested
  if stopping && !sup.exited then stop sup
  else
    let (sup, exits) ← settleExit config sup
    let (sup, swaps) ← takeSwap config patience sup
    let (sup, starts) ← startKernel config sup
    let (sup, health) ← watchHealth config sup
    let events := exits ++ swaps ++ starts ++ health
    let sup ← writeStatus (!events.isEmpty) sup
    pure (sup, events)

def pass (patience : ℕ) (sup : Supervisor) : Watch Supervisor := do
  let (sup, events) ← tick config patience sup
  report events
  pure sup

end Tick

end WasmAgent.Watchdog
