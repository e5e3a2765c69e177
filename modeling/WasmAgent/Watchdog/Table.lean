import Mathlib.Data.Nat.Notation

/-!
# The table of the supervisor

What a phase becomes on an input, and the one action that the supervisor then takes.
-/

namespace WasmAgent.Watchdog

inductive Phase where
  | stopped
  | starting
  | healthy
  | backoff
  | swapping
  | stopping
  deriving DecidableEq, Repr

def Phase.asStr : Phase → String
  | .stopped => "stopped"
  | .starting => "starting"
  | .healthy => "healthy"
  | .backoff => "backoff"
  | .swapping => "swapping"
  | .stopping => "stopping"

/-- What the supervisor observed. -/
inductive Input where
  | launched
  | healthOk
  | startTimedOut
  | exited
  | unhealthy
  | swapRequested
  | swapProved
  | swapFailed
  | stabilityViolated
  | stopRequested
  | stopComplete
  deriving DecidableEq, Repr

inductive Action where
  | none
  | launch
  | markHealthy
  | killAndRestart
  | restartLater
  | beginSwap
  | settleSwap
  | rollback
  | rollbackToPrevious
  | killAndExit
  | exit
  deriving DecidableEq, Repr

def transition : Phase → Input → Phase × Action
  | .stopped, .launched => (.starting, .launch)
  | .backoff, .launched => (.starting, .launch)
  | .starting, .launched => (.starting, .none)
  | .starting, .healthOk => (.healthy, .markHealthy)
  | .starting, .startTimedOut => (.backoff, .killAndRestart)
  | .starting, .exited => (.backoff, .restartLater)
  | .healthy, .healthOk => (.healthy, .none)
  | .healthy, .unhealthy => (.backoff, .killAndRestart)
  | .healthy, .exited => (.backoff, .restartLater)
  | .healthy, .stabilityViolated => (.starting, .rollbackToPrevious)
  | .backoff, .healthOk => (.backoff, .none)
  | .backoff, .startTimedOut => (.backoff, .none)
  | .backoff, .exited => (.backoff, .none)
  | .backoff, .unhealthy => (.backoff, .none)
  -- A swap needs a kernel to replace: the request stays on disk.
  | .backoff, .swapRequested => (.backoff, .none)
  | .starting, .swapRequested => (.swapping, .beginSwap)
  | .healthy, .swapRequested => (.swapping, .beginSwap)
  | .swapping, .swapProved => (.healthy, .settleSwap)
  | .swapping, .swapFailed => (.starting, .rollback)
  | .swapping, .exited => (.starting, .rollback)
  | .swapping, .healthOk => (.swapping, .none)
  | .swapping, .startTimedOut => (.swapping, .none)
  | .swapping, .unhealthy => (.swapping, .none)
  | .swapping, .stabilityViolated => (.starting, .rollbackToPrevious)
  | .swapping, .swapRequested => (.swapping, .none)
  | .stopped, .stopRequested => (.stopped, .exit)
  | .backoff, .stopRequested => (.stopping, .exit)
  | _, .stopRequested => (.stopping, .killAndExit)
  | .stopping, .stopComplete => (.stopped, .exit)
  | .stopping, _ => (.stopping, .none)
  | .stopped, _ => (.stopped, .exit)
  | phase, _ => (phase, .none)

structure Backoff where
  baseMs : ℕ
  factor : ℕ
  maxMs : ℕ

namespace Backoff

def new (baseMs factor maxMs : ℕ) : Backoff := ⟨baseMs, max factor 1, max maxMs baseMs⟩

/-- The loop of `delay_ms`: `checked_mul` on 64 bits, and out at the ceiling. -/
def grow (backoff : Backoff) : ℕ → ℕ → ℕ
  | 0, delay => min delay backoff.maxMs
  | attempt + 1, delay =>
      if 2 ^ 64 ≤ delay * backoff.factor then backoff.maxMs
      else if backoff.maxMs ≤ delay * backoff.factor then backoff.maxMs
      else backoff.grow attempt (delay * backoff.factor)

def delayMs (backoff : Backoff) (attempt : ℕ) : ℕ := backoff.grow attempt backoff.baseMs

end Backoff

end WasmAgent.Watchdog
