import WasmAgent.Watchdog.Supervisor

/-!
# The plain steps of a pass

Most of a pass only looks at the kernel, starts it or ends it, and leaves to the swaps what they
record.
-/

namespace WasmAgent.Watchdog

open List WasmAgent.Core Script

/-- An operation that has no part in swaps and their records. -/
def Plain : Op → Prop
  | .pendingRequests => False
  | .claim _ => False
  | .putBack _ => False
  | .removeClaimed _ => False
  | .writeCurrent _ => False
  | .writeResult _ => False
  | .report _ => False
  | .saw .swapRequested => False
  | .saw .swapProved => False
  | .saw .swapFailed => False
  | .saw .stabilityViolated => False
  | _ => True

/-- What the supervisor remembers of swaps is the same, but the window may have been closed. -/
structure Untouched (sup after : Supervisor) : Prop where
  lastSwap : after.lastSwap = sup.lastSwap
  stability : after.stability = sup.stability ∨ after.stability = none

def Neutral : Event → Prop
  | .swapStarted _ _ _ => False
  | .swapSettled _ _ => False
  | .swapRolledBack _ _ _ => False
  | _ => True

/-- What a part of a pass returns that has nothing to do with swaps. -/
structure Aside (sup : Supervisor) (result : Supervisor × List Event) : Prop where
  untouched : Untouched sup result.1
  neutral : ∀ event ∈ result.2, Neutral event

theorem Untouched.refl (sup : Supervisor) : Untouched sup sup := ⟨rfl, .inl rfl⟩

theorem Untouched.trans {sup middle after : Supervisor} (hfst : Untouched sup middle)
    (hsnd : Untouched middle after) : Untouched sup after := by
  apply Untouched.mk (hsnd.lastSwap.trans hfst.lastSwap)
  cases hsnd.stability with
  | inl hsame =>
    rw [hsame]
    exact hfst.stability
  | inr hnone => exact .inr hnone

theorem Aside.nil {sup after : Supervisor} (hunt : Untouched sup after) : Aside sup (after, []) :=
  ⟨hunt, fun _ hev => absurd hev not_mem_nil⟩

theorem Aside.one {sup after : Supervisor} {event : Event} (hunt : Untouched sup after)
    (hneut : Neutral event) : Aside sup (after, [event]) := by
  apply Aside.mk hunt
  intro other hoth
  rw [mem_singleton.mp hoth]
  exact hneut

section Steps

variable (config : Config)

theorem only_op (op : Op) (hpln : Plain op) : Only Plain (fun _ => True) (ask op) :=
  only_call hpln (fun _ => trivial)

variable (sup : Supervisor)

theorem only_stopChild : Only Plain (fun result => Untouched sup result.1) (stopChild sup) := by
  rw [stopChild]
  split
  · exact Untouched.refl sup
  · apply Only.bind (only_op .killAndWait trivial)
    intro _ _
    exact ⟨rfl, .inl rfl⟩

theorem only_restartLater :
    Only Plain (fun result => Untouched sup result.1) (restartLater config sup) := by
  apply Only.bind (only_op .instant trivial)
  intro now _
  exact ⟨rfl, .inl rfl⟩

theorem only_launch (kernel : ActiveKernel) :
    Only Plain (fun result => Untouched sup result.1) (launch sup kernel) := by
  apply Only.bind (only_op (.spawn kernel) trivial)
  intro answer _
  cases answer with
  | error error => exact Untouched.refl sup
  | ok pid =>
    apply Only.bind (only_op (.saw .launched) trivial)
    intro _ _
    apply Only.bind (only_op .instant trivial)
    intro now _
    exact ⟨rfl, .inl rfl⟩

theorem only_statusDue (force : Bool) (sup : Supervisor) :
    Only Plain (fun _ => True) (statusDue force sup) := by
  rw [statusDue]
  split
  · trivial
  · apply Only.bind (only_op .instant trivial)
    intro now _
    trivial

theorem only_writeStatus (force : Bool) (sup : Supervisor) :
    Only Plain (Untouched sup) (writeStatus force sup) := by
  apply Only.bind (only_statusDue force sup)
  intro due _
  split
  · apply Only.bind (only_op .writeStatus trivial)
    intro _ _
    apply Only.bind (only_op .instant trivial)
    intro now _
    exact ⟨rfl, .inl rfl⟩
  · exact Untouched.refl sup

theorem only_stop : Only Plain (Aside sup) (stop sup) := by
  apply Only.bind (only_op (.saw .stopRequested) trivial)
  intro _ _
  apply Only.bind (only_stopChild sup)
  intro stopped hstp
  apply Only.bind (only_op .removeStop trivial)
  intro _ _
  apply Only.bind (only_op (.saw .stopComplete) trivial)
  intro _ _
  apply Only.bind (only_writeStatus true _)
  intro written hwrn
  apply Aside.mk (hstp.trans { hwrn with })
  intro event hev
  cases hev with
  | head => trivial
  | tail _ htail =>
    rw [mem_singleton.mp htail]
    trivial

theorem only_childEnd : Only Plain (fun _ => True) (childEnd sup) := by
  rw [childEnd]
  split
  · trivial
  · exact only_op .tryWait trivial

theorem only_isRecentSwap :
    Only Plain (fun found => ∀ previous, found = some previous →
      ∃ settledUntil, sup.stability = some (previous, settledUntil)) (isRecentSwap sup) := by
  rw [isRecentSwap]
  split
  · nofun
  rename_i previous settledUntil hstab
  apply Only.bind (only_op .instant trivial)
  intro now _ other hoth
  split at hoth
  · cases hoth
    exact ⟨settledUntil, hstab⟩
  · cases hoth

theorem only_watchStart : Only Plain (Aside sup) (watchStart config sup) := by
  apply Only.bind (only_op .instant trivial)
  intro now _
  split
  · apply Only.bind (only_op (.saw .startTimedOut) trivial)
    intro _ _
    apply Only.bind (only_stopChild sup)
    intro stopped hstp
    apply Only.bind (only_restartLater config _)
    intro later hltr
    exact Aside.one (hstp.trans { hltr with }) trivial
  apply Only.bind (only_op .probe trivial)
  intro answer _
  split
  · apply Only.bind (only_op (.saw .healthOk) trivial)
    intro _ _
    apply Only.bind (only_op (.writePid _) trivial)
    intro _ _
    exact Aside.one ⟨rfl, .inl rfl⟩ trivial
  · exact Aside.nil (Untouched.refl sup)

theorem only_watchMisses : Only Plain (Aside sup) (watchMisses config sup) := by
  apply Only.bind (only_op .probe trivial)
  intro answer _
  split
  · apply Only.bind (only_op (.saw .healthOk) trivial)
    intro _ _
    exact Aside.nil ⟨rfl, .inl rfl⟩
  dsimp only
  split
  · apply Only.bind (only_op (.saw .unhealthy) trivial)
    intro _ _
    apply Only.bind (only_stopChild _)
    intro stopped hstp
    apply Only.bind (only_restartLater config _)
    intro later hltr
    apply Aside.one
    · exact Untouched.trans { hstp with } { hltr with }
    · trivial
  · exact Aside.nil ⟨rfl, .inl rfl⟩

theorem only_closeWindow : Only Plain (Untouched sup) (closeWindow sup) := by
  rw [closeWindow]
  split
  · exact Untouched.refl sup
  apply Only.bind (only_op .instant trivial)
  intro now _
  split
  · exact ⟨rfl, .inr rfl⟩
  · exact Untouched.refl sup

theorem only_watchHealth : Only Plain (Aside sup) (watchHealth config sup) := by
  rw [watchHealth]
  split
  · exact only_watchStart config sup
  · split
    · exact only_watchMisses config sup
    · apply Only.bind (only_closeWindow sup)
      intro closed hclos
      exact Aside.nil hclos
  · exact Aside.nil (Untouched.refl sup)

theorem only_awaitProof (deadline patience : ℕ) (sup : Supervisor) :
    Only Plain (fun result => Untouched sup result.1)
      (awaitProof config deadline patience sup) := by
  induction patience with
  | zero =>
    apply Only.bind (only_op .waitLonger trivial)
    intro more _
    exact more.elim
  | succ patience ih =>
    apply Only.bind (only_childEnd sup)
    intro ended _
    cases ended with
    | some status => exact ⟨rfl, .inl rfl⟩
    | none =>
      apply Only.bind (only_op .probe trivial)
      intro answer _
      split
      · exact Untouched.refl sup
      apply Only.bind (only_op .instant trivial)
      intro now _
      split
      · exact Untouched.refl sup
      · apply Only.bind (only_op (.sleep _) trivial)
        intro _ _
        exact ih

theorem only_proveCandidate (patience : ℕ) (sup : Supervisor) (next : ActiveKernel) :
    Only Plain (fun result => Untouched sup result.1)
      (proveCandidate config patience sup next) := by
  apply Only.bind (only_op (.waitPortBindable _) trivial)
  intro freed _
  split
  · exact Untouched.refl sup
  apply Only.bind (only_launch sup next)
  rintro ⟨started, answer⟩ hstad
  cases answer with
  | error error => exact hstad
  | ok pid =>
    apply Only.bind (only_op .instant trivial)
    intro now _
    apply (only_awaitProof config _ patience started).widen (fun _ hpln => hpln)
    intro result hres
    exact hstad.trans hres

theorem only_awaitRestored (deadline patience : ℕ) (sup : Supervisor) :
    Only Plain (fun result => Untouched sup result.1)
      (awaitRestored config deadline patience sup) := by
  induction patience with
  | zero =>
    apply Only.bind (only_op .waitLonger trivial)
    intro more _
    exact more.elim
  | succ patience ih =>
    apply Only.bind (only_op .instant trivial)
    intro now _
    split
    · exact Untouched.refl sup
    apply Only.bind (only_childEnd sup)
    intro ended _
    cases ended with
    | some status =>
      apply Only.bind (only_op (.saw .exited) trivial)
      intro _ _
      exact ⟨rfl, .inl rfl⟩
    | none =>
      apply Only.bind (only_op .probe trivial)
      intro answer _
      split
      · apply Only.bind (only_op (.saw .healthOk) trivial)
        intro _ _
        exact Untouched.refl sup
      · apply Only.bind (only_op (.sleep _) trivial)
        intro _ _
        exact ih

theorem only_restorePrevious (patience : ℕ) (sup : Supervisor) (previous : ActiveKernel) :
    Only Plain (fun result => Untouched sup result.1)
      (restorePrevious config patience sup previous) := by
  apply Only.bind (only_launch sup previous)
  rintro ⟨started, answer⟩ hstad
  cases answer with
  | error error => exact hstad
  | ok pid =>
    apply Only.bind (only_op .instant trivial)
    intro now _
    apply (only_awaitRestored config _ patience started).widen (fun _ hpln => hpln)
    intro result hres
    exact hstad.trans hres

theorem only_armStability (previous : ActiveKernel) :
    Only Plain (fun armed => ∀ kept settledUntil, armed = some (kept, settledUntil) →
      kept = previous) (armStability config previous) := by
  rw [armStability]
  split
  · apply Only.bind (only_op .instant trivial)
    intro now _ kept settledUntil hkept
    cases hkept
    rfl
  · nofun

theorem only_standAfter (restored : Bool) (sup : Supervisor) :
    Only Plain (Untouched sup) (standAfter restored sup) := by
  rw [standAfter]
  split
  · apply Only.bind (only_op (.writePid _) trivial)
    intro _ _
    exact ⟨rfl, .inl rfl⟩
  · apply Only.bind (only_op .instant trivial)
    intro now _
    exact ⟨rfl, .inl rfl⟩

end Steps

end WasmAgent.Watchdog
