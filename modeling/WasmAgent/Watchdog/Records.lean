import WasmAgent.Watchdog.Home
import WasmAgent.Watchdog.Plain

/-!
# Whose swap a record names

A rollback is recorded under the id of the swap that the supervisor remembers.  That is its own
swap when a kernel that was swapped in dies in its window; when a swap fails, it is the one
before.
-/

namespace WasmAgent.Watchdog

open List Option WasmAgent.Core

/-- What is seen of the swaps: the request that was claimed, the id of the swap that was begun,
the kernel that is being proved, the one that runs, those that answered `/health` during their
own swap, the recorded one, the id that the supervisor remembers, the results with the id of the
swap they were written in, and the events. -/
structure Tally where
  claimed : Option SwapRequest
  begun : Option String
  candidate : Option ActiveKernel
  running : Option ActiveKernel
  answered : List ActiveKernel
  current : Option ActiveKernel
  last : Option String
  verdicts : List (SwapResult × String)
  events : List Event

variable {events : List Event}

section Attribution

def lastStarted : Option String → List Event → Option String
  | last, [] => last
  | _, .swapStarted id _ _ :: events => lastStarted (some id) events
  | last, _ :: events => lastStarted last events

def Attributed : Option String → List Event → Prop
  | _, [] => True
  | _, .swapStarted id _ _ :: events => Attributed (some id) events
  | last, .swapRolledBack id _ _ :: events => last = some id ∧ Attributed last events
  | last, _ :: events => Attributed last events

theorem lastStarted_append (last : Option String) (first second : List Event) :
    lastStarted last (first ++ second) = lastStarted (lastStarted last first) second := by
  induction first generalizing last with
  | nil => rfl
  | cons event events ih => cases event <;> exact ih _

theorem attributed_append (last : Option String) (first second : List Event) :
    Attributed last (first ++ second) ↔
      Attributed last first ∧ Attributed (lastStarted last first) second := by
  induction first generalizing last with
  | nil => exact iff_of_eq (true_and _).symm
  | cons event events ih =>
    cases event with
    | swapRolledBack id active detail =>
      change _ ∧ Attributed last (events ++ second) ↔ (_ ∧ Attributed last events) ∧ _
      rw [ih, and_assoc]
      rfl
    | _ => exact ih _

theorem lastStarted_of_neutral {last : Option String} (hneut : ∀ event ∈ events, Neutral event) :
    lastStarted last events = last := by
  induction events with
  | nil => rfl
  | cons event events ih =>
    have hev := hneut event mem_cons_self
    have hrest := ih (fun other hoth => hneut other (mem_cons_of_mem _ hoth))
    cases event with
    | swapStarted id previous next => exact hev.elim
    | _ => exact hrest

theorem attributed_of_neutral {last : Option String} (hneut : ∀ event ∈ events, Neutral event) :
    Attributed last events := by
  induction events with
  | nil => trivial
  | cons event events ih =>
    have hev := hneut event mem_cons_self
    have hrest := ih (fun other hoth => hneut other (mem_cons_of_mem _ hoth))
    cases event with
    | swapStarted | swapRolledBack => exact hev.elim
    | _ => exact hrest

end Attribution

variable {kernel : ActiveKernel} {result : SwapResult}

section Clerk

variable (config : Config)

/-- The configured kernel, or one that answered `/health` during its own swap. -/
def Known (seen : Tally) (kernel : ActiveKernel) : Prop :=
  config.kernel = some kernel.binary ∨ kernel ∈ seen.answered

def About (id name : String) : Prop := name = id ∨ name = id ++ ".rollback"

def proves (seen : Tally) (answer : Probe) : List ActiveKernel :=
  if answer.ready ∧ seen.running = seen.candidate then seen.candidate.toList else []

/-- Who keeps account of the swaps and of what is recorded of them. -/
def clerk : Observer Op Answer Tally where
  lawful
    | .writeCurrent kernel, seen => Known config seen kernel
    | .writeResult result, seen => ∃ id, seen.begun = some id ∧ About id result.id
    | .report events, seen => Attributed none (seen.events ++ events)
    | _, _ => True
  admits
    | .readCurrent, seen, answer =>
        answer = seen.current ∧ ∀ kernel, answer = some kernel → Known config seen kernel
    | .saw .swapFailed, seen, _ => seen.begun = some (seen.last.getD "swap")
    | _, _, _ => True
  step
    | .claim request, true, seen => { seen with claimed := some request }
    | .saw .swapRequested, _, seen =>
        { seen with
          begun := seen.claimed.map SwapRequest.id
          candidate := seen.claimed.map SwapRequest.kernel }
    | .saw .swapProved, _, seen => { seen with candidate := none, last := seen.begun }
    | .saw .swapFailed, _, seen =>
        { seen with candidate := none, last := some (seen.last.getD "swap") }
    | .saw .stabilityViolated, _, seen => { seen with last := some (seen.last.getD "swap") }
    | .spawn kernel, .ok _, seen => { seen with running := some kernel }
    | .killAndWait, _, seen => { seen with running := none }
    | .tryWait, some _, seen => { seen with running := none }
    | .probe, answer, seen => { seen with answered := seen.answered ++ proves seen answer }
    | .writeCurrent kernel, .record, seen => { seen with current := some kernel }
    | .writeCurrent kernel, .both, seen => { seen with current := some kernel }
    | .writeResult result, true, seen =>
        { seen with verdicts := seen.verdicts ++ [(result, seen.begun.getD "")] }
    | .report events, _, seen => { seen with events := seen.events ++ events }
    | _, _, seen => seen

variable {config} {sup after : Supervisor} {seen : Tally} {pending : List Event}

structure Agreed (config : Config) (pending : List Event) (sup : Supervisor) (seen : Tally) :
    Prop where
  attributed : Attributed none (seen.events ++ pending)
  last : seen.last = sup.lastSwap.map SwapSummary.id
  blamed : ∀ id, seen.last = some id →
    seen.begun = some id ∧ lastStarted none (seen.events ++ pending) = some id
  window : ∀ previous settledUntil, sup.stability = some (previous, settledUntil) →
    seen.last.isSome = true ∧ Known config seen previous
  closed : seen.candidate = none

theorem Agreed.aside (hagrd : Agreed config pending sup seen)
    {result : Supervisor × List Event} (haside : Aside sup result) :
    Agreed config (pending ++ result.2) result.1 seen := by
  have hstad : lastStarted none (seen.events ++ (pending ++ result.2)) =
      lastStarted none (seen.events ++ pending) := by
    rw [← append_assoc, lastStarted_append, lastStarted_of_neutral haside.neutral]
  constructor
  · rw [← append_assoc, attributed_append]
    exact ⟨hagrd.attributed, attributed_of_neutral haside.neutral⟩
  · rw [haside.untouched.lastSwap]
    exact hagrd.last
  · rw [hstad]
    exact hagrd.blamed
  · intro previous settledUntil hwin
    cases haside.untouched.stability with
    | inl hsame =>
      rw [hsame] at hwin
      exact hagrd.window previous settledUntil hwin
    | inr hnone =>
      rw [hnone] at hwin
      cases hwin
  · exact hagrd.closed

theorem Agreed.untouched (hagrd : Agreed config pending sup seen)
    (hunt : Untouched sup after) : Agreed config pending after seen := by
  have hsame := hagrd.aside (Aside.nil hunt)
  rw [append_nil] at hsame
  exact hsame

theorem plain_step {op : Op} {answer : Answer op} (hpln : Plain op)
    (hclos : seen.candidate = none) :
    ∃ running, (clerk config).step op answer seen = { seen with running := running } := by
  cases op with
  | spawn kernel =>
    cases answer with
    | error error => exact ⟨seen.running, rfl⟩
    | ok pid => exact ⟨some kernel, rfl⟩
  | tryWait =>
    cases answer with
    | none => exact ⟨seen.running, rfl⟩
    | some status => exact ⟨none, rfl⟩
  | killAndWait => exact ⟨none, rfl⟩
  | probe =>
    have hprov : proves seen answer = [] := by
      rw [proves, hclos]
      split <;> rfl
    apply Exists.intro seen.running
    change { seen with answered := seen.answered ++ proves seen answer } = _
    rw [hprov, append_nil]
  | saw input => cases input <;> first | exact hpln.elim | exact ⟨seen.running, rfl⟩
  | pendingRequests => exact hpln.elim
  | claim | putBack | removeClaimed | writeCurrent | writeResult | report => exact hpln.elim
  | _ => exact ⟨seen.running, rfl⟩

theorem plain_lawful {op : Op} (hpln : Plain op) : (clerk config).lawful op seen := by
  cases op with
  | writeCurrent | writeResult | report => exact hpln.elim
  | _ => trivial

theorem Agreed.running (hagrd : Agreed config pending sup seen)
    (running : Option ActiveKernel) : Agreed config pending sup { seen with running := running } :=
  { hagrd with }

theorem Agreed.plain {Value : Type} {script : Watch Value} {post : Value → Prop}
    (hagrd : Agreed config pending sup seen) (honly : script.Only Plain post) :
    script.Follows (clerk config) (fun value after => post value ∧ Agreed config pending sup after)
      seen := by
  apply honly.follows hagrd
  · intro op after hpln _
    exact plain_lawful hpln
  intro op answer after hpln haft
  obtain ⟨running, hstep⟩ := @plain_step config after op answer hpln haft.closed
  rw [hstep]
  exact haft.running running

theorem Agreed.part {script : Watch (Supervisor × List Event)}
    (hagrd : Agreed config pending sup seen) (honly : script.Only Plain (Aside sup)) :
    script.Follows (clerk config)
      (fun result after => Agreed config (pending ++ result.2) result.1 after) seen := by
  apply (hagrd.plain honly).weaken
  rintro result after ⟨haside, haft⟩
  exact haft.aside haside

structure Swapping (config : Config) (pending : List Event) (request : SwapRequest)
    (previous : ActiveKernel) (sup : Supervisor) (seen : Tally) : Prop where
  begun : seen.begun = some request.id
  attributed : Attributed none (seen.events ++ pending)
  last : seen.last = sup.lastSwap.map SwapSummary.id
  known : Known config seen previous
  window : sup.stability = none

section Inside

variable {request : SwapRequest} {previous : ActiveKernel} {id : String}
variable (hswg : Swapping config pending request previous sup seen)
include hswg

theorem Swapping.untouched
    (hunt : Untouched sup after) : Swapping config pending request previous after seen := by
  apply Swapping.mk hswg.begun hswg.attributed _ hswg.known
  · cases hunt.stability with
    | inl hsame => exact hsame.trans hswg.window
    | inr hnone => exact hnone
  · rw [hunt.lastSwap]
    exact hswg.last

theorem Swapping.running (running : Option ActiveKernel) :
    Swapping config pending request previous sup { seen with running := running } :=
  { hswg with }

theorem Swapping.grown (kernels : List ActiveKernel) : Swapping config pending request previous sup
      { seen with answered := seen.answered ++ kernels } :=
  { hswg with known := hswg.known.imp_right (mem_append_left _) }

omit hswg

def Proving (config : Config) (pending : List Event) (request : SwapRequest)
    (previous : ActiveKernel) (sup : Supervisor) (seen : Tally) : Prop :=
  Swapping config pending request previous sup seen ∧ seen.candidate = some request.kernel

theorem awaitProof_tallied (deadline patience : ℕ)
    (hprv : Proving config pending request previous sup seen)
    (hruns : seen.running = some request.kernel) :
    (awaitProof config deadline patience sup).Follows (clerk config)
      (fun result after => Swapping config pending request previous result.1 after ∧
        (result.2 = none → request.kernel ∈ after.answered)) seen := by
  induction patience generalizing seen with
  | zero =>
    apply And.intro trivial
    intro more _
    exact more.elim
  | succ patience ih =>
    have hchild : (childEnd sup).Follows (clerk config)
        (fun ended after => Swapping config pending request previous sup after ∧
          (ended = none → after = seen)) seen := by
      rw [childEnd]
      split
      · exact ⟨hprv.1, fun _ => rfl⟩
      apply And.intro trivial
      intro ended _
      cases ended with
      | none => exact ⟨hprv.1, fun _ => rfl⟩
      | some status => exact ⟨hprv.1.running none, fun hnone => by cases hnone⟩
    apply Script.Follows.bind hchild
    rintro ended after ⟨haft, hsame⟩
    cases ended with
    | some status => exact ⟨haft.untouched ⟨rfl, .inl rfl⟩, fun hnone => by cases hnone⟩
    | none =>
      rw [hsame rfl]
      apply And.intro trivial
      intro answer _
      have hgrown : Swapping config pending request previous sup
          { seen with answered := seen.answered ++ proves seen answer } :=
        hprv.1.grown (proves seen answer)
      change Script.Follows _ (if answer.ready = true then _ else _) _ _
      by_cases hrdy : answer.ready = true
      · rw [if_pos hrdy]
        apply And.intro hgrown
        intro _
        have hprov : proves seen answer = [request.kernel] := by
          rw [proves, if_pos ⟨hrdy, hruns.trans hprv.2.symm⟩, hprv.2]
          rfl
        change request.kernel ∈ seen.answered ++ proves seen answer
        rw [hprov]
        exact mem_append_right _ (mem_singleton_self _)
      rw [if_neg hrdy]
      apply And.intro trivial
      intro now _
      change Script.Follows _ (if deadline ≤ now then _ else _) _ _
      by_cases hlate : deadline ≤ now
      · rw [if_pos hlate]
        exact ⟨hgrown, fun hnone => by cases hnone⟩
      rw [if_neg hlate]
      apply And.intro trivial
      intro _ _
      exact ih ⟨hgrown, hprv.2⟩ hruns

theorem stopChild_tallied (hprv : Proving config pending request previous sup seen) :
    (stopChild sup).Follows (clerk config)
      (fun result after => Proving config pending request previous result.1 after) seen := by
  rw [stopChild]
  split
  · exact hprv
  · apply And.intro trivial
    intro _ _
    exact ⟨(hprv.1.running none).untouched ⟨rfl, .inl rfl⟩, hprv.2⟩

variable (patience : ℕ)

theorem proveCandidate_tallied (hprv : Proving config pending request previous sup seen) :
    (proveCandidate config patience sup request.kernel).Follows (clerk config)
      (fun result after => Swapping config pending request previous result.1 after ∧
        (result.2 = none → request.kernel ∈ after.answered)) seen := by
  apply And.intro trivial
  intro freed _
  cases freed with
  | false => exact ⟨hprv.1, nofun⟩
  | true =>
    apply And.intro trivial
    intro answer _
    cases answer with
    | error error => exact ⟨hprv.1, nofun⟩
    | ok pid =>
      apply And.intro trivial
      intro _ _
      apply And.intro trivial
      intro started _
      apply And.intro trivial
      intro now _
      apply awaitProof_tallied
      · exact ⟨(hprv.1.running _).untouched ⟨rfl, .inl rfl⟩, hprv.2⟩
      · rfl

def swapEvents (request : SwapRequest) (previous : ActiveKernel) (events : List Event) :
    List Event :=
  .swapStarted request.id previous.binary request.binary :: events

theorem writeCurrent_tallied (hknw : Known config seen kernel) :
    (writeCurrent kernel).Follows (clerk config)
      (fun _ after => ∃ current, after = { seen with current := current }) seen := by
  apply And.intro hknw
  intro written _
  cases written with
  | nothing => exact ⟨seen.current, rfl⟩
  | record | both => exact ⟨some kernel, rfl⟩

theorem writeResult_tallied (hbegun : seen.begun = some id) (habout : About id result.id) :
    (writeResult result).Follows (clerk config)
      (fun _ after => ∃ verdicts, after = { seen with verdicts := verdicts }) seen := by
  apply And.intro ⟨id, hbegun, habout⟩
  intro written _
  cases written with
  | false => exact ⟨seen.verdicts, rfl⟩
  | true => exact ⟨_, rfl⟩

/-- A swap has an outcome, and the supervisor is about to remember it. -/
structure Concluded (config : Config) (pending : List Event) (id : String)
    (previous : ActiveKernel) (seen : Tally) : Prop where
  begun : seen.begun = some id
  attributed : Attributed none (seen.events ++ pending)
  last : seen.last = some id
  known : Known config seen previous
  closed : seen.candidate = none

theorem Concluded.plain {Value : Type} {script : Watch Value} {post : Value → Prop}
    (hconc : Concluded config pending id previous seen) (honly : script.Only Plain post) :
    script.Follows (clerk config) (fun value after => post value ∧
      Concluded config pending id previous after) seen := by
  apply honly.follows hconc
  · intro op after hpln _
    exact plain_lawful hpln
  intro op answer after hpln haft
  obtain ⟨running, hstep⟩ := @plain_step config after op answer hpln haft.closed
  rw [hstep]
  exact { haft with }

variable (hconc : Concluded config pending id previous seen)
include hconc

theorem Concluded.writeCurrent (hknw : Known config seen kernel) :
    (writeCurrent kernel).Follows (clerk config)
      (fun _ after => Concluded config pending id previous after) seen := by
  apply (writeCurrent_tallied hknw).weaken
  rintro _ after ⟨current, rfl⟩
  exact { hconc with }

theorem Concluded.writeResult (habout : About id result.id) :
    (writeResult result).Follows (clerk config)
      (fun _ after => Concluded config pending id previous after) seen := by
  apply (writeResult_tallied hconc.begun habout).weaken
  rintro _ after ⟨verdicts, rfl⟩
  exact { hconc with }

omit hconc

theorem Concluded.agreed (hconc : Concluded config pending request.id previous seen)
    (hlast : after.lastSwap.map SwapSummary.id = some request.id)
    (hwin : ∀ kept settledUntil, after.stability = some (kept, settledUntil) → kept = previous)
    (heven : Attributed (some request.id) events)
    (hstad : lastStarted (some request.id) events = some request.id) :
    Agreed config (pending ++ swapEvents request previous events) after seen := by
  have hname : lastStarted none (seen.events ++ (pending ++ swapEvents request previous events)) =
      some request.id := by
    rw [← append_assoc, lastStarted_append]
    exact hstad
  constructor
  · rw [← append_assoc, attributed_append]
    exact ⟨hconc.attributed, heven⟩
  · rw [hlast]
    exact hconc.last
  · intro id hid
    rw [hconc.last] at hid
    cases hid
    exact ⟨hconc.begun, hname⟩
  · intro kept settledUntil hkept
    rw [hwin kept settledUntil hkept, hconc.last]
    exact ⟨rfl, hconc.known⟩
  · exact hconc.closed

theorem settleSwap_tallied (hswg : Swapping config pending request previous sup seen)
    (hprov : request.kernel ∈ seen.answered) :
    (settleSwap config sup request previous request.kernel).Follows (clerk config)
      (fun result after =>
        Agreed config (pending ++ swapEvents request previous result.2) result.1 after) seen := by
  apply And.intro trivial
  intro _ _
  have hconc : Concluded config pending request.id previous
      { seen with candidate := none, last := seen.begun } :=
    { hswg with last := hswg.begun, closed := rfl }
  apply Script.Follows.bind (hconc.writeCurrent (.inr hprov))
  intro _ recorded hrecd
  apply Script.Follows.bind (hrecd.plain (only_op (.writePid _) trivial))
  rintro _ piddled ⟨-, hpid⟩
  apply Script.Follows.bind (hpid.plain (only_armStability config previous))
  rintro armed windowed ⟨harmed, hwin⟩
  apply Script.Follows.bind (hwin.plain (only_op .nowMs trivial))
  rintro first timed ⟨-, htimed⟩
  apply Script.Follows.bind (htimed.plain (only_op .nowMs trivial))
  rintro second again ⟨-, hagain⟩
  apply Script.Follows.bind (hagain.writeResult (.inl rfl))
  intro _ written hwrn
  exact hwrn.agreed rfl harmed trivial rfl

theorem recordRollback_tallied (hbegun : seen.begun = some id)
    (hrem : (sup.lastSwap.map SwapSummary.id).getD "swap" = id) (detail : String) :
    (recordRollback sup detail previous).Follows (clerk config)
      (fun result after => (∃ verdicts, after = { seen with verdicts := verdicts }) ∧
        result.1.lastSwap.map SwapSummary.id = some id ∧
        result.1.stability = sup.stability ∧
        result.2 = [.swapRolledBack id previous.binary detail]) seen := by
  apply And.intro trivial
  intro first _
  apply And.intro trivial
  intro second _
  rw [hrem]
  apply Script.Follows.bind (writeResult_tallied hbegun (.inr rfl))
  intro _ written hwrn
  exact ⟨hwrn, rfl, rfl, rfl⟩

theorem rollBack_tallied (why : String) (hswg : Swapping config pending request previous sup seen) :
    (rollBack config patience sup request previous why).Follows (clerk config)
      (fun result after =>
        Agreed config (pending ++ swapEvents request previous result.2) result.1 after) seen := by
  apply And.intro trivial
  intro _ hfair
  have hrem : (sup.lastSwap.map SwapSummary.id).getD "swap" = request.id := by
    rw [← hswg.last]
    exact (Option.some.inj (hswg.begun.symm.trans hfair)).symm
  have hconc : Concluded config pending request.id previous
      { seen with candidate := none, last := some (seen.last.getD "swap") } :=
    { hswg with last := hfair.symm.trans hswg.begun, closed := rfl }
  apply Script.Follows.bind (hconc.plain (only_stopChild sup))
  rintro stopped killed ⟨hstp, hkil⟩
  apply Script.Follows.bind (hkil.writeCurrent hkil.known)
  intro _ recorded hrecd
  apply Script.Follows.bind (hrecd.plain (only_op (.waitPortBindable _) trivial))
  rintro freed waited ⟨-, hwait⟩
  apply Script.Follows.bind (hwait.plain (only_restorePrevious config patience _ previous))
  rintro restored tried ⟨hrstd, htried⟩
  apply Script.Follows.bind (htried.plain (only_standAfter restored.2 restored.1))
  rintro stood settled ⟨hstood, hsetd⟩
  have hunt := (hstp.trans hrstd).trans hstood
  apply Script.Follows.bind (recordRollback_tallied hsetd.begun _ _)
  · rintro result noted ⟨⟨verdicts, rfl⟩, hlast, hwin, heven⟩
    have hnoted : Concluded config pending request.id previous
        { settled with verdicts := verdicts } :=
      { hsetd with }
    apply Script.Follows.bind (hnoted.plain (only_op .nowMs trivial))
    rintro wall timed ⟨-, htimed⟩
    apply Script.Follows.bind (htimed.writeResult (.inl rfl))
    intro _ written hwrn
    apply hwrn.agreed hlast
    · intro kept settledUntil hkept
      have hnone := (hswg.untouched hunt).window
      rw [hwin, hnone] at hkept
      cases hkept
    · rw [heven]
      exact ⟨rfl, trivial⟩
    · rw [heven]
      rfl
  · rw [hunt.lastSwap]
    exact hrem

theorem active_tallied :
    (active config).Follows (clerk config)
      (fun found after => after = seen ∧ ∀ kernel, found = some kernel → Known config seen kernel)
      seen := by
  apply And.intro trivial
  rintro found ⟨-, hknw⟩
  cases found with
  | some kernel => exact ⟨rfl, hknw⟩
  | none =>
    apply And.intro rfl
    intro kernel hker
    obtain ⟨binary, hbin, rfl⟩ := map_eq_some_iff.mp hker
    exact .inl hbin

theorem performSwap_tallied (hagrd : Agreed config pending sup seen)
    (hclmd : seen.claimed = some request) :
    (performSwap config patience sup request).Follows (clerk config)
      (fun result after => Agreed config (pending ++ result.2) result.1 after) seen := by
  apply Script.Follows.bind active_tallied
  rintro found after ⟨rfl, hknw⟩
  cases found with
  | none => exact hagrd.aside (Aside.one (Untouched.refl sup) trivial)
  | some previous =>
    change Script.Follows _ (if _ then _ else _) _ _
    by_cases hbeg : (transition sup.phase .swapRequested).2 ≠ .beginSwap
    · rw [if_pos hbeg]
      apply And.intro trivial
      intro _ _
      exact hagrd.aside (Aside.one (Untouched.refl sup) trivial)
    rw [if_neg hbeg]
    apply And.intro trivial
    intro _ _
    have hprv : Proving config pending request previous
        { sup with phase := .swapping, stability := none }
        { after with
          begun := after.claimed.map SwapRequest.id
          candidate := after.claimed.map SwapRequest.kernel } := by
      rw [hclmd]
      exact ⟨⟨rfl, hagrd.attributed, hagrd.last, hknw previous rfl, rfl⟩, rfl⟩
    apply Script.Follows.bind (stopChild_tallied hprv)
    intro stopped killed hkil
    apply Script.Follows.bind (proveCandidate_tallied patience hkil)
    rintro ⟨proved, refuted⟩ judged ⟨hjud, hansd⟩
    cases refuted with
    | none =>
      apply Script.Follows.bind (settleSwap_tallied hjud (hansd rfl))
      intro result settled hsetd
      exact hsetd
    | some why =>
      apply Script.Follows.bind (rollBack_tallied patience why hjud)
      intro result restored hrstd
      exact hrstd

theorem takeSwap_tallied (hagrd : Agreed config pending sup seen) :
    (takeSwap config patience sup).Follows (clerk config)
      (fun result after => Agreed config (pending ++ result.2) result.1 after) seen := by
  rw [takeSwap]
  split
  · exact hagrd.aside (Aside.nil (Untouched.refl sup))
  apply And.intro trivial
  intro found _
  cases found with
  | nil => exact hagrd.aside (Aside.nil (Untouched.refl sup))
  | cons request others =>
    apply And.intro trivial
    intro claimed _
    cases claimed with
    | false => exact hagrd.aside (Aside.one (Untouched.refl sup) trivial)
    | true =>
      have hclmd : Agreed config pending sup { seen with claimed := some request } := { hagrd with }
      apply Script.Follows.bind (performSwap_tallied patience hclmd rfl)
      intro result swapped hswap
      apply And.intro trivial
      intro _ _
      exact hswap

variable (hagrd : Agreed config pending sup seen)
include hagrd

theorem Agreed.stopChild (hlast : seen.last = some id) (hknw : Known config seen previous) :
    (stopChild sup).Follows (clerk config)
      (fun result after => Agreed config pending result.1 after ∧ after.last = some id ∧
        Known config after previous) seen := by
  rw [Watchdog.stopChild]
  split
  · exact ⟨hagrd, hlast, hknw⟩
  · apply And.intro trivial
    intro _ _
    exact ⟨(hagrd.running none).untouched ⟨rfl, .inl rfl⟩, hlast, hknw⟩

theorem Agreed.rolledBack (hlast : seen.last = some id)
    (hname : after.lastSwap.map SwapSummary.id = some id)
    (hwin : after.stability = sup.stability) (current : Option ActiveKernel)
    (verdicts : List (SwapResult × String)) {active detail : String} :
    Agreed config (pending ++ [.swapRolledBack id active detail]) after
      { seen with current := current, verdicts := verdicts } := by
  obtain ⟨hbegun, hstad⟩ := hagrd.blamed id hlast
  constructor
  · rw [← append_assoc, attributed_append]
    exact ⟨hagrd.attributed, hstad, trivial⟩
  · exact hlast.trans hname.symm
  · intro other hoth
    apply And.intro
    · exact hbegun.trans (hlast.symm.trans hoth)
    · rw [← append_assoc, lastStarted_append]
      exact hstad.trans (hlast.symm.trans hoth)
  · intro kept settledUntil hkept
    rw [hwin] at hkept
    exact hagrd.window kept settledUntil hkept
  · exact hagrd.closed

omit hagrd in
/-- A kernel that was swapped in dies in its window: the rollback is recorded under the id of its
own swap. -/
theorem rollBackToPrevious_tallied (uptimeMs : ℕ) (hagrd : Agreed config pending sup seen)
    (hrem : seen.last.isSome = true) (hknw : Known config seen previous) :
    (rollBackToPrevious sup previous uptimeMs).Follows (clerk config)
      (fun result after => Agreed config (pending ++ result.2) result.1 after) seen := by
  obtain ⟨id, hlast⟩ := isSome_iff_exists.mp hrem
  have hseen : { seen with last := some (seen.last.getD "swap") } = seen := by
    rw [hlast, getD_some, ← hlast]
  have hclos : Agreed config pending { sup with stability := none } seen :=
    hagrd.untouched ⟨rfl, .inr rfl⟩
  apply And.intro trivial
  intro _ _
  change Script.Follows _ _ _ { seen with last := some (seen.last.getD "swap") }
  rw [hseen]
  apply Script.Follows.bind (hclos.stopChild hlast hknw)
  rintro stopped killed ⟨hkil, hlast, hknw⟩
  apply Script.Follows.bind (writeCurrent_tallied hknw)
  rintro _ recorded ⟨current, rfl⟩
  apply And.intro trivial
  intro now _
  obtain ⟨hbegun, hstad⟩ := hkil.blamed id hlast
  have hremem : (stopped.1.lastSwap.map SwapSummary.id).getD "swap" = id := by
    rw [← hkil.last, hlast]
    rfl
  have hrec := @recordRollback_tallied config
    { stopped.1 with attempt := 0, restartAt := now } { killed with current := current } previous id
    hbegun hremem
    s!"the swapped-in kernel exited after {uptimeMs}ms (stability window)"
  apply Script.Follows.bind hrec
  rintro ⟨result, events⟩ noted ⟨⟨verdicts, rfl⟩, hname, hwin, rfl⟩
  exact @Agreed.rolledBack config stopped.1 { result with phase := .backoff } killed pending id
    hkil hlast hname hwin current verdicts previous.binary _

theorem settleExit_tallied :
    (settleExit config sup).Follows (clerk config)
      (fun result after => Agreed config (pending ++ result.2) result.1 after) seen := by
  rw [settleExit]
  split
  · exact hagrd.aside (Aside.nil (Untouched.refl sup))
  apply Script.Follows.bind (hagrd.plain (only_op .tryWait trivial))
  rintro ended waited ⟨-, hwait⟩
  cases ended with
  | none => exact hwait.aside (Aside.nil (Untouched.refl sup))
  | some status =>
    apply Script.Follows.bind (hwait.plain (only_op .instant trivial))
    rintro now timed ⟨-, htimed⟩
    apply Script.Follows.bind (htimed.plain (only_op .nowMs trivial))
    rintro wall again ⟨-, hagain⟩
    have hgone : Agreed config pending { sup with
        child := none
        childPid := none
        lastExit := some ⟨sup.childPid.getD 0, status.code, now - sup.childStarted, wall⟩ }
        again := hagain.untouched ⟨rfl, .inl rfl⟩
    apply Script.Follows.bind (hgone.plain (only_isRecentSwap _))
    rintro recent looked ⟨hrcnt, hlook⟩
    cases recent with
    | some previous =>
      obtain ⟨settledUntil, hstab⟩ := hrcnt previous rfl
      obtain ⟨hrem, hknw⟩ := hlook.window previous settledUntil hstab
      exact rollBackToPrevious_tallied _ hlook hrem hknw
    | none =>
      apply Script.Follows.bind (hlook.plain (only_op (.saw .exited) trivial))
      rintro _ marked ⟨-, hmar⟩
      apply Script.Follows.bind (hmar.plain (only_restartLater config _))
      rintro later counted ⟨hltr, hcntd⟩
      apply hcntd.aside
      exact Aside.one { hltr with } trivial

theorem adoptConfiguredKernel_tallied (hknw : Known config seen kernel) :
    (adoptConfiguredKernel kernel).Follows (clerk config)
      (fun _ after => Agreed config pending sup after) seen := by
  apply And.intro trivial
  intro found _
  cases found with
  | some _ => exact hagrd
  | none =>
    apply (writeCurrent_tallied hknw).weaken
    rintro _ after ⟨current, rfl⟩
    exact { hagrd with }

theorem startActive_tallied (hknw : Known config seen kernel) :
    (startActive config sup kernel).Follows (clerk config)
      (fun result after => Agreed config (pending ++ result.2) result.1 after) seen := by
  apply Script.Follows.bind (adoptConfiguredKernel_tallied hagrd hknw)
  intro _ adopted hadop
  apply Script.Follows.bind (hadop.plain (only_launch sup kernel))
  rintro ⟨started, answer⟩ launched ⟨hstad, hlaun⟩
  cases answer with
  | ok pid => exact hlaun.aside (Aside.one hstad trivial)
  | error error =>
    have hput : Agreed config pending { started with phase := .backoff } launched :=
      hlaun.untouched { hstad with }
    apply Script.Follows.bind (hput.plain (only_restartLater config _))
    rintro later counted ⟨hltr, hcntd⟩
    exact hcntd.aside (Aside.one hltr trivial)

theorem startKernel_tallied :
    (startKernel config sup).Follows (clerk config)
      (fun result after => Agreed config (pending ++ result.2) result.1 after) seen := by
  rw [startKernel]
  split
  · exact hagrd.aside (Aside.nil (Untouched.refl sup))
  apply Script.Follows.bind (hagrd.plain (only_op .instant trivial))
  rintro now timed ⟨-, htimed⟩
  split
  · exact htimed.aside (Aside.nil (Untouched.refl sup))
  apply Script.Follows.bind active_tallied
  rintro found after ⟨rfl, hknw⟩
  cases found with
  | some kernel => exact startActive_tallied htimed (hknw kernel rfl)
  | none => exact htimed.aside (Aside.one ⟨rfl, .inl rfl⟩ trivial)

end Inside

theorem tick_tallied (patience : ℕ) (hagrd : Agreed config [] sup seen) :
    (tick config patience sup).Follows (clerk config)
      (fun result after => Agreed config result.2 result.1 after) seen := by
  apply Script.Follows.bind (hagrd.plain (only_op .stopRequested trivial))
  rintro stopping asked ⟨-, hask⟩
  split
  · exact hask.part (only_stop sup)
  apply Script.Follows.bind (settleExit_tallied hask)
  intro exits settled hsetd
  apply Script.Follows.bind (takeSwap_tallied patience hsetd)
  intro swaps taken htkn
  apply Script.Follows.bind (startKernel_tallied htkn)
  intro starts begun hbegun
  apply Script.Follows.bind (hbegun.part (only_watchHealth config _))
  intro health watched hwat
  apply Script.Follows.bind (hwat.plain (only_writeStatus _ _))
  rintro written kept ⟨hwrn, hkept⟩
  exact hkept.untouched hwrn

theorem pass_tallied (patience : ℕ) (hagrd : Agreed config [] sup seen) :
    (pass config patience sup).Follows (clerk config)
      (fun after passed => Agreed config [] after passed) seen := by
  apply Script.Follows.bind (tick_tallied patience hagrd)
  intro result ticked htic
  apply And.intro htic.attributed
  intro _ _
  constructor
  · rw [append_nil]
    exact htic.attributed
  · exact htic.last
  · rw [append_nil]
    exact htic.blamed
  · exact htic.window
  · exact htic.closed

end Clerk

section Runs

variable {config : Config} {home after : Home} {seen : Tally}

structure Recorded (config : Config) (home : Home) (seen : Tally) : Prop where
  current : home.readCurrent = seen.current
  known : ∀ kernel, seen.current = some kernel → Known config seen kernel
  line : ∀ path, home.currentPath = some path →
    config.kernel = some path ∨ ∃ kernel ∈ seen.answered, kernel.binary = path
  results : home.results = seen.verdicts.map Prod.fst
  about : ∀ verdict ∈ seen.verdicts, About verdict.2 verdict.1.id ∧ ¬ Late verdict.2
  early : ∀ request ∈ home.requests ++ home.claimed, ¬ Late request.id
  claimed : ∀ request, seen.claimed = some request → ¬ Late request.id
  begun : ∀ id, seen.begun = some id → ¬ Late id
  attributed : Attributed none seen.events

variable (hrecd : Recorded config home seen)
include hrecd

theorem Recorded.moved (hjson : after.currentJson = home.currentJson)
    (hpath : after.currentPath = home.currentPath) (hress : after.results = home.results)
    (hely : ∀ request ∈ after.requests ++ after.claimed, ¬ Late request.id) :
    Recorded config after seen := by
  constructor
  · rw [Home.readCurrent, hjson, hpath]
    exact hrecd.current
  · exact hrecd.known
  · rw [hpath]
    exact hrecd.line
  · rw [hress]
    exact hrecd.results
  · exact hrecd.about
  · exact hely
  · exact hrecd.claimed
  · exact hrecd.begun
  · exact hrecd.attributed

theorem Recorded.drift (hdrift : Drift (fun request => ¬ Late request.id) home after) :
    Recorded config after seen := by
  cases hdrift with
  | stop | wait => exact hrecd.moved rfl rfl rfl hrecd.early
  | ask request hasks hnew =>
    have hely : ∀ other ∈ home.requests ++ [request] ++ home.claimed, ¬ Late other.id := by
      intro other hoth
      cases mem_append.mp hoth with
      | inr hclmd => exact hrecd.early other (mem_append_right _ hclmd)
      | inl hwtg =>
        cases mem_append.mp hwtg with
        | inl hbef => exact hrecd.early other (mem_append_left _ hbef)
        | inr hthis =>
          rw [mem_singleton.mp hthis]
          exact hasks
    exact hrecd.moved rfl rfl rfl hely

theorem Recorded.grown (kernels : List ActiveKernel) :
    Recorded config home { seen with answered := seen.answered ++ kernels } := by
  constructor
  · exact hrecd.current
  · intro kernel hker
    exact (hrecd.known kernel hker).imp_right (mem_append_left _)
  · intro path hpath
    apply (hrecd.line path hpath).imp_right
    rintro ⟨kernel, hker, hbin⟩
    exact ⟨kernel, mem_append_left _ hker, hbin⟩
  · exact hrecd.results
  · exact hrecd.about
  · exact hrecd.early
  · exact hrecd.claimed
  · exact hrecd.begun
  · exact hrecd.attributed

theorem Recorded.seeing (candidate running : Option ActiveKernel) (last : Option String) :
    Recorded config home { seen with candidate := candidate, running := running, last := last } :=
  { hrecd with }

theorem Recorded.writeCurrent (hknw : Known config seen kernel) (written : Written) :
    Recorded config (home.after (.writeCurrent kernel) written)
      ((clerk config).step (.writeCurrent kernel) written seen) := by
  have hwrn : ∀ other, some kernel = some other → Known config seen other := by
    intro other hoth
    cases hoth
    exact hknw
  cases written with
  | nothing => exact hrecd
  | record => exact { hrecd with current := rfl, known := hwrn }
  | both =>
    have hline : ∀ path, some kernel.binary = some path →
        config.kernel = some path ∨ ∃ other ∈ seen.answered, other.binary = path := by
      intro path hpath
      cases hpath
      exact hknw.imp_right (fun hmem => ⟨kernel, hmem, rfl⟩)
    exact { hrecd with current := rfl, known := hwrn, line := hline }

theorem Recorded.writeResult {id : String}
    (hbegun : seen.begun = some id) (habout : About id result.id) (written : Bool) :
    Recorded config (home.after (.writeResult result) written)
      ((clerk config).step (.writeResult result) written seen) := by
  cases written with
  | false => exact hrecd
  | true =>
    have hress : home.results ++ [result] =
        (seen.verdicts ++ [(result, seen.begun.getD "")]).map Prod.fst := by
      rw [map_append, hrecd.results]
      rfl
    have habouts : ∀ verdict ∈ seen.verdicts ++ [(result, seen.begun.getD "")],
        About verdict.2 verdict.1.id ∧ ¬ Late verdict.2 := by
      intro verdict hver
      cases mem_append.mp hver with
      | inl hbef => exact hrecd.about verdict hbef
      | inr hthis =>
        rw [mem_singleton.mp hthis, hbegun]
        exact ⟨habout, hrecd.begun id hbegun⟩
    exact { hrecd with results := hress, about := habouts }

/-- A swap that fails is remembered under its own id, because the swap before has it. -/
def named : Terms Op Answer Tally where
  fair
    | .saw .swapFailed, seen, _ => seen.begun = some (seen.last.getD "swap")
    | _, _, _ => True
  mayEnd _ := True
  started seen := seen
  ended seen := { seen with candidate := none, running := none, last := none }

theorem Recorded.claim {request : SwapRequest}
    (hpnd : request.id ∈ home.requests.map SwapRequest.id) :
    Recorded config (home.after (.claim request) true)
      ((clerk config).step (.claim request) true seen) := by
  have hely : ∀ other ∈ home.requests.filter (·.id ≠ request.id) ++
      (home.claimed ++ home.requests.filter (·.id = request.id)), ¬ Late other.id := by
    intro other hoth
    apply hrecd.early
    rw [mem_append] at hoth ⊢
    rw [mem_append] at hoth
    rcases hoth with hwtg | hclmd | hwtg
    · exact .inl (mem_of_mem_filter hwtg)
    · exact .inr hclmd
    · exact .inl (mem_of_mem_filter hwtg)
  have hclmd : ∀ other, some request = some other → ¬ Late other.id := by
    intro other hoth
    cases hoth
    obtain ⟨pending, hmem, hid⟩ := List.mem_map.mp hpnd
    rw [← hid]
    exact hrecd.early pending (mem_append_left _ hmem)
  exact { hrecd with early := hely, claimed := hclmd }

theorem Recorded.putBack (request : SwapRequest) :
    Recorded config (home.after (.putBack request) ()) seen := by
  have hely : ∀ other ∈ (home.requests ++ home.claimed.filter (·.id = request.id)) ++
      home.claimed.filter (·.id ≠ request.id), ¬ Late other.id := by
    intro other hoth
    apply hrecd.early
    rw [mem_append] at hoth ⊢
    rw [mem_append] at hoth
    rcases hoth with (hwtg | hclmd) | hclmd
    · exact .inl hwtg
    · exact .inr (mem_of_mem_filter hclmd)
    · exact .inr (mem_of_mem_filter hclmd)
  exact hrecd.moved rfl rfl rfl hely

theorem Recorded.removeClaimed (request : SwapRequest) :
    Recorded config (home.after (.removeClaimed request) ()) seen := by
  have hely : ∀ other ∈ home.requests ++ home.claimed.filter (·.id ≠ request.id),
      ¬ Late other.id := by
    intro other hoth
    apply hrecd.early
    rw [mem_append] at hoth ⊢
    exact hoth.imp_right mem_of_mem_filter
  exact hrecd.moved rfl rfl rfl hely

theorem Recorded.begin :
    Recorded config home ((clerk config).step (.saw .swapRequested) () seen) := by
  have hbegun : ∀ id, seen.claimed.map SwapRequest.id = some id → ¬ Late id := by
    intro id hid
    obtain ⟨request, hclmd, rfl⟩ := map_eq_some_iff.mp hid
    exact hrecd.claimed request hclmd
  exact { hrecd with begun := hbegun }

theorem Recorded.saw (input : Input) :
    Recorded config home ((clerk config).step (.saw input) () seen) := by
  cases input with
  | swapRequested => exact hrecd.begin
  | swapProved => exact hrecd.seeing none seen.running seen.begun
  | swapFailed => exact hrecd.seeing none seen.running _
  | stabilityViolated => exact hrecd.seeing seen.candidate seen.running _
  | _ => exact hrecd

omit hrecd

theorem Recorded.answer {op : Op} {answer : Answer op} (hrecd : Recorded config home seen)
    (hlaw : (clerk config).lawful op seen) (hrep : home.Replies op answer)
    (hfair : named.fair op seen answer) :
    (clerk config).admits op seen answer ∧
      Recorded config (home.after op answer) ((clerk config).step op answer seen) := by
  cases op with
  | claim request =>
    apply And.intro trivial
    cases answer with
    | false => exact hrecd
    | true => exact hrecd.claim (hrep rfl)
  | putBack request => exact ⟨trivial, hrecd.putBack request⟩
  | removeClaimed request => exact ⟨trivial, hrecd.removeClaimed request⟩
  | writeCurrent kernel => exact ⟨trivial, hrecd.writeCurrent hlaw answer⟩
  | writeResult result =>
    obtain ⟨id, hbegun, habout⟩ := hlaw
    exact ⟨trivial, hrecd.writeResult hbegun habout answer⟩
  | readCurrent =>
    cases hrep
    apply And.intro _ hrecd
    apply And.intro hrecd.current
    rw [hrecd.current]
    exact hrecd.known
  | report events =>
    exact ⟨trivial, hrecd.current, hrecd.known, hrecd.line, hrecd.results,
      hrecd.about, hrecd.early, hrecd.claimed, hrecd.begun, hlaw⟩
  | saw input =>
    apply And.intro _ (hrecd.saw input)
    cases input with
    | swapFailed => exact hfair
    | _ => trivial
  | probe => exact ⟨trivial, hrecd.grown _⟩
  | spawn kernel =>
    apply And.intro trivial
    cases answer with
    | error error => exact hrecd
    | ok pid => exact hrecd.seeing seen.candidate (some kernel) seen.last
  | tryWait =>
    apply And.intro trivial
    cases answer with
    | none => exact hrecd
    | some status => exact hrecd.seeing seen.candidate none seen.last
  | killAndWait => exact ⟨trivial, hrecd.seeing seen.candidate none seen.last⟩
  | removeStop | instant => exact ⟨trivial, hrecd.moved rfl rfl rfl hrecd.early⟩
  | _ => exact ⟨trivial, hrecd⟩

/-- Every record is about the swap that was begun last, records about a swap are written in no
other, the supervisor remembers that swap, and the recorded kernel is the configured one or one
that answered `/health` during its own swap. -/
structure NamesOwnSwap (config : Config) (process : Process Op Answer Supervisor) (home : Home)
    (seen : Tally) : Prop where
  events : Attributed none seen.events
  results : home.results = seen.verdicts.map Prod.fst
  named : ∀ verdict ∈ seen.verdicts, About verdict.2 verdict.1.id
  own : ∀ verdict ∈ seen.verdicts, ∀ id, ¬ Late id → About id verdict.1.id → verdict.2 = id
  remembered : ∀ sup summary, process = .resting sup → sup.lastSwap = some summary →
    seen.begun = some summary.id
  current : ∀ kernel, home.readCurrent = some kernel → Known config seen kernel
  line : ∀ path, home.currentPath = some path →
    config.kernel = some path ∨ ∃ kernel ∈ seen.answered, kernel.binary = path

def Configured (config : Config) (home : Home) (seen : Tally) : Prop :=
  home.requests = [] ∧ home.claimed = [] ∧ home.results = [] ∧
    (∀ kernel, home.readCurrent = some kernel → config.kernel = some kernel.binary) ∧
    (∀ path, home.currentPath = some path → config.kernel = some path) ∧
    seen = ⟨none, none, none, none, [], home.readCurrent, none, [], []⟩

theorem Configured.recorded (hcon : Configured config home seen) :
    Recorded config home seen ∧ seen.last = none ∧ seen.candidate = none := by
  obtain ⟨hreq, hclmd, hress, hknw, hline, rfl⟩ := hcon
  apply And.intro _ ⟨rfl, rfl⟩
  constructor
  · rfl
  · intro kernel hker
    exact .inl (hknw kernel hker)
  · intro path hpath
    exact .inl (hline path hpath)
  · exact hress
  · nofun
  · rw [hreq, hclmd]
    nofun
  · nofun
  · nofun
  · trivial

theorem about_unique {first second name : String} (hfst : ¬ Late first) (hsnd : ¬ Late second)
    (habout : About first name) (hoth : About second name) : first = second := by
  cases habout with
  | inl hname =>
    cases hoth with
    | inl hsame => exact hname.symm.trans hsame
    | inr hlate => exact absurd ⟨second, hname.symm.trans hlate⟩ hfst
  | inr hname =>
    cases hoth with
    | inl hlate => exact absurd ⟨first, hlate.symm.trans hname⟩ hsnd
    | inr hsame => exact (String.append_left_inj _).mp (hname.symm.trans hsame)

/-- Whatever becomes of a swap. -/
def anyOutcome : Terms Op Answer Tally where
  fair _ _ _ := True
  mayEnd _ := True
  started seen := seen
  ended seen := { seen with candidate := none, running := none, last := none }

def firstSwap : SwapRequest := ⟨swapId 1700000000000 41, "/bin/new", "ab", [], 1⟩

/-- Its kernel cannot be started. -/
def secondSwap : SwapRequest := ⟨swapId 1700000000001 42, "broken", "cd", [], 2⟩

def twiceAsked : Home :=
  { emptyHome with
    requests := [firstSwap, secondSwap]
    asked := [firstSwap.id, secondSwap.id] }

def nothingSeen : Tally := ⟨none, none, none, none, [], none, none, [], []⟩

theorem reaches_twiceAsked (config : Config) (terms : Terms Op Answer Tally)
    (hact : (twiceAsked.active config).isSome = true) :
    (supervision config (fun request => ¬ Late request.id)).Reaches (clerk config) terms
      (Configured config) (.resting (Supervisor.new 5000)) twiceAsked (terms.started nothingSeen) := by
  have hsta := @Server.Reaches.start Op Answer Home Supervisor Tally
    (supervision config (fun request => ¬ Late request.id)) (clerk config) terms
    (Configured config) emptyHome nothingSeen ⟨rfl, rfl, rfl, nofun, nofun, rfl⟩
  have hfst := hsta.drift (.ask firstSwap (swapId_early _ _) not_mem_nil)
  have hsnd := hfst.drift (.ask secondSwap (swapId_early _ _) (by decide +kernel))
  exact hsnd.boot (Supervisor.new 5000) ⟨rfl, hact⟩

def succeeding (op : Op) (home : Home) : Option (Answer op) :=
  match op with
  | .saw .swapFailed => none
  | op => calm op home

theorem replies_of_succeeding {op : Op} {answer : Answer op}
    (hreply : succeeding op home = some answer) : home.Replies op answer := by
  cases op with
  | saw input => trivial
  | _ => exact replies_of_calm hreply

theorem named_of_succeeding {op : Op} {answer : Answer op}
    (hreply : succeeding op home = some answer) : named.fair op seen answer := by
  cases op with
  | saw input =>
    cases input with
    | swapFailed => cases hreply
    | _ => trivial
  | _ => trivial

def played (reply : (op : Op) → Home → Option (Answer op)) (count : ℕ) :
    Process Op Answer Supervisor × Home × Tally :=
  playOn (smallConfig "/bin/wa") (clerk (smallConfig "/bin/wa")) reply count
    (.resting (Supervisor.new 5000)) twiceAsked nothingSeen

end Runs

end WasmAgent.Watchdog
