import WasmAgent.Watchdog.Home
import WasmAgent.Watchdog.Plain

/-!
# What becomes of a swap request

A request that was written is waiting, or it is answered once, as long as no supervisor ends
between claiming a request and writing its result.
-/

namespace WasmAgent.Watchdog

open List WasmAgent.Core

/-- The request that is inside `performSwap`, with whether it is answered; the requests that went
in; and whether a supervisor ever ran. -/
structure Handling where
  swap : Option (String × Bool)
  performed : List String
  ran : Bool

section Handler

variable (config : Config)

def handler : Observer Op Answer Handling where
  lawful
    | .claim _, seen => seen.swap = none
    | .putBack _, _ => False
    | .writeResult result, seen => Late result.id ∨ seen.swap = some (result.id, false)
    | .removeClaimed request, seen => seen.swap = some (request.id, true)
    | _, _ => True
  admits
    | .claim request, _, answer => answer = true → ¬ Late request.id
    | .writeResult result, _, answer => ¬ Late result.id → answer = true
    | .readCurrent, seen, answer => seen.ran = true → (answer.or config.configured).isSome = true
    | _, _, _ => True
  step
    | .claim request, true, seen =>
        { seen with
          swap := some (request.id, false)
          performed := seen.performed ++ [request.id] }
    | .writeResult result, true, seen =>
        if seen.swap = some (result.id, false) then { seen with swap := some (result.id, true) }
        else seen
    | .removeClaimed _, _, seen => { seen with swap := none }
    | _, _, seen => seen

/-- What the handler makes nothing of. -/
def Quiet : Op → Prop
  | .claim _ => False
  | .putBack _ => False
  | .removeClaimed _ => False
  | .writeResult result => Late result.id
  | _ => True

/-- A procedure of such operations. -/
def Quietly {Value : Type} (script : Watch Value) : Prop := script.Only Quiet (fun _ => True)

end Handler

section Quietly

variable (config : Config)

theorem quiet_of_plain (op : Op) (hpln : Plain op) : Quiet op := by
  cases op with
  | writeResult result => exact hpln.elim
  | claim | putBack | removeClaimed => exact hpln
  | _ => trivial

theorem Quietly.of {Value : Type} {script : Watch Value} {post : Value → Prop}
    (honly : Script.Only Plain post script) : Quietly script :=
  honly.widen quiet_of_plain (fun _ _ => trivial)

theorem quietly_op (op : Op) (hquiet : Quiet op) : Quietly (ask op) :=
  Script.only_call hquiet (fun _ => trivial)

theorem quietly_writeCurrent (kernel : ActiveKernel) : Quietly (writeCurrent kernel) := by
  apply Script.Only.bind (quietly_op (.writeCurrent kernel) trivial)
  intro _ _
  trivial

variable (sup : Supervisor)

theorem quietly_recordRollback (detail : String) (previous : ActiveKernel) :
    Quietly (recordRollback sup detail previous) := by
  apply Script.Only.bind (quietly_op .nowMs trivial)
  intro first _
  apply Script.Only.bind (quietly_op .nowMs trivial)
  intro second _
  apply Script.Only.bind (quietly_op (.writeResult _) ⟨_, rfl⟩)
  intro _ _
  trivial

theorem quietly_rollBackToPrevious (previous : ActiveKernel) (uptimeMs : ℕ) :
    Quietly (rollBackToPrevious sup previous uptimeMs) := by
  apply Script.Only.bind (quietly_op (.saw .stabilityViolated) trivial)
  intro _ _
  apply Script.Only.bind (Quietly.of (only_stopChild _))
  intro stopped _
  apply Script.Only.bind (quietly_writeCurrent previous)
  intro _ _
  apply Script.Only.bind (quietly_op .instant trivial)
  intro now _
  apply Script.Only.bind (quietly_recordRollback _ _ previous)
  intro recorded _
  trivial

theorem quietly_settleExit : Quietly (settleExit config sup) := by
  rw [settleExit]
  split
  · trivial
  apply Script.Only.bind (quietly_op .tryWait trivial)
  intro ended _
  cases ended with
  | none => trivial
  | some status =>
    apply Script.Only.bind (quietly_op .instant trivial)
    intro now _
    apply Script.Only.bind (quietly_op .nowMs trivial)
    intro wall _
    apply Script.Only.bind (Quietly.of (only_isRecentSwap _))
    intro recent _
    cases recent with
    | some previous => exact quietly_rollBackToPrevious _ _ _
    | none =>
      apply Script.Only.bind (quietly_op (.saw .exited) trivial)
      intro _ _
      apply Script.Only.bind (Quietly.of (only_restartLater config _))
      intro later _
      trivial

theorem quietly_active : Quietly (active config) := by
  apply Script.Only.bind (quietly_op .readCurrent trivial)
  intro found _
  cases found <;> trivial

theorem quietly_adoptConfiguredKernel (kernel : ActiveKernel) :
    Quietly (adoptConfiguredKernel kernel) := by
  apply Script.Only.bind (quietly_op .readCurrent trivial)
  intro found _
  cases found with
  | none => exact quietly_writeCurrent kernel
  | some _ => trivial

theorem quietly_startActive (kernel : ActiveKernel) : Quietly (startActive config sup kernel) := by
  apply Script.Only.bind (quietly_adoptConfiguredKernel kernel)
  intro _ _
  apply Script.Only.bind (Quietly.of (only_launch sup kernel))
  rintro ⟨started, answer⟩ _
  cases answer with
  | ok pid => trivial
  | error error =>
    apply Script.Only.bind (Quietly.of (only_restartLater config _))
    intro later _
    trivial

theorem quietly_startKernel : Quietly (startKernel config sup) := by
  rw [startKernel]
  split
  · trivial
  apply Script.Only.bind (quietly_op .instant trivial)
  intro now _
  split
  · trivial
  apply Script.Only.bind (quietly_active config)
  intro found _
  cases found with
  | none => trivial
  | some kernel => exact quietly_startActive config sup kernel

end Quietly

section Following

variable (config : Config) {seen : Handling}

theorem Quietly.follows {Value : Type} {script : Watch Value} (hquietly : Quietly script)
    (hearly : ∀ id answered, seen.swap = some (id, answered) → ¬ Late id) :
    script.Follows (handler config) (fun _ after => after = seen) seen := by
  have hlaw : ∀ op after, Quiet op → after = seen → (handler config).lawful op after := by
    intro op after hquiet _
    cases op with
    | writeResult result => exact .inl hquiet
    | claim | putBack | removeClaimed => exact hquiet.elim
    | _ => trivial
  have hstep : ∀ op answer after, Quiet op → after = seen →
      (handler config).step op answer after = seen := by
    intro op answer after hquiet hsame
    subst hsame
    cases op with
    | writeResult result =>
      cases answer with
      | false => rfl
      | true =>
        apply if_neg
        intro hswap
        exact hearly result.id false hswap hquiet
    | claim | putBack | removeClaimed => exact hquiet.elim
    | _ => rfl
  have hfol := @Script.Only.follows Op Answer Value Handling (handler config) seen Quiet script
    (fun _ => True) (fun after => after = seen) hquietly rfl hlaw hstep
  exact hfol.weaken (fun _ _ hboth => hboth.2)

theorem quiet_bind {Value Next : Type} {script : Watch Value} {next : Value → Watch Next}
    {post : Next → Handling → Prop} (hquiet : Quietly script)
    (hearly : ∀ id answered, seen.swap = some (id, answered) → ¬ Late id)
    (hnext : ∀ value, (next value).Follows (handler config) post seen) :
    (script >>= next).Follows (handler config) post seen := by
  apply Script.Follows.bind (hquiet.follows config hearly)
  rintro value after rfl
  exact hnext value

/-- The request inside is answered, and nothing else has changed. -/
def Answered (seen : Handling) (id : String) (after : Handling) : Prop :=
  after = { seen with swap := some (id, true) }

theorem answer_follows (result : SwapResult) (hearly : ¬ Late result.id)
    (hopen : seen.swap = some (result.id, false)) :
    (writeResult result).Follows (handler config)
      (fun _ after => Answered seen result.id after) seen := by
  apply And.intro (.inr hopen)
  intro answer hadm
  cases answer with
  | false => exact absurd (hadm hearly) Bool.false_ne_true
  | true => exact if_pos hopen

section Inside

variable {request : SwapRequest} (hearly : ¬ Late request.id)
  (hopen : seen.swap = some (request.id, false))

include hearly hopen

theorem early_of_open : ∀ id answered, seen.swap = some (id, answered) → ¬ Late id := by
  intro id answered hswap
  rw [hopen] at hswap
  cases hswap
  exact hearly

theorem settleSwap_follows (sup : Supervisor) (previous next : ActiveKernel) :
    (settleSwap config sup request previous next).Follows (handler config)
      (fun _ after => Answered seen request.id after) seen := by
  have hnone := early_of_open hearly hopen
  apply quiet_bind config (quietly_op (.saw .swapProved) trivial) hnone
  intro _
  apply quiet_bind config (quietly_writeCurrent next) hnone
  intro _
  apply quiet_bind config (quietly_op (.writePid _) trivial) hnone
  intro _
  apply quiet_bind config (.of (only_armStability config previous)) hnone
  intro stability
  apply quiet_bind config (quietly_op .nowMs trivial) hnone
  intro first
  apply quiet_bind config (quietly_op .nowMs trivial) hnone
  intro second
  apply Script.Follows.bind (answer_follows config _ hearly hopen)
  intro _ after hansd
  exact hansd

theorem rollBack_follows (patience : ℕ) (sup : Supervisor) (previous : ActiveKernel)
    (why : String) :
    (rollBack config patience sup request previous why).Follows (handler config)
      (fun _ after => Answered seen request.id after) seen := by
  have hnone := early_of_open hearly hopen
  apply quiet_bind config (quietly_op (.saw .swapFailed) trivial) hnone
  intro _
  apply quiet_bind config (.of (only_stopChild sup)) hnone
  intro stopped
  apply quiet_bind config (quietly_writeCurrent previous) hnone
  intro _
  apply quiet_bind config (quietly_op (.waitPortBindable _) trivial) hnone
  intro freed
  apply quiet_bind config (.of (only_restorePrevious config patience _ previous)) hnone
  intro restored
  apply quiet_bind config (.of (only_standAfter _ _)) hnone
  intro stood
  apply quiet_bind config (quietly_recordRollback _ _ previous) hnone
  intro recorded
  apply quiet_bind config (quietly_op .nowMs trivial) hnone
  intro wall
  apply Script.Follows.bind (answer_follows config _ hearly hopen)
  intro _ after hansd
  exact hansd

theorem performSwap_follows (patience : ℕ) (sup : Supervisor) (hran : seen.ran = true)
    (hph : sup.phase = .starting ∨ sup.phase = .healthy) :
    (performSwap config patience sup request).Follows (handler config)
      (fun _ after => Answered seen request.id after) seen := by
  have hnone := early_of_open hearly hopen
  have hact : (active config).Follows (handler config)
      (fun found after => found.isSome = true ∧ after = seen) seen := by
    apply And.intro trivial
    intro answer hadm
    specialize hadm hran
    cases answer with
    | none => exact ⟨hadm, rfl⟩
    | some kernel => exact ⟨rfl, rfl⟩
  have hbeg : (transition sup.phase .swapRequested).2 = .beginSwap := by
    cases hph with
    | inl hstag => rw [hstag, transition]
    | inr hhea => rw [hhea, transition]
  apply Script.Follows.bind hact
  rintro found after ⟨hfnd, rfl⟩
  cases found with
  | none => cases hfnd
  | some previous =>
    dsimp only
    rw [if_neg (not_not.mpr hbeg)]
    apply quiet_bind config (quietly_op (.saw .swapRequested) trivial) hnone
    intro _
    apply quiet_bind config (.of (only_stopChild _)) hnone
    intro stopped
    apply quiet_bind config (.of (only_proveCandidate config patience _ request.kernel)) hnone
    rintro ⟨proved, refuted⟩
    cases refuted with
    | none =>
      apply Script.Follows.bind (settleSwap_follows config hearly hopen _ _ _)
      intro _ after hansd
      exact hansd
    | some why =>
      apply Script.Follows.bind (rollBack_follows config hearly hopen _ _ _ _)
      intro _ after hansd
      exact hansd

end Inside

/-- No request is inside, and a supervisor has run. -/
def Idle (seen : Handling) : Prop := seen.swap = none ∧ seen.ran = true

variable (patience : ℕ) (sup : Supervisor) (hidle : Idle seen)
include hidle

theorem takeSwap_follows :
    (takeSwap config patience sup).Follows (handler config) (fun _ after => Idle after) seen := by
  rw [takeSwap]
  split
  · exact hidle
  rename_i hrun
  have hph : sup.phase = .starting ∨ sup.phase = .healthy := by
    by_contra hph
    exact hrun (.inr hph)
  apply And.intro trivial
  intro found _
  cases found with
  | nil => exact hidle
  | cons request others =>
    apply And.intro hidle.1
    intro claimed hadm
    cases claimed with
    | false => exact hidle
    | true =>
      have hper := @performSwap_follows config
        { seen with
          swap := some (request.id, false)
          performed := seen.performed ++ [request.id] }
        request (hadm rfl) rfl patience sup hidle.2 hph
      apply Script.Follows.bind hper
      rintro swapped after rfl
      apply And.intro rfl
      intro _ _
      exact ⟨rfl, hidle.2⟩

theorem Idle.early : ∀ id answered, seen.swap = some (id, answered) → ¬ Late id := by
  intro id answered hswap
  rw [hidle.1] at hswap
  cases hswap

theorem tick_follows :
    (tick config patience sup).Follows (handler config) (fun _ after => Idle after) seen := by
  apply quiet_bind config (quietly_op .stopRequested trivial) hidle.early
  intro stopping
  split
  · apply (Quietly.follows config (.of (only_stop sup)) hidle.early).weaken
    intro stopped after haft
    rw [haft]
    exact hidle
  apply quiet_bind config (quietly_settleExit config sup) hidle.early
  intro settled
  apply Script.Follows.bind (takeSwap_follows config patience settled.1 hidle)
  intro taken after haft
  apply quiet_bind config (quietly_startKernel config taken.1) haft.early
  intro begun
  apply quiet_bind config (.of (only_watchHealth config begun.1)) haft.early
  intro watched
  apply quiet_bind config (.of (only_writeStatus _ watched.1)) haft.early
  intro written
  exact haft

theorem pass_follows :
    (pass config patience sup).Follows (handler config) (fun _ after => Idle after) seen := by
  apply Script.Follows.bind (tick_follows config patience sup hidle)
  intro ticked after haft
  apply quiet_bind config (quietly_op (.report ticked.2) trivial) haft.early
  intro _
  exact haft

end Following

section Handling

variable (config : Config)

structure Handled (home : Home) (seen : Handling) : Prop where
  waiting : ∀ request ∈ home.requests, request.id ∈ home.asked ∧ request.id ∉ seen.performed ∧
    ¬ Late request.id
  inside : ∀ id, seen.swap = some (id, false) → id ∈ seen.performed ∧ home.resultsFor id = []
  answered : ∀ id ∈ seen.performed, seen.swap ≠ some (id, false) → (home.resultsFor id).length = 1
  known : ∀ result ∈ home.results, Late result.id ∨ result.id ∈ seen.performed
  once : seen.performed.Nodup
  early : ∀ id ∈ seen.performed, id ∈ home.asked ∧ ¬ Late id
  accounted : ∀ id ∈ home.asked, id ∈ home.requests.map SwapRequest.id ∨ id ∈ seen.performed
  recorded : seen.ran = true → (home.active config).isSome = true

variable {config} {home after : Home} {seen : Handling} (hhdl : Handled config home seen)
include hhdl

theorem Handled.unanswered {id : String}
    (hearly : ¬ Late id) (hnew : id ∉ seen.performed) : home.resultsFor id = [] := by
  apply filter_eq_nil_iff.mpr
  intro result hres hid
  rw [decide_eq_true_iff] at hid
  subst hid
  cases hhdl.known result hres with
  | inl hlate => exact hearly hlate
  | inr hperf => exact hnew hperf

theorem Handled.congr (hreq : after.requests = home.requests) (hress : after.results = home.results)
    (hask : after.asked = home.asked)
    (hact : (home.active config).isSome = true → (after.active config).isSome = true) :
    Handled config after seen := by
  have hfor : ∀ id, after.resultsFor id = home.resultsFor id := by
    intro id
    rw [Home.resultsFor, Home.resultsFor, hress]
  constructor
  · rw [hreq, hask]
    exact hhdl.waiting
  · intro id hins
    rw [hfor]
    exact hhdl.inside id hins
  · intro id hperf hout
    rw [hfor]
    exact hhdl.answered id hperf hout
  · rw [hress]
    exact hhdl.known
  · exact hhdl.once
  · rw [hask]
    exact hhdl.early
  · rw [hreq, hask]
    exact hhdl.accounted
  · intro hran
    exact hact (hhdl.recorded hran)

theorem Handled.drift
    (hdrift : Drift (fun request => ¬ Late request.id) home after) : Handled config after seen := by
  cases hdrift with
  | stop | wait => exact hhdl.congr rfl rfl rfl id
  | ask request hasks hnew =>
    constructor
    · intro other hoth
      cases mem_append.mp hoth with
      | inl hwtg =>
        obtain ⟨hask, hrest⟩ := hhdl.waiting other hwtg
        exact ⟨mem_append_left _ hask, hrest⟩
      | inr hthis =>
        rw [mem_singleton] at hthis
        subst hthis
        apply And.intro (mem_append_right _ (mem_singleton_self _))
        apply And.intro _ hasks
        intro hperf
        exact hnew (hhdl.early _ hperf).1
    · exact hhdl.inside
    · exact hhdl.answered
    · exact hhdl.known
    · exact hhdl.once
    · intro id hperf
      obtain ⟨hask, hearly⟩ := hhdl.early id hperf
      exact ⟨mem_append_left _ hask, hearly⟩
    · intro id hid
      rw [map_append, mem_append]
      cases mem_append.mp hid with
      | inl hask => exact (hhdl.accounted id hask).imp_left .inl
      | inr hthis => exact .inl (.inr hthis)
    · exact hhdl.recorded

theorem Handled.claim {request : SwapRequest}
    (hidle : seen.swap = none) (hpnd : request.id ∈ home.requests.map SwapRequest.id) :
    Handled config (home.after (.claim request) true)
      ((handler config).step (.claim request) true seen) := by
  obtain ⟨pending, hmem, hid⟩ := mem_map.mp hpnd
  obtain ⟨hask, hnew, hearly⟩ := hhdl.waiting pending hmem
  rw [hid] at hask hnew hearly
  have hunan := hhdl.unanswered hearly hnew
  constructor
  · intro other hoth
    obtain ⟨hwtg, hoth⟩ := mem_filter.mp hoth
    obtain ⟨hknw, hout, hrest⟩ := hhdl.waiting other hwtg
    apply And.intro hknw
    apply And.intro _ hrest
    intro hperf
    cases mem_append.mp hperf with
    | inl hperf => exact hout hperf
    | inr hthis => exact (of_decide_eq_true hoth) (mem_singleton.mp hthis)
  · intro id hins
    cases hins
    exact ⟨mem_append_right _ (mem_singleton_self _), hunan⟩
  · intro id hperf houts
    cases mem_append.mp hperf with
    | inl hperf =>
      apply hhdl.answered id hperf
      rw [hidle]
      nofun
    | inr hthis =>
      rw [mem_singleton.mp hthis] at houts
      exact absurd rfl houts
  · intro result hres
    exact (hhdl.known result hres).imp_right (mem_append_left _)
  · apply nodup_append.mpr
    apply And.intro hhdl.once
    apply And.intro (nodup_singleton _)
    rintro id hperf other hoth rfl
    rw [mem_singleton.mp hoth] at hperf
    exact hnew hperf
  · intro id hperf
    cases mem_append.mp hperf with
    | inl hperf => exact hhdl.early id hperf
    | inr hthis =>
      rw [mem_singleton.mp hthis]
      exact ⟨hask, hearly⟩
  · intro id hid
    by_cases hthis : id = request.id
    · exact Or.inr (mem_append_right _ (mem_singleton.mpr hthis))
    cases hhdl.accounted id hid with
    | inl hwtg =>
      obtain ⟨other, hoth, rfl⟩ := mem_map.mp hwtg
      apply Or.inl
      exact mem_map_of_mem (mem_filter.mpr ⟨hoth, decide_eq_true hthis⟩)
    | inr hperf => exact Or.inr (mem_append_left _ hperf)
  · exact hhdl.recorded

omit hhdl in
theorem resultsFor_append (home : Home) (result : SwapResult) (id : String) :
    ({ home with results := home.results ++ [result] } : Home).resultsFor id =
      home.resultsFor id ++ (if result.id = id then [result] else []) := by
  rw [Home.resultsFor, filter_append, filter_singleton]
  by_cases hid : result.id = id
  · rw [if_pos hid, decide_eq_true hid]
    rfl
  · rw [if_neg hid, decide_eq_false hid]
    rfl

theorem Handled.writeResult {result : SwapResult}
    (hlaw : Late result.id ∨ seen.swap = some (result.id, false)) :
    Handled config (home.after (.writeResult result) true)
      ((handler config).step (.writeResult result) true seen) := by
  by_cases hopen : seen.swap = some (result.id, false)
  · have hstep : (handler config).step (.writeResult result) true seen =
        { seen with swap := some (result.id, true) } := if_pos hopen
    rw [hstep]
    obtain ⟨hperf, hemp⟩ := hhdl.inside _ hopen
    constructor
    · exact hhdl.waiting
    · intro id hins
      cases congrArg Prod.snd (Option.some.inj hins)
    · intro id hid _
      change (({ home with results := home.results ++ [result] } : Home).resultsFor id).length = 1
      rw [resultsFor_append]
      by_cases hthis : result.id = id
      · subst hthis
        rw [hemp, if_pos rfl]
        rfl
      rw [if_neg hthis, append_nil]
      apply hhdl.answered id hid
      intro hoth
      rw [hopen] at hoth
      exact hthis (congrArg Prod.fst (Option.some.inj hoth))
    · intro other hoth
      cases mem_append.mp hoth with
      | inl hbef => exact hhdl.known other hbef
      | inr hthis =>
        rw [mem_singleton.mp hthis]
        exact .inr hperf
    · exact hhdl.once
    · exact hhdl.early
    · exact hhdl.accounted
    · exact hhdl.recorded
  have hstep : (handler config).step (.writeResult result) true seen = seen := if_neg hopen
  have hlate := hlaw.resolve_right hopen
  have hsame : ∀ id ∈ seen.performed,
      (home.after (.writeResult result) true).resultsFor id = home.resultsFor id := by
    intro id hperf
    change ({ home with results := home.results ++ [result] } : Home).resultsFor id = _
    rw [resultsFor_append, if_neg, append_nil]
    rintro rfl
    exact (hhdl.early _ hperf).2 hlate
  rw [hstep]
  constructor
  · exact hhdl.waiting
  · intro id hins
    rw [hsame id (hhdl.inside id hins).1]
    exact hhdl.inside id hins
  · intro id hperf hout
    rw [hsame id hperf]
    exact hhdl.answered id hperf hout
  · intro other hoth
    cases mem_append.mp hoth with
    | inl hbef => exact hhdl.known other hbef
    | inr hthis =>
      rw [mem_singleton.mp hthis]
      exact .inl hlate
  · exact hhdl.once
  · exact hhdl.early
  · exact hhdl.accounted
  · exact hhdl.recorded

theorem Handled.forget (hansd : ∀ id, seen.swap ≠ some (id, false)) :
    Handled config home { seen with swap := none } := by
  constructor
  · exact hhdl.waiting
  · nofun
  · intro id hperf _
    exact hhdl.answered id hperf (hansd id)
  · exact hhdl.known
  · exact hhdl.once
  · exact hhdl.early
  · exact hhdl.accounted
  · exact hhdl.recorded

theorem Handled.start (hact : (home.active config).isSome = true) :
    Handled config home { seen with ran := true } := by
  constructor
  · exact hhdl.waiting
  · exact hhdl.inside
  · exact hhdl.answered
  · exact hhdl.known
  · exact hhdl.once
  · exact hhdl.early
  · exact hhdl.accounted
  · intro _
    exact hact

omit hhdl

def careful : Terms Op Answer Handling where
  fair
    | .writeResult _, _, answer => answer = true
    | _, _, _ => True
  mayEnd seen := ∀ id, seen.swap ≠ some (id, false)
  started seen := { seen with ran := true }
  ended seen := { seen with swap := none }

theorem Handled.answer {op : Op} {answer : Answer op} (hhdl : Handled config home seen)
    (hlaw : (handler config).lawful op seen) (hrep : home.Replies op answer)
    (hfair : careful.fair op seen answer) :
    (handler config).admits op seen answer ∧
      Handled config (home.after op answer) ((handler config).step op answer seen) := by
  cases op with
  | claim request =>
    cases answer with
    | false => exact ⟨nofun, hhdl⟩
    | true =>
      have hpnd := hrep rfl
      apply And.intro _ (hhdl.claim hlaw hpnd)
      intro _
      obtain ⟨pending, hmem, hid⟩ := mem_map.mp hpnd
      rw [← hid]
      exact (hhdl.waiting pending hmem).2.2
  | putBack request => exact hlaw.elim
  | removeClaimed request =>
    apply And.intro trivial
    have hfor : Handled config home { seen with swap := none } := by
      apply hhdl.forget
      intro id hopen
      rw [hlaw] at hopen
      cases hopen
    exact hfor.congr rfl rfl rfl id
  | writeResult result =>
    cases hfair
    exact ⟨fun _ => rfl, hhdl.writeResult hlaw⟩
  | readCurrent =>
    apply And.intro _ hhdl
    intro hran
    cases hrep
    exact hhdl.recorded hran
  | writeCurrent kernel =>
    apply And.intro trivial
    cases answer with
    | nothing => exact hhdl
    | record | both => exact Handled.congr hhdl rfl rfl rfl (fun _ => rfl)
  | removeStop | instant => exact ⟨trivial, hhdl.congr rfl rfl rfl id⟩
  | _ => exact ⟨trivial, hhdl⟩

end Handling

section Runs

/-- Every request that was written is waiting, or it is answered by one result under its id, as
long as no request is inside `performSwap`; and none is performed twice. -/
def RequestsKept (home : Home) (seen : Handling) : Prop :=
  (seen.swap = none → ∀ id ∈ home.asked,
    (id ∈ home.pendingRequests.map SwapRequest.id ∧ home.resultsFor id = []) ∨
      (id ∉ home.pendingRequests.map SwapRequest.id ∧ (home.resultsFor id).length = 1)) ∧
    seen.performed.Nodup

def Fresh (home : Home) (seen : Handling) : Prop :=
  home.requests = [] ∧ home.results = [] ∧ home.asked = [] ∧ seen = ⟨none, [], false⟩

variable {seen : Handling} {home : Home}

theorem Fresh.handled {config : Config} (hfre : Fresh home seen) : Handled config home seen := by
  obtain ⟨hreq, hress, hask, rfl⟩ := hfre
  constructor
  · rw [hreq]
    nofun
  · nofun
  · nofun
  · rw [hress]
    nofun
  · exact nodup_nil
  · nofun
  · rw [hask]
    nofun
  · nofun

theorem mem_pendingRequests (home : Home) (id : String) :
    id ∈ home.pendingRequests.map SwapRequest.id ↔ id ∈ home.requests.map SwapRequest.id :=
  ((perm_insertionSort _ home.requests).map SwapRequest.id).mem_iff

theorem Handled.kept {config : Config}
    (hhdl : Handled config home seen) : RequestsKept home seen := by
  apply And.intro _ hhdl.once
  intro hidle id hid
  rw [mem_pendingRequests]
  by_cases hperf : id ∈ seen.performed
  · apply Or.inr
    apply And.intro
    · intro hwtg
      obtain ⟨request, hreq, rfl⟩ := mem_map.mp hwtg
      exact (hhdl.waiting request hreq).2.1 hperf
    · apply hhdl.answered id hperf
      rw [hidle]
      nofun
  have hwtg := (hhdl.accounted id hid).resolve_right hperf
  apply Or.inl
  apply And.intro hwtg
  obtain ⟨request, hreq, rfl⟩ := mem_map.mp hwtg
  exact hhdl.unanswered (hhdl.waiting request hreq).2.2 hperf

/-- No request is lost or performed twice in a run in which no request has the id of a late
record, results can be written, and no supervisor ends between a claim and its result. -/
theorem careful_runs_keep_requests (config : Config) {process : Process Op Answer Supervisor}
    {home : Home} {seen : Handling}
    (hreaches : (supervision config (fun request => ¬ Late request.id)).Reaches (handler config)
      careful Fresh process home seen) : RequestsKept home seen := by
  have hholds : Handled config home seen ∧ Server.Stands (handler config)
      (fun seen => seen.swap = none) (fun _ seen => Idle seen) process seen := by
    apply Server.Reaches.invariant _ _ _ _ _ _ hreaches
    · intro home seen hfresh
      apply And.intro hfresh.handled
      rw [hfresh.2.2.2]
    · intro home after seen hhandled hdrift
      exact hhandled.drift hdrift
    · intro home seen sup hhandled hidle hboots
      exact ⟨hhandled.start hboots.2, hidle, rfl⟩
    · intro patience sup seen hidle _
      exact pass_follows config patience sup hidle
    · intro op home answer after seen hhandled hlawful hperform hfair
      rw [hperform.2]
      exact hhandled.answer hlawful hperform.1 hfair
    · intro home seen hhandled hmay
      exact ⟨hhandled.forget hmay, rfl⟩
  exact hholds.1.kept

/-- Whatever operations answer, and wherever a supervisor ends. -/
def anyhow : Terms Op Answer Handling where
  fair _ _ _ := True
  mayEnd _ := True
  started seen := { seen with ran := true }
  ended seen := { seen with swap := none }

def firstRequest : SwapRequest := ⟨swapId 1700000000000 41, "/bin/new", "ab", [], 1⟩

def askedHome : Home := { emptyHome with requests := [firstRequest], asked := [firstRequest.id] }

theorem reaches_asked (config : Config) (terms : Terms Op Answer Handling)
    (hact : (askedHome.active config).isSome = true) :
    (supervision config (fun request => ¬ Late request.id)).Reaches (handler config) terms Fresh
      (.resting (Supervisor.new 5000)) askedHome (terms.started ⟨none, [], false⟩) := by
  have hsta := @Server.Reaches.start Op Answer Home Supervisor Handling
    (supervision config (fun request => ¬ Late request.id)) (handler config) terms Fresh emptyHome
    ⟨none, [], false⟩ ⟨rfl, rfl, rfl, rfl⟩
  have hask := hsta.drift (.ask firstRequest (swapId_early _ _) not_mem_nil)
  exact hask.boot (Supervisor.new 5000) ⟨rfl, hact⟩

/-- Where the supervisor is after some moves of its first passes. -/
def swapping (count : ℕ) : Process Op Answer Supervisor × Home × Handling :=
  playOn (smallConfig "/bin/wa") (handler (smallConfig "/bin/wa")) calm count
    (.resting (Supervisor.new 5000)) askedHome ⟨none, [], true⟩

theorem careful_of_calm {op : Op} {answer : Answer op}
    (hcalm : calm op home = some answer) : careful.fair op seen answer := by
  cases op with
  | writeResult result => exact (Option.some.inj hcalm).symm
  | _ => trivial

/-- The first request is performed, and answered once. -/
theorem careful_runs_keep_requests_first :
    RequestsKept (swapping 60).2.1 (swapping 60).2.2 ∧
      (swapping 60).2.1.results.map SwapResult.id = [firstRequest.id] := by
  apply And.intro
  · apply careful_runs_keep_requests (smallConfig "/bin/wa")
    exact reaches_playOn (fun _ _ _ => replies_of_calm) (fun _ _ _ _ => careful_of_calm) 60
      (reaches_asked _ _ rfl)
  · decide +kernel

/-- A supervisor that ends right after it claimed a request leaves neither the request nor an
answer to it. -/
theorem crash_loses_claimed_request :
    ¬ ∀ process home seen,
      (supervision (smallConfig "/bin/wa") (fun request => ¬ Late request.id)).Reaches
        (handler (smallConfig "/bin/wa")) anyhow Fresh process home seen →
      RequestsKept home seen := by
  intro hkept
  have hclaimed := @reaches_playOn _ _ _ _ anyhow _ calm (fun _ _ _ => replies_of_calm)
    (fun _ _ _ _ _ => trivial) 22 _ _ _ (reaches_asked (smallConfig "/bin/wa") anyhow rfl)
  have hlost := (hkept _ _ _ (hclaimed.ends trivial)).1 rfl firstRequest.id (by decide +kernel)
  cases hlost with
  | inl hpending =>
    exact absurd hpending.1 (by decide +kernel)
  | inr hanswered => exact absurd hanswered.2 (by decide +kernel)

end Runs

end WasmAgent.Watchdog
