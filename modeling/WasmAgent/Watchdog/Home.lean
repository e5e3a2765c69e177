import Mathlib.Data.List.Sort
import Mathlib.Data.String.Basic
import WasmAgent.Watchdog.Supervisor

/-!
# The home of the watchdog

The files that the supervisor and the swap command leave for each other, what every operation
does to them, and the runs of a supervisor that can end anywhere and be started again.
-/

namespace WasmAgent.Watchdog

open List WasmAgent.Core

/-- The files, in the order they were written where one does not replace another, the time, and
the ids of the requests that were ever written. -/
structure Home where
  requests : List SwapRequest
  claimed : List SwapRequest
  results : List SwapResult
  currentJson : Option ActiveKernel
  currentPath : Option String
  stop : Bool
  clock : ℕ
  asked : List String

namespace Home

/-- The requests nobody has claimed or answered, oldest first. -/
def pendingRequests (home : Home) : List SwapRequest :=
  home.requests.insertionSort (fun first second => first.id ≤ second.id)

def readCurrent (home : Home) : Option ActiveKernel :=
  match home.currentJson, home.currentPath with
  | some active, _ => some active
  | none, some path => if path = "" then none else some ⟨path, none, []⟩
  | none, none => none

def active (config : Config) (home : Home) : Option ActiveKernel :=
  home.readCurrent.or config.configured

def Replies (home : Home) : (op : Op) → Answer op → Prop
  | .stopRequested, answer => answer = home.stop
  | .instant, answer => home.clock ≤ answer
  | .pendingRequests, answer => answer = home.pendingRequests
  | .claim request, answer => answer = true → request.id ∈ home.requests.map SwapRequest.id
  | .readCurrent, answer => answer = home.readCurrent
  | _, _ => True

/-- What an operation that answers so leaves. -/
def after (home : Home) : (op : Op) → Answer op → Home
  | .removeStop, _ => { home with stop := false }
  | .instant, now => { home with clock := now }
  | .claim request, true =>
      { home with
        requests := home.requests.filter (·.id ≠ request.id)
        claimed := home.claimed ++ home.requests.filter (·.id = request.id) }
  | .putBack request, _ =>
      { home with
        requests := home.requests ++ home.claimed.filter (·.id = request.id)
        claimed := home.claimed.filter (·.id ≠ request.id) }
  | .removeClaimed request, _ =>
      { home with claimed := home.claimed.filter (·.id ≠ request.id) }
  | .writeCurrent active, .record => { home with currentJson := some active }
  | .writeCurrent active, .both =>
      { home with currentJson := some active, currentPath := some active.binary }
  | .writeResult result, true => { home with results := home.results ++ [result] }
  | _, _ => home

/-- The results under an id: those before the last have been replaced by it. -/
def resultsFor (home : Home) (id : String) : List SwapResult := home.results.filter (·.id = id)

end Home

def Late (id : String) : Prop := ∃ base, id = base ++ ".rollback"

/-- The id that the swap command gives a request: a time of at least thirteen digits and a pid. -/
def swapId (nowMs pid : ℕ) : String :=
  "swap-" ++ String.ofList (List.replicate (13 - nowMs.repr.length) '0') ++ nowMs.repr ++ "-" ++
    pid.repr

theorem swapId_early (nowMs pid : ℕ) : ¬ Late (swapId nowMs pid) := by
  rintro ⟨base, hbase⟩
  have hlast := congrArg (fun text => text.toList.getLast?) hbase
  simp only [swapId, String.toList_append, Nat.toList_repr] at hlast
  rw [getLast?_append_of_ne_nil _ Nat.toDigits_ne_nil,
    getLast?_append_of_ne_nil _ (by decide)] at hlast
  have hmem := mem_of_getLast? hlast
  exact absurd (Nat.isDigit_of_mem_toDigits (by decide) (by decide) hmem) (by decide)

/-- What others do: a request that satisfies `asks` is written under a new id, the supervisor is
asked to stop, time passes. -/
inductive Drift (asks : SwapRequest → Prop) (home : Home) : Home → Prop where
  | ask (request : SwapRequest) (hasks : asks request) (hnew : request.id ∉ home.asked) :
      Drift asks home { home with
        requests := home.requests ++ [request]
        asked := home.asked ++ [request.id] }
  | stop : Drift asks home { home with stop := true }
  | wait (now : ℕ) (hnow : home.clock ≤ now) : Drift asks home { home with clock := now }

/-- `run`: a supervisor starts when it has a kernel to start. -/
def supervision (config : Config) (asks : SwapRequest → Prop) :
    Server Op Answer Home Supervisor where
  perform op home answer after := home.Replies op answer ∧ after = home.after op answer
  drift := Drift asks
  boots home sup := sup = Supervisor.new home.clock ∧ (home.active config).isSome = true
  resumes sup := sup.exited = false
  turn := pass config

section Calm

/-- A world in which nothing happens and every kernel is well, but one that cannot be started. -/
def calm (op : Op) (home : Home) : Option (Answer op) :=
  match op with
  | .stopRequested => some home.stop
  | .tryWait => some none
  | .instant => some home.clock
  | .nowMs => some 0
  | .pendingRequests => some home.pendingRequests
  | .claim request => some (request.id ∈ home.requests.map SwapRequest.id)
  | .readCurrent => some home.readCurrent
  | .writeCurrent _ => some .both
  | .waitPortBindable _ => some true
  | .spawn active =>
      some (if active.binary = "broken" then .error "cannot start broken" else .ok 7)
  | .probe => some ⟨true, 200, some true, none, none⟩
  | .writeResult _ => some true
  | .waitLonger => none
  | .removeStop => some ()
  | .killAndWait => some ()
  | .putBack _ => some ()
  | .removeClaimed _ => some ()
  | .writePid _ => some ()
  | .writeStatus => some ()
  | .sleep _ => some ()
  | .report _ => some ()
  | .saw _ => some ()

theorem replies_of_calm {op : Op} {home : Home} {answer : Answer op}
    (hcalm : calm op home = some answer) : home.Replies op answer := by
  cases op with
  | stopRequested => exact (Option.some.inj hcalm).symm
  | instant => exact (Option.some.inj hcalm).le
  | pendingRequests | readCurrent => exact (Option.some.inj hcalm).symm
  | claim request =>
    intro hclmd
    rw [← Option.some.inj hcalm] at hclmd
    exact of_decide_eq_true hclmd
  | _ => trivial

def playOn {View : Type} (config : Config) (observer : Observer Op Answer View)
    (reply : (op : Op) → Home → Option (Answer op)) (count : ℕ)
    (process : Process Op Answer Supervisor) (home : Home) (view : View) :
    Process Op Answer Supervisor × Home × View :=
  Server.play (pass config) observer (fun sup => !sup.exited) reply Home.after 5 count process home
    view

theorem reaches_playOn {View : Type} {config : Config} {asks : SwapRequest → Prop}
    {observer : Observer Op Answer View} {terms : Terms Op Answer View}
    {first : Home → View → Prop} {reply : (op : Op) → Home → Option (Answer op)}
    (hrep : ∀ op home answer, reply op home = some answer → home.Replies op answer)
    (hfair : ∀ op home view answer, reply op home = some answer → terms.fair op view answer)
    (count : ℕ) {process : Process Op Answer Supervisor} {home : Home} {view : View}
    (hbef : (supervision config asks).Reaches observer terms first process home view) :
    let played := playOn config observer reply count process home view
    (supervision config asks).Reaches observer terms first played.1 played.2.1 played.2.2 := by
  apply hbef.playing
  · intro sup hgoes
    rw [Bool.not_eq_true'] at hgoes
    exact hgoes
  · intro op home view answer hreply
    exact ⟨⟨hrep op home answer hreply, rfl⟩, hfair op home view answer hreply⟩

def emptyHome : Home where
  requests := []
  claimed := []
  results := []
  currentJson := none
  currentPath := none
  stop := false
  clock := 5000
  asked := []

def smallConfig (kernel : String) : Config where
  kernel := some kernel
  kernelArgs := ["serve"]
  port := 8799
  startTimeoutMs := 90000
  tickMs := 500
  backoffBaseMs := 500
  backoffFactor := 2
  backoffMaxMs := 60000
  swapHealthWindowMs := 60000
  stabilityMs := 60000
  rollbackOnEarlyCrash := true
  healthMissLimit := 0

end Calm

end WasmAgent.Watchdog
