import WasmAgent.Selfloop.Wakes

/-!
# Runs of the self loop

Processes call the functions side by side, one statement at a time.  As long as a claim finds the
wake due, a wake that is armed without a time heard nothing, an end finds the wake not over, and a
model run finds it dispatched to itself alone, every due time is for one run and none before it,
what is over stays over, and no event is forgotten.
-/

namespace WasmAgent.Selfloop

open List Option WasmAgent.Core

/-- What a statement has to find, where it does not look itself. -/
def undisturbed {Reply : Type} (store : Store) : Statement Reply → Bool
  | .claim id _ => store.wakes.all fun entry =>
      !entry.isPending id || entry.1.due.any (· ≤ store.clock)
  | .rearm id none _ => store.wakes.all fun entry => !entry.isPending id || !entry.2.heard
  | .again id _ _ => store.wakes.all fun entry => entry.1.id ≠ id || !entry.1.status.settled
  | .close id ending _ _ => store.wakes.all fun entry =>
      entry.1.id ≠ id || !entry.1.status.settled || entry.1.status = ending.status
  | .runBegins id => store.wakes.all fun entry =>
      entry.1.id ≠ id || (entry.1.status = .dispatching && !entry.2.started)
  | _ => true

def Undisturbed (_ now : Store) {Reply : Type} (statement : Statement Reply) : Prop :=
  undisturbed now statement = true

instance (last now : Store) (Reply : Type) (statement : Statement Reply) :
    Decidable (Undisturbed last now statement) :=
  inferInstanceAs (Decidable (_ = true))

/-- What holds of a wake and what is written down of it. -/
structure Fine (clock : ℕ) (entry : Entry) : Prop where
  /-- Each due time is for one run. -/
  once : (entry.2.runs.map Run.arming).Nodup
  timely : ∀ run ∈ entry.2.runs, run.due ≤ run.time
  numbered : ∀ run ∈ entry.2.runs, run.arming ≤ entry.2.armings
  pending : entry.1.status = .pending → ∀ run ∈ entry.2.runs, run.arming < entry.2.armings
  claimed : entry.1.status = .dispatching →
    entry.2.claimed ≤ entry.2.armings ∧ entry.2.claimedDue ≤ clock
  unstarted : entry.1.status = .dispatching → entry.2.started = false →
    ∀ run ∈ entry.2.runs, run.arming < entry.2.claimed
  /-- No event is forgotten. -/
  remembered : entry.1.status = .pending → entry.2.heard = true → entry.1.due ≠ none

def Stays (before after : Entry) : Prop :=
  before.1.id = after.1.id ∧ (before.1.status.settled = true →
    before.1.status = after.1.status ∧ before.2.runs = after.2.runs)

def Good (store : Store) : Prop := ∀ entry ∈ store.wakes, Fine store.clock entry

def Later (before after : Store) : Prop :=
  ∀ entry ∈ before.wakes, ∃ later ∈ after.wakes, Stays entry later

section Entries

variable {clock : ℕ} {entry after : Entry}

theorem Stays.refl (entry : Entry) : Stays entry entry := ⟨rfl, fun _ => ⟨rfl, rfl⟩⟩

theorem Stays.trans {last : Entry} (hfst : Stays entry after) (hsnd : Stays after last) :
    Stays entry last := by
  refine ⟨hfst.1.trans hsnd.1, ?_⟩
  intro hover
  obtain ⟨hstt, hruns⟩ := hfst.2 hover
  obtain ⟨hstt', hruns'⟩ := hsnd.2 (hstt ▸ hover)
  exact ⟨hstt.trans hstt', hruns.trans hruns'⟩

variable (hfine : Fine clock entry)
include hfine

theorem Fine.quiet (after : Entry) (hstt : after.1.status = entry.1.status)
    (hruns : after.2.runs = entry.2.runs) (harm : entry.2.armings ≤ after.2.armings)
    (hclmd : after.2.claimed = entry.2.claimed)
    (hclaimedDue : after.2.claimedDue = entry.2.claimedDue)
    (hstad : after.2.started = entry.2.started)
    (hrem : entry.1.status = .pending → after.2.heard = true → after.1.due ≠ none) :
    Fine clock after where
  once := by
    rw [hruns]
    exact hfine.once
  timely := by
    rw [hruns]
    exact hfine.timely
  numbered := by
    rw [hruns]
    exact fun run hrun => Nat.le_trans (hfine.numbered run hrun) harm
  pending := by
    rw [hstt, hruns]
    exact fun hpnd run hrun => Nat.lt_of_lt_of_le (hfine.pending hpnd run hrun) harm
  claimed := by
    rw [hstt, hclmd, hclaimedDue]
    exact fun hdsp =>
      ⟨Nat.le_trans (hfine.claimed hdsp).1 harm, (hfine.claimed hdsp).2⟩
  unstarted := by
    rw [hstt, hstad, hruns, hclmd]
    exact hfine.unstarted
  remembered := by
    rw [hstt]
    exact hrem

/-- A wake that is neither pending nor dispatching any more. -/
theorem Fine.over (hover : after.1.status.settled = true)
    (hnotes : after.2 = entry.2) : Fine clock after := by
  have hnot : after.1.status ≠ .pending ∧ after.1.status ≠ .dispatching := by
    constructor <;> intro hstt <;> rw [hstt] at hover <;> cases hover
  constructor
  · rw [hnotes]
    exact hfine.once
  · rw [hnotes]
    exact hfine.timely
  · rw [hnotes]
    exact hfine.numbered
  · exact fun hpnd => absurd hpnd hnot.1
  · exact fun hdsp => absurd hdsp hnot.2
  · exact fun hdsp => absurd hdsp hnot.2
  · exact fun hpnd => absurd hpnd hnot.1

omit hfine in
theorem armings_le (due : Option ℕ) (entry : Entry) :
    entry.2.armings ≤ (entry.arm due).2.armings := by
  cases due with
  | none => exact Nat.le_refl _
  | some due => exact Nat.le_succ _

theorem Fine.arm {due : Option ℕ}
    (hheard : due = none → entry.1.status = .pending → entry.2.heard = false) :
    Fine clock (entry.arm due) := by
  have hnotes : (entry.arm due).2.runs = entry.2.runs ∧
      (entry.arm due).2.claimed = entry.2.claimed ∧
      (entry.arm due).2.claimedDue = entry.2.claimedDue ∧
      (entry.arm due).2.started = entry.2.started := by
    cases due <;> exact ⟨rfl, rfl, rfl, rfl⟩
  obtain ⟨hruns, hclmd, hclaimedDue, hstad⟩ := hnotes
  apply hfine.quiet (entry.arm due) rfl hruns (armings_le due entry) hclmd hclaimedDue hstad
  intro hpnd hheard'
  cases due with
  | some due => exact some_ne_none due
  | none =>
    have hsil := hheard rfl hpnd
    change entry.2.heard = true at hheard'
    rw [hsil] at hheard'
    cases hheard'

theorem Fine.again (due now : ℕ) : Fine clock (entry.again due now) where
  once := hfine.once
  timely := hfine.timely
  numbered := fun run hrun => Nat.le_trans (hfine.numbered run hrun) (Nat.le_succ _)
  pending := fun _ run hrun => Nat.lt_succ_of_le (hfine.numbered run hrun)
  claimed := by nofun
  unstarted := by nofun
  remembered := fun _ _ => some_ne_none due

theorem Fine.claim (hpnd : entry.1.status = .pending)
    (hdue : entry.1.due.any (· ≤ clock) = true) (now : ℕ) : Fine clock (entry.claim now) where
  once := hfine.once
  timely := hfine.timely
  numbered := hfine.numbered
  pending := by nofun
  claimed := by
    intro _
    refine ⟨Nat.le_refl _, ?_⟩
    obtain ⟨due, hsome, hle⟩ := (Option.any_eq_true _ _).mp hdue
    change entry.1.due.getD 0 ≤ clock
    rw [hsome]
    exact of_decide_eq_true hle
  unstarted := fun _ _ => hfine.pending hpnd
  remembered := by nofun

theorem Fine.begin (hstt : entry.1.status = .dispatching)
    (hstad : entry.2.started = false) : Fine clock (entry.begin clock) where
  once := by
    change ((entry.2.runs ++ [_]).map Run.arming).Nodup
    rw [map_append, map_singleton, nodup_append]
    refine ⟨hfine.once, nodup_cons.mpr ⟨not_mem_nil, nodup_nil⟩, ?_⟩
    intro arming harm other hoth hsame
    obtain ⟨run, hrun, rfl⟩ := List.mem_map.mp harm
    rw [mem_singleton.mp hoth] at hsame
    exact absurd hsame (Nat.ne_of_lt (hfine.unstarted hstt hstad run hrun))
  timely := by
    intro run hrun
    rcases mem_append.mp hrun with hbef | hnow
    · exact hfine.timely run hbef
    · rw [mem_singleton.mp hnow]
      exact (hfine.claimed hstt).2
  numbered := by
    intro run hrun
    rcases mem_append.mp hrun with hbef | hnow
    · exact hfine.numbered run hbef
    · rw [mem_singleton.mp hnow]
      exact (hfine.claimed hstt).1
  pending := by
    intro hpnd
    change entry.1.status = .pending at hpnd
    rw [hstt] at hpnd
    cases hpnd
  claimed := hfine.claimed
  unstarted := by nofun
  remembered := by
    intro hpnd
    change entry.1.status = .pending at hpnd
    rw [hstt] at hpnd
    cases hpnd

end Entries

section Stores

variable {store : Store} {condition : Entry → Bool} {change : Entry → Entry}

theorem Later.refl (store : Store) : Later store store :=
  fun entry hent => ⟨entry, hent, Stays.refl entry⟩

theorem Good.update (hgood : Good store)
    (hchg : ∀ entry ∈ store.wakes, condition entry = true → Fine store.clock entry →
      Fine store.clock (change entry) ∧ Stays entry (change entry)) :
    Good (store.update condition change) ∧ Later store (store.update condition change) := by
  have heach : ∀ entry ∈ store.wakes,
      Fine store.clock (if condition entry then change entry else entry) ∧
        Stays entry (if condition entry then change entry else entry) := by
    intro entry hent
    split
    · next hcon => exact hchg entry hent hcon (hgood entry hent)
    · exact ⟨hgood entry hent, Stays.refl entry⟩
  constructor
  · intro after haft
    obtain ⟨entry, hent, rfl⟩ := List.mem_map.mp haft
    exact (heach entry hent).1
  · intro entry hent
    exact ⟨_, List.mem_map_of_mem hent, (heach entry hent).2⟩

/-- A row that is written, with its notes as they are. -/
theorem Fine.touch {entry : Entry} {clock : ℕ} (hfine : Fine clock entry) {wake : Wake}
    (hstt : wake.status = entry.1.status) (hdue : wake.due = entry.1.due) :
    Fine clock (wake, entry.2) := by
  apply hfine.quiet (wake, entry.2) hstt rfl (Nat.le_refl _) rfl rfl rfl
  intro hpnd hheard
  rw [hdue]
  exact hfine.remembered hpnd hheard

theorem Good.insert (hgood : Good store) (wake : Wake) :
    Good (perform (.insert wake) store).2 ∧ Later store (perform (.insert wake) store).2 := by
  rw [perform]
  dsimp only
  split
  · exact ⟨hgood, Later.refl store⟩
  constructor
  · intro entry hent
    rcases mem_append.mp hent with hbef | hnow
    · exact hgood entry hbef
    · rw [mem_singleton.mp hnow]
      exact ⟨nodup_nil, by nofun, by nofun, by nofun, fun _ => ⟨Nat.le_refl _, Nat.zero_le _⟩,
        by nofun, by nofun⟩
  · intro entry hent
    exact ⟨entry, mem_append_left _ hent, Stays.refl entry⟩

theorem isPending_iff {id : String} {entry : Entry} :
    entry.isPending id = true ↔ entry.1.id = id ∧ entry.1.status = .pending :=
  decide_eq_true_iff

/-- What is not over may be changed. -/
theorem stays_of_open {before after : Entry} (hid : before.1.id = after.1.id)
    (hopen : before.1.status.settled = false) : Stays before after := by
  refine ⟨hid, ?_⟩
  intro hover
  rw [hopen] at hover
  cases hover

theorem open_of_pending {id : String} {entry : Entry} (hpnd : entry.isPending id = true) :
    entry.1.status.settled = false := by
  rw [(isPending_iff.mp hpnd).2]
  rfl

theorem perform_keeps {Reply : Type} (statement : Statement Reply) (hgood : Good store)
    (hok : undisturbed store statement = true) :
    Good (perform statement store).2 ∧ Later store (perform statement store).2 := by
  cases statement with
  | now | find | read | ready | readyOf => exact ⟨hgood, Later.refl store⟩
  | insert wake => exact hgood.insert wake
  | arm id due every =>
    apply hgood.update
    intro entry _ _ hfine
    have harmed := @Fine.arm store.clock entry hfine (some due) nofun
    exact ⟨harmed.touch rfl rfl, rfl, fun _ => ⟨rfl, rfl⟩⟩
  | cancel id now =>
    apply hgood.update
    intro entry _ hpnd hfine
    exact ⟨hfine.over rfl rfl, stays_of_open rfl (open_of_pending hpnd)⟩
  | subscribers topic messageOf =>
    apply hgood.update
    intro entry _ hheard hfine
    refine ⟨hfine.quiet (entry.heed true) rfl rfl (Nat.le_refl _) rfl rfl rfl ?_, rfl,
      fun _ => ⟨rfl, rfl⟩⟩
    intro hpnd _ hdue
    obtain ⟨hdeaf, hhears⟩ := (Bool.and_eq_true _ _).mp hheard
    have htop : entry.1.topics ≠ [] := by
      intro hnone
      rw [Wake.hears, hnone] at hhears
      cases hhears
    rw [Entry.listens, decide_eq_true ⟨hpnd, hdue, htop⟩] at hdeaf
    cases hdeaf
  | fire id now =>
    apply hgood.update
    intro entry _ _ hfine
    by_cases hpnd : entry.1.status = .pending
    · rw [if_pos hpnd]
      have harmed := @Fine.arm store.clock entry hfine (some now) nofun
      have htouc := @Fine.touch (entry.arm (some now)) store.clock harmed
        { (entry.arm (some now)).1 with updated := now } rfl rfl
      refine ⟨htouc.quiet _ rfl rfl (Nat.le_refl _) rfl rfl rfl ?_, rfl, fun _ => ⟨rfl, rfl⟩⟩
      exact fun _ _ => some_ne_none now
    rw [if_neg hpnd]
    refine ⟨hfine.quiet (entry.heed true) rfl rfl (Nat.le_refl _) rfl rfl rfl ?_, rfl,
      fun _ => ⟨rfl, rfl⟩⟩
    exact fun hstt => absurd hstt hpnd
  | expire now stale =>
    apply hgood.update
    intro entry _ hstl hfine
    have hdsp := (of_decide_eq_true hstl).1
    refine ⟨hfine.over rfl rfl, stays_of_open rfl ?_⟩
    rw [hdsp]
    rfl
  | probeBegins id =>
    apply hgood.update
    intro entry _ _ hfine
    exact ⟨hfine.quiet (entry.heed false) rfl rfl (Nat.le_refl _) rfl rfl rfl nofun, rfl,
      fun _ => ⟨rfl, rfl⟩⟩
  | note id now =>
    apply hgood.update
    intro entry _ _ hfine
    exact ⟨hfine.touch rfl rfl, rfl, fun _ => ⟨rfl, rfl⟩⟩
  | rearm id due now =>
    apply hgood.update
    intro entry hent hpnd hfine
    have harmed : Fine store.clock (entry.arm due) := by
      apply hfine.arm
      rintro rfl _
      have hsil := List.all_eq_true.mp hok entry hent
      rw [hpnd] at hsil
      exact Bool.not_eq_true' _ ▸ hsil
    exact ⟨harmed.touch rfl rfl, stays_of_open rfl (open_of_pending hpnd)⟩
  | claim id now =>
    apply hgood.update
    intro entry hent hpnd hfine
    have hdue := List.all_eq_true.mp hok entry hent
    rw [hpnd] at hdue
    exact ⟨hfine.claim (isPending_iff.mp hpnd).2 hdue now, stays_of_open rfl (open_of_pending hpnd)⟩
  | again id due now =>
    apply hgood.update
    intro entry hent hid hfine
    have hopen := List.all_eq_true.mp hok entry hent
    simp only [of_decide_eq_true hid, ne_eq, not_true, decide_false, Bool.false_or,
      Bool.not_eq_true'] at hopen
    exact ⟨hfine.again due now, stays_of_open rfl hopen⟩
  | close id ending clears now =>
    apply hgood.update
    intro entry hent hid hfine
    have hfnd := List.all_eq_true.mp hok entry hent
    simp only [of_decide_eq_true hid, ne_eq, not_true, decide_false, Bool.false_or,
      Bool.or_eq_true, Bool.not_eq_true', decide_eq_true_eq] at hfnd
    refine ⟨hfine.over (by cases ending <;> rfl) rfl, rfl, ?_⟩
    intro hover
    rcases hfnd with hopen | hsame
    · rw [hopen] at hover
      cases hover
    · exact ⟨hsame, rfl⟩
  | runBegins id =>
    apply hgood.update
    intro entry hent hid hfine
    have hfnd := List.all_eq_true.mp hok entry hent
    simp only [of_decide_eq_true hid, ne_eq, not_true, decide_false, Bool.false_or,
      Bool.and_eq_true, Bool.not_eq_true', decide_eq_true_eq] at hfnd
    refine ⟨hfine.begin hfnd.1 hfnd.2, stays_of_open rfl ?_⟩
    rw [hfnd.1]
    rfl

end Stores

section Runs

variable {Caller : Type} [DecidableEq Caller] (settings : Settings) (clock : ℕ)

def storeAfter (acts : List (Act Caller Request ℕ)) : Store :=
  ((Traffic.start ⟨clock, []⟩ : Traffic Statement Store Outcome Caller).plays engine
    (route settings) acts).state

variable {settings clock}

theorem Later.trans {first second third : Store} (hfst : Later first second)
    (hsnd : Later second third) : Later first third := by
  intro entry hent
  obtain ⟨middle, hmid, hstays⟩ := hfst entry hent
  obtain ⟨last, hlast, hstays'⟩ := hsnd middle hmid
  exact ⟨last, hlast, hstays.trans hstays'⟩

/-- Time that passes changes nothing. -/
theorem Good.shift {store : Store} (hgood : Good store) (span : ℕ) :
    Good { store with clock := store.clock + span } := by
  intro entry hent
  obtain ⟨honce, htim, hnum, hpnd, hclmd, huns, hrem⟩ := hgood entry hent
  refine ⟨honce, htim, hnum, hpnd, ?_, huns, hrem⟩
  exact fun hdsp => ⟨(hclmd hdsp).1, Nat.le_trans (hclmd hdsp).2 (Nat.le_add_right _ _)⟩

variable {traffic : Traffic Statement Store Outcome Caller}

theorem play_keeps (settings : Settings) {act : Act Caller Request ℕ} (hgood : Good traffic.state)
    (hmeets : traffic.Meets Undisturbed act) :
    Good (traffic.play engine (route settings) act).state ∧
      Later traffic.state (traffic.play engine (route settings) act).state := by
  cases act with
  | shift span => exact ⟨hgood.shift span, Later.refl _⟩
  | call caller request =>
    rw [Traffic.play]
    split <;> exact ⟨hgood, Later.refl _⟩
  | step caller =>
    rw [Traffic.Meets] at hmeets
    rw [Traffic.play, Traffic.step]
    cases hcal : traffic.callers caller with
    | none => exact ⟨hgood, Later.refl _⟩
    | some running =>
      obtain ⟨last, program⟩ := running
      cases program with
      | done result => exact ⟨hgood, Later.refl _⟩
      | exec statement next =>
        rw [hcal] at hmeets
        exact perform_keeps statement hgood hmeets

theorem plays_keep {acts : List (Act Caller Request ℕ)} (hgood : Good traffic.state)
    (hmeets : Traffic.MeetsAll Undisturbed engine (route settings) traffic acts) :
    Good (traffic.plays engine (route settings) acts).state ∧
      Later traffic.state (traffic.plays engine (route settings) acts).state := by
  induction acts generalizing traffic with
  | nil => exact ⟨hgood, Later.refl _⟩
  | cons act acts ih =>
    obtain ⟨hplay, hltr⟩ := play_keeps settings hgood hmeets.1
    obtain ⟨hall, hltr'⟩ := ih hplay hmeets.2
    exact ⟨hall, hltr.trans hltr'⟩

/-- In every undisturbed run each due time of a wake is for one model run and none begins before
it, no event is forgotten by a pending wake, and what is over neither changes nor runs again. -/
theorem wakes_of_run {acts more : List (Act Caller Request ℕ)}
    (hmeets : Traffic.MeetsAll Undisturbed engine (route settings) (Traffic.start ⟨clock, []⟩)
      (acts ++ more)) :
    (∀ entry ∈ (storeAfter settings clock (acts ++ more)).wakes,
      (entry.2.runs.map Run.arming).Nodup ∧ (∀ run ∈ entry.2.runs, run.due ≤ run.time) ∧
        (entry.1.status = .pending → entry.2.heard = true → entry.1.due ≠ none)) ∧
      ∀ entry ∈ (storeAfter settings clock acts).wakes, entry.1.status.settled = true →
        ∃ later ∈ (storeAfter settings clock (acts ++ more)).wakes, later.1.id = entry.1.id ∧
          later.1.status = entry.1.status ∧ later.2.runs = entry.2.runs := by
  obtain ⟨hfirst, hrest⟩ := Traffic.meetsAll_append.mp hmeets
  have hempty : Good (Traffic.start ⟨clock, []⟩ : Traffic Statement Store Outcome Caller).state :=
    fun entry hentry => absurd hentry not_mem_nil
  obtain ⟨hgood, _⟩ := plays_keep hempty hfirst
  obtain ⟨hgood', hlater⟩ := plays_keep hgood hrest
  rw [← Traffic.plays_append] at hgood' hlater
  constructor
  · intro entry hentry
    exact ⟨(hgood' entry hentry).once, (hgood' entry hentry).timely,
      (hgood' entry hentry).remembered⟩
  intro entry hentry hover
  obtain ⟨later, hmem, hid, hstays⟩ := hlater entry hentry
  obtain ⟨hstatus, hruns⟩ := hstays hover
  exact ⟨later, hmem, hid.symm, hstatus.symm, hruns.symm⟩

/-- Some statements of one process. -/
def steps (caller : Fin 3) (count : ℕ) : List (Act (Fin 3) Request ℕ) :=
  List.replicate count (.step caller)

def promised : List (Act (Fin 3) Request ℕ) :=
  [.call 0 (.schedule { id := "w", owner := "ana", session := "s", inSeconds := some 5 })] ++
    steps 0 5 ++ [.shift 6, .call 1 (.tick (fun _ => .changed) (fun _ => .accepted))] ++
    steps 1 5 ++ [.call 2 (.runWake { id := "w", owner := "ana", session := "s" })] ++ steps 2 6

/-- The wake was run once, at its time, and is not claimed by a later tick. -/
theorem promised_once :
    (∀ entry ∈ (storeAfter {} 1000 (promised ++ (.call 1 (.tick (fun _ => .changed)
        (fun _ => .accepted)) :: steps 1 5))).wakes,
      (entry.2.runs.map Run.arming).Nodup ∧ (∀ run ∈ entry.2.runs, run.due ≤ run.time) ∧
        (entry.1.status = .pending → entry.2.heard = true → entry.1.due ≠ none)) ∧
      (storeAfter {} 1000 promised).wakes.map (fun entry => (entry.1.status, entry.2.runs)) =
        [(.delivered, [⟨1, 1005, 1006⟩])] :=
  ⟨(wakes_of_run (by decide +kernel)).1, by decide +kernel⟩

/-- An event while a probe is asked, which answers that nothing changed. -/
def overheard : List (Act (Fin 3) Request ℕ) :=
  [.call 0 (.schedule
      { id := "w", owner := "ana", session := "s", topics := some ["build"], probe := "check" })] ++
    steps 0 4 ++ [.call 1 (.publish "job.build" none)] ++ steps 1 4 ++
    [.call 2 (.tick (fun _ => .same) (fun _ => .accepted))] ++ steps 2 4 ++
    [.call 1 (.publish "job.build.done" none)] ++ steps 1 3 ++ steps 2 2

/-- The event is forgotten. -/
theorem event_forgotten :
    ¬ ∀ entry ∈ (storeAfter {} 1000 overheard).wakes,
      entry.1.status = .pending → entry.2.heard = true → entry.1.due ≠ none := by
  decide +kernel

end Runs

end WasmAgent.Selfloop
