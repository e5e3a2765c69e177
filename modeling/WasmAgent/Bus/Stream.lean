import WasmAgent.Bus.Order

/-!
# A subscription as a guest's stream

A pump thread owns the subscription.  It moves what the bus has queued into a bounded channel,
from which the guest's stream takes one event after the other; a push that finds the channel full
discards the oldest event there.
-/

namespace WasmAgent.Bus

open List Std WasmAgent.Core

/-- Where the pump's loop is: before it drains, among the events it drained, or past its end. -/
inductive Pump where
  | draining
  | pushing (events : List Event)
  | exited

def Pump.held : Pump → List Event
  | .draining => []
  | .pushing events => events
  | .exited => []

structure Stream where
  world : World
  pump : Pump := .draining
  queue : List Event := []
  yielded : List Event := []
  stop : Bool := false

/-- `Channel::push`. -/
def push (capacity : ℕ) (event : Event) (queue : List Event) : List Event :=
  (if max capacity 1 ≤ queue.length then queue.tail else queue) ++ [event]

namespace Stream

/-- What the pump does next; at the end of a round it looks whether it is still wanted. -/
def pumps (id : SubscriptionId) (capacity : ℕ) (stream : Stream) : Stream :=
  match stream.pump with
  | .draining =>
      { stream with
        world := stream.world.step (.drain id 0)
        pump := .pushing (stream.world.inner.drain id 0).1 }
  | .pushing (event :: events) =>
      { stream with queue := push capacity event stream.queue, pump := .pushing events }
  | .pushing [] =>
      if stream.stop || stream.world.inner.subs[id]?.isNone then
        { stream with world := stream.world.step (.close id), pump := .exited }
      else { stream with pump := .draining }
  | .exited => stream

/-- `Channel::pop`, for the guest's next item. -/
def pop (stream : Stream) : Stream :=
  { stream with queue := stream.queue.tail, yielded := stream.yielded ++ stream.queue.take 1 }

end Stream

inductive Turn where
  | bus (action : Action)
  | pump
  | pop
  | leave

namespace Turn

/-- Nobody but the pump has the subscription to receive from. -/
def Elsewhere (id : SubscriptionId) : Turn → Prop
  | .bus (.drain other _) => other ≠ id
  | _ => True

def RoomIn (capacity : ℕ) (stream : Stream) : Turn → Prop
  | .pump => stream.pump.held ≠ [] → stream.queue.length < max capacity 1
  | _ => True

end Turn

namespace Stream

variable (id : SubscriptionId) (capacity : ℕ)

def turn : Turn → Stream → Stream
  | .bus action, stream => { stream with world := stream.world.step action }
  | .pump, stream => stream.pumps id capacity
  | .pop, stream => stream.pop
  | .leave, stream => { stream with stop := true }

def run (turns : List Turn) (stream : Stream) : Stream :=
  turns.foldl (fun stream turn => stream.turn id capacity turn) stream

/-- Every push finds room in the channel. -/
def Roomy : List Turn → Stream → Prop
  | [], _ => True
  | turn :: turns, stream =>
      turn.RoomIn capacity stream ∧ Roomy turns (stream.turn id capacity turn)

/-- What the guest was given, and what is on its way to it. -/
def given (stream : Stream) : List Event := stream.yielded ++ (stream.queue ++ stream.pump.held)

end Stream

theorem receivedBy_step {id : SubscriptionId} {world : World} {action : Action}
    (helse : (Turn.bus action).Elsewhere id) :
    receivedBy id (world.step action).log = receivedBy id world.log := by
  by_cases hdrain : ∃ other max, action = .drain other max
  · obtain ⟨other, max, rfl⟩ := hdrain
    change receivedBy id (world.log ++ _) = _
    rw [receivedBy_append, receivedBy_received, if_neg helse, append_nil]
  · exact (Grew.step fun other max hsame => hdrain ⟨other, max, hsame⟩).received id

section Runs

variable {id : SubscriptionId} {capacity : ℕ} {before : List Event} {stream : Stream}

/-- All that was received since is with the guest or on its way. -/
def Stream.Intact (id : SubscriptionId) (before : List Event) (stream : Stream) : Prop :=
  receivedBy id stream.world.log = before ++ stream.given

def Stream.Within (id : SubscriptionId) (before : List Event) (stream : Stream) : Prop :=
  (before ++ stream.given).length ≤ (receivedBy id stream.world.log).length

theorem Stream.intact_of_more {next : Stream} {room : Prop} (more : List Event)
    (hwithin : stream.Within id before)
    (hreceived : receivedBy id next.world.log = receivedBy id stream.world.log ++ more)
    (hgiven : next.given = stream.given ++ more) (hroom : room) :
    next.Within id before ∧ (next.Intact id before ↔ stream.Intact id before ∧ room) := by
  have hmore := Nat.add_le_add_right hwithin more.length
  rw [← length_append, ← length_append] at hmore
  rw [Stream.Within, Stream.Intact, hreceived, hgiven, and_iff_left hroom, ← append_assoc,
    append_cancel_right_eq]
  exact ⟨hmore, Iff.rfl⟩

theorem Stream.intact_of_same {next : Stream} {room : Prop} (hwithin : stream.Within id before)
    (hreceived : receivedBy id next.world.log = receivedBy id stream.world.log)
    (hgiven : next.given = stream.given) (hroom : room) :
    next.Within id before ∧ (next.Intact id before ↔ stream.Intact id before ∧ room) :=
  intact_of_more [] hwithin (hreceived.trans (append_nil _).symm)
    (hgiven.trans (append_nil _).symm) hroom

theorem Stream.pumps_intact (capacity : ℕ) (hwithin : stream.Within id before) :
    (stream.pumps id capacity).Within id before ∧
      ((stream.pumps id capacity).Intact id before ↔
        stream.Intact id before ∧ Turn.pump.RoomIn capacity stream) := by
  have hidle (hnone : stream.pump.held = []) : Turn.pump.RoomIn capacity stream :=
    fun hsome => absurd hnone hsome
  rw [Stream.pumps]
  cases hpump : stream.pump with
  | exited => exact intact_of_same hwithin rfl rfl (hidle (congrArg Pump.held hpump))
  | draining =>
    apply intact_of_more (stream.world.inner.drain id 0).1 hwithin
    · change receivedBy id (stream.world.log ++ _) = _
      rw [receivedBy_append, receivedBy_received, if_pos rfl]
    · change stream.yielded ++ (stream.queue ++ (stream.world.inner.drain id 0).1) = _
      rw [given, hpump, Pump.held, append_nil, append_assoc]
    · exact hidle (congrArg Pump.held hpump)
  | pushing events =>
    cases events with
    | nil =>
      have hgiven (pump : Pump) (hnone : pump.held = []) :
          stream.yielded ++ (stream.queue ++ pump.held) = stream.given := by
        rw [given, hpump, hnone, Pump.held]
      dsimp only
      split
      · exact intact_of_same hwithin (receivedBy_step trivial) (hgiven .exited rfl)
          (hidle (congrArg Pump.held hpump))
      · exact intact_of_same hwithin rfl (hgiven .draining rfl) (hidle (congrArg Pump.held hpump))
    | cons event events =>
      have hheld : stream.pump.held = event :: events := congrArg Pump.held hpump
      have hgiven : stream.given = stream.yielded ++ (stream.queue ++ event :: events) := by
        rw [given, hheld]
      by_cases hfull : max capacity 1 ≤ stream.queue.length
      · have hshort : (stream.yielded ++ (push capacity event stream.queue ++ events)).length + 1 =
            stream.given.length := by
          rw [hgiven, push, if_pos hfull]
          simp only [length_append, length_cons, length_tail, length_nil]
          omega
        have hless : (before ++ (stream.yielded ++ (push capacity event stream.queue ++
            events))).length < (receivedBy id stream.world.log).length := by
          rw [Within, length_append] at hwithin
          rw [length_append]
          omega
        refine ⟨Nat.le_of_lt hless, ?_⟩
        -- what was discarded is never given again
        apply iff_of_false
        · exact fun hintact => Nat.ne_of_gt hless (congrArg length hintact)
        · exact fun hboth => Nat.not_lt.mpr hfull (hboth.2 (hheld ▸ cons_ne_nil _ _))
      refine intact_of_same hwithin rfl ?_ ?_
      · rw [hgiven]
        change stream.yielded ++ (push capacity event stream.queue ++ events) = _
        rw [push, if_neg hfull, append_assoc]
        rfl
      · exact fun _ => Nat.not_le.mp hfull

theorem Stream.turn_intact (capacity : ℕ) {turn : Turn} (hwithin : stream.Within id before)
    (helse : turn.Elsewhere id) :
    (stream.turn id capacity turn).Within id before ∧
      ((stream.turn id capacity turn).Intact id before ↔
        stream.Intact id before ∧ turn.RoomIn capacity stream) := by
  cases turn with
  | pump => exact pumps_intact capacity hwithin
  | bus action =>
    exact intact_of_same hwithin (receivedBy_step helse) rfl trivial
  | pop =>
    have hgiven : (stream.yielded ++ stream.queue.take 1) ++
        (stream.queue.tail ++ stream.pump.held) = stream.given := by
      rw [append_assoc, ← append_assoc (stream.queue.take 1), ← drop_one, take_append_drop]
      rfl
    exact intact_of_same hwithin rfl hgiven trivial
  | leave => exact intact_of_same hwithin rfl rfl trivial

theorem Stream.run_intact_iff (capacity : ℕ) {turns : List Turn} (hwithin : stream.Within id before)
    (helse : ∀ turn ∈ turns, turn.Elsewhere id) :
    (stream.run id capacity turns).Intact id before ↔
      stream.Intact id before ∧ Stream.Roomy id capacity turns stream := by
  induction turns generalizing stream with
  | nil => exact (and_iff_left trivial).symm
  | cons turn turns ih =>
    rw [forall_mem_cons] at helse
    obtain ⟨hnext, hiff⟩ := turn_intact capacity hwithin helse.1
    change ((stream.turn id capacity turn).run id capacity turns).Intact id before ↔ _
    rw [ih hnext helse.2, hiff, and_assoc, Stream.Roomy]

theorem Stream.run_keeps (Keeps : World → Prop)
    (hstep : ∀ world action, Keeps world → Keeps (world.step action)) (turns : List Turn)
    (hkeeps : Keeps stream.world) : Keeps (stream.run id capacity turns).world := by
  induction turns generalizing stream with
  | nil => exact hkeeps
  | cons turn turns ih =>
    apply ih
    cases turn with
    | bus action => exact hstep _ _ hkeeps
    | leave => exact hkeeps
    | pop => exact hkeeps
    | pump =>
      change Keeps (stream.pumps id capacity).world
      rw [Stream.pumps]
      split
      · exact hstep _ (.drain id 0) hkeeps
      · exact hkeeps
      · split
        · exact hstep _ (.close id) hkeeps
        · exact hkeeps
      · exact hkeeps

theorem Fed.run {world : World} (hfed : Fed world) (actions : List Action) :
    Fed (world.run actions) := by
  induction actions generalizing world with
  | nil => exact hfed
  | cons action actions ih => exact ih (hfed.step action)

/-- Each event that was queued is with the guest, on its way in its order, or in a count. -/
structure Stream.Accounts (id : SubscriptionId) (before : List Event) (stream : Stream) : Prop where
  bus : Accounted stream.world
  queued : (receivedBy id stream.world.log ++ queueOf id stream.world.inner.subs).Sublist
    (putInto id stream.world.log)
  intact : stream.Intact id before

theorem Stream.accounts_iff (capacity : ℕ) {turns : List Turn} (hsound : Sound stream.world)
    (hfed : Fed stream.world) (hintact : stream.Intact id before)
    (helse : ∀ turn ∈ turns, turn.Elsewhere id) :
    (stream.run id capacity turns).Accounts id before ↔ Roomy id capacity turns stream := by
  have hiff := run_intact_iff capacity (Nat.le_of_eq (congrArg length hintact.symm)) helse
  rw [← (hiff.trans (and_iff_right hintact))]
  constructor
  · exact fun haccounts => haccounts.intact
  · intro hkept
    exact ⟨(run_keeps Sound (fun _ action hsound => hsound.step action) turns hsound).accounted,
      run_keeps Fed (fun _ action hfed => hfed.step action) turns hfed id, hkept⟩

/-- Whatever the publishers, the pump and the guest do in turn, the events are accounted for
exactly when no push discards one. -/
theorem stream_accounts_iff (kvs : ℕ → Table) (earlier : List Action) (id : SubscriptionId)
    (capacity : ℕ) (turns : List Turn) (helse : ∀ turn ∈ turns, turn.Elsewhere id) :
    (Stream.run id capacity turns { world := (World.new kvs).run earlier }).Accounts id
        (receivedBy id ((World.new kvs).run earlier).log) ↔
      Stream.Roomy id capacity turns { world := (World.new kvs).run earlier } :=
  Stream.accounts_iff capacity ((sound_new kvs).run earlier) ((fed_new kvs).run earlier)
    (append_nil _).symm helse

end Runs

namespace Notes

/-- The guest reads between two publishes, or it does not. -/
def turns (reads : List Turn) : List Turn :=
  [.bus (published false), .pump, .pump] ++ reads ++ [.pump, .bus (published false), .pump, .pump]

def opened : World := (World.new fun _ => ∅).run [subscribed .block]

end Notes

theorem stream_accounts_iff_read :
    (Stream.run 1 1 (Notes.turns [.pop]) { world := Notes.opened }).Accounts 1
      (receivedBy 1 Notes.opened.log) := by
  refine (stream_accounts_iff (fun _ => ∅) [Notes.subscribed .block] 1 1 (Notes.turns [.pop]) ?_).mpr ?_
  · simp [Notes.turns, Notes.published, Turn.Elsewhere]
  · have hroom : 0 < max 1 1 := by decide
    exact ⟨trivial, fun hsome => absurd rfl hsome, fun _ => hroom, trivial,
      fun hsome => absurd rfl hsome, trivial, fun hsome => absurd rfl hsome, fun _ => hroom, trivial⟩

/-- The policy is to block, both publishes were delivered, and the first event is gone. -/
theorem unread_event_discarded :
    ¬ (Stream.run 1 1 (Notes.turns []) { world := Notes.opened }).Accounts 1
      (receivedBy 1 Notes.opened.log) := by
  intro haccounts
  have hintact : receivedBy 1 _ = _ ++ _ := haccounts.intact
  revert hintact
  decide +kernel

end WasmAgent.Bus
