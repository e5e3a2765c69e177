import WasmAgent.Bus.Retention

/-!
# The bus

One state behind one lock.  A publish copies its event into the buffer of every matching
subscription; one that waits for a full buffer gives the lock up, and tries again when it
has it back.
-/

namespace WasmAgent.Bus

open List Std WasmAgent.Core

/-- A subscription's identity inside one bus. -/
abbrev SubscriptionId := ℕ

def defaultCapacity : ℕ := 64

/-- What happens when a subscriber's buffer is full. -/
inductive OverflowPolicy where
  | dropOldest
  | dropNewest
  | block
  deriving DecidableEq

structure SubscribeOptions where
  capacity : ℕ := defaultCapacity
  policy : OverflowPolicy := .dropOldest
  deriving DecidableEq

inductive BusError where
  | denied (component action subject : String)
  | store (why : StoreFault)
  | replayNotDurable (topic : String)
  | replayNeedsExactTopic (pattern : String)
  | badOptions (why : String)
  deriving DecidableEq

structure PublishOutcome where
  id : UInt64
  matched : ℕ := 0
  delivered : ℕ := 0
  dropped : ℕ := 0
  blocked : List SubscriptionId := []
  deriving DecidableEq

/-- A subscription; its buffer holds at least one event. -/
structure Sub where
  owner : String
  pattern : Pattern
  queue : List Event
  capacity : ℕ
  roomy : capacity ≠ 0
  policy : OverflowPolicy
  dropped : ℕ
  blocked : ℕ
  replayed : ℕ
  deriving DecidableEq

abbrev Subs := ExtTreeMap SubscriptionId Sub compare

structure Durable where
  retain : ℕ
  kv : ℕ

/-- What the lock guards, and the stores the durable topics are kept in. -/
structure Inner where
  nextId : UInt64
  nextSub : SubscriptionId
  subs : Subs
  durable : String → Option Durable
  kvs : ℕ → Table

/-- A new bus, over stores that may hold something. -/
def Inner.new (kvs : ℕ → Table) : Inner :=
  { nextId := 1, nextSub := 1, subs := ∅, durable := fun _ => none, kvs }

/-- What comes of a copy of an event for one subscription. -/
inductive Fate where
  | delivered
  | replaced
  | refused
  | blocked
  | gone
  deriving DecidableEq

/-- A copy of an event for a subscription, whose `blocked` may count the publish already. -/
def Sub.offer (event : Event) (counted : Bool) (sub : Sub) : Fate × Sub :=
  if sub.queue.length < sub.capacity then
    (.delivered, { sub with queue := sub.queue ++ [event] })
  else
    match sub.policy with
    | .dropOldest =>
        (.replaced, { sub with queue := sub.queue.tail ++ [event], dropped := sub.dropped + 1 })
    | .dropNewest => (.refused, { sub with dropped := sub.dropped + 1 })
    | .block => (.blocked, if counted then sub else { sub with blocked := sub.blocked + 1 })

def offer (event : Event) (counted : Bool) (id : SubscriptionId) (subs : Subs) : Fate × Subs :=
  match subs[id]? with
  | none => (.gone, subs)
  | some sub => ((sub.offer event counted).1, subs.insert id (sub.offer event counted).2)

def PublishOutcome.count : Fate → PublishOutcome → PublishOutcome
  | .delivered, outcome => { outcome with delivered := outcome.delivered + 1 }
  | .replaced, outcome =>
      { outcome with delivered := outcome.delivered + 1, dropped := outcome.dropped + 1 }
  | .refused, outcome => { outcome with dropped := outcome.dropped + 1 }
  | .blocked, outcome => outcome
  | .gone, outcome => outcome

structure Delivery where
  event : Event
  blocking : Bool
  outcome : PublishOutcome
  counted : List SubscriptionId := []
  waiting : List SubscriptionId := []

def Delivery.count (id : SubscriptionId) (fate : Fate) (delivery : Delivery) : Delivery :=
  { delivery with
    outcome := delivery.outcome.count fate
    counted := if fate = .blocked then delivery.counted.insert id else delivery.counted
    waiting := if fate = .blocked then delivery.waiting ++ [id] else delivery.waiting }

structure Passed where
  fates : List (SubscriptionId × Fate)
  delivery : Delivery
  subs : Subs

def pass : List SubscriptionId → Delivery → Subs → Passed
  | [], delivery, subs => ⟨[], delivery, subs⟩
  | id :: pending, delivery, subs =>
      let offered := offer delivery.event (delivery.counted.contains id) id subs
      let rest := pass pending (delivery.count id offered.1) offered.2
      { rest with fates := (id, offered.1) :: rest.fates }

/-- `id.saturating_add(1)`. -/
def after (id : UInt64) : UInt64 :=
  if id = 0xFFFFFFFFFFFFFFFF then id else id + 1

def Inner.assign (event : Event) (inner : Inner) : Event × Inner :=
  if event.id ≠ 0 then
    (event, { inner with nextId := max inner.nextId (after event.id) })
  else
    ({ event with id := inner.nextId }, { inner with nextId := inner.nextId + 1 })

def Event.stamp (now : UInt64) (event : Event) : Event :=
  if event.tsMs = 0 then { event with tsMs := now } else event

def Inner.keep (event : Event) (faults : Faults) (inner : Inner) : Except StoreFault Unit × Inner :=
  match inner.durable event.topic.text with
  | none => (.ok (), inner)
  | some durable =>
      let appended := append durable.retain event faults (inner.kvs durable.kv)
      (appended.1, { inner with kvs := Function.update inner.kvs durable.kv appended.2 })

def targets (topic : Topic) (subs : Subs) : List SubscriptionId :=
  (subs.toList.filter (fun entry => entry.2.pattern.accepts topic)).map Prod.fst

/-- The first pass of a publish begins with the subscriptions its topic hits. -/
def Delivery.start (event : Event) (blocking : Bool) (subs : Subs) : Delivery :=
  { event, blocking, outcome := { id := event.id, matched := (targets event.topic subs).length } }

def Delivery.settled (expired : Bool) (delivery : Delivery) : Option PublishOutcome :=
  if delivery.waiting = [] then some delivery.outcome
  else if !delivery.blocking || expired then
    some { delivery.outcome with blocked := delivery.waiting }
  else none

def Pattern.asWritten : Pattern → String
  | .exact topic => topic.text
  | .under base => if base.isEmpty then "*" else base ++ ".*"

/-- The newest events, as many as were asked for and as a buffer holds. -/
def newest (capacity limit : ℕ) (events : List Event) : List Event :=
  events.drop (events.length - min (min events.length limit) capacity)

/-- The retained events a new subscription starts with. -/
def Inner.replay (pattern : Pattern) (capacity limit : ℕ) (faults : Faults) (inner : Inner) :
    Except BusError (List Event) :=
  match pattern with
  | .under _ => .error (.replayNeedsExactTopic pattern.asWritten)
  | .exact topic =>
      match inner.durable topic.text with
      | none => .error (.replayNotDurable topic.text)
      | some durable =>
          match readLog topic faults (inner.kvs durable.kv) with
          | .error why => .error (.store why)
          | .ok events => .ok (newest capacity limit events)

/-- What a subscription starts with, `none` for one that asks for no replay. -/
def Inner.preload (pattern : Pattern) (capacity : ℕ) (replay : Option ℕ) (faults : Faults)
    (inner : Inner) : Except BusError (List Event) :=
  match replay with
  | none => .ok []
  | some limit => inner.replay pattern capacity limit faults

/-- A subscription under the next id. -/
def Inner.join (sub : Sub) (inner : Inner) : Inner :=
  { inner with nextSub := inner.nextSub + 1, subs := inner.subs.insert inner.nextSub sub }

/-- `subscribe_with`: the new subscription, for the bus to give an id to. -/
def Inner.subscribe (access : Access) (owner : String) (pattern : Pattern)
    (options : SubscribeOptions) (replay : Option ℕ) (faults : Faults) (inner : Inner) :
    Except BusError Sub :=
  if hroomy : options.capacity = 0 then .error (.badOptions "capacity must be at least 1")
  else if !access.maySubscribe owner pattern then
    .error (.denied owner "subscribe" pattern.asWritten)
  else
    match inner.preload pattern options.capacity replay faults with
    | .error why => .error why
    | .ok queue =>
        .ok
          { owner, pattern, queue
            capacity := options.capacity
            roomy := hroomy
            policy := options.policy
            dropped := 0
            blocked := 0
            replayed := queue.length }

/-- Up to `max` events, oldest first; `max == 0` means everything queued. -/
def Sub.drained (max : ℕ) (sub : Sub) : List Event :=
  if max = 0 then sub.queue else sub.queue.take max

/-- `drain`; `recv` drains one event. -/
def Inner.drain (id : SubscriptionId) (max : ℕ) (inner : Inner) : List Event × Inner :=
  match inner.subs[id]? with
  | none => ([], inner)
  | some sub =>
      (sub.drained max,
        { inner with
          subs := inner.subs.insert id
            { sub with queue := sub.queue.drop (sub.drained max).length } })

def Inner.revoke (closes : SubscriptionId → Sub → Bool) (inner : Inner) : Inner :=
  { inner with subs := inner.subs.filter (fun id sub => !closes id sub) }

def Inner.close (id : SubscriptionId) (inner : Inner) : Inner :=
  inner.revoke (fun other _ => other == id)

def Inner.revokeOwner (owner : String) (inner : Inner) : Inner :=
  inner.revoke (fun _ sub => sub.owner == owner)

def Inner.revokeAll (inner : Inner) : Inner := inner.revoke (fun _ _ => true)

def Inner.enableDurable (topic : Topic) (retain kv : ℕ) (inner : Inner) : Except BusError Inner :=
  if retain = 0 then .error (.badOptions "retain must be at least 1")
  else
    .ok { inner with durable := Function.update inner.durable topic.text (some ⟨retain, kv⟩) }

def Inner.disableDurable (topic : String) (inner : Inner) : Inner :=
  { inner with durable := Function.update inner.durable topic none }

/-- The retained events of one topic, oldest first, the last `limit` of them. -/
def Inner.retained (topic : Topic) (limit : ℕ) (faults : Faults) (inner : Inner) :
    Except BusError (List Event) :=
  match inner.durable topic.text with
  | none => .error (.replayNotDurable topic.text)
  | some durable =>
      match readLog topic faults (inner.kvs durable.kv) with
      | .error why => .error (.store why)
      | .ok events =>
          .ok (if limit ≠ 0 ∧ limit < events.length then events.drop (events.length - limit)
            else events)

theorem Sub.offer_cases (event : Event) (counted : Bool) (sub : Sub) :
    (sub.queue.length < sub.capacity ∧
      sub.offer event counted = (.delivered, { sub with queue := sub.queue ++ [event] })) ∨
    (sub.capacity ≤ sub.queue.length ∧ sub.policy = .dropOldest ∧
      sub.offer event counted =
        (.replaced, { sub with queue := sub.queue.tail ++ [event], dropped := sub.dropped + 1 })) ∨
    (sub.capacity ≤ sub.queue.length ∧ sub.policy = .dropNewest ∧
      sub.offer event counted = (.refused, { sub with dropped := sub.dropped + 1 })) ∨
    (sub.capacity ≤ sub.queue.length ∧ sub.policy = .block ∧
      sub.offer event counted =
        (.blocked, if counted then sub else { sub with blocked := sub.blocked + 1 })) := by
  rw [Sub.offer]
  by_cases hroom : sub.queue.length < sub.capacity
  · exact .inl ⟨hroom, if_pos hroom⟩
  rw [if_neg hroom]
  have hfull := Nat.le_of_not_lt hroom
  cases hpol : sub.policy with
  | dropOldest => exact .inr (.inl ⟨hfull, rfl, rfl⟩)
  | dropNewest => exact .inr (.inr (.inl ⟨hfull, rfl, rfl⟩))
  | block => exact .inr (.inr (.inr ⟨hfull, rfl, rfl⟩))

theorem drain_none {inner : Inner} {id : SubscriptionId} (hgone : inner.subs[id]? = none)
    (max : ℕ) : inner.drain id max = ([], inner) := by
  rw [Inner.drain, hgone]

/-- The subscription when some of its events are handed out. -/
def Sub.left (max : ℕ) (sub : Sub) : Sub :=
  { sub with queue := sub.queue.drop (sub.drained max).length }

theorem drain_some {inner : Inner} {id : SubscriptionId} {sub : Sub}
    (hlive : inner.subs[id]? = some sub) (max : ℕ) :
    inner.drain id max =
      (sub.drained max, { inner with subs := inner.subs.insert id (sub.left max) }) := by
  rw [Inner.drain, hlive]
  rfl

theorem Sub.drained_prefix (max : ℕ) (sub : Sub) : sub.drained max <+: sub.queue := by
  rw [Sub.drained]
  split
  · exact prefix_refl _
  · exact take_prefix _ _

theorem Sub.drained_left (max : ℕ) (sub : Sub) :
    sub.drained max ++ (sub.left max).queue = sub.queue :=
  prefix_iff_eq_append.mp (sub.drained_prefix max)

end WasmAgent.Bus
