import WasmAgent.Bus.Bus

/-!
# Runs of a bus

Any number of callers take turns with the lock.  What a publish read of the policy before
it had the lock, how long it waits and what the stores refuse are left open; what happened
is written down.
-/

namespace WasmAgent.Bus

open Std WasmAgent.Core

/-- A publish that is under way, the subscriptions it is for and what became of its
copies. -/
structure Publishing where
  delivery : Delivery
  targets : List SubscriptionId
  fates : List (SubscriptionId × Fate) := []

/-- After a pass, what is settled for the subscriptions that do not block. -/
def Publishing.advance (passed : Passed) (publishing : Publishing) : Publishing :=
  { publishing with
    delivery := passed.delivery
    fates := publishing.fates ++ passed.fates.filter (fun fate => fate.2 != .blocked) }

/-- What is written down of a run. -/
inductive Happening where
  | assigned (id : UInt64)
  | matched (sub : SubscriptionId) (event : Event)
  | offered (sub : SubscriptionId) (event : Event) (fate : Fate)
  | returned (publishing : Publishing) (outcome : PublishOutcome)
  | joined (sub : SubscriptionId) (replayed : List Event)
  | received (sub : SubscriptionId) (event : Event)
  | failed (why : BusError)

structure World where
  inner : Inner
  waiting : List Publishing := []
  log : List Happening := []

/-- One turn with the lock. -/
inductive Action where
  | publish (access : Access) (event : Event) (blocking : Bool) (now : UInt64) (expired : Bool)
      (faults : Faults)
  | retry (index : ℕ) (expired : Bool)
  | subscribe (access : Access) (owner : String) (pattern : Pattern) (options : SubscribeOptions)
      (replay : Option ℕ) (faults : Faults)
  | drain (id : SubscriptionId) (max : ℕ)
  | close (id : SubscriptionId)
  | revokeOwner (owner : String)
  | revokeAll
  | enableDurable (topic : Topic) (retain kv : ℕ)
  | disableDurable (topic : String)

namespace World

def new (kvs : ℕ → Table) : World := { inner := Inner.new kvs }

/-- What a pass did, written down. -/
def offered (passed : Passed) (world : World) : World :=
  { world with
    inner := { world.inner with subs := passed.subs }
    log := world.log ++
      passed.fates.map (fun fate => .offered fate.1 passed.delivery.event fate.2) }

def finish (publishing : Publishing) (outcome : PublishOutcome) (world : World) : World :=
  { world with log := world.log ++ [.returned publishing outcome] }

def wait (publishing : Publishing) (world : World) : World :=
  { world with waiting := world.waiting ++ [publishing] }

def proceed (expired : Bool) (publishing : Publishing) (pending : List SubscriptionId)
    (world : World) : World :=
  let passed := pass pending { publishing.delivery with waiting := [] } world.inner.subs
  match passed.delivery.settled expired with
  | some outcome => (world.offered passed).finish (publishing.advance passed) outcome
  | none => (world.offered passed).wait (publishing.advance passed)

/-- A call was refused. -/
def fail (why : BusError) (world : World) : World :=
  { world with log := world.log ++ [.failed why] }

def assign (event : Event) (world : World) : World :=
  { world with
    inner := (world.inner.assign event).2
    log := world.log ++ (if event.id ≠ 0 then [] else [.assigned world.inner.nextId]) }

/-- The first pass, over the subscriptions the topic hits. -/
def deliver (event : Event) (blocking expired : Bool) (world : World) : World :=
  let hit := targets event.topic world.inner.subs
  proceed expired { delivery := Delivery.start event blocking world.inner.subs, targets := hit } hit
    { world with log := world.log ++ hit.map (fun id => .matched id event) }

/-- A publish, once it has the lock: an id and a time for the event, the append, and the first
pass. -/
def publish (event : Event) (blocking : Bool) (now : UInt64) (expired : Bool) (faults : Faults)
    (world : World) : World :=
  let stamped := (world.inner.assign event).1.stamp now
  let assigned := world.assign event
  let kept := assigned.inner.keep stamped faults
  match kept.1 with
  | .error why => fail (.store why) { assigned with inner := kept.2 }
  | .ok _ => deliver stamped blocking expired { assigned with inner := kept.2 }

def retry (index : ℕ) (expired : Bool) (world : World) : World :=
  match world.waiting[index]? with
  | none => world
  | some publishing =>
      proceed expired publishing publishing.delivery.waiting
        { world with waiting := world.waiting.eraseIdx index }

def step : Action → World → World
  | .publish access event blocking now expired faults, world =>
      if access.mayPublish event.source event.topic then
        world.publish event blocking now expired faults
      else world.fail (.denied event.source "publish" event.topic.text)
  | .retry index expired, world => world.retry index expired
  | .subscribe access owner pattern options replay faults, world =>
      match world.inner.subscribe access owner pattern options replay faults with
      | .error why => world.fail why
      | .ok sub =>
          { world with
            inner := world.inner.join sub
            log := world.log ++ [.joined world.inner.nextSub sub.queue] }
  | .drain id max, world =>
      { world with
        inner := (world.inner.drain id max).2
        log := world.log ++ (world.inner.drain id max).1.map (fun event => .received id event) }
  | .close id, world => { world with inner := world.inner.close id }
  | .revokeOwner owner, world => { world with inner := world.inner.revokeOwner owner }
  | .revokeAll, world => { world with inner := world.inner.revokeAll }
  | .enableDurable topic retain kv, world =>
      match world.inner.enableDurable topic retain kv with
      | .error why => world.fail why
      | .ok inner => { world with inner }
  | .disableDurable topic, world => { world with inner := world.inner.disableDurable topic }

def run (actions : List Action) (world : World) : World :=
  actions.foldl (fun current action => current.step action) world

end World

end WasmAgent.Bus
