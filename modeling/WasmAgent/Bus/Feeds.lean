import WasmAgent.Bus.Accounts

/-!
# Buffers are queues

What a subscription received, followed by what it still holds, comes out of what was put
into its buffer, in the order in which it was put there; what is missing was discarded at
the front.
-/

namespace WasmAgent.Bus

open List Std.ExtTreeMap Std WasmAgent.Core

namespace Happening

def puts (id : SubscriptionId) : Happening → List Event
  | .offered sub event fate => if sub = id ∧ fate.goesIn = true then [event] else []
  | .joined sub replayed => if sub = id then replayed else []
  | _ => []

def hands (id : SubscriptionId) : Happening → List Event
  | .received sub event => if sub = id then [event] else []
  | _ => []

end Happening

def putInto (id : SubscriptionId) (log : List Happening) : List Event :=
  log.flatMap (Happening.puts id)

def receivedBy (id : SubscriptionId) (log : List Happening) : List Event :=
  log.flatMap (Happening.hands id)

/-- What a subscription holds, nothing when it is gone. -/
def queueOf (id : SubscriptionId) (subs : Subs) : List Event := (subs[id]?).elim [] Sub.queue

def Sub.takes (sub : Sub) : Bool :=
  decide (sub.queue.length < sub.capacity) || sub.policy == .dropOldest

section Offers

variable {event : Event} {counted : Bool} {sub : Sub} {subs : Subs} {delivery : Delivery}
variable {id : SubscriptionId} {pending : List SubscriptionId}

theorem goesIn_offer (event : Event) (counted : Bool) (sub : Sub) :
    (sub.offer event counted).1.goesIn = sub.takes := by
  rw [Sub.takes]
  rcases Sub.offer_cases event counted sub with ⟨hroom, hoffer⟩ | ⟨hfull, hpol, hoffer⟩ |
    ⟨hfull, hpol, hoffer⟩ | ⟨hfull, hpol, hoffer⟩
  · rw [hoffer, decide_eq_true hroom]
    rfl
  · rw [hoffer, hpol, decide_eq_false (Nat.not_lt_of_le hfull)]
    rfl
  · rw [hoffer, hpol, decide_eq_false (Nat.not_lt_of_le hfull)]
    rfl
  · rw [hoffer, hpol, decide_eq_false (Nat.not_lt_of_le hfull)]
    rfl

theorem queue_offer (event : Event) (counted : Bool) (sub : Sub) :
    (sub.offer event counted).2.queue =
      (if (sub.offer event counted).1 = .replaced then sub.queue.tail else sub.queue) ++
        (if (sub.offer event counted).1.goesIn = true then [event] else []) := by
  rcases Sub.offer_cases event counted sub with ⟨-, hoffer⟩ | ⟨-, -, hoffer⟩ | ⟨-, -, hoffer⟩ |
    ⟨-, -, hoffer⟩
  · rw [hoffer]
    rfl
  · rw [hoffer]
    rfl
  · rw [hoffer]
    exact (append_nil _).symm
  · rw [hoffer]
    cases counted <;> exact (append_nil _).symm

theorem queueOf_some (hlive : subs[id]? = some sub) : queueOf id subs = sub.queue := by
  rw [queueOf, hlive]
  rfl

theorem queueOf_none (hgone : subs[id]? = none) : queueOf id subs = [] := by
  rw [queueOf, hgone]
  rfl

theorem queueOf_other {other : SubscriptionId} (hoth : other ≠ id) :
    queueOf id (offer event counted other subs).2 = queueOf id subs := by
  rw [queueOf, queueOf, offer_other hoth]

theorem pass_event (pending : List SubscriptionId) (delivery : Delivery) (subs : Subs) :
    (pass pending delivery subs).delivery.event = delivery.event := by
  induction pending generalizing delivery subs with
  | nil => rfl
  | cons id pending ih => exact ih _ _

/-- The offers of a pass, written down. -/
def offers (event : Event) (fates : List (SubscriptionId × Fate)) : List Happening :=
  fates.map (fun fate => .offered fate.1 event fate.2)

theorem queueOf_offer (event : Event) (counted : Bool) (other id : SubscriptionId) (subs : Subs) :
    (queueOf id (offer event counted other subs).2).Sublist
      (queueOf id subs ++ Happening.puts id (.offered other event
        (offer event counted other subs).1)) := by
  by_cases hoth : other = id
  · subst hoth
    cases hlive : subs[other]? with
    | none =>
      rw [offer_none hlive, queueOf_none hlive]
      exact nil_sublist _
    | some sub =>
      rw [offer_some hlive, queueOf_some getElem?_insert_self, queueOf_some hlive,
        queue_offer, Happening.puts]
      simp only [true_and]
      apply List.Sublist.append_right
      split
      · exact tail_sublist _
      · exact List.Sublist.refl _
  · rw [queueOf_other hoth, Happening.puts, if_neg (fun hboth => hoth hboth.1), append_nil]

theorem queueOf_pass (pending : List SubscriptionId) (delivery : Delivery) (subs : Subs)
    (id : SubscriptionId) :
    (queueOf id (pass pending delivery subs).subs).Sublist
      (queueOf id subs ++
        putInto id (offers delivery.event (pass pending delivery subs).fates)) := by
  induction pending generalizing delivery subs with
  | nil =>
    change (queueOf id subs).Sublist (queueOf id subs ++ [])
    rw [append_nil]
  | cons other pending ih =>
    have hrest := ih (delivery.count other (offer delivery.event (delivery.counted.contains other)
      other subs).1) (offer delivery.event (delivery.counted.contains other) other subs).2
    have hfst := queueOf_offer delivery.event (delivery.counted.contains other) other id subs
    refine hrest.trans ?_
    change (_ ++ _ : List Event).Sublist (queueOf id subs ++ (Happening.puts id _ ++ _))
    rw [← append_assoc]
    exact hfst.append_right _

end Offers

/-- What was received, then what is held, comes out of what was put in, in order. -/
def Fed (world : World) : Prop :=
  ∀ id, (receivedBy id world.log ++ queueOf id world.inner.subs).Sublist (putInto id world.log)

section Steps

variable {world next : World} {more : List Happening}

theorem putInto_append (id : SubscriptionId) (first second : List Happening) :
    putInto id (first ++ second) = putInto id first ++ putInto id second :=
  flatMap_append

theorem receivedBy_append (id : SubscriptionId) (first second : List Happening) :
    receivedBy id (first ++ second) = receivedBy id first ++ receivedBy id second :=
  flatMap_append

theorem flatMap_nil {Item : Type} {make : Item → List Event} {items : List Item}
    (hnone : ∀ item ∈ items, make item = []) : items.flatMap make = [] :=
  flatMap_eq_nil_iff.mpr hnone

/-- Nothing was received, and what is held in the end was held before or put in since. -/
structure Grew (world next : World) : Prop where
  received : ∀ id, receivedBy id next.log = receivedBy id world.log
  fed : Fed world → Fed next

namespace Grew

theorem trans {middle : World} (hfst : Grew world middle) (hsnd : Grew middle next) :
    Grew world next :=
  ⟨fun id => (hsnd.received id).trans (hfst.received id), fun hfed => hsnd.fed (hfst.fed hfed)⟩

theorem of_log (hlog : next.log = world.log ++ more)
    (hhands : ∀ id, ∀ happening ∈ more, happening.hands id = [])
    (hque : ∀ id, (queueOf id next.inner.subs).Sublist
      (queueOf id world.inner.subs ++ putInto id more)) : Grew world next := by
  have hreceived (id : SubscriptionId) : receivedBy id next.log = receivedBy id world.log := by
    rw [hlog, receivedBy_append, receivedBy, receivedBy, flatMap_nil (hhands id), append_nil]
  refine ⟨hreceived, fun hfed id => ?_⟩
  rw [hreceived, hlog, putInto_append]
  calc
    (receivedBy id world.log ++ queueOf id next.inner.subs).Sublist
        (receivedBy id world.log ++ (queueOf id world.inner.subs ++ putInto id more)) :=
      (hque id).append_left _
    _ = (receivedBy id world.log ++ queueOf id world.inner.subs) ++ putInto id more :=
      (append_assoc _ _ _).symm
    List.Sublist _ (putInto id world.log ++ putInto id more) := (hfed id).append_right _

theorem lose (hlog : next.log = world.log ++ more)
    (hhands : ∀ id, ∀ happening ∈ more, happening.hands id = [])
    (hque : ∀ id, (queueOf id next.inner.subs).Sublist (queueOf id world.inner.subs)) :
    Grew world next :=
  of_log hlog hhands (fun id => (hque id).trans (sublist_append_left _ _))

theorem still (hlog : next.log = world.log) (hsubs : next.inner.subs = world.inner.subs) :
    Grew world next :=
  lose (hlog.trans (append_nil _).symm) (fun id => forall_mem_nil _) (fun id => by rw [hsubs])

theorem fail (world : World) (why : BusError) : Grew world (world.fail why) := by
  refine lose rfl (fun id => ?_) (fun id => List.Sublist.refl _)
  exact forall_mem_singleton.mpr rfl

theorem assign (world : World) (event : Event) : Grew world (world.assign event) := by
  have hsubs := (subs_assign event world.inner).1
  refine lose rfl (fun id => ?_) (fun id => ?_)
  · split
    · exact forall_mem_nil _
    · exact forall_mem_singleton.mpr rfl
  · rw [World.assign, hsubs]

theorem proceed (world : World) (expired : Bool) (publishing : Publishing)
    (pending : List SubscriptionId) : Grew world (world.proceed expired publishing pending) := by
  have hpass := queueOf_pass pending { publishing.delivery with waiting := [] } world.inner.subs
  have hofd : Grew world (world.offered (pass pending { publishing.delivery with waiting := [] }
      world.inner.subs)) := by
    refine of_log rfl (fun id happening hmem => ?_) (fun id => ?_)
    · obtain ⟨fate, -, rfl⟩ := List.mem_map.mp hmem
      rfl
    · rw [pass_event]
      exact hpass id
  rw [World.proceed]
  split
  · refine hofd.trans (lose rfl (fun id => ?_) (fun id => List.Sublist.refl _))
    exact forall_mem_singleton.mpr rfl
  · exact hofd.trans (still rfl rfl)

theorem publish (world : World) (event : Event) (blocking : Bool) (now : UInt64)
    (expired : Bool) (faults : Faults) :
    Grew world (world.publish event blocking now expired faults) := by
  have hsubs := (subs_keep ((world.inner.assign event).1.stamp now) faults
    (world.assign event).inner).1
  have hkept : Grew world { world.assign event with
      inner := ((world.assign event).inner.keep ((world.inner.assign event).1.stamp now)
        faults).2 } := by
    exact (assign world event).trans (still rfl hsubs)
  rw [World.publish]
  split
  · exact hkept.trans (fail _ _)
  refine (hkept.trans ?_).trans (proceed _ _ _ _)
  refine lose rfl (fun id happening hmem => ?_) (fun id => List.Sublist.refl _)
  obtain ⟨sub, -, rfl⟩ := List.mem_map.mp hmem
  rfl

theorem join (world : World) (sub : Sub) :
    Grew world
      { world with
        inner := world.inner.join sub
        log := world.log ++ [.joined world.inner.nextSub sub.queue] } := by
  refine of_log rfl (fun id => List.forall_mem_singleton.mpr rfl) (fun id => ?_)
  change (queueOf id (world.inner.subs.insert world.inner.nextSub sub)).Sublist
    (queueOf id world.inner.subs ++ ((if world.inner.nextSub = id then sub.queue else []) ++ []))
  rw [List.append_nil]
  by_cases hid : world.inner.nextSub = id
  · rw [if_pos hid, ← hid, queueOf_some ExtTreeMap.getElem?_insert_self]
    exact List.sublist_append_right _ _
  rw [if_neg hid, List.append_nil, queueOf, getElem?_insert_of_ne hid]
  exact List.Sublist.refl _

theorem revoke (world : World) (closes : SubscriptionId → Sub → Bool) :
    Grew world { world with inner := world.inner.revoke closes } := by
  refine lose (append_nil _).symm (fun id => forall_mem_nil _) (fun id => ?_)
  change (queueOf id (world.inner.subs.filter (fun id sub => !closes id sub))).Sublist _
  rw [queueOf, queueOf, getElem?_filter']
  cases world.inner.subs[id]? with
  | none => exact List.Sublist.refl _
  | some sub =>
    rw [Option.filter]
    split
    · exact List.Sublist.refl _
    · exact nil_sublist _

theorem step {action : Action} (hkeep : ∀ id max, action ≠ .drain id max) :
    Grew world (world.step action) := by
  cases action with
  | drain id max => exact absurd rfl (hkeep id max)
  | publish access event blocking now expired faults =>
    rw [World.step]
    split
    · exact publish world event blocking now expired faults
    · exact fail _ _
  | retry index expired =>
    rw [World.step, World.retry]
    split
    · exact still rfl rfl
    · refine trans ?_ (proceed _ _ _ _)
      exact still rfl rfl
  | subscribe access owner pattern options replay faults =>
    rw [World.step]
    split
    · exact fail _ _
    · exact join _ _
  | close | revokeOwner | revokeAll => exact revoke _ _
  | enableDurable topic retain kv =>
    rw [World.step]
    split
    · exact fail _ _
    rename_i inner hinner
    rw [Inner.enableDurable] at hinner
    split at hinner
    · cases hinner
    · cases hinner
      exact still rfl rfl
  | disableDurable topic => exact still rfl rfl

end Grew

theorem receivedBy_received (sub : SubscriptionId) (events : List Event) (id : SubscriptionId) :
    receivedBy id (events.map (fun event => .received sub event)) =
      if sub = id then events else [] := by
  induction events with
  | nil => exact (ite_self _).symm
  | cons event events ih =>
    change (if sub = id then [event] else []) ++ receivedBy id _ = _
    rw [ih]
    split
    · rfl
    · rfl

/-- What is handed out is what was at the front. -/
theorem Fed.drain (hfed : Fed world) (id : SubscriptionId) (max : ℕ) :
    Fed
      { world with
        inner := (world.inner.drain id max).2
        log := world.log ++ (world.inner.drain id max).1.map (fun event => .received id event) } := by
  have hputs : ∀ other, putInto other ((world.inner.drain id max).1.map
      (fun event => Happening.received id event)) = [] := fun other => flatMap_nil (by
    intro happening hmem
    obtain ⟨event, -, rfl⟩ := List.mem_map.mp hmem
    rfl)
  intro other
  rw [receivedBy_append, putInto_append, hputs, List.append_nil, receivedBy_received]
  suffices hspl : (if id = other then (world.inner.drain id max).1 else []) ++
      queueOf other (world.inner.drain id max).2.subs = queueOf other world.inner.subs by
    rw [List.append_assoc, hspl]
    exact hfed other
  cases hsub : world.inner.subs[id]? with
  | none =>
    rw [drain_none hsub, ite_self]
    rfl
  | some sub =>
    rw [drain_some hsub]
    dsimp only
    by_cases hsame : id = other
    · rw [if_pos hsame, ← hsame, queueOf_some ExtTreeMap.getElem?_insert_self, queueOf_some hsub]
      exact sub.drained_left max
    rw [if_neg hsame, List.nil_append, queueOf, getElem?_insert_of_ne hsame]
    rfl

theorem Fed.step (hfed : Fed world) (action : Action) : Fed (world.step action) := by
  by_cases hdrain : ∃ id max, action = .drain id max
  · obtain ⟨id, max, rfl⟩ := hdrain
    exact hfed.drain id max
  · exact (Grew.step fun id max hsame => hdrain ⟨id, max, hsame⟩).fed hfed

end Steps

end WasmAgent.Bus
