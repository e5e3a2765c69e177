import WasmAgent.Bus.Runs
import WasmAgent.Core.Maps

/-!
# Every event is accounted for

What a live subscription was matched with or started with has been received, is queued,
was counted as dropped or was reported to its publisher, or its publisher still waits; and
every subscription a publish matched is in its report exactly once.
-/

namespace WasmAgent.Bus

open List Option Std.ExtTreeMap Std WasmAgent.Core

namespace Happening

def hits (id : SubscriptionId) : Happening → ℕ
  | .matched sub _ => if sub = id then 1 else 0
  | _ => 0

def receives (id : SubscriptionId) : Happening → ℕ
  | .received sub _ => if sub = id then 1 else 0
  | _ => 0

/-- The publishers told that a subscription refused. -/
def reports (id : SubscriptionId) : Happening → ℕ
  | .returned _ outcome => outcome.blocked.count id
  | _ => 0

def outcome : Happening → Option PublishOutcome
  | .returned _ outcome => some outcome
  | _ => none

end Happening

def total {Item : Type} (count : Item → ℕ) (items : List Item) : ℕ := (items.map count).sum

def matchedFor (id : SubscriptionId) (world : World) : ℕ := total (Happening.hits id) world.log

def receivedFor (id : SubscriptionId) (world : World) : ℕ := total (Happening.receives id) world.log

def reportedFor (id : SubscriptionId) (world : World) : ℕ := total (Happening.reports id) world.log

def waitingFor (id : SubscriptionId) (world : World) : ℕ :=
  total (fun publishing => publishing.delivery.waiting.count id) world.waiting

section Totals

variable {Item : Type} {count : Item → ℕ}

theorem total_append (first second : List Item) :
    total count (first ++ second) = total count first + total count second := by
  rw [total, map_append, sum_append]
  rfl

theorem total_singleton (item : Item) : total count [item] = count item := by
  rw [total, map_singleton, sum_singleton]

theorem total_map {Origin : Type} (make : Origin → Item) (origins : List Origin) :
    total count (origins.map make) = total (fun origin => count (make origin)) origins := by
  rw [total, List.map_map]
  rfl

theorem total_zero {items : List Item} (hzero : ∀ item ∈ items, count item = 0) :
    total count items = 0 := by
  rw [total, List.sum_eq_zero_iff_forall_eq_nat]
  intro value hval
  obtain ⟨item, hitem, rfl⟩ := List.mem_map.mp hval
  exact hzero item hitem

theorem total_eraseIdx {items : List Item} {index : ℕ} {item : Item}
    (hitem : items[index]? = some item) :
    total count (items.eraseIdx index) + count item = total count items := by
  induction items generalizing index with
  | nil => cases hitem
  | cons first items ih =>
    cases index with
    | zero =>
      cases hitem
      rw [eraseIdx_zero, tail_cons, total, total, map_cons, sum_cons]
      exact Nat.add_comm _ _
    | succ index =>
      have hrest := ih hitem
      rw [total, total] at hrest
      rw [eraseIdx_cons_succ, total, total, map_cons, map_cons, sum_cons, sum_cons]
      omega

end Totals

/-- What a subscription holds, and what it counted as dropped. -/
def Sub.load (sub : Sub) : ℕ := sub.queue.length + sub.dropped

section Passes

variable {event : Event} {counted : Bool} {sub : Sub} {subs : Subs} {delivery : Delivery}
variable {id : SubscriptionId} {pending : List SubscriptionId}

theorem Sub.load_offer (event : Event) (counted : Bool) (sub : Sub) :
    (sub.offer event counted).2.load + (if (sub.offer event counted).1 = .blocked then 1 else 0) =
      sub.load + 1 := by
  have hroomy := sub.roomy
  rcases Sub.offer_cases event counted sub with ⟨-, hoffer⟩ | ⟨hfull, -, hoffer⟩ | ⟨-, -, hoffer⟩ |
    ⟨-, -, hoffer⟩
  · rw [hoffer]
    change (sub.queue ++ [event]).length + sub.dropped + 0 = sub.queue.length + sub.dropped + 1
    rw [length_append, length_singleton]
    omega
  · rw [hoffer]
    change (sub.queue.tail ++ [event]).length + (sub.dropped + 1) + 0 =
      sub.queue.length + sub.dropped + 1
    rw [length_append, length_tail, length_singleton]
    omega
  · rw [hoffer]
    rfl
  · rw [hoffer]
    cases counted <;> rfl

theorem Sub.replayed_offer (event : Event) (counted : Bool) (sub : Sub) :
    (sub.offer event counted).2.replayed = sub.replayed := by
  rcases Sub.offer_cases event counted sub with ⟨-, hoffer⟩ | ⟨-, -, hoffer⟩ | ⟨-, -, hoffer⟩ |
    ⟨-, -, hoffer⟩
  · rw [hoffer]
  · rw [hoffer]
  · rw [hoffer]
  · rw [hoffer]
    cases counted <;> rfl

theorem offer_none (hgone : subs[id]? = none) : offer event counted id subs = (.gone, subs) := by
  rw [offer, hgone]

theorem offer_some (hlive : subs[id]? = some sub) :
    offer event counted id subs =
      ((sub.offer event counted).1, subs.insert id (sub.offer event counted).2) := by
  rw [offer, hlive]

theorem offer_other {other : SubscriptionId} (hoth : other ≠ id) :
    (offer event counted other subs).2[id]? = subs[id]? := by
  cases hlive : subs[other]? with
  | none => rw [offer_none hlive]
  | some sub =>
    rw [offer_some hlive, getElem?_insert_of_ne hoth]

theorem waiting_count (fate : Fate) (other : SubscriptionId) :
    (delivery.count other fate).waiting.count id =
      delivery.waiting.count id + (if fate = .blocked then [other].count id else 0) := by
  rw [Delivery.count]
  split
  · exact count_append
  · rfl

theorem pass_none (hgone : subs[id]? = none) : (pass pending delivery subs).subs[id]? = none := by
  induction pending generalizing delivery subs with
  | nil => exact hgone
  | cons other pending ih =>
    apply ih
    by_cases hoth : other = id
    · rw [hoth, offer_none hgone]
      exact hgone
    · rw [offer_other hoth]
      exact hgone

theorem pass_load (hlive : subs[id]? = some sub) (delivery : Delivery) :
    ∃ left, (pass pending delivery subs).subs[id]? = some left ∧ left.replayed = sub.replayed ∧
      left.load + (pass pending delivery subs).delivery.waiting.count id =
        sub.load + pending.count id + delivery.waiting.count id := by
  induction pending generalizing subs sub delivery with
  | nil => exact ⟨sub, hlive, rfl, rfl⟩
  | cons other pending ih =>
    by_cases hoth : other = id
    · subst hoth
      have hoffer : offer delivery.event (delivery.counted.contains other) other subs = _ :=
        offer_some hlive
      have hins : (offer delivery.event (delivery.counted.contains other) other subs).2[other]? =
          some (sub.offer delivery.event (delivery.counted.contains other)).2 := by
        rw [hoffer, getElem?_insert_self]
      obtain ⟨left, hlt, hrpd, hload⟩ := ih hins (delivery.count other
        (offer delivery.event (delivery.counted.contains other) other subs).1)
      refine ⟨left, hlt, hrpd.trans (Sub.replayed_offer _ _ _), ?_⟩
      have hstep := Sub.load_offer delivery.event (delivery.counted.contains other) sub
      rw [waiting_count, count_singleton_self] at hload
      rw [count_cons_self]
      change left.load + (pass pending _ _).delivery.waiting.count other = _
      rw [hoffer] at hload ⊢
      dsimp only at hload ⊢
      omega
    have hkept : (offer delivery.event (delivery.counted.contains other) other subs).2[id]? =
        some sub := by
      rw [offer_other hoth]
      exact hlive
    obtain ⟨left, hlt, hrpd, hload⟩ := ih hkept (delivery.count other
      (offer delivery.event (delivery.counted.contains other) other subs).1)
    refine ⟨left, hlt, hrpd, ?_⟩
    have hnone : [other].count id = 0 := count_eq_zero.mpr (by
      rw [mem_singleton]
      exact fun hsame => hoth hsame.symm)
    rw [waiting_count, hnone, ite_self, Nat.add_zero] at hload
    rw [count_cons_of_ne hoth]
    exact hload

end Passes

structure Balanced (pending : List SubscriptionId) (world : World) : Prop where
  live : ∀ id sub, world.inner.subs[id]? = some sub →
    matchedFor id world + sub.replayed =
      receivedFor id world + sub.load + reportedFor id world + waitingFor id world +
        pending.count id
  fresh : ∀ id, world.inner.nextSub ≤ id →
    world.inner.subs[id]? = none ∧ matchedFor id world = 0 ∧ receivedFor id world = 0 ∧
      reportedFor id world = 0 ∧ waitingFor id world = 0 ∧ pending.count id = 0
  unreported : ∀ publishing ∈ world.waiting, publishing.delivery.outcome.blocked = []

/-- It is in nobody's account. -/
def Happening.Quiet (happening : Happening) : Prop :=
  ∀ id, happening.hits id = 0 ∧ happening.receives id = 0 ∧ happening.reports id = 0

section Keeping

variable {world next : World} {pending : List SubscriptionId} {more : List Happening}

theorem total_quiet {count : SubscriptionId → Happening → ℕ} {id : SubscriptionId}
    (hlog : next.log = world.log ++ more) (hzero : ∀ happening ∈ more, count id happening = 0) :
    total (count id) next.log = total (count id) world.log := by
  rw [hlog, total_append, total_zero hzero, Nat.add_zero]

variable (hbal : Balanced pending world)
include hbal

/-- What is in nobody's account leaves the accounts as they are. -/
theorem Balanced.quiet
    (hsubs : next.inner.subs = world.inner.subs) (hnext : next.inner.nextSub = world.inner.nextSub)
    (hwtg : next.waiting = world.waiting) (hlog : next.log = world.log ++ more)
    (hquiet : ∀ happening ∈ more, happening.Quiet) : Balanced pending next := by
  have hmatd : ∀ id, matchedFor id next = matchedFor id world := fun id =>
    total_quiet hlog (fun happening hmore => (hquiet happening hmore id).1)
  have hrcvd : ∀ id, receivedFor id next = receivedFor id world := fun id =>
    total_quiet hlog (fun happening hmore => (hquiet happening hmore id).2.1)
  have hrepd : ∀ id, reportedFor id next = reportedFor id world := fun id =>
    total_quiet hlog (fun happening hmore => (hquiet happening hmore id).2.2)
  have hwts : ∀ id, waitingFor id next = waitingFor id world := by
    intro id
    rw [waitingFor, waitingFor, hwtg]
  constructor
  · intro id sub hsub
    rw [hmatd, hrcvd, hrepd, hwts]
    exact hbal.live id sub (hsubs ▸ hsub)
  · intro id hid
    rw [hsubs, hmatd, hrcvd, hrepd, hwts]
    exact hbal.fresh id (hnext ▸ hid)
  · rw [hwtg]
    exact hbal.unreported

omit hbal in
theorem quiet_failed (why : BusError) : (Happening.failed why).Quiet :=
  fun _ => ⟨rfl, rfl, rfl⟩

theorem Balanced.fail (why : BusError) : Balanced pending (world.fail why) :=
  hbal.quiet rfl rfl rfl rfl (forall_mem_singleton.mpr (quiet_failed why))

variable (event : Event)

omit hbal in
theorem subs_assign (inner : Inner) :
    (inner.assign event).2.subs = inner.subs ∧ (inner.assign event).2.nextSub = inner.nextSub := by
  rw [Inner.assign]
  split
  · exact ⟨rfl, rfl⟩
  · exact ⟨rfl, rfl⟩

theorem Balanced.assign : Balanced pending (world.assign event) := by
  obtain ⟨hsubs, hnext⟩ := subs_assign event world.inner
  refine @Balanced.quiet world (world.assign event) _ _ hbal hsubs hnext rfl rfl ?_
  split
  · exact forall_mem_nil _
  · exact forall_mem_singleton.mpr (fun _ => ⟨rfl, rfl, rfl⟩)

omit hbal in
theorem subs_keep (faults : Faults) (inner : Inner) :
    (inner.keep event faults).2.subs = inner.subs ∧
      (inner.keep event faults).2.nextSub = inner.nextSub := by
  rw [Inner.keep]
  split
  · exact ⟨rfl, rfl⟩
  · exact ⟨rfl, rfl⟩

theorem Balanced.keep (faults : Faults) :
    Balanced pending { world with inner := (world.inner.keep event faults).2 } := by
  obtain ⟨hsubs, hnext⟩ := subs_keep event faults world.inner
  exact hbal.quiet hsubs hnext rfl (append_nil _).symm (forall_mem_nil _)

end Keeping

section Returning

variable {delivery : Delivery} {outcome : PublishOutcome} {expired : Bool}

theorem blocked_count (fate : Fate) (outcome : PublishOutcome) :
    (outcome.count fate).blocked = outcome.blocked := by
  cases fate <;> rfl

theorem pass_blocked (pending : List SubscriptionId) (delivery : Delivery) (subs : Subs) :
    (pass pending delivery subs).delivery.outcome.blocked = delivery.outcome.blocked := by
  induction pending generalizing delivery subs with
  | nil => rfl
  | cons id pending ih => exact (ih _ _).trans (blocked_count _ _)

theorem settled_blocked (hsil : delivery.outcome.blocked = [])
    (hsetd : delivery.settled expired = some outcome) : outcome.blocked = delivery.waiting := by
  rw [Delivery.settled] at hsetd
  split at hsetd
  · next hnone =>
    cases hsetd
    rw [hnone, hsil]
  split at hsetd
  · cases hsetd
    rfl
  · cases hsetd

variable {world : World} {pending : List SubscriptionId} {publishing : Publishing}

theorem total_offers (count : SubscriptionId → Happening → ℕ)
    (hofd : ∀ id sub event fate, count id (.offered sub event fate) = 0) (id : SubscriptionId)
    (event : Event) (fates : List (SubscriptionId × Fate)) :
    total (count id) (fates.map (fun fate => Happening.offered fate.1 event fate.2)) = 0 := by
  apply total_zero
  intro happening hhap
  obtain ⟨fate, -, rfl⟩ := List.mem_map.mp hhap
  exact hofd id _ _ _

theorem pass_waiting_le (pending : List SubscriptionId) (delivery : Delivery) (subs : Subs)
    (id : SubscriptionId) :
    (pass pending delivery subs).delivery.waiting.count id ≤
      pending.count id + delivery.waiting.count id := by
  induction pending generalizing delivery subs with
  | nil => exact Nat.le_add_left _ _
  | cons other pending ih =>
    refine Nat.le_trans (ih _ _) ?_
    rw [waiting_count]
    have hcons : (other :: pending).count id = [other].count id + pending.count id :=
      @count_append _ _ id [other] pending
    split
    · omega
    · omega

variable (hbal : Balanced pending world)
include hbal

theorem Balanced.offered (hwtg : delivery.waiting = []) :
    Balanced (pass pending delivery world.inner.subs).delivery.waiting
      (world.offered (pass pending delivery world.inner.subs)) := by
  have hcoun : ∀ count : SubscriptionId → Happening → ℕ,
      (∀ id sub event fate, count id (.offered sub event fate) = 0) → ∀ id,
      total (count id) (world.offered (pass pending delivery world.inner.subs)).log =
        total (count id) world.log := by
    intro count hofd id
    rw [World.offered, total_append, total_offers count hofd, Nat.add_zero]
  have hhits := hcoun Happening.hits (fun _ _ _ _ => rfl)
  have hrec := hcoun Happening.receives (fun _ _ _ _ => rfl)
  have hrep := hcoun Happening.reports (fun _ _ _ _ => rfl)
  constructor
  · intro id left hlt
    rw [matchedFor, receivedFor, reportedFor, hhits, hrec, hrep]
    cases hsub : world.inner.subs[id]? with
    | none =>
      have hgone : (pass pending delivery world.inner.subs).subs[id]? = none := pass_none hsub
      cases hgone.symm.trans hlt
    | some sub =>
      obtain ⟨same, hsame, hrpd, hload⟩ := @pass_load _ _ _ pending hsub delivery
      have hbef := hbal.live id sub hsub
      rw [matchedFor, receivedFor, reportedFor] at hbef
      cases Option.some.inj (hsame.symm.trans hlt)
      rw [hwtg, count_nil, Nat.add_zero] at hload
      change _ = _ + _ + _ + waitingFor id world + _
      omega
  · intro id hid
    obtain ⟨hnone, hmatd, hrcvd, hrepd, hwts, hpnd⟩ := hbal.fresh id hid
    have hle := pass_waiting_le pending delivery world.inner.subs id
    rw [hpnd, hwtg, count_nil] at hle
    exact ⟨pass_none hnone, (hhits id).trans hmatd, (hrec id).trans hrcvd,
      (hrep id).trans hrepd, hwts, Nat.le_zero.mp hle⟩
  · exact hbal.unreported

omit hbal in
theorem counts_finish (publishing : Publishing) (outcome : PublishOutcome) (id : SubscriptionId) :
    matchedFor id (world.finish publishing outcome) = matchedFor id world ∧
      receivedFor id (world.finish publishing outcome) = receivedFor id world ∧
      reportedFor id (world.finish publishing outcome) =
        reportedFor id world + outcome.blocked.count id := by
  refine ⟨?_, ?_, ?_⟩
  · rw [matchedFor, World.finish, total_append, total_singleton]
    rfl
  · rw [receivedFor, World.finish, total_append, total_singleton]
    rfl
  · rw [reportedFor, World.finish, total_append, total_singleton]
    rfl

theorem Balanced.finish (hblk : outcome.blocked = pending) :
    Balanced [] (world.finish publishing outcome) := by
  constructor
  · intro id sub hsub
    obtain ⟨hmatd, hrcvd, hrepd⟩ := @counts_finish world publishing outcome id
    have hbef := hbal.live id sub hsub
    rw [hmatd, hrcvd, hrepd, hblk, count_nil, hbef]
    change _ = _ + _ + _ + waitingFor id world + _
    omega
  · intro id hid
    obtain ⟨hmatd, hrcvd, hrepd⟩ := @counts_finish world publishing outcome id
    obtain ⟨hnone, hmatd', hrcvd', hrepd', hwts, hpnd⟩ := hbal.fresh id hid
    rw [hmatd, hrcvd, hrepd, hblk, hmatd', hrcvd', hrepd', hpnd]
    exact ⟨hnone, rfl, rfl, rfl, hwts, rfl⟩
  · exact hbal.unreported

theorem Balanced.wait (hpnd : publishing.delivery.waiting = pending)
    (hsil : publishing.delivery.outcome.blocked = []) : Balanced [] (world.wait publishing) := by
  have hwts : ∀ id, waitingFor id (world.wait publishing) =
      waitingFor id world + pending.count id := by
    intro id
    rw [waitingFor, World.wait, total_append, total_singleton, hpnd]
    rfl
  constructor
  · intro id sub hsub
    rw [hwts, count_nil]
    exact (hbal.live id sub hsub).trans (Nat.add_assoc _ _ _)
  · intro id hid
    obtain ⟨hnone, hmatd, hrcvd, hrepd, hwtg, hcnt⟩ := hbal.fresh id hid
    refine ⟨hnone, hmatd, hrcvd, hrepd, ?_, rfl⟩
    rw [hwts, hwtg, hcnt]
  · exact forall_mem_append.mpr
      ⟨hbal.unreported, forall_mem_singleton.mpr hsil⟩

theorem Balanced.proceed (hsil : publishing.delivery.outcome.blocked = []) (expired : Bool) :
    Balanced [] (world.proceed expired publishing pending) := by
  have hofd := @Balanced.offered { publishing.delivery with waiting := [] } world pending hbal rfl
  have hblk := (pass_blocked pending { publishing.delivery with waiting := [] }
    world.inner.subs).trans hsil
  rw [World.proceed]
  split
  · next outcome hsetd => exact hofd.finish (settled_blocked hblk hsetd)
  · exact hofd.wait rfl hblk

end Returning

section Steps

variable {world : World}

theorem mem_targets {topic : Topic} {subs : Subs} {id : SubscriptionId} :
    id ∈ targets topic subs ↔ ∃ sub, subs[id]? = some sub ∧ sub.pattern.accepts topic = true := by
  rw [targets, List.mem_map]
  apply Iff.intro
  · rintro ⟨entry, hent, rfl⟩
    obtain ⟨hmem, haccs⟩ := List.mem_filter.mp hent
    exact ⟨entry.2, mem_toList_iff_getElem?_eq_some.mp hmem, haccs⟩
  · rintro ⟨sub, hsub, haccs⟩
    refine ⟨(id, sub), List.mem_filter.mpr ⟨?_, haccs⟩, rfl⟩
    exact mem_toList_iff_getElem?_eq_some.mpr hsub

theorem total_matched (event : Event) (ids : List SubscriptionId) (id : SubscriptionId) :
    total (Happening.hits id) (ids.map (fun sub => Happening.matched sub event)) = ids.count id := by
  induction ids with
  | nil => rfl
  | cons first ids ih =>
    have hcons := @total_append _ (Happening.hits id) [Happening.matched first event]
      (ids.map (fun sub => Happening.matched sub event))
    rw [total_singleton, ih, Happening.hits] at hcons
    simp only [count_cons, beq_iff_eq]
    exact hcons.trans (Nat.add_comm _ _)

variable (hbal : Balanced [] world)
include hbal

theorem Balanced.hit (event : Event) :
    Balanced (targets event.topic world.inner.subs)
      { world with
        log := world.log ++ (targets event.topic world.inner.subs).map
          (fun id => .matched id event) } := by
  have hnone : ∀ id, total (Happening.receives id) ((targets event.topic world.inner.subs).map
      (fun id => Happening.matched id event)) = 0 := fun id => total_zero (fun happening hmem => by
    obtain ⟨sub, -, rfl⟩ := List.mem_map.mp hmem
    rfl)
  have hquiet : ∀ id, total (Happening.reports id) ((targets event.topic world.inner.subs).map
      (fun id => Happening.matched id event)) = 0 := fun id => total_zero (fun happening hmem => by
    obtain ⟨sub, -, rfl⟩ := List.mem_map.mp hmem
    rfl)
  constructor
  · intro id sub hsub
    have hbef := hbal.live id sub hsub
    rw [matchedFor, receivedFor, reportedFor, count_nil] at hbef
    rw [matchedFor, receivedFor, reportedFor]
    rw [total_append, total_append, total_append, total_matched, hnone, hquiet]
    change _ = _ + _ + _ + waitingFor id world + _
    omega
  · intro id hid
    obtain ⟨hgone, hmatd, hrcvd, hrepd, hwts, -⟩ := hbal.fresh id hid
    have hcnt : (targets event.topic world.inner.subs).count id = 0 := by
      apply count_eq_zero.mpr
      intro hmem
      obtain ⟨sub, hsub, -⟩ := mem_targets.mp hmem
      cases hgone.symm.trans hsub
    rw [matchedFor] at hmatd
    rw [receivedFor] at hrcvd
    rw [reportedFor] at hrepd
    rw [matchedFor, receivedFor, reportedFor]
    rw [total_append, total_append, total_append, total_matched, hnone, hquiet, hcnt, hmatd,
      hrcvd, hrepd]
    exact ⟨hgone, rfl, rfl, rfl, hwts, rfl⟩
  · exact hbal.unreported

theorem Balanced.publish (event : Event) (blocking : Bool)
    (now : UInt64) (expired : Bool) (faults : Faults) :
    Balanced [] (world.publish event blocking now expired faults) := by
  have hkept := (hbal.assign event).keep ((world.inner.assign event).1.stamp now) faults
  rw [World.publish]
  split
  · exact hkept.fail _
  · exact (hkept.hit _).proceed rfl expired

theorem Balanced.retry (index : ℕ) (expired : Bool) : Balanced [] (world.retry index expired) := by
  rw [World.retry]
  split
  · exact hbal
  rename_i publishing hpbg
  have hsil := hbal.unreported publishing (mem_of_getElem? hpbg)
  apply Balanced.proceed ?_ hsil expired
  have hwts : ∀ id, waitingFor id { world with waiting := world.waiting.eraseIdx index } +
      publishing.delivery.waiting.count id = waitingFor id world :=
    fun id => total_eraseIdx hpbg
  constructor
  · intro id sub hsub
    have hbef := hbal.live id sub hsub
    rw [← hwts, count_nil] at hbef
    change matchedFor id world + _ = receivedFor id world + _ + reportedFor id world + _ + _
    omega
  · intro id hid
    obtain ⟨hgone, hmatd, hrcvd, hrepd, hwtg, -⟩ := hbal.fresh id hid
    rw [← hwts, Nat.add_eq_zero_iff] at hwtg
    exact ⟨hgone, hmatd, hrcvd, hrepd, hwtg.1, hwtg.2⟩
  · intro other hoth
    exact hbal.unreported other (mem_of_mem_eraseIdx hoth)

theorem Balanced.join {sub : Sub}
    (hrpd : sub.replayed = sub.queue.length) (hdrp : sub.dropped = 0) :
    Balanced []
      { world with
        inner := world.inner.join sub
        log := world.log ++ [.joined world.inner.nextSub sub.queue] } := by
  have hsame : ∀ (count : SubscriptionId → Happening → ℕ) id,
      (∀ sub replayed, count id (.joined sub replayed) = 0) →
      total (count id) (world.log ++ [.joined world.inner.nextSub sub.queue]) =
        total (count id) world.log := by
    intro count id hjoin
    rw [total_append, total_singleton, hjoin, Nat.add_zero]
  have hhits := fun id => hsame Happening.hits id (fun _ _ => rfl)
  have hrec := fun id => hsame Happening.receives id (fun _ _ => rfl)
  have hrep := fun id => hsame Happening.reports id (fun _ _ => rfl)
  constructor
  · intro id other hoth
    rw [matchedFor, receivedFor, reportedFor, hhits, hrec, hrep]
    rcases getElem?_insert_cases hoth with ⟨hid, rfl⟩ | ⟨-, hoth⟩
    · obtain ⟨-, hmatd, hrcvd, hrepd, hwts, -⟩ :=
        hbal.fresh id (Nat.le_of_eq hid)
      rw [matchedFor] at hmatd
      rw [receivedFor] at hrcvd
      rw [reportedFor] at hrepd
      change _ = _ + _ + _ + waitingFor id world + _
      rw [hmatd, hrcvd, hrepd, hwts, Sub.load, hrpd, hdrp]
      rfl
    · exact hbal.live id other hoth
  · intro id hid
    obtain ⟨hgone, hmatd, hrcvd, hrepd, hwts, hcnt⟩ := hbal.fresh id (Nat.le_of_succ_le hid)
    refine ⟨?_, (hhits id).trans hmatd, (hrec id).trans hrcvd, (hrep id).trans hrepd, hwts, hcnt⟩
    change (world.inner.subs.insert world.inner.nextSub sub)[id]? = none
    rw [getElem?_insert_of_ne (Nat.ne_of_lt hid)]
    exact hgone
  · exact hbal.unreported

omit hbal in
theorem total_received (sub : SubscriptionId) (events : List Event) (id : SubscriptionId) :
    total (Happening.receives id) (events.map (fun event => Happening.received sub event)) =
      if sub = id then events.length else 0 := by
  rw [total_map]
  split
  · next hsame =>
    rw [hsame, total]
    induction events with
    | nil => rfl
    | cons event events ih =>
      rw [map_cons, sum_cons, ih, length_cons, Nat.add_comm]
      exact congrArg _ (if_pos rfl)
  · next hoth =>
    exact total_zero (fun _ _ => if_neg hoth)

theorem Balanced.drain (id : SubscriptionId) (max : ℕ) :
    Balanced []
      { world with
        inner := (world.inner.drain id max).2
        log := world.log ++ (world.inner.drain id max).1.map (fun event => .received id event) } := by
  cases hsub : world.inner.subs[id]? with
  | none =>
    rw [drain_none hsub]
    exact hbal.quiet rfl rfl rfl rfl (List.forall_mem_nil _)
  | some sub =>
    have hspl := congrArg List.length (sub.drained_left max)
    rw [List.length_append] at hspl
    rw [drain_some hsub]
    dsimp only
    have hhits : ∀ other, total (Happening.hits other) ((sub.drained max).map
        (fun event => Happening.received id event)) = 0 := fun other => total_zero (by
      intro happening hmem
      obtain ⟨event, -, rfl⟩ := List.mem_map.mp hmem
      rfl)
    have hrep : ∀ other, total (Happening.reports other) ((sub.drained max).map
        (fun event => Happening.received id event)) = 0 := fun other => total_zero (by
      intro happening hmem
      obtain ⟨event, -, rfl⟩ := List.mem_map.mp hmem
      rfl)
    constructor
    · intro other left hlt
      rw [matchedFor, receivedFor, reportedFor]
      rw [total_append, total_append, total_append, hhits, hrep, total_received]
      change matchedFor other world + 0 + _ =
        receivedFor other world + _ + _ + (reportedFor other world + 0) + waitingFor other world + _
      rcases getElem?_insert_cases hlt with ⟨hsame, rfl⟩ | ⟨hoth, hlt⟩
      · have hbef := hbal.live id sub hsub
        rw [Sub.load] at hbef
        rw [if_pos hsame, ← hsame, Sub.load]
        change _ + 0 + sub.replayed = _ + _ + (_ + sub.dropped) + _ + _ + _
        omega
      · rw [if_neg hoth]
        exact hbal.live other left hlt
    · intro other hid
      obtain ⟨hgone, hmatd, hrcvd, hrepd, hwts, hcnt⟩ := hbal.fresh other hid
      have hoth : id ≠ other := by
        intro hsame
        rw [← hsame, hsub] at hgone
        cases hgone
      refine ⟨?_, ?_, ?_, ?_, hwts, hcnt⟩
      · change (world.inner.subs.insert id (sub.left max))[other]? = none
        rw [getElem?_insert_of_ne hoth]
        exact hgone
      · rw [matchedFor] at hmatd ⊢
        rw [total_append, hhits, hmatd]
      · rw [receivedFor] at hrcvd ⊢
        rw [total_append, total_received, if_neg hoth, hrcvd]
      · rw [reportedFor] at hrepd ⊢
        rw [total_append, hrep, hrepd]
    · exact hbal.unreported

theorem Balanced.revoke (closes : SubscriptionId → Sub → Bool) :
    Balanced [] { world with inner := world.inner.revoke closes } := by
  have hlt : ∀ id, (world.inner.subs.filter (fun id sub => !closes id sub))[id]? =
      (world.inner.subs[id]?).filter (fun sub => !closes id sub) :=
    fun id => getElem?_filter'
  constructor
  · intro id sub hsub
    have hbef := (hlt id).symm.trans hsub
    exact hbal.live id sub (filter_eq_some_iff.mp hbef).1
  · intro id hid
    obtain ⟨hgone, hrest⟩ := hbal.fresh id hid
    refine ⟨(hlt id).trans ?_, hrest⟩
    rw [hgone]
    rfl
  · exact hbal.unreported

end Steps

/-- A copy went in. -/
def Fate.goesIn : Fate → Bool
  | .delivered => true
  | .replaced => true
  | _ => false

/-- An event was discarded. -/
def Fate.drops : Fate → Bool
  | .replaced => true
  | .refused => true
  | _ => false

structure Publishing.Told (pending : List SubscriptionId) (outcome : PublishOutcome)
    (publishing : Publishing) : Prop where
  matched : outcome.matched = publishing.targets.length
  once : (publishing.fates.map Prod.fst ++ pending).Perm publishing.targets
  settled : ∀ fate ∈ publishing.fates, fate.2 ≠ .blocked
  delivered : outcome.delivered = publishing.fates.countP (fun fate => fate.2.goesIn)
  dropped : outcome.dropped = publishing.fates.countP (fun fate => fate.2.drops)

section Reports

variable {world : World} {pending : List SubscriptionId} {publishing : Publishing}

theorem pass_fates (pending : List SubscriptionId) (delivery : Delivery) (subs : Subs) :
    (pass pending delivery subs).fates.map Prod.fst = pending := by
  induction pending generalizing delivery subs with
  | nil => rfl
  | cons id pending ih => exact congrArg (List.cons id) (ih _ _)

theorem count_waiting (id : SubscriptionId) (fate : Fate) (delivery : Delivery) :
    (delivery.count id fate).waiting =
      delivery.waiting ++ (if fate = .blocked then [id] else []) := by
  rw [Delivery.count]
  split
  · rfl
  · exact (append_nil _).symm

theorem blocked_cons (id : SubscriptionId) (fate : Fate) (fates : List (SubscriptionId × Fate)) :
    (((id, fate) :: fates).filter (fun entry => entry.2 == .blocked)).map Prod.fst =
      (if fate = .blocked then [id] else []) ++
        (fates.filter (fun entry => entry.2 == .blocked)).map Prod.fst := by
  cases fate <;> rfl

theorem pass_waiting (pending : List SubscriptionId) (delivery : Delivery) (subs : Subs) :
    (pass pending delivery subs).delivery.waiting = delivery.waiting ++
      ((pass pending delivery subs).fates.filter (fun fate => fate.2 == .blocked)).map Prod.fst := by
  induction pending generalizing delivery subs with
  | nil => exact (append_nil _).symm
  | cons id pending ih =>
    have hrest := ih (delivery.count id (offer delivery.event (delivery.counted.contains id) id
      subs).1) (offer delivery.event (delivery.counted.contains id) id subs).2
    rw [count_waiting, append_assoc] at hrest
    exact hrest.trans (congrArg _ (blocked_cons _ _ _).symm)

theorem count_outcome (fate : Fate) (outcome : PublishOutcome) :
    (outcome.count fate).matched = outcome.matched ∧
      (outcome.count fate).delivered = outcome.delivered + fate.goesIn.toNat ∧
      (outcome.count fate).dropped = outcome.dropped + fate.drops.toNat := by
  cases fate <;> exact ⟨rfl, rfl, rfl⟩

theorem pass_outcome (pending : List SubscriptionId) (delivery : Delivery) (subs : Subs) :
    (pass pending delivery subs).delivery.outcome.matched = delivery.outcome.matched ∧
      (pass pending delivery subs).delivery.outcome.delivered = delivery.outcome.delivered +
        (pass pending delivery subs).fates.countP (fun fate => fate.2.goesIn) ∧
      (pass pending delivery subs).delivery.outcome.dropped = delivery.outcome.dropped +
        (pass pending delivery subs).fates.countP (fun fate => fate.2.drops) := by
  induction pending generalizing delivery subs with
  | nil => exact ⟨rfl, rfl, rfl⟩
  | cons id pending ih =>
    obtain ⟨hmatd, hdel, hdrp⟩ := ih (delivery.count id (offer delivery.event
      (delivery.counted.contains id) id subs).1)
      (offer delivery.event (delivery.counted.contains id) id subs).2
    obtain ⟨hsame, hgoes, hdrops⟩ := count_outcome
      (offer delivery.event (delivery.counted.contains id) id subs).1 delivery.outcome
    rw [pass]
    refine ⟨hmatd.trans hsame, hdel.trans ?_, hdrp.trans ?_⟩
    · change (delivery.outcome.count _).delivered + _ = _
      rw [hgoes, countP_cons, Nat.add_assoc, Nat.add_comm (Bool.toNat _)]
      cases (offer delivery.event (delivery.counted.contains id) id subs).1 <;> rfl
    · change (delivery.outcome.count _).dropped + _ = _
      rw [hdrops, countP_cons, Nat.add_assoc, Nat.add_comm (Bool.toNat _)]
      cases (offer delivery.event (delivery.counted.contains id) id subs).1 <;> rfl

theorem countP_settled {counts : Fate → Bool} (hblk : counts .blocked = false)
    (fates : List (SubscriptionId × Fate)) :
    (fates.filter (fun fate => fate.2 != .blocked)).countP (fun fate => counts fate.2) =
      fates.countP (fun fate => counts fate.2) := by
  rw [countP_filter]
  apply countP_congr
  intro fate _
  rw [Bool.and_eq_true, bne_iff_ne, and_iff_left_iff_imp]
  intro hcoun hsame
  rw [hsame, hblk] at hcoun
  cases hcoun

theorem Publishing.Told.advance {delivery : Delivery} {subs : Subs}
    (htold : publishing.Told pending delivery.outcome) (hwtg : delivery.waiting = []) :
    (publishing.advance (pass pending delivery subs)).Told
      (pass pending delivery subs).delivery.waiting
      (pass pending delivery subs).delivery.outcome := by
  obtain ⟨hmatd, hdel, hdrp⟩ := pass_outcome pending delivery subs
  have hfates := pass_fates pending delivery subs
  have hwts := pass_waiting pending delivery subs
  rw [hwtg, nil_append] at hwts
  generalize pass pending delivery subs = passed at *
  constructor
  · exact hmatd.trans htold.matched
  · refine List.Perm.trans ?_ htold.once
    rw [Publishing.advance, hwts, ← hfates, map_append, append_assoc]
    apply List.Perm.append_left
    rw [← map_append]
    apply List.Perm.map
    refine List.Perm.trans perm_append_comm ?_
    exact filter_append_perm (fun fate => fate.2 == .blocked) passed.fates
  · refine forall_mem_append.mpr ⟨htold.settled, fun fate hfate => ?_⟩
    exact bne_iff_ne.mp (List.mem_filter.mp hfate).2
  · rw [hdel, htold.delivered, Publishing.advance, countP_append, countP_settled rfl]
  · rw [hdrp, htold.dropped, Publishing.advance, countP_append, countP_settled rfl]

theorem settled_told {expired : Bool} {outcome : PublishOutcome}
    (htold : publishing.Told publishing.delivery.waiting publishing.delivery.outcome)
    (hsil : publishing.delivery.outcome.blocked = [])
    (hsetd : publishing.delivery.settled expired = some outcome) :
    publishing.Told outcome.blocked outcome := by
  rw [settled_blocked hsil hsetd]
  rw [Delivery.settled] at hsetd
  split at hsetd
  · cases hsetd
    exact htold
  split at hsetd
  · cases hsetd
    exact { htold with }
  · cases hsetd

structure Reported (world : World) : Prop where
  waiting : ∀ publishing ∈ world.waiting,
    publishing.Told publishing.delivery.waiting publishing.delivery.outcome ∧
      publishing.delivery.outcome.blocked = []
  returned : ∀ publishing outcome, .returned publishing outcome ∈ world.log →
    publishing.Told outcome.blocked outcome

theorem Reported.quiet {next : World} {more : List Happening} (hrepd : Reported world)
    (hwtg : ∀ publishing ∈ next.waiting, publishing ∈ world.waiting)
    (hlog : next.log = world.log ++ more)
    (hquiet : ∀ publishing outcome, .returned publishing outcome ∉ more) : Reported next where
  waiting publishing hpbg := hrepd.waiting publishing (hwtg publishing hpbg)
  returned publishing outcome hret := by
    rw [hlog] at hret
    rcases mem_append.mp hret with hbef | hmore
    · exact hrepd.returned publishing outcome hbef
    · exact absurd hmore (hquiet publishing outcome)

theorem Reported.proceed (hrepd : Reported world)
    (htold : publishing.Told pending publishing.delivery.outcome)
    (hsil : publishing.delivery.outcome.blocked = []) (expired : Bool) :
    Reported (world.proceed expired publishing pending) := by
  have hadv := @Publishing.Told.advance pending publishing
    { publishing.delivery with waiting := [] } world.inner.subs htold rfl
  have hblk := (pass_blocked pending { publishing.delivery with waiting := [] }
    world.inner.subs).trans hsil
  have hofd : Reported (world.offered (pass pending { publishing.delivery with waiting := [] }
      world.inner.subs)) := by
    refine hrepd.quiet (fun _ hmem => hmem) rfl ?_
    intro other outcome hmem
    obtain ⟨fate, -, hfate⟩ := List.mem_map.mp hmem
    cases hfate
  rw [World.proceed]
  split
  · next outcome hsetd =>
    constructor
    · exact hofd.waiting
    intro other told hret
    rcases mem_append.mp hret with hbef | hnow
    · exact hofd.returned other told hbef
    · cases mem_singleton.mp hnow
      exact settled_told hadv hblk hsetd
  constructor
  · exact forall_mem_append.mpr
      ⟨hofd.waiting, forall_mem_singleton.mpr ⟨hadv, hblk⟩⟩
  · exact hofd.returned

theorem told_start (event : Event) (blocking : Bool) (subs : Subs) :
    Publishing.Told (targets event.topic subs)
      (Delivery.start event blocking subs).outcome
      { delivery := Delivery.start event blocking subs, targets := targets event.topic subs } where
  matched := rfl
  once := List.Perm.refl _
  settled := forall_mem_nil _
  delivered := rfl
  dropped := rfl

theorem Reported.publish (hrepd : Reported world) (event : Event) (blocking : Bool)
    (now : UInt64) (expired : Bool) (faults : Faults) :
    Reported (world.publish event blocking now expired faults) := by
  have hasg : Reported (world.assign event) := by
    refine hrepd.quiet (fun _ hmem => hmem) rfl ?_
    intro publishing outcome hmem
    split at hmem
    · cases hmem
    · cases mem_singleton.mp hmem
  rw [World.publish]
  split
  · refine hasg.quiet (fun _ hmem => hmem) rfl ?_
    intro publishing outcome hmem
    cases mem_singleton.mp hmem
  apply Reported.proceed ?_ (told_start _ _ _) rfl
  refine hasg.quiet (fun _ hmem => hmem) rfl ?_
  intro publishing outcome hmem
  obtain ⟨id, -, hid⟩ := List.mem_map.mp hmem
  cases hid

theorem Reported.retry (hrepd : Reported world) (index : ℕ) (expired : Bool) :
    Reported (world.retry index expired) := by
  rw [World.retry]
  split
  · exact hrepd
  rename_i publishing hpbg
  obtain ⟨htold, hsil⟩ := hrepd.waiting publishing (mem_of_getElem? hpbg)
  apply Reported.proceed ?_ htold hsil
  exact ⟨fun other hoth => hrepd.waiting other (mem_of_mem_eraseIdx hoth), hrepd.returned⟩

end Reports

/-- The accounts and the reports of a bus are in order. -/
structure Sound (world : World) : Prop where
  balanced : Balanced [] world
  reported : Reported world

section Runs

variable {world : World}

theorem sound_new (kvs : ℕ → Table) : Sound (World.new kvs) where
  balanced := by
    refine ⟨fun id sub hsub => ?_, fun id _ => ⟨getElem?_empty, rfl, rfl, rfl, rfl, rfl⟩,
      forall_mem_nil _⟩
    cases getElem?_empty.symm.trans hsub
  reported := ⟨forall_mem_nil _, fun _ _ hmem => absurd hmem not_mem_nil⟩

variable (hsound : Sound world)
include hsound

theorem Sound.fail (why : BusError) : Sound (world.fail why) where
  balanced := hsound.balanced.fail why
  reported := by
    refine hsound.reported.quiet (fun _ hmem => hmem) rfl ?_
    intro publishing outcome hmem
    cases mem_singleton.mp hmem

theorem Sound.revoke (closes : SubscriptionId → Sub → Bool) :
    Sound { world with inner := world.inner.revoke closes } where
  balanced := hsound.balanced.revoke closes
  reported := ⟨hsound.reported.waiting, hsound.reported.returned⟩

theorem Sound.durable (durable : String → Option Durable) :
    Sound { world with inner := { world.inner with durable } } where
  balanced := hsound.balanced.quiet rfl rfl rfl (append_nil _).symm (forall_mem_nil _)
  reported := ⟨hsound.reported.waiting, hsound.reported.returned⟩

omit hsound in
/-- A new subscription holds what it starts with. -/
theorem subscribe_fresh {access : Access} {owner : String} {pattern : Pattern}
    {options : SubscribeOptions} {replay : Option ℕ} {faults : Faults} {inner : Inner} {sub : Sub}
    (hsub : inner.subscribe access owner pattern options replay faults = .ok sub) :
    sub.replayed = sub.queue.length ∧ sub.dropped = 0 := by
  rw [Inner.subscribe] at hsub
  split at hsub
  · cases hsub
  split at hsub
  · cases hsub
  split at hsub
  · cases hsub
  · cases hsub
    exact ⟨rfl, rfl⟩

theorem Sound.step (action : Action) : Sound (world.step action) := by
  cases action with
  | publish access event blocking now expired faults =>
    rw [World.step]
    split
    · exact ⟨hsound.balanced.publish event blocking now expired faults,
        hsound.reported.publish event blocking now expired faults⟩
    · exact hsound.fail _
  | retry index expired =>
    exact ⟨hsound.balanced.retry index expired, hsound.reported.retry index expired⟩
  | subscribe access owner pattern options replay faults =>
    rw [World.step]
    split
    · exact hsound.fail _
    rename_i sub hsub
    obtain ⟨hrpd, hdrp⟩ := subscribe_fresh hsub
    refine ⟨hsound.balanced.join hrpd hdrp, ?_⟩
    refine hsound.reported.quiet (fun _ hmem => hmem) rfl ?_
    intro publishing outcome hmem
    cases mem_singleton.mp hmem
  | drain id max =>
    refine ⟨hsound.balanced.drain id max, ?_⟩
    refine hsound.reported.quiet (fun _ hmem => hmem) rfl ?_
    intro publishing outcome hmem
    obtain ⟨event, -, hev⟩ := List.mem_map.mp hmem
    cases hev
  | close | revokeOwner | revokeAll => exact hsound.revoke _
  | enableDurable topic retain kv =>
    rw [World.step]
    split
    · exact hsound.fail _
    rename_i inner hinner
    rw [Inner.enableDurable] at hinner
    split at hinner
    · cases hinner
    · cases hinner
      exact hsound.durable _
  | disableDurable topic => exact hsound.durable _

theorem Sound.run (actions : List Action) : Sound (world.run actions) := by
  induction actions generalizing world with
  | nil => exact hsound
  | cons action actions ih => exact ih (hsound.step action)

omit hsound

theorem Publishing.Told.adds {publishing : Publishing} {outcome : PublishOutcome}
    (htold : publishing.Told outcome.blocked outcome) :
    outcome.matched = outcome.delivered +
      publishing.fates.countP (fun fate => fate.2 == .refused) +
        publishing.fates.countP (fun fate => fate.2 == .gone) + outcome.blocked.length := by
  have hlen := htold.once.length_eq
  rw [length_append, length_map] at hlen
  have hfates : ∀ fates : List (SubscriptionId × Fate), (∀ fate ∈ fates, fate.2 ≠ .blocked) →
      fates.length = fates.countP (fun fate => fate.2.goesIn) +
        fates.countP (fun fate => fate.2 == .refused) +
          fates.countP (fun fate => fate.2 == .gone) := by
    intro fates hsetd
    induction fates with
    | nil => rfl
    | cons fate fates ih =>
      obtain ⟨hfate, hrest⟩ := forall_mem_cons.mp hsetd
      rw [length_cons, countP_cons, countP_cons, countP_cons, ih hrest]
      obtain ⟨id, fate⟩ := fate
      cases fate with
      | delivered =>
        change _ = _ + 1 + (_ + 0) + (_ + 0)
        omega
      | replaced =>
        change _ = _ + 1 + (_ + 0) + (_ + 0)
        omega
      | refused =>
        change _ = _ + 0 + (_ + 1) + (_ + 0)
        omega
      | gone => rfl
      | blocked => exact absurd rfl hfate
  rw [htold.matched, htold.delivered, ← hlen, hfates _ htold.settled]

end Runs

structure Accounted (world : World) : Prop where
  live : ∀ id sub, world.inner.subs[id]? = some sub →
    matchedFor id world + sub.replayed =
      receivedFor id world + sub.queue.length + sub.dropped + reportedFor id world +
        waitingFor id world
  reports : ∀ publishing outcome, .returned publishing outcome ∈ world.log →
    publishing.Told outcome.blocked outcome ∧
      outcome.matched = outcome.delivered +
        publishing.fates.countP (fun fate => fate.2 == .refused) +
          publishing.fates.countP (fun fate => fate.2 == .gone) + outcome.blocked.length

theorem Sound.accounted {world : World} (hsound : Sound world) : Accounted world := by
  constructor
  · intro id sub hsub
    exact (hsound.balanced.live id sub hsub).trans (by rw [Sub.load, count_nil]; omega)
  · intro publishing outcome hreturned
    have htold := hsound.reported.returned publishing outcome hreturned
    exact ⟨htold, htold.adds⟩

/-- No event is lost without a trace, whatever turns the callers take. -/
theorem bus_accounts (kvs : ℕ → Table) (actions : List Action) :
    Accounted ((World.new kvs).run actions) :=
  ((sound_new kvs).run actions).accounted

/-- The accounts without the publishes that wait, and reports in which every discarded event
stands for a subscription. -/
structure Tallied (world : World) : Prop where
  live : ∀ id sub, world.inner.subs[id]? = some sub →
    matchedFor id world + sub.replayed =
      receivedFor id world + sub.queue.length + sub.dropped + reportedFor id world
  reports : ∀ publishing outcome, .returned publishing outcome ∈ world.log →
    outcome.matched = outcome.delivered + outcome.dropped + outcome.blocked.length

namespace Notes

def topic : Topic := ⟨"notes.saved", by decide +kernel⟩

def event : Event :=
  { id := 0, topic, tsMs := 1, source := "notes", schema := ⟨"note", 1⟩, payload := [], trace := none }

def allowAll : Access := { mayPublish := fun _ _ => true, maySubscribe := fun _ _ => true }

def subscribed (policy : OverflowPolicy) : Action :=
  .subscribe allowAll "index" (.exact topic) { capacity := 1, policy } none (fun _ => none)

def published (blocking : Bool) : Action :=
  .publish allowAll event blocking 1 false (fun _ => none)

def waits : World :=
  (World.new (fun _ => ∅)).run [subscribed .block, published false, published true]

/-- The second publish takes the place of the first. -/
def replaces : World :=
  (World.new (fun _ => ∅)).run [subscribed .dropOldest, published false, published false]

def reported (world : World) : List PublishOutcome := world.log.filterMap Happening.outcome

end Notes

/-- A publish that waits is in no account yet, and one that discards the oldest event went in as
well. -/
theorem untallied_notes : ¬Tallied Notes.waits ∧ ¬Tallied Notes.replaces := by
  constructor
  · intro htallied
    have hsub : Notes.waits.inner.subs[1]?.map
        (fun sub => (sub.replayed, sub.queue.length, sub.dropped)) = some (0, 1, 0) := by
      decide +kernel
    have hcounts : (matchedFor 1 Notes.waits, receivedFor 1 Notes.waits,
        reportedFor 1 Notes.waits) = (2, 0, 0) := by
      decide +kernel
    obtain ⟨sub, hlive, hload⟩ := map_eq_some_iff.mp hsub
    simp only [Prod.mk.injEq] at hload hcounts
    have htally := htallied.live 1 sub hlive
    omega
  intro htallied
  have hreported : ⟨2, 1, 1, 1, []⟩ ∈ Notes.reported Notes.replaces := by
    decide +kernel
  obtain ⟨happening, hlog, houtcome⟩ := List.mem_filterMap.mp hreported
  cases happening with
  | returned publishing outcome =>
    cases houtcome
    cases htallied.reports publishing _ hlog
  | assigned | matched | offered | joined | received | failed => cases houtcome

end WasmAgent.Bus
