import WasmAgent.Bus.Feeds

/-!
# The order in which a subscription receives

A publish that waits has its id from before the wait, and what is published meanwhile goes
past it.  As long as nobody goes past a publish that waits, ids are given once and what is
replayed is older than what comes, each subscription receives the ids the bus gave in
increasing order.
-/

namespace WasmAgent.Bus

open List Std.ExtTreeMap Std WasmAgent.Core

/-- The id a step gave to an event. -/
def Happening.given : Happening → Option UInt64
  | .assigned id => some id
  | _ => none

def givenIds (log : List Happening) : List UInt64 := log.filterMap Happening.given

def numbered (ids : List UInt64) (events : List Event) : List Event :=
  events.filter (fun event => decide (event.id ∈ ids))

/-- The ids come in increasing order. -/
def Increasing (events : List Event) : Prop :=
  events.Pairwise (fun first second => first.id < second.id)

def lastId : UInt64 := 0xFFFFFFFFFFFFFFFF

/-- The bus will not give this id any more. -/
def Past (id next : UInt64) : Prop := id < next ∨ next = lastId

/-- Nobody whose id the bus gave, and for whom `before` holds, waits for the subscription. -/
def Overtakes (before : UInt64 → Prop) (id : SubscriptionId) (waiting : List Publishing)
    (log : List Happening) : Prop :=
  ∃ publishing ∈ waiting, publishing.delivery.event.id ∈ givenIds log ∧
    id ∈ publishing.delivery.waiting ∧ before publishing.delivery.event.id

/-- A step takes its turn: it goes past no publish that waits for the same subscription, brings
no id the bus gave, and replays events that are in order and older than what will come. -/
def Action.InTurn : Action → World → Prop
  | .publish _ event _ _ _ _, world =>
      if event.id = 0 then
        world.inner.nextId ≠ lastId ∧
          ∀ id sub, world.inner.subs[id]? = some sub → sub.pattern.accepts event.topic = true →
            sub.takes = true → ¬Overtakes (fun _ => True) id world.waiting world.log
      else event.id ∉ givenIds world.log
  | .retry index _, world =>
      ∀ publishing, world.waiting[index]? = some publishing →
        publishing.delivery.event.id ∈ givenIds world.log →
          ∀ id ∈ publishing.delivery.waiting, ∀ sub, world.inner.subs[id]? = some sub →
            sub.takes = true →
              ¬Overtakes (fun other => other ≤ publishing.delivery.event.id) id
                (world.waiting.eraseIdx index) world.log
  | .subscribe access owner pattern options replay faults, world =>
      ∀ sub, world.inner.subscribe access owner pattern options replay faults = .ok sub →
        (∀ event ∈ sub.queue, event.id < world.inner.nextId) ∧
          Increasing (numbered (givenIds world.log) sub.queue)
  | _, _ => True

def InTurn : List Action → World → Prop
  | [], _ => True
  | action :: actions, world => action.InTurn world ∧ InTurn actions (world.step action)

structure Ordered (world : World) : Prop where
  given : ∀ id ∈ givenIds world.log, id < world.inner.nextId
  unput : ∀ id, world.inner.nextSub ≤ id → putInto id world.log = []
  past : ∀ id, ∀ event ∈ putInto id world.log, Past event.id world.inner.nextId
  increasing : ∀ id, Increasing (numbered (givenIds world.log) (putInto id world.log))
  pending : ∀ publishing ∈ world.waiting,
    Past publishing.delivery.event.id world.inner.nextId ∧ publishing.delivery.waiting.Nodup
  later : ∀ publishing ∈ world.waiting, publishing.delivery.event.id ∈ givenIds world.log →
    ∀ id ∈ publishing.delivery.waiting, ∀ event ∈ numbered (givenIds world.log) (putInto id world.log),
      event.id < publishing.delivery.event.id

section Passes

variable {event : Event} {subs : Subs} {delivery : Delivery} {id : SubscriptionId}
variable {pending : List SubscriptionId}

theorem fate_counted (event : Event) (counted : Bool) (sub : Sub) :
    (sub.offer event counted).1 = (sub.offer event false).1 := by
  rw [Sub.offer, Sub.offer]
  split
  · rfl
  · cases sub.policy <;> rfl

theorem offer_fate (event : Event) (counted : Bool) (id : SubscriptionId) (subs : Subs) :
    (offer event counted id subs).1 = (offer event false id subs).1 := by
  cases hlive : subs[id]? with
  | none => rw [offer_none hlive, offer_none hlive]
  | some sub =>
    rw [offer_some hlive, offer_some hlive]
    exact fate_counted event counted sub

theorem offer_fate_congr {first second : Subs} (hsame : first[id]? = second[id]?) :
    (offer event false id first).1 = (offer event false id second).1 := by
  cases hlive : first[id]? with
  | none => rw [offer_none hlive, offer_none (hsame.symm.trans hlive)]
  | some sub => rw [offer_some hlive, offer_some (hsame.symm.trans hlive)]

variable (hndp : pending.Nodup)
include hndp

theorem pass_fates_eq (delivery : Delivery) (subs : Subs) :
    (pass pending delivery subs).fates =
      pending.map (fun id => (id, (offer delivery.event false id subs).1)) := by
  induction pending generalizing delivery subs with
  | nil => rfl
  | cons first pending ih =>
    obtain ⟨hfst, hrest⟩ := nodup_cons.mp hndp
    have htail := ih hrest (delivery.count first (offer delivery.event
      (delivery.counted.contains first) first subs).1)
      (offer delivery.event (delivery.counted.contains first) first subs).2
    rw [map_cons, ← offer_fate delivery.event (delivery.counted.contains first)]
    refine congrArg (List.cons _) (htail.trans (map_congr_left (fun id hid => ?_)))
    have hoth : first ≠ id := fun hsame => hfst (hsame ▸ hid)
    exact congrArg (Prod.mk id) (offer_fate_congr (offer_other hoth))

theorem putInto_offers (event : Event) (fate : SubscriptionId → Fate) (id : SubscriptionId) :
    putInto id (pending.map (fun sub => .offered sub event (fate sub))) =
      if id ∈ pending ∧ (fate id).goesIn = true then [event] else [] := by
  induction pending with
  | nil => exact (if_neg (fun hboth => not_mem_nil hboth.1)).symm
  | cons first pending ih =>
    obtain ⟨hfst, hrest⟩ := nodup_cons.mp hndp
    change (if first = id ∧ (fate first).goesIn = true then [event] else []) ++ putInto id _ = _
    rw [ih hrest]
    by_cases hsame : first = id
    · subst hsame
      have hltr : (if first ∈ pending ∧ (fate first).goesIn = true then [event] else []) = [] :=
        if_neg (fun hboth => hfst hboth.1)
      rw [hltr, append_nil]
      exact if_congr (and_congr_left' (iff_of_true rfl mem_cons_self)) rfl rfl
    · rw [if_neg (fun hboth => hsame hboth.1), nil_append]
      refine if_congr (and_congr_left' ?_) rfl rfl
      rw [mem_cons, or_iff_right (fun hid => hsame hid.symm)]

omit hndp in
theorem goesIn_live (hgoes : (offer event false id subs).1.goesIn = true) :
    ∃ sub, subs[id]? = some sub ∧ sub.takes = true := by
  cases hlive : subs[id]? with
  | none =>
    rw [offer_none hlive] at hgoes
    cases hgoes
  | some sub =>
    rw [offer_some hlive, goesIn_offer] at hgoes
    exact ⟨sub, rfl, hgoes⟩

theorem mem_pass_waiting (hwtg : delivery.waiting = [])
    (hid : id ∈ (pass pending delivery subs).delivery.waiting) :
    id ∈ pending ∧ (offer delivery.event false id subs).1 = .blocked := by
  rw [pass_waiting, hwtg, nil_append, pass_fates_eq hndp] at hid
  obtain ⟨entry, hent, rfl⟩ := List.mem_map.mp hid
  obtain ⟨hmem, hblk⟩ := List.mem_filter.mp hent
  obtain ⟨other, hoth, rfl⟩ := List.mem_map.mp hmem
  exact ⟨hoth, beq_iff_eq.mp hblk⟩

theorem nodup_pass_waiting (hwtg : delivery.waiting = []) :
    (pass pending delivery subs).delivery.waiting.Nodup := by
  rw [pass_waiting, hwtg, nil_append]
  have hfates := pass_fates pending delivery subs
  have hsub := (filter_sublist (p := fun fate : SubscriptionId × Fate => fate.2 == .blocked)
    (l := (pass pending delivery subs).fates)).map Prod.fst
  rw [hfates] at hsub
  exact hndp.sublist hsub

omit hndp

theorem nodup_targets (topic : Topic) (subs : Subs) : (targets topic subs).Nodup := by
  rw [targets, List.Nodup, pairwise_map]
  apply List.Pairwise.filter
  refine distinct_keys_toList.imp ?_
  intro first second hdist hsame
  exact hdist (LawfulEqCmp.compare_eq_iff_eq.mpr hsame)

end Passes

section Steps

variable {world next : World} {more : List Happening} {publishing : Publishing}
variable {pending : List SubscriptionId}

theorem givenIds_append (first second : List Happening) :
    givenIds (first ++ second) = givenIds first ++ givenIds second :=
  filterMap_append

theorem numbered_append (ids : List UInt64) (first second : List Event) :
    numbered ids (first ++ second) = numbered ids first ++ numbered ids second :=
  filter_append ..

variable {event : Event}

theorem mem_numbered {ids : List UInt64} {events : List Event} :
    event ∈ numbered ids events ↔ event ∈ events ∧ event.id ∈ ids := by
  rw [numbered, List.mem_filter, decide_eq_true_iff]

theorem Ordered.quiet (hordd : Ordered world) (hid : next.inner.nextId = world.inner.nextId)
    (hsub : next.inner.nextSub = world.inner.nextSub)
    (hwtg : ∀ publishing ∈ next.waiting, publishing ∈ world.waiting)
    (hlog : next.log = world.log ++ more)
    (hputs : ∀ happening ∈ more, happening.given = none ∧ ∀ id, happening.puts id = []) :
    Ordered next := by
  have hgiven : givenIds next.log = givenIds world.log := by
    rw [hlog, givenIds_append]
    have hnone : givenIds more = [] :=
      filterMap_eq_nil_iff.mpr (fun happening hmem => (hputs happening hmem).1)
    rw [hnone, append_nil]
  have hput : ∀ id, putInto id next.log = putInto id world.log := by
    intro id
    have hnone : putInto id more = [] :=
      flatMap_nil (fun happening hmem => (hputs happening hmem).2 id)
    rw [hlog, putInto_append, hnone, append_nil]
  constructor
  · rw [hgiven, hid]
    exact hordd.given
  · intro id hle
    rw [hput]
    exact hordd.unput id (hsub ▸ hle)
  · intro id
    rw [hput, hid]
    exact hordd.past id
  · intro id
    rw [hput, hgiven]
    exact hordd.increasing id
  · intro publishing hmem
    rw [hid]
    exact hordd.pending publishing (hwtg publishing hmem)
  · intro publishing hmem hnum id
    rw [hput, hgiven]
    exact hordd.later publishing (hwtg publishing hmem) (hgiven ▸ hnum) id

structure MayGoIn (event : Event) (pending : List SubscriptionId) (world : World) : Prop where
  past : Past event.id world.inner.nextId
  later : event.id ∈ givenIds world.log → ∀ id ∈ pending,
    ∀ before ∈ numbered (givenIds world.log) (putInto id world.log), before.id < event.id
  first : event.id ∈ givenIds world.log → ∀ id ∈ pending, ∀ sub,
    world.inner.subs[id]? = some sub → sub.takes = true →
      ¬Overtakes (fun other => other ≤ event.id) id world.waiting world.log

theorem putInto_offered (hndp : pending.Nodup) (delivery : Delivery) (id : SubscriptionId) :
    putInto id (world.offered (pass pending delivery world.inner.subs)).log =
      putInto id world.log ++ (if id ∈ pending ∧
        (offer delivery.event false id world.inner.subs).1.goesIn = true then [delivery.event]
        else []) := by
  rw [World.offered, putInto_append, pass_event, pass_fates_eq hndp, List.map_map]
  exact congrArg _ (putInto_offers hndp delivery.event _ id)

theorem givenIds_offered (passed : Passed) :
    givenIds (world.offered passed).log = givenIds world.log := by
  have hnone : givenIds (passed.fates.map
      (fun fate => Happening.offered fate.1 passed.delivery.event fate.2)) = [] := by
    apply filterMap_eq_nil_iff.mpr
    intro happening hmem
    obtain ⟨fate, -, rfl⟩ := List.mem_map.mp hmem
    rfl
  rw [World.offered, givenIds_append, hnone, append_nil]

theorem Ordered.offered (hordd : Ordered world)
    (hunb : ∀ id, world.inner.nextSub ≤ id → world.inner.subs[id]? = none)
    (hndp : pending.Nodup) {delivery : Delivery} (hmay : MayGoIn delivery.event pending world) :
    Ordered (world.offered (pass pending delivery world.inner.subs)) := by
  have hput := @putInto_offered world _ hndp delivery
  have hgiven := @givenIds_offered world (pass pending delivery world.inner.subs)
  constructor
  · rw [hgiven]
    exact hordd.given
  · intro id hid
    rw [hput, hordd.unput id hid, nil_append]
    apply if_neg
    rintro ⟨-, hgoes⟩
    obtain ⟨sub, hsub, -⟩ := goesIn_live hgoes
    cases (hunb id hid).symm.trans hsub
  · intro id event hev
    rw [hput] at hev
    rcases mem_append.mp hev with hbef | hnow
    · exact hordd.past id event hbef
    split at hnow
    · rw [mem_singleton.mp hnow]
      exact hmay.past
    · cases hnow
  · intro id
    rw [hput, hgiven, numbered_append, Increasing, pairwise_append]
    refine ⟨hordd.increasing id, ?_, ?_⟩
    · split
      · exact (pairwise_singleton _ _).filter _
      · exact List.Pairwise.nil
    intro before hbef event hev
    obtain ⟨hnow, hnum⟩ := mem_numbered.mp hev
    split at hnow
    · next hgoes =>
      rw [mem_singleton.mp hnow] at hnum ⊢
      exact hmay.later hnum id hgoes.1 before hbef
    · cases hnow
  · exact hordd.pending
  intro waiter hwait hnum id hid event hev
  rw [hgiven] at hnum hev
  rw [hput, numbered_append] at hev
  rcases mem_append.mp hev with hbef | haft
  · exact hordd.later waiter hwait hnum id hid event hbef
  obtain ⟨hnow, hev⟩ := mem_numbered.mp haft
  split at hnow
  · next hgoes =>
    rw [mem_singleton.mp hnow] at hev ⊢
    obtain ⟨sub, hsub, htakes⟩ := goesIn_live hgoes.2
    by_contra hnot
    exact hmay.first hev id hgoes.1 sub hsub htakes
      ⟨waiter, hwait, hnum, hid, UInt64.not_lt.mp hnot⟩
  · cases hnow

theorem Ordered.proceed (hordd : Ordered world)
    (hunb : ∀ id, world.inner.nextSub ≤ id → world.inner.subs[id]? = none)
    (hndp : pending.Nodup) (hmay : MayGoIn publishing.delivery.event pending world)
    (expired : Bool) : Ordered (world.proceed expired publishing pending) := by
  have hofd := @Ordered.offered world pending hordd hunb hndp
    { publishing.delivery with waiting := [] } hmay
  rw [World.proceed]
  split
  · refine hofd.quiet rfl rfl (fun _ hmem => hmem) rfl ?_
    exact forall_mem_singleton.mpr ⟨rfl, fun _ => rfl⟩
  constructor
  · exact hofd.given
  · exact hofd.unput
  · exact hofd.past
  · exact hofd.increasing
  · refine forall_mem_append.mpr ⟨hofd.pending, forall_mem_singleton.mpr ⟨?_, ?_⟩⟩
    · rw [Publishing.advance, pass_event]
      exact hmay.past
    · exact nodup_pass_waiting hndp rfl
  refine forall_mem_append.mpr ⟨hofd.later, forall_mem_singleton.mpr ?_⟩
  rw [Publishing.advance, pass_event]
  intro hnum id hid event hev
  -- who still waits got no copy in this pass
  obtain ⟨hpnd, hblk⟩ := mem_pass_waiting hndp rfl hid
  change event ∈ numbered (givenIds (world.offered _).log) (putInto id (world.offered _).log) at hev
  change publishing.delivery.event.id ∈ givenIds (world.offered _).log at hnum
  rw [givenIds_offered] at hnum hev
  rw [putInto_offered hndp, hblk, if_neg (fun hboth => Bool.false_ne_true hboth.2),
    append_nil] at hev
  exact hmay.later hnum id hpnd event hev

theorem Past.mono {id later : UInt64} {next : UInt64} (hpast : Past id next) (hle : next ≤ later) :
    Past id later := by
  rcases hpast with hless | hlast
  · exact .inl (UInt64.lt_of_lt_of_le hless hle)
  right
  apply UInt64.le_antisymm
  · exact UInt64.le_iff_toNat_le.mpr (Nat.le_of_lt_succ later.toNat_lt)
  · exact hlast ▸ hle

theorem Past.lt {id next : UInt64} (hpast : Past id next) (hnext : next ≠ lastId) : id < next :=
  hpast.resolve_right hnext

theorem lt_succ {id : UInt64} (hid : id ≠ lastId) : id < id + 1 := by
  rw [UInt64.lt_iff_toNat_lt, UInt64.toNat_add]
  have hne : id.toNat ≠ 0xFFFFFFFFFFFFFFFF := fun hsame => hid (UInt64.toNat.inj hsame)
  have hlt := id.toNat_lt
  change id.toNat < (id.toNat + 1) % 0x10000000000000000
  omega

theorem max_cases (first second : UInt64) :
    first ≤ max first second ∧ second ≤ max first second := by
  change first ≤ (if first ≤ second then second else first) ∧
    second ≤ (if first ≤ second then second else first)
  split
  · next hle => exact ⟨hle, UInt64.le_refl _⟩
  · next hlt => exact ⟨UInt64.le_refl _, UInt64.le_of_lt (UInt64.not_le.mp hlt)⟩

theorem past_after (id next : UInt64) : Past id (max next (after id)) := by
  rw [after]
  split
  · next hlast =>
    right
    apply UInt64.le_antisymm
    · exact UInt64.le_iff_toNat_le.mpr (Nat.le_of_lt_succ (UInt64.toNat_lt _))
    · have hle := (max_cases next id).2
      rw [hlast] at hle ⊢
      exact hle
  · next hoth => exact .inl (UInt64.lt_of_lt_of_le (lt_succ hoth) ((max_cases _ _).2))

theorem numbered_given {id : UInt64} {ids : List UInt64} {events : List Event}
    (hpast : ∀ event ∈ events, event.id < id) : numbered (ids ++ [id]) events = numbered ids events := by
  apply filter_congr
  intro event hev
  rw [decide_eq_decide, mem_append, mem_singleton, or_iff_left]
  intro hsame
  exact UInt64.lt_irrefl _ (hsame ▸ hpast event hev)

theorem Ordered.give (hordd : Ordered world) (hid : event.id = 0)
    (hnext : world.inner.nextId ≠ lastId) : Ordered (world.assign event) := by
  have hass : world.assign event =
      { world with
        inner := { world.inner with nextId := world.inner.nextId + 1 }
        log := world.log ++ [.assigned world.inner.nextId] } := by
    rw [World.assign, Inner.assign, if_neg (not_not_intro hid), if_neg (not_not_intro hid)]
  have hgiven : givenIds (world.log ++ [.assigned world.inner.nextId]) =
      givenIds world.log ++ [world.inner.nextId] :=
    givenIds_append _ _
  have hput : ∀ id, putInto id (world.log ++ [.assigned world.inner.nextId]) =
      putInto id world.log := by
    intro id
    rw [putInto_append]
    exact append_nil _
  have hgrows := lt_succ hnext
  have hnum : ∀ id, numbered (givenIds world.log ++ [world.inner.nextId])
      (putInto id world.log) = numbered (givenIds world.log) (putInto id world.log) :=
    fun id => numbered_given (fun event hev => (hordd.past id event hev).lt hnext)
  rw [hass]
  constructor
  · rw [hgiven]
    refine forall_mem_append.mpr ⟨fun id hid => ?_, forall_mem_singleton.mpr hgrows⟩
    exact UInt64.lt_trans (hordd.given id hid) hgrows
  · intro id hle
    rw [hput]
    exact hordd.unput id hle
  · intro id before hbef
    rw [hput] at hbef
    exact (hordd.past id before hbef).mono (UInt64.le_of_lt hgrows)
  · intro id
    rw [hput, hgiven, hnum]
    exact hordd.increasing id
  · intro publishing hmem
    obtain ⟨hpast, hndp⟩ := hordd.pending publishing hmem
    exact ⟨hpast.mono (UInt64.le_of_lt hgrows), hndp⟩
  intro publishing hmem hmine id
  rw [hgiven, mem_append, mem_singleton] at hmine
  rw [hput, hgiven, hnum]
  rcases hmine with hbef | hsame
  · exact hordd.later publishing hmem hbef id
  · have hless := (hordd.pending publishing hmem).1.lt hnext
    exact absurd (hsame ▸ hless) (UInt64.lt_irrefl _)

theorem Ordered.bring (hordd : Ordered world) (hid : event.id ≠ 0) :
    Ordered (world.assign event) := by
  have hass : world.assign event =
      { world with
        inner := { world.inner with nextId := max world.inner.nextId (after event.id) }
        log := world.log ++ [] } := by
    rw [World.assign, Inner.assign, if_pos hid, if_pos hid]
  have hle : world.inner.nextId ≤ max world.inner.nextId (after event.id) := (max_cases _ _).1
  rw [hass, append_nil]
  constructor
  · intro id hmem
    exact UInt64.lt_of_lt_of_le (hordd.given id hmem) hle
  · exact hordd.unput
  · intro id before hbef
    exact (hordd.past id before hbef).mono hle
  · exact hordd.increasing
  · intro publishing hmem
    obtain ⟨hpast, hndp⟩ := hordd.pending publishing hmem
    exact ⟨hpast.mono hle, hndp⟩
  · exact hordd.later

theorem nextId_keep (event : Event) (faults : Faults) (inner : Inner) :
    (inner.keep event faults).2.nextId = inner.nextId := by
  rw [Inner.keep]
  split
  · rfl
  · rfl

theorem stamp_id (now : UInt64) (event : Event) :
    (event.stamp now).id = event.id ∧ (event.stamp now).topic = event.topic := by
  rw [Event.stamp]
  split
  · exact ⟨rfl, rfl⟩
  · exact ⟨rfl, rfl⟩

theorem quiet_log (hlog : next.log = world.log ++ more)
    (hputs : ∀ happening ∈ more, happening.given = none ∧ ∀ id, happening.puts id = []) :
    givenIds next.log = givenIds world.log ∧ ∀ id, putInto id next.log = putInto id world.log := by
  have hnone : givenIds more = [] :=
    filterMap_eq_nil_iff.mpr (fun happening hmem => (hputs happening hmem).1)
  refine ⟨by rw [hlog, givenIds_append, hnone, append_nil], fun id => ?_⟩
  have hput : putInto id more = [] :=
    flatMap_nil (fun happening hmem => (hputs happening hmem).2 id)
  rw [hlog, putInto_append, hput, append_nil]

theorem MayGoIn.quiet (hmay : MayGoIn event pending world)
    (hid : next.inner.nextId = world.inner.nextId) (hsubs : next.inner.subs = world.inner.subs)
    (hwtg : next.waiting = world.waiting) (hlog : next.log = world.log ++ more)
    (hputs : ∀ happening ∈ more, happening.given = none ∧ ∀ id, happening.puts id = []) :
    MayGoIn event pending next := by
  obtain ⟨hgiven, hput⟩ := quiet_log hlog hputs
  constructor
  · rw [hid]
    exact hmay.past
  · intro hnum id
    rw [hgiven] at hnum
    rw [hgiven, hput]
    exact hmay.later hnum id
  intro hnum id hmem sub
  rw [hgiven] at hnum
  rw [hsubs, Overtakes, hwtg, hgiven]
  exact hmay.first hnum id hmem sub

theorem mayGoIn_given (hordd : Ordered world) (hid : event.id = 0)
    (hnext : world.inner.nextId ≠ lastId)
    (hfst : ∀ id sub, world.inner.subs[id]? = some sub →
      sub.pattern.accepts event.topic = true → sub.takes = true →
        ¬Overtakes (fun _ => True) id world.waiting world.log) (now : UInt64) :
    MayGoIn ((world.inner.assign event).1.stamp now) (targets event.topic world.inner.subs)
      (world.assign event) := by
  have hass : world.inner.assign event = ({ event with id := world.inner.nextId },
      { world.inner with nextId := world.inner.nextId + 1 }) := by
    rw [Inner.assign, if_neg (not_not_intro hid)]
  have hmine : ((world.inner.assign event).1.stamp now).id = world.inner.nextId := by
    rw [hass]
    exact (stamp_id now _).1
  have hgiven : givenIds (world.assign event).log = givenIds world.log ++ [world.inner.nextId] := by
    rw [World.assign, if_neg (not_not_intro hid)]
    exact givenIds_append _ _
  have hput : ∀ id, putInto id (world.assign event).log = putInto id world.log := by
    intro id
    rw [World.assign, if_neg (not_not_intro hid), putInto_append]
    exact append_nil _
  constructor
  · rw [hmine, World.assign, hass]
    exact .inl (lt_succ hnext)
  · intro _ id _ before hbef
    rw [hput] at hbef
    rw [hmine]
    exact (hordd.past id before (mem_numbered.mp hbef).1).lt hnext
  intro _ id htgt sub hsub htakes hover
  obtain ⟨live, hlive, haccs⟩ := mem_targets.mp htgt
  have hsame : (world.assign event).inner.subs = world.inner.subs :=
    (subs_assign event world.inner).1
  rw [hsame, hlive] at hsub
  cases hsub
  obtain ⟨waiter, hwait, hnum, hid, -⟩ := hover
  rw [hgiven, mem_append, mem_singleton] at hnum
  rcases hnum with hbef | hnow
  · exact hfst id _ hlive haccs htakes ⟨waiter, hwait, hbef, hid, trivial⟩
  · have hless := (hordd.pending waiter hwait).1.lt hnext
    rw [hnow] at hless
    exact UInt64.lt_irrefl _ hless

theorem mayGoIn_brought (hid : event.id ≠ 0)
    (hown : event.id ∉ givenIds world.log) (now : UInt64) (pending : List SubscriptionId) :
    MayGoIn ((world.inner.assign event).1.stamp now) pending (world.assign event) := by
  have hass : world.inner.assign event =
      (event, { world.inner with nextId := max world.inner.nextId (after event.id) }) := by
    rw [Inner.assign, if_pos hid]
  have hmine : ((world.inner.assign event).1.stamp now).id = event.id := by
    rw [hass]
    exact (stamp_id now _).1
  have hgiven : givenIds (world.assign event).log = givenIds world.log := by
    rw [World.assign, if_pos hid, append_nil]
  constructor
  · rw [hmine, World.assign, hass]
    exact past_after _ _
  · intro hnum
    rw [hmine, hgiven] at hnum
    exact absurd hnum hown
  · intro hnum
    rw [hmine, hgiven] at hnum
    exact absurd hnum hown

theorem assign_topic (event : Event) (inner : Inner) :
    (inner.assign event).1.topic = event.topic := by
  rw [Inner.assign]
  split
  · rfl
  · rfl

variable (hordd : Ordered world)
variable (hunb : ∀ id, world.inner.nextSub ≤ id → world.inner.subs[id]? = none)
include hordd hunb

theorem Ordered.publish {blocking expired : Bool} {access : Access} {now : UInt64} {faults : Faults}
    (hturn : (Action.publish access event blocking now expired faults).InTurn world) :
    Ordered (world.publish event blocking now expired faults) := by
  have hasg : Ordered (world.assign event) ∧
      MayGoIn ((world.inner.assign event).1.stamp now) (targets event.topic world.inner.subs)
        (world.assign event) := by
    rw [Action.InTurn] at hturn
    split at hturn
    · next hid =>
      exact ⟨hordd.give hid hturn.1, mayGoIn_given hordd hid hturn.1 hturn.2 now⟩
    · next hid => exact ⟨hordd.bring hid, mayGoIn_brought hid hturn now _⟩
  have htopic : ((world.inner.assign event).1.stamp now).topic = event.topic :=
    (stamp_id now _).2.trans (assign_topic event world.inner)
  obtain ⟨hsame, hsameSub⟩ := subs_assign event world.inner
  rw [World.publish]
  generalize (world.inner.assign event).1.stamp now = stamped at *
  have hnext := nextId_keep stamped faults (world.assign event).inner
  obtain ⟨hsubs, hnextSub⟩ := subs_keep stamped faults (world.assign event).inner
  have hsubs := hsubs.trans hsame
  have hnextSub := hnextSub.trans hsameSub
  split
  · refine hasg.1.quiet hnext (hnextSub.trans hsameSub.symm) (fun _ hmem => hmem) rfl ?_
    exact forall_mem_singleton.mpr ⟨rfl, fun _ => rfl⟩
  have hputs : ∀ happening ∈ (targets stamped.topic ((world.assign event).inner.keep stamped
      faults).2.subs).map (fun id => Happening.matched id stamped),
      happening.given = none ∧ ∀ id, happening.puts id = [] := by
    intro happening hmem
    obtain ⟨id, -, rfl⟩ := List.mem_map.mp hmem
    exact ⟨rfl, fun _ => rfl⟩
  apply Ordered.proceed
  · exact hasg.1.quiet hnext (hnextSub.trans hsameSub.symm) (fun _ hmem => hmem) rfl hputs
  · intro id hid
    rw [hsubs]
    exact hunb id (hnextSub ▸ hid)
  · exact nodup_targets _ _
  have hhit : targets stamped.topic ((world.assign event).inner.keep stamped faults).2.subs =
      targets event.topic world.inner.subs := by
    rw [htopic, hsubs]
  rw [hhit]
  rw [hhit] at hputs
  exact hasg.2.quiet hnext (hsubs.trans hsame.symm) rfl rfl hputs

theorem Ordered.retry {index : ℕ}
    {expired : Bool} (hturn : (Action.retry index expired).InTurn world) :
    Ordered (world.retry index expired) := by
  rw [World.retry]
  split
  · exact hordd
  rename_i publishing hpbg
  have hmem := mem_of_getElem? hpbg
  obtain ⟨hpast, hndp⟩ := hordd.pending publishing hmem
  apply Ordered.proceed
  · exact hordd.quiet rfl rfl (fun _ hoth => mem_of_mem_eraseIdx hoth)
      (append_nil _).symm (forall_mem_nil _)
  · exact hunb
  · exact hndp
  · exact ⟨hpast, hordd.later publishing hmem, hturn publishing hpbg⟩

omit hunb

/-- A new subscription starts with what is older than all that will come. -/
theorem Ordered.join {sub : Sub}
    (hnob : ∀ publishing ∈ world.waiting, world.inner.nextSub ∉ publishing.delivery.waiting)
    (hpast : ∀ event ∈ sub.queue, event.id < world.inner.nextId)
    (hque : Increasing (numbered (givenIds world.log) sub.queue)) :
    Ordered
      { world with
        inner := world.inner.join sub
        log := world.log ++ [.joined world.inner.nextSub sub.queue] } := by
  have hgiven : givenIds (world.log ++ [.joined world.inner.nextSub sub.queue]) =
      givenIds world.log := by
    rw [givenIds_append]
    exact append_nil _
  have hput : ∀ id, putInto id (world.log ++ [.joined world.inner.nextSub sub.queue]) =
      putInto id world.log ++ (if world.inner.nextSub = id then sub.queue else []) := by
    intro id
    rw [putInto_append]
    exact congrArg _ (append_nil _)
  constructor
  · rw [hgiven]
    exact hordd.given
  · intro id hid
    rw [hput, if_neg (Nat.ne_of_lt hid), append_nil]
    exact hordd.unput id (Nat.le_of_succ_le hid)
  · intro id event hev
    rw [hput] at hev
    rcases mem_append.mp hev with hbef | hnow
    · exact hordd.past id event hbef
    · split at hnow
      · exact .inl (hpast event hnow)
      · cases hnow
  · intro id
    rw [hput, hgiven]
    split
    · next hid =>
      rw [hordd.unput id (Nat.le_of_eq hid), nil_append]
      exact hque
    · rw [append_nil]
      exact hordd.increasing id
  · exact hordd.pending
  intro publishing hmem hnum id hid
  have hoth : world.inner.nextSub ≠ id := fun hsame => hnob publishing hmem (hsame ▸ hid)
  rw [hgiven] at hnum
  rw [hput, hgiven, if_neg hoth, append_nil]
  exact hordd.later publishing hmem hnum id hid

theorem Ordered.step (hsound : Sound world) {action : Action}
    (hturn : action.InTurn world) : Ordered (world.step action) := by
  have hunb := fun id hid => (hsound.balanced.fresh id hid).1
  have hsame : ∀ inner : Inner, inner.nextId = world.inner.nextId →
      inner.nextSub = world.inner.nextSub → Ordered { world with inner } :=
    fun inner hid hsub => hordd.quiet hid hsub (fun _ hmem => hmem) (append_nil _).symm
      (forall_mem_nil _)
  have hfail : ∀ why, Ordered (world.fail why) := fun why =>
    hordd.quiet rfl rfl (fun _ hmem => hmem) rfl (forall_mem_singleton.mpr ⟨rfl, fun _ => rfl⟩)
  cases action with
  | publish access event blocking now expired faults =>
    rw [World.step]
    split
    · exact hordd.publish hunb hturn
    · exact hfail _
  | retry index expired => exact hordd.retry hunb hturn
  | subscribe access owner pattern options replay faults =>
    rw [World.step]
    split
    · exact hfail _
    rename_i sub hsub
    obtain ⟨hpast, hque⟩ := hturn sub hsub
    refine hordd.join (fun publishing hmem hid => ?_) hpast hque
    have hzero := (hsound.balanced.fresh world.inner.nextSub (Nat.le_refl _)).2.2.2.2.1
    rw [waitingFor, total, List.sum_eq_zero_iff_forall_eq_nat] at hzero
    exact count_eq_zero.mp (hzero _ (mem_map_of_mem hmem)) hid
  | drain id max =>
    rw [World.step]
    refine hordd.quiet ?_ ?_ (fun _ hmem => hmem) rfl ?_
    · rw [Inner.drain]
      split
      · rfl
      · rfl
    · rw [Inner.drain]
      split
      · rfl
      · rfl
    · intro happening hmem
      obtain ⟨event, -, rfl⟩ := List.mem_map.mp hmem
      exact ⟨rfl, fun _ => rfl⟩
  | close | revokeOwner | revokeAll => exact hsame _ rfl rfl
  | enableDurable topic retain kv =>
    rw [World.step]
    split
    · exact hfail _
    rename_i inner hinner
    rw [Inner.enableDurable] at hinner
    split at hinner
    · cases hinner
    · cases hinner
      exact hsame _ rfl rfl
  | disableDurable topic => exact hsame _ rfl rfl

end Steps

theorem ordered_new (kvs : ℕ → Table) : Ordered (World.new kvs) where
  given := forall_mem_nil _
  unput _ _ := rfl
  past _ := forall_mem_nil _
  increasing _ := List.Pairwise.nil
  pending := forall_mem_nil _
  later := forall_mem_nil _

theorem fed_new (kvs : ℕ → Table) : Fed (World.new kvs) := by
  intro id
  have hnone : queueOf id (World.new kvs).inner.subs = [] := queueOf_none getElem?_empty
  exact List.Sublist.refl _

theorem Ordered.run {world : World} (hordd : Ordered world) (hsound : Sound world)
    (hfed : Fed world) {actions : List Action} (hturn : InTurn actions world) :
    Ordered (world.run actions) ∧ Fed (world.run actions) := by
  induction actions generalizing world with
  | nil => exact ⟨hordd, hfed⟩
  | cons action actions ih =>
    exact ih (hordd.step hsound hturn.1) (hsound.step action) (hfed.step action) hturn.2

/-- In a run whose steps take their turns each subscription receives the ids the bus gave in
increasing order. -/
theorem received_in_order (kvs : ℕ → Table) (actions : List Action)
    (hturn : InTurn actions (World.new kvs)) (id : SubscriptionId) :
    Increasing (numbered (givenIds ((World.new kvs).run actions).log)
      (receivedBy id ((World.new kvs).run actions).log)) := by
  obtain ⟨hordered, hfed⟩ := (ordered_new kvs).run (sound_new kvs) (fed_new kvs) hturn
  have hreceived : (receivedBy id ((World.new kvs).run actions).log).Sublist
      (putInto id ((World.new kvs).run actions).log) :=
    (sublist_append_left _ _).trans (hfed id)
  exact (hordered.increasing id).sublist (hreceived.filter _)

namespace Notes

def empty : World := World.new (fun _ => ∅)

/-- A publish that waits and gets its turn. -/
def patient : List Action :=
  [subscribed .block, published false, published true, .drain 1 1, .retry 0 false, .drain 1 1]

/-- A publish that waits while another goes past it. -/
def overtaken : List Action :=
  [subscribed .block, published false, published true, .drain 1 1, published false, .drain 1 1,
    .retry 0 false, .drain 1 1]

theorem nobody_overtaken {before : UInt64 → Prop} {id : SubscriptionId} {waiting : List Publishing}
    {log : List Happening} (hnob : waiting.length = 0) : ¬Overtakes before id waiting log := by
  rintro ⟨publishing, hmem, -⟩
  rw [length_eq_zero_iff.mp hnob] at hmem
  cases hmem

theorem published_inTurn {blocking : Bool} {world : World} (hnob : world.waiting.length = 0)
    (hnext : world.inner.nextId ≠ lastId) : (published blocking).InTurn world := by
  have hid : event.id = 0 := rfl
  rw [published, Action.InTurn, if_pos hid]
  exact ⟨hnext, fun _ _ _ _ _ => nobody_overtaken hnob⟩

theorem subscribed_inTurn (policy : OverflowPolicy) (world : World) :
    (subscribed policy).InTurn world := by
  intro sub hsub
  have hemp : sub.queue = [] := by
    cases hsub
    rfl
  rw [hemp]
  exact ⟨forall_mem_nil _, List.Pairwise.nil⟩

end Notes

/-- A publish that waits and gets its turn is received after the one before it. -/
theorem received_in_order_notes :
    Increasing (numbered (givenIds (Notes.empty.run Notes.patient).log)
      (receivedBy 1 (Notes.empty.run Notes.patient).log)) := by
  apply received_in_order
  refine ⟨Notes.subscribed_inTurn _ _, Notes.published_inTurn rfl (by decide),
    Notes.published_inTurn ?_ ?_, trivial, ?_, trivial, trivial⟩
  · decide +kernel
  · decide +kernel
  · intro publishing _ _ id _ sub _ _
    apply Notes.nobody_overtaken
    decide +kernel

/-- The third id comes before the second. -/
theorem received_out_of_order :
    ¬Increasing (numbered (givenIds (Notes.empty.run Notes.overtaken).log)
      (receivedBy 1 (Notes.empty.run Notes.overtaken).log)) := by
  rw [Increasing]
  decide +kernel

end WasmAgent.Bus
