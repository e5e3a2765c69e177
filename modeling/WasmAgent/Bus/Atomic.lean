import WasmAgent.Bus.Retained

/-!
# What a refused publish leaves behind

The buffers and their counts are as they were.  The log of a durable topic is, when the store did not
write the event, or had it before, or dropped just that again; and the ids are, when the event
brought an id that was given out before.
-/

namespace WasmAgent.Bus

open List Function Std WasmAgent.Core

def Inner.publishError (access : Access) (event : Event) (now : UInt64) (faults : Faults)
    (inner : Inner) : Option BusError :=
  if access.mayPublish event.source event.topic then
    match ((inner.assign event).2.keep ((inner.assign event).1.stamp now) faults).1 with
    | .error why => some (.store why)
    | .ok _ => none
  else some (.denied event.source "publish" event.topic.text)

/-- The log of the topic, the buffers and their counts are the same. -/
structure AsBefore (topic : Topic) (before next : Inner) : Prop where
  log : ∀ durable, before.durable topic.text = some durable →
    logOf topic (next.kvs durable.kv) = logOf topic (before.kvs durable.kv)
  subs : next.subs = before.subs

def Traceless (retain : ℕ) (event : Event) (faults : Faults) (table : Table) : Prop :=
  (faults (.put event.row.1)).isSome = true ∨
    gone retain event faults table = [] ∧ table[event.row.1]? = some event.encode ∨
    (gone retain event faults table).map Prod.fst = [event.row.1] ∧ table[event.row.1]? = none

section Tables

variable {retain : ℕ} {event : Event} {faults : Faults} {table : Table}

theorem logOf_append_iff :
    logOf event.topic (append retain event faults table).2 = logOf event.topic table ↔
      Traceless retain event faults table := by
  cases hput : faults (.put event.row.1) with
  | some why =>
    have hsame : (append retain event faults table).2 = table := by
      rw [Event.row] at hput
      rw [append, hput]
    rw [hsame, Traceless, hput]
    exact iff_of_true rfl (.inl rfl)
  | none =>
    have hbeg : retentionPrefix event.topic <+: event.row.1 := prefix_retentionKey _ _ _
    have hmem (row : Bytes × Bytes) :
        row ∈ logOf event.topic (append retain event faults table).2 ↔
          (row = event.row ∨ row.1 ≠ event.row.1 ∧ row ∈ logOf event.topic table) ∧
            row.1 ∉ (gone retain event faults table).map Prod.fst := by
      rw [append_table hput, logOf, mem_scanPrefix_eraseRows, mem_scanPrefix_insert,
        and_iff_right hbeg]
      rfl
    have hgone : (gone retain event faults table).Sublist
        (logOf event.topic (table.insert event.row.1 event.row.2)) := by
      rw [gone]
      split
      · exact nil_sublist _
      · exact (takeWhile_sublist _).trans (take_sublist _ _)
    rw [Traceless, hput, or_iff_right (by simp)]
    constructor
    · intro hsame
      rw [hsame] at hmem
      have honly : ∀ row ∈ gone retain event faults table, row.1 = event.row.1 := by
        intro row hrow
        by_contra hoth
        obtain ⟨-, rfl⟩ | ⟨-, hold⟩ := mem_scanPrefix_insert.mp (hgone.subset hrow)
        · exact hoth rfl
        · exact ((hmem row).mp hold).2 (mem_map_of_mem hrow)
      have hsrt := (scanPrefix_sorted _ _).sublist hgone
      cases hrows : gone retain event faults table with
      | nil =>
        left
        have hthere := (hmem event.row).mpr ⟨.inl rfl, by simp [hrows]⟩
        exact ⟨rfl, (mem_scanPrefix.mp hthere).2⟩
      | cons first rest =>
        right
        have hfst := honly first (hrows ▸ mem_cons_self)
        cases rest with
        | cons second rest =>
          have hsnd := honly second (by simp [hrows])
          rw [hrows] at hsrt
          have hlt := (pairwise_cons.mp hsrt).1 second mem_cons_self
          rw [hfst, hsnd, ReflOrd.compare_self] at hlt
          cases hlt
        | nil =>
          refine ⟨by rw [map_singleton, hfst], ?_⟩
          cases hold : table[event.row.1]? with
          | none => rfl
          | some value =>
            have hthere := (hmem (event.row.1, value)).mp (mem_scanPrefix.mpr ⟨hbeg, hold⟩)
            exact absurd (by simp [hrows, hfst]) hthere.2
    intro htrac
    apply rows_ext (scanPrefix_sorted _ _) (scanPrefix_sorted _ _)
    intro row
    change row ∈ logOf _ _ ↔ row ∈ logOf _ _
    rw [hmem]
    obtain ⟨hnone, hthere⟩ | ⟨hkeys, habs⟩ := htrac
    · rw [hnone, map_nil, and_iff_left not_mem_nil, logOf, mem_scanPrefix]
      by_cases hkey : row.1 = event.row.1
      · rw [hkey, hthere, and_iff_right hbeg, Option.some.injEq]
        constructor
        · rintro (rfl | ⟨hoth, -⟩)
          · rfl
          · exact absurd rfl hoth
        · exact fun hval => .inl (Prod.ext hkey hval.symm)
      · rw [and_iff_right hkey]
        exact or_iff_right (fun hsame => hkey (congrArg Prod.fst hsame))
    rw [hkeys, mem_singleton]
    constructor
    · rintro ⟨rfl | hold, hoth⟩
      · exact absurd rfl hoth
      · exact hold.2
    intro hold
    have hoth : row.1 ≠ event.row.1 := by
      intro hkey
      cases (hkey ▸ habs).symm.trans (mem_scanPrefix.mp hold).2
    exact ⟨.inr ⟨hoth, hold⟩, hoth⟩

end Tables

section Publishing

variable {access : Access} {event : Event} {now : UInt64} {faults : Faults} {world : World}
  {why : BusError}

theorem nextId_assign_iff (event : Event) (inner : Inner) :
    (inner.assign event).2.nextId = inner.nextId ↔
      event.id ≠ 0 ∧ after event.id ≤ inner.nextId := by
  rw [Inner.assign]
  split
  · next hasg =>
    rw [and_iff_right hasg]
    change (if inner.nextId ≤ after event.id then _ else _) = _ ↔ _
    split
    · next hle =>
      constructor
      · intro hsame
        exact hsame ▸ UInt64.le_refl _
      · intro hge
        exact UInt64.le_antisymm hge hle
    · next hlt =>
      rw [UInt64.not_le] at hlt
      exact iff_of_true rfl (UInt64.le_of_lt hlt)
  rename_i hfre
  apply iff_of_false _ (fun hboth => hfre hboth.1)
  intro hsame
  have hnat := congrArg UInt64.toNat hsame
  have hlt := inner.nextId.toNat_lt
  rw [UInt64.toNat_add] at hnat
  change (inner.nextId.toNat + 1) % 18446744073709551616 = _ at hnat
  omega

/-- A publish that is refused leaves the buffers and their counts.  It leaves the log of its topic
exactly if the append was traceless, and the id counter exactly if the event's id is behind it. -/
theorem publish_atomic_iff (blocking expired : Bool)
    (hfails : world.inner.publishError access event now faults = some why) :
    (AsBefore event.topic world.inner
        (world.step (.publish access event blocking now expired faults)).inner ↔
      (access.mayPublish event.source event.topic = true → ∀ durable,
        world.inner.durable event.topic.text = some durable →
        Traceless durable.retain ((world.inner.assign event).1.stamp now) faults
          (world.inner.kvs durable.kv))) ∧
    ((world.step (.publish access event blocking now expired faults)).inner.nextId =
        world.inner.nextId ↔
      (access.mayPublish event.source event.topic = true →
        event.id ≠ 0 ∧ after event.id ≤ world.inner.nextId)) := by
  rw [World.step]
  rw [Inner.publishError] at hfails
  split
  · next hallowed =>
    rw [if_pos hallowed] at hfails
    rw [forall_prop_of_true hallowed, forall_prop_of_true hallowed]
    have htopic : ((world.inner.assign event).1.stamp now).topic = event.topic := by
      rw [topic_stamp, topic_assign]
    have hassign : (world.inner.assign event).2 =
        { world.inner with nextId := (world.inner.assign event).2.nextId } := by
      rw [Inner.assign]
      split <;> rfl
    cases hkeep : ((world.inner.assign event).2.keep ((world.inner.assign event).1.stamp now)
        faults).1 with
    | ok done =>
      rw [hkeep] at hfails
      cases hfails
    | error fault =>
      have hinner : (world.publish event blocking now expired faults).inner =
          ((world.inner.assign event).2.keep ((world.inner.assign event).1.stamp now) faults).2 := by
        have hassigned : (world.assign event).inner = (world.inner.assign event).2 := rfl
        rw [World.publish, hassigned, hkeep]
        rfl
      rw [hinner, ← nextId_assign_iff]
      rw [Inner.keep, htopic, hassign] at hkeep ⊢
      cases hdurable : world.inner.durable event.topic.text with
      | none =>
        rw [hdurable] at hkeep
        cases hkeep
      | some durable =>
        refine ⟨?_, Iff.rfl⟩
        have hlog : logOf event.topic (update world.inner.kvs durable.kv
            (append durable.retain ((world.inner.assign event).1.stamp now) faults
              (world.inner.kvs durable.kv)).2 durable.kv) =
              logOf event.topic (world.inner.kvs durable.kv) ↔
            Traceless durable.retain ((world.inner.assign event).1.stamp now) faults
              (world.inner.kvs durable.kv) := by
          rw [update_self, ← logOf_append_iff, htopic]
        constructor
        · rintro hbefore _ ⟨⟩
          exact hlog.mp (hbefore.log durable hdurable)
        intro htraceless
        refine ⟨?_, rfl⟩
        intro other hother
        cases hdurable.symm.trans hother
        exact hlog.mpr (htraceless durable rfl)
  · next hdenied =>
    exact ⟨iff_of_true ⟨fun _ _ => rfl, rfl⟩ (fun h => absurd h hdenied),
      iff_of_true rfl (fun h => absurd h hdenied)⟩

end Publishing

namespace Gauge

def unscanned : Faults
  | .scan _ => some "io"
  | _ => none

def event : Event :=
  { id := 0, topic, tsMs := 10, source := "gauge", schema := ⟨"reading", 1⟩, payload := [],
    trace := none }

/-- A store that writes nothing. -/
def unwritten : Faults
  | .put _ => some "quota"
  | _ => none

end Gauge

/-- A publish that the store refuses to write leaves the log. -/
theorem publish_atomic_unwritten :
    (AsBefore Gauge.topic Gauge.start.inner
        (Gauge.start.step (.publish Gauge.anyone Gauge.event false 100 false Gauge.unwritten)).inner ↔
      (true = true → ∀ durable, Gauge.start.inner.durable Gauge.topic.text = some durable →
        Traceless durable.retain ((Gauge.start.inner.assign Gauge.event).1.stamp 100)
          Gauge.unwritten (Gauge.start.inner.kvs durable.kv))) ∧
    ((Gauge.start.step (.publish Gauge.anyone Gauge.event false 100 false
          Gauge.unwritten)).inner.nextId = Gauge.start.inner.nextId ↔
      (true = true → Gauge.event.id ≠ 0 ∧ after Gauge.event.id ≤ Gauge.start.inner.nextId)) :=
  @publish_atomic_iff Gauge.anyone Gauge.event 100 Gauge.unwritten Gauge.start
    (.store (.kv "quota")) false false (by decide +kernel)

/-- The scan fails after the event is written: the publish is refused, and the event is retained. -/
theorem refused_event_retained :
    Gauge.start.inner.publishError Gauge.anyone Gauge.event 100 Gauge.unscanned =
        some (.store (.kv "io")) ∧
      ¬ AsBefore Gauge.topic Gauge.start.inner
        (Gauge.start.step (.publish Gauge.anyone Gauge.event false 100 false
          Gauge.unscanned)).inner := by
  refine ⟨by decide +kernel, ?_⟩
  intro hbefore
  have hlog := hbefore.log ⟨1, 0⟩ rfl
  revert hlog
  decide +kernel

end WasmAgent.Bus
