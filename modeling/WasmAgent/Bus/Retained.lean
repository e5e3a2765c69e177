import WasmAgent.Bus.Latest

/-!
# What a durable topic shows

A run shows the latest events of a topic after every turn exactly when its publications on
the topic come in the order of their stamps.
-/

namespace WasmAgent.Bus

open List Option Function Std WasmAgent.Core

def Event.order (left right : Event) : Ordering :=
  (compare left.tsMs.toNat right.tsMs.toNat).then (compare left.id.toNat right.id.toNat)

/-- The event can be read back, and its stamp comes after that of the last one published; a log
of one event may also have it written over. -/
def Follows (retain : ℕ) (published : List Event) (event : Event) : Prop :=
  event.Fits ∧
    ∀ last ∈ published.getLast?, last.order event = .lt ∨ (last.order event = .eq ∧ retain = 1)

section Reads

theorem readRow_row {event read : Event} :
    readRow event.row = .ok read ↔ Event.decode event.encode = .ok read := by
  rw [readRow, show event.row.2 = event.encode from rfl]
  cases Event.decode event.encode with
  | ok decoded =>
    constructor
    · intro hread
      cases hread
      rfl
    · intro hread
      cases hread
      rfl
  | error why =>
    constructor
    · intro hread
      cases hread
    · intro hread
      cases hread

theorem mapM_readRow {events : List Event} :
    (events.map Event.row).mapM readRow = .ok events ↔ ∀ event ∈ events, event.Fits := by
  induction events with
  | nil => exact iff_of_true rfl (forall_mem_nil _)
  | cons event events ih =>
    rw [forall_mem_cons, ← ih, ← decode_encode_iff, ← readRow_row, map_cons, mapM_cons]
    cases readRow event.row with
    | error why => exact iff_of_false nofun fun hboth => nomatch hboth.1
    | ok first =>
      cases (events.map Event.row).mapM readRow with
      | error why => exact iff_of_false nofun fun hboth => nomatch hboth.2
      | ok rest =>
        change Except.ok (first :: rest) = .ok (event :: events) ↔ _
        rw [Except.ok.injEq, Except.ok.injEq, Except.ok.injEq, cons.injEq]

theorem readLog_quiet (topic : Topic) (table : Table) :
    readLog topic quiet table = (logOf topic table).mapM readRow :=
  rfl

theorem getLast?_of_mapM {Item Value Fault : Type} {read : Item → Except Fault Value}
    {items : List Item} {values : List Value} {item : Item} (hread : items.mapM read = .ok values)
    (hitem : items.getLast? = some item) :
    ∃ value, read item = .ok value ∧ values.getLast? = some value := by
  obtain ⟨front, rfl⟩ := getLast?_eq_some_iff.mp hitem
  rw [mapM_append, mapM_cons] at hread
  cases hfrt : front.mapM read with
  | error fault =>
    rw [hfrt] at hread
    cases hread
  | ok before =>
    cases hlast : read item with
    | error fault =>
      rw [hfrt, hlast] at hread
      cases hread
    | ok value =>
      rw [hfrt, hlast] at hread
      cases hread
      exact ⟨value, rfl, getLast?_concat⟩

end Reads

section Publications

variable {topic : Topic} {retain : ℕ} {events : List Event} {event : Event} {table : Table}

structure Logged (topic : Topic) (retain : ℕ) (events : List Event) (table : Table) : Prop where
  log : logOf topic table = (latest retain events).map Event.row
  fits : ∀ event ∈ latest retain events, event.Fits
  topics : ∀ event ∈ events, event.topic = topic

theorem Logged.reads (hlog : Logged topic retain events table) :
    readLog topic quiet table = .ok (latest retain events) := by
  rw [readLog_quiet, hlog.log, mapM_readRow.mpr hlog.fits]

theorem compare_row {left right : Event} (htop : left.topic = right.topic) :
    compare left.row.1 right.row.1 = left.order right := by
  rw [Event.row, Event.row, htop]
  exact compare_retentionKey _ _ _ _ _

theorem Event.order_self (event : Event) : event.order event = .eq := by
  rw [Event.order, ReflOrd.compare_self, ReflOrd.compare_self]
  rfl

structure Held (topic : Topic) (events : List Event) (table : Table) : Prop where
  log : logOf topic table = events.map Event.row
  topics : ∀ event ∈ events, event.topic = topic

/-- The event in its place; one with the same stamp is written over. -/
def Event.shelve (event : Event) (events : List Event) : List Event :=
  events.filter (·.order event = .lt) ++ event :: events.filter (·.order event = .gt)

theorem mem_shelve {other : Event} :
    other ∈ event.shelve events ↔ other = event ∨ other.order event ≠ .eq ∧ other ∈ events := by
  rw [Event.shelve, mem_append, mem_cons, mem_filter, mem_filter]
  cases other.order event with
  | lt => simp [or_comm]
  | eq => simp
  | gt => simp

theorem Held.shelve (hheld : Held topic events table) (htopic : event.topic = topic) :
    Held topic (event.shelve events) (table.insert event.row.1 event.row.2) where
  log := by
    have hkeys {other : Event} (hoth : other ∈ events) :
        compare other.row.1 event.row.1 = other.order event :=
      compare_row ((hheld.topics other hoth).trans htopic.symm)
    have hsrt := scanPrefix_sorted (retentionPrefix topic) table
    change (logOf topic table).Pairwise _ at hsrt
    rw [hheld.log, pairwise_map] at hsrt
    have hbef : ∀ other ∈ events.filter (·.order event = .lt),
        compare other.row.1 event.row.1 = .lt := by
      intro other hoth
      rw [mem_filter, decide_eq_true_iff] at hoth
      rw [hkeys hoth.1, hoth.2]
    have haft : ∀ other ∈ events.filter (·.order event = .gt),
        compare event.row.1 other.row.1 = .lt := by
      intro other hoth
      rw [mem_filter, decide_eq_true_iff] at hoth
      rw [@OrientedCmp.eq_swap _ compare, hkeys hoth.1, hoth.2]
      rfl
    apply rows_ext (scanPrefix_sorted _ _)
    · rw [Event.shelve, pairwise_map, pairwise_append, pairwise_cons]
      refine ⟨hsrt.filter _, ⟨haft, hsrt.filter _⟩, ?_⟩
      intro before hin after hlate
      rcases mem_cons.mp hlate with rfl | hlate
      · exact hbef before hin
      · exact TransCmp.lt_trans (hbef before hin) (haft after hlate)
    intro row
    rw [mem_scanPrefix_insert, and_iff_right (htopic ▸ prefix_retentionKey _ _ _)]
    change row = event.row ∨ row.1 ≠ event.row.1 ∧ row ∈ logOf topic table ↔ _
    rw [hheld.log, List.mem_map, List.mem_map]
    have hsame {other : Event} (hoth : other ∈ events) :
        other.row.1 = event.row.1 ↔ other.order event = .eq := by
      rw [← hkeys hoth, Std.compare_eq_iff_eq]
    constructor
    · rintro (rfl | ⟨hkey, other, hoth, rfl⟩)
      · exact ⟨event, mem_shelve.mpr (.inl rfl), rfl⟩
      · exact ⟨other, mem_shelve.mpr (.inr ⟨fun heq => hkey ((hsame hoth).mpr heq), hoth⟩), rfl⟩
    rintro ⟨other, hshl, rfl⟩
    rcases mem_shelve.mp hshl with rfl | ⟨hne, hoth⟩
    · exact .inl rfl
    · exact .inr ⟨fun hkey => hne ((hsame hoth).mp hkey), other, hoth, rfl⟩
  topics := by
    intro other hoth
    rcases mem_shelve.mp hoth with rfl | ⟨-, hin⟩
    · exact htopic
    · exact hheld.topics other hin

variable (hlogg : Logged topic retain events table)
include hlogg

theorem Logged.held : Held topic (latest retain events) table :=
  ⟨hlogg.log, fun event hin => hlogg.topics event (latest_subset retain _ hin)⟩

theorem Logged.last_row (hrtn : 0 < retain) {last : Event} (hlast : events.getLast? = some last) :
    ∃ front, latest retain events = front ++ [last] ∧ last ∉ front ∧
      ∀ event : Event, event.topic = topic → last.order event ≠ .gt →
        ∀ other ∈ front, other.order event = .lt := by
  rw [← getLast?_latest hrtn, getLast?_eq_some_iff] at hlast
  obtain ⟨front, hfrt⟩ := hlast
  have htopics := hlogg.held.topics
  have hsrt := scanPrefix_sorted (retentionPrefix topic) table
  change (logOf topic table).Pairwise _ at hsrt
  rw [hlogg.log, pairwise_map, hfrt, pairwise_append] at hsrt
  rw [hfrt] at htopics
  have hbef (other : Event) (hoth : other ∈ front) := hsrt.2.2 other hoth last mem_cons_self
  refine ⟨front, hfrt, ?_, ?_⟩
  · intro hin
    have hlt := hbef last hin
    rw [ReflOrd.compare_self] at hlt
    cases hlt
  intro event hon hle other hoth
  rw [← compare_row ((htopics last (mem_append_right _ mem_cons_self)).trans hon.symm)] at hle
  rw [← compare_row ((htopics other (mem_append_left _ hoth)).trans hon.symm)]
  exact TransCmp.lt_of_lt_of_isLE (hbef other hoth) (Ordering.isLE_iff_ne_gt.mpr hle)

omit hlogg in
theorem shelve_over {front rest : List Event} (hfrt : ∀ other ∈ front, other.order event = .lt)
    (hrest : ∀ other ∈ rest, other.order event = .eq) :
    event.shelve (front ++ rest) = front ++ [event] := by
  have hkept : (front ++ rest).filter (·.order event = .lt) = front := by
    rw [filter_append, filter_eq_self.mpr fun other hoth => decide_eq_true (hfrt other hoth),
      filter_eq_nil_iff.mpr fun other hoth => by simp [hrest other hoth], append_nil]
  have hnone : (front ++ rest).filter (·.order event = .gt) = [] := by
    rw [filter_eq_nil_iff]
    intro other hoth
    rcases mem_append.mp hoth with hin | hin
    · simp [hfrt other hin]
    · simp [hrest other hin]
  rw [Event.shelve, hkept, hnone]

theorem Logged.insert_after (hrtn : 0 < retain)
    (htopic : event.topic = topic) (haft : ∀ last ∈ events.getLast?, last.order event = .lt) :
    logOf topic (table.insert event.row.1 event.row.2) =
      (latest retain events ++ [event]).map Event.row := by
  have hall : ∀ other ∈ latest retain events, other.order event = .lt := by
    intro other hoth
    cases hlast : events.getLast? with
    | none =>
      rw [getLast?_eq_none_iff.mp hlast, latest, drop_nil] at hoth
      cases hoth
    | some last =>
      have hlt := haft last hlast
      obtain ⟨front, heq, -, hfrt⟩ := hlogg.last_row hrtn hlast
      rw [heq, mem_append, mem_singleton] at hoth
      rcases hoth with hearl | rfl
      · exact hfrt event htopic (by rw [hlt]; decide) other hearl
      · exact hlt
  rw [(hlogg.held.shelve htopic).log, ← shelve_over hall (forall_mem_nil _), append_nil]

omit hlogg in
theorem Logged.insert_over (hlog : Logged topic retain events table) (hrtn : 0 < retain)
    (htopic : event.topic = topic) {last : Event} (hlast : events.getLast? = some last)
    (hequal : last.order event = .eq) :
    ∃ front, latest retain events = front ++ [last] ∧ last ∉ front ∧
      logOf topic (table.insert event.row.1 event.row.2) = (front ++ [event]).map Event.row := by
  obtain ⟨front, heq, hnotin, hfrt⟩ := hlog.last_row hrtn hlast
  refine ⟨front, heq, hnotin, ?_⟩
  rw [(hlog.held.shelve htopic).log, heq,
    shelve_over (hfrt event htopic (by rw [hequal]; decide)) (forall_mem_singleton.mpr hequal)]

omit hlogg in
theorem Logged.insert_among (hlog : Logged topic retain events table) (hrtn : 0 < retain)
    (htopic : event.topic = topic) {last : Event} (hlast : events.getLast? = some last)
    (hbef : last.order event = .gt) :
    (logOf topic (table.insert event.row.1 event.row.2)).getLast? = some last.row := by
  obtain ⟨front, hfrt, _⟩ := hlog.last_row hrtn hlast
  have hkept : [last].filter (·.order event = .gt) = [last] := by simp [hbef]
  rw [(hlog.held.shelve htopic).log, hfrt, Event.shelve, filter_append, filter_append, hkept,
    ← cons_append, ← append_assoc, map_append, map_singleton, getLast?_concat]

theorem Logged.append (hrtn : 0 < retain)
    (htopic : event.topic = topic) (hfol : Follows retain events event) :
    Logged topic retain (events ++ [event]) (append retain event quiet table).2 where
  log := by
    rw [logOf_append_on htopic]
    by_cases haft : ∀ last ∈ events.getLast?, last.order event = .lt
    · rw [hlogg.insert_after hrtn htopic haft, map_latest, latest_latest_append hrtn]
    obtain ⟨last, hlast, hnot⟩ : ∃ last ∈ events.getLast?, last.order event ≠ .lt := by
      simpa using haft
    obtain ⟨hequal, rfl⟩ := (hfol.2 last hlast).resolve_left hnot
    obtain ⟨front, _, _, hlog⟩ := hlogg.insert_over hrtn htopic hlast hequal
    rw [hlog, map_latest, latest_append hrtn, latest_append hrtn]
    rw [Nat.sub_self, latest, latest, Nat.sub_zero, Nat.sub_zero, drop_length, drop_length]
  fits := by
    rw [latest_append hrtn]
    intro other hoth
    rcases mem_append.mp hoth with hearl | hnew
    · apply hlogg.fits
      rw [← latest_latest (Nat.sub_le retain 1)] at hearl
      exact latest_subset _ _ hearl
    · rw [mem_singleton.mp hnew]
      exact hfol.1
  topics := by
    intro other hoth
    rcases mem_append.mp hoth with hearl | hnew
    · exact hlogg.topics other hearl
    · rw [mem_singleton.mp hnew]
      exact htopic

omit hlogg in
theorem fits_of_reads {rows : List (Bytes × Bytes)} (hrtn : 0 < retain)
    (hrows : rows.getLast? = some event.row)
    (hreads : (latest retain rows).mapM readRow = .ok (latest retain (events ++ [event]))) :
    event.Fits := by
  rw [← getLast?_latest hrtn] at hrows
  obtain ⟨value, hval, hlast⟩ := getLast?_of_mapM hreads hrows
  rw [getLast?_latest hrtn, getLast?_concat] at hlast
  cases hlast
  exact (decode_encode_iff event).mp (readRow_row.mp hval)

theorem Logged.follows (hrtn : 0 < retain) (htopic : event.topic = topic)
    (hreads : readLog topic quiet (Bus.append retain event quiet table).2 =
      .ok (latest retain (events ++ [event]))) : Follows retain events event := by
  rw [readLog_quiet, logOf_append_on htopic] at hreads
  cases hlast : events.getLast? with
  | none =>
    have hlog := hlogg.insert_after hrtn htopic (by rw [hlast]; nofun)
    have hrow : (logOf topic (table.insert event.row.1 event.row.2)).getLast? = some event.row := by
      rw [hlog, map_append, map_singleton, getLast?_concat]
    refine ⟨fits_of_reads hrtn hrow hreads, ?_⟩
    rw [hlast]
    nofun
  | some last =>
    cases horder : last.order event with
    | lt =>
      have hlog := hlogg.insert_after hrtn htopic (by
        rw [hlast]
        rintro _ ⟨⟩
        exact horder)
      have hrow : (logOf topic (table.insert event.row.1 event.row.2)).getLast? =
          some event.row := by
        rw [hlog, map_append, map_singleton, getLast?_concat]
      refine ⟨fits_of_reads hrtn hrow hreads, ?_⟩
      rw [hlast]
      rintro _ ⟨⟩
      exact .inl horder
    | eq =>
      obtain ⟨front, hfrt, hnotin, hlog⟩ := hlogg.insert_over hrtn htopic hlast horder
      have hrow : (logOf topic (table.insert event.row.1 event.row.2)).getLast? =
          some event.row := by
        rw [hlog, map_append, map_singleton, getLast?_concat]
      have hfits := fits_of_reads hrtn hrow hreads
      have hall : ∀ other ∈ front ++ [event], other.Fits := by
        intro other hoth
        rcases mem_append.mp hoth with hearl | hnew
        · apply hlogg.fits
          rw [hfrt]
          exact mem_append_left _ hearl
        · rw [mem_singleton.mp hnew]
          exact hfits
      have hshrt : (front ++ [event]).length ≤ retain := by
        have hlen := length_latest retain events
        rw [hfrt] at hlen
        rw [length_append] at hlen ⊢
        exact hlen.trans_le (Nat.min_le_left _ _)
      rw [hlog, map_latest, latest_of_length_le hshrt, mapM_readRow.mpr hall,
        latest_append hrtn] at hreads
      have hearl : front = latest (retain - 1) events := append_cancel_right (Except.ok.inj hreads)
      refine ⟨hfits, ?_⟩
      rw [hlast]
      rintro _ ⟨⟩
      refine .inr ⟨horder, ?_⟩
      -- with room for one more, the event that was written over would still be among the latest
      by_contra hone
      apply hnotin
      rw [hearl]
      apply mem_of_getLast?
      rw [getLast?_latest (by omega)]
      exact hlast
    | gt =>
      have hend := hlogg.insert_among hrtn htopic hlast horder
      rw [← getLast?_latest hrtn] at hend
      obtain ⟨value, hval, hfin⟩ := getLast?_of_mapM hreads hend
      rw [getLast?_latest hrtn, getLast?_concat] at hfin
      cases hfin
      obtain ⟨front, hfrt, _⟩ := hlogg.last_row hrtn hlast
      have hfits : last.Fits := by
        apply hlogg.fits
        rw [hfrt]
        exact mem_append_right _ mem_cons_self
      rw [readRow_row, (decode_encode_iff last).mpr hfits] at hval
      cases hval
      rw [Event.order_self] at horder
      cases horder

omit hlogg

theorem Logged.reads_append_iff (hlog : Logged topic retain events table)
    (hrtn : 0 < retain) (htopic : event.topic = topic) :
    readLog topic quiet (Bus.append retain event quiet table).2 =
        .ok (latest retain (events ++ [event])) ↔
      Follows retain events event :=
  ⟨hlog.follows hrtn htopic,
    fun hfol => (hlog.append hrtn htopic hfol).reads⟩

end Publications

variable {inner : Inner}

section Turns

variable {topic : Topic} {world : World} {action : Action}

def publication (topic : Topic) (action : Action) (world : World) : Option Event :=
  match action with
  | .publish access event _ now _ _ =>
      if event.topic = topic ∧ access.mayPublish event.source event.topic then
        some ((world.inner.assign event).1.stamp now)
      else none
  | _ => none

/-- The turn leaves the topic durable as it is, and the store refuses none of its appends. -/
def Action.Steady (topic : Topic) : Action → Prop
  | .publish _ event _ _ _ faults => event.topic = topic → faults = quiet
  | .enableDurable other _ _ => other ≠ topic
  | .disableDurable other => other ≠ topic.text
  | _ => True

def Inner.stores (inner : Inner) : (String → Option Durable) × (ℕ → Table) :=
  (inner.durable, inner.kvs)

theorem stores_proceed (expired : Bool) (publishing : Publishing) (pending : List SubscriptionId)
    (world : World) :
    (world.proceed expired publishing pending).inner.stores = world.inner.stores := by
  rw [World.proceed]
  split
  · rfl
  · rfl

theorem stores_retry (index : ℕ) (expired : Bool) (world : World) :
    (world.retry index expired).inner.stores = world.inner.stores := by
  rw [World.retry]
  split
  · rfl
  · exact stores_proceed _ _ _ _

theorem stores_drain (id : SubscriptionId) (max : ℕ) (inner : Inner) :
    (inner.drain id max).2.stores = inner.stores := by
  rw [Inner.drain]
  split
  · rfl
  · rfl

variable (event : Event)

theorem topic_assign (inner : Inner) : (inner.assign event).1.topic = event.topic := by
  rw [Inner.assign]
  split
  · rfl
  · rfl

theorem stores_assign (inner : Inner) : (inner.assign event).2.stores = inner.stores := by
  rw [Inner.assign]
  split
  · rfl
  · rfl

theorem topic_stamp (now : UInt64) (event : Event) : (event.stamp now).topic = event.topic := by
  rw [Event.stamp]
  split
  · rfl
  · rfl

theorem stores_deliver (blocking expired : Bool) (world : World) :
    (world.deliver event blocking expired).inner.stores = world.inner.stores := by
  exact stores_proceed _ _ _ _

theorem stores_publish (blocking : Bool) (now : UInt64) (expired : Bool)
    (faults : Faults) (world : World) :
    (world.publish event blocking now expired faults).inner.stores =
      ((world.assign event).inner.keep ((world.inner.assign event).1.stamp now) faults).2.stores := by
  rw [World.publish]
  split
  · rfl
  · exact stores_deliver _ _ _ _

theorem topic_publication {event : Event} (hpub : publication topic action world = some event) :
    event.topic = topic := by
  cases action with
  | publish access event' blocking now expired faults =>
    rw [publication] at hpub
    split at hpub
    · next hon =>
      cases hpub
      rw [topic_stamp, topic_assign, hon.1]
    · cases hpub
  | _ => cases hpub

variable {retain kv : ℕ}

theorem logOf_keep_other {event : Event} (hoth : event.topic ≠ topic) (faults : Faults) :
    logOf topic ((inner.keep event faults).2.kvs kv) = logOf topic (inner.kvs kv) := by
  rw [Inner.keep]
  split
  · rfl
  rename_i durable hfnd
  change logOf topic (update inner.kvs durable.kv _ kv) = _
  by_cases hkv : kv = durable.kv
  · rw [← hkv, update_self, logOf_append_other hoth]
  · rw [update_of_ne hkv]

theorem Topic.text_ne {other : Topic} (hoth : other ≠ topic) : topic.text ≠ other.text := by
  intro htext
  apply hoth
  obtain ⟨_, _⟩ := topic
  obtain ⟨_, _⟩ := other
  cases htext
  rfl

/-- What a turn does to the stores and to which topics are durable in them. -/
theorem World.step_stores (action : Action) (world : World) :
    ((∀ topic, publication topic action world = none) ∧
        (world.step action).inner.stores = world.inner.stores) ∨
      (∃ access event blocking now expired faults,
        action = .publish access event blocking now expired faults ∧
          access.mayPublish event.source event.topic = true ∧
          (world.step action).inner.stores = ((world.inner.assign event).2.keep
            ((world.inner.assign event).1.stamp now) faults).2.stores) ∨
      ∃ name new, (∀ topic, publication topic action world = none) ∧
        (∀ topic : Topic, action.Steady topic → topic.text ≠ name) ∧
        (∀ durable ∈ new, 0 < durable.retain) ∧
        (world.step action).inner.durable = update world.inner.durable name new ∧
        (world.step action).inner.kvs = world.inner.kvs := by
  cases action with
  | publish access event blocking now expired faults =>
    by_cases hmay : access.mayPublish event.source event.topic = true
    · refine .inr (.inl ⟨access, event, blocking, now, expired, faults, rfl, hmay, ?_⟩)
      rw [World.step, if_pos hmay, stores_publish]
      rfl
    · rw [World.step, if_neg hmay]
      exact .inl ⟨fun topic => if_neg fun hboth => hmay hboth.2, rfl⟩
  | retry index expired => exact .inl ⟨fun _ => rfl, stores_retry _ _ _⟩
  | subscribe access owner pattern options replay faults =>
    refine .inl ⟨fun _ => rfl, ?_⟩
    rw [World.step]
    split
    · rfl
    · rfl
  | drain id max => exact .inl ⟨fun _ => rfl, stores_drain _ _ _⟩
  | close | revokeOwner | revokeAll => exact .inl ⟨fun _ => rfl, rfl⟩
  | enableDurable topic retain kv =>
    rw [World.step, Inner.enableDurable]
    by_cases hsome : retain = 0
    · rw [if_pos hsome]
      exact .inl ⟨fun _ => rfl, rfl⟩
    rw [if_neg hsome]
    refine .inr (.inr ⟨topic.text, some ⟨retain, kv⟩, fun _ => rfl, ?_, ?_, rfl, rfl⟩)
    · exact fun _ hsteady => Topic.text_ne hsteady
    · rintro _ ⟨⟩
      exact Nat.pos_of_ne_zero hsome
  | disableDurable topic =>
    exact .inr (.inr ⟨topic, none, fun _ => rfl, fun _ hsteady => Ne.symm hsteady, nofun, rfl, rfl⟩)

theorem World.step_durable (hdur : world.inner.durable topic.text = some ⟨retain, kv⟩)
    (hsteady : action.Steady topic) :
    (world.step action).inner.durable topic.text = some ⟨retain, kv⟩ := by
  obtain ⟨-, hstor⟩ | ⟨access, event, blocking, now, expired, faults, rfl, -, hstor⟩ |
    ⟨name, new, -, hoth, -, hdurs, -⟩ := world.step_stores action
  · exact (congrFun (congrArg Prod.fst hstor) _).trans hdur
  · have hkept : ((world.inner.assign event).2.keep ((world.inner.assign event).1.stamp now)
        faults).2.durable = (world.inner.assign event).2.durable := by
      rw [Inner.keep]
      split
      · rfl
      · rfl
    have hasg := congrArg Prod.fst (stores_assign event world.inner)
    exact (congrFun ((congrArg Prod.fst hstor).trans (hkept.trans hasg)) _).trans hdur
  · rw [hdurs, update_of_ne (hoth topic hsteady), hdur]

end Turns

section Logs

variable {topic : Topic} {retain kv : ℕ} {events : List Event} {event : Event} {faults : Faults}
  {table : Table} {world : World}

/-- What a log holds after an append: the oldest go, up to the first that is not deleted. -/
def Event.put (retain : ℕ) (faults : Faults) (event : Event) (events : List Event) : List Event :=
  let shelved := event.shelve events
  if (faults (.put event.row.1)).isSome then events
  else if (faults (.scan (retentionPrefix event.topic))).isSome then shelved
  else
    shelved.drop ((shelved.take (shelved.length - retain)).takeWhile
      fun old => (faults (.del old.row.1)).isNone).length

theorem takeWhile_take {Item : Type} (keeps : Item → Bool) (items : List Item) (count : ℕ) :
    (items.take count).takeWhile keeps =
      items.take ((items.take count).takeWhile keeps).length := by
  apply prefix_iff_eq_take.mp
  apply IsPrefix.trans
  · apply takeWhile_prefix
  · apply take_prefix

theorem Held.put (hheld : Held topic events table) (htopic : event.topic = topic) (retain : ℕ)
    (faults : Faults) :
    Held topic (event.put retain faults events) (append retain event faults table).2 := by
  have hnew := hheld.shelve htopic
  subst htopic
  rw [Event.put]
  cases hput : faults (.put event.row.1) with
  | some why =>
    rw [Event.row] at hput
    rw [append, hput]
    exact hheld
  | none =>
    rw [append_table hput, gone]
    by_cases hscan : (faults (.scan (retentionPrefix event.topic))).isSome
    · rw [if_pos hscan, if_pos hscan]
      exact hnew
    rw [if_neg hscan, if_neg hscan]
    refine ⟨?_, fun other hoth => hnew.topics other (drop_subset _ _ hoth)⟩
    -- what is deleted is a first part of the log, which the events are in step with
    rw [takeWhile_take]
    refine (scanPrefix_eraseRows_take _).trans ?_
    change drop _ (logOf _ _) = map Event.row (drop _ (event.shelve events))
    rw [hnew.log, length_map, ← map_take, takeWhile_map, length_map, map_drop]
    rfl

/-- The events of the log in a store, after an event goes to the topic's own. -/
def Inner.put (kv : ℕ) (event : Event) (faults : Faults) (inner : Inner) (events : List Event) :
    List Event :=
  match inner.durable event.topic.text with
  | some durable => if durable.kv = kv then event.put durable.retain faults events else events
  | none => events

def heldAfter (topic : Topic) (kv : ℕ) (action : Action) (world : World) (events : List Event) :
    List Event :=
  match action, publication topic action world with
  | .publish _ _ _ _ _ faults, some event => world.inner.put kv event faults events
  | _, _ => events

def held (topic : Topic) (kv : ℕ) : List Action → World → List Event → List Event
  | [], _, events => events
  | action :: actions, world, events =>
      held topic kv actions (world.step action) (heldAfter topic kv action world events)

theorem heldAfter_none {action : Action} (hnone : publication topic action world = none) :
    heldAfter topic kv action world events = events := by
  rw [heldAfter.eq_def, hnone]
  cases action <;> rfl

theorem heldAfter_some {action : Action} (hpub : publication topic action world = some event)
    (hdur : world.inner.durable topic.text = some ⟨retain, kv⟩) (hsteady : action.Steady topic) :
    heldAfter topic kv action world events = event.put retain quiet events := by
  cases action with
  | publish access given blocking now expired faults =>
    have hon : given.topic = topic := by
      rw [publication] at hpub
      split at hpub
      · next hboth => exact hboth.1
      · cases hpub
    rw [heldAfter.eq_def, hpub, hsteady hon]
    change world.inner.put kv event quiet events = _
    rw [Inner.put, topic_publication hpub, hdur]
    exact if_pos rfl
  | _ => cases hpub

theorem Held.keep (hheld : Held topic events (inner.kvs kv))
    (htopic : event.topic = topic) (faults : Faults) :
    Held topic (inner.put kv event faults events) ((inner.keep event faults).2.kvs kv) := by
  rw [Inner.put, Inner.keep]
  cases inner.durable event.topic.text with
  | none => exact hheld
  | some durable =>
    change Held topic (if durable.kv = kv then _ else _) (update inner.kvs durable.kv _ kv)
    by_cases hkv : durable.kv = kv
    · rw [if_pos hkv, hkv, update_self]
      exact hheld.put htopic durable.retain faults
    · rw [if_neg hkv, update_of_ne (Ne.symm hkv)]
      exact hheld

theorem Inner.put_congr {inner next : Inner} (hstor : next.stores = inner.stores) (event : Event)
    (faults : Faults) : next.put kv event faults events = inner.put kv event faults events := by
  rw [Inner.put, Inner.put, show next.durable = inner.durable from congrArg Prod.fst hstor]

variable (hheld : Held topic events (world.inner.kvs kv))
include hheld

theorem Held.step (action : Action) :
    Held topic (heldAfter topic kv action world events) ((world.step action).inner.kvs kv) := by
  change Held topic _ ((world.step action).inner.stores.2 kv)
  obtain ⟨hnone, hstor⟩ | ⟨access, event, blocking, now, expired, faults, rfl, hmay, hstor⟩ |
    ⟨name, new, hnone, -, -, -, hkvs⟩ := world.step_stores action
  · rw [heldAfter_none (hnone topic), hstor]
    exact hheld
  · have hasg : (world.inner.assign event).2.stores = world.inner.stores := stores_assign _ _
    have hhold : Held topic events ((world.inner.assign event).2.stores.2 kv) := hasg ▸ hheld
    have htopic : ((world.inner.assign event).1.stamp now).topic = event.topic := by
      rw [topic_stamp, topic_assign]
    rw [hstor]
    by_cases hon : event.topic = topic
    · rw [heldAfter.eq_def, publication.eq_def]
      simp only [if_pos (And.intro hon hmay)]
      rw [← Inner.put_congr hasg]
      exact hhold.keep (htopic.trans hon) faults
    rw [heldAfter_none (show publication topic (.publish ..) world = none from
      if_neg fun hboth => hon hboth.1)]
    have hoth : ((world.inner.assign event).1.stamp now).topic ≠ topic := htopic ▸ hon
    exact { hhold with log := (logOf_keep_other hoth faults).trans hhold.log }
  · rw [heldAfter_none (hnone topic)]
    change Held topic events ((world.step action).inner.kvs kv)
    exact hkvs.symm ▸ hheld

theorem Held.run (actions : List Action) :
    Held topic (held topic kv actions world events) ((world.run actions).inner.kvs kv) := by
  induction actions generalizing world events with
  | nil => exact hheld
  | cons action actions ih => exact ih (hheld.step action)

end Logs

section Retains

def Inner.Retains (inner : Inner) : Prop :=
  ∀ topic durable, inner.durable topic = some durable → 0 < durable.retain

theorem Inner.Retains.of_stores {next : Inner} (hrtns : inner.Retains)
    (hstor : next.stores = inner.stores) : next.Retains := by
  intro topic durable hfnd
  rw [show next.durable = inner.durable from congrArg Prod.fst hstor] at hfnd
  exact hrtns topic durable hfnd

theorem Inner.Retains.keep (hrtns : inner.Retains) (event : Event) (faults : Faults) :
    (inner.keep event faults).2.Retains := by
  rw [Inner.keep]
  split
  · exact hrtns
  · exact hrtns

theorem Inner.Retains.step {world : World} (hrtns : world.inner.Retains) (action : Action) :
    (world.step action).inner.Retains := by
  obtain ⟨-, hstor⟩ | ⟨access, event, blocking, now, expired, faults, rfl, -, hstor⟩ |
    ⟨name, new, -, -, hnew, hdurs, -⟩ := world.step_stores action
  · exact hrtns.of_stores hstor
  · exact ((hrtns.of_stores (stores_assign _ _)).keep _ _).of_stores hstor
  intro topic durable hfnd
  rw [hdurs] at hfnd
  by_cases hname : topic = name
  · rw [hname, update_self] at hfnd
    exact hnew durable hfnd
  · rw [update_of_ne hname] at hfnd
    exact hrtns topic durable hfnd

theorem retains_run (kvs : ℕ → Table) (actions : List Action) :
    ((World.new kvs).run actions).inner.Retains := by
  induction actions using reverseRecOn with
  | nil =>
    intro topic durable hfnd
    cases hfnd
  | append_singleton actions action ih =>
    rw [World.run, foldl_append]
    exact ih.step action

end Retains

section Runs

variable {topic : Topic} {retain kv : ℕ}

def published (topic : Topic) : List Action → World → List Event
  | [], _ => []
  | action :: actions, world =>
      (publication topic action world).toList ++ published topic actions (world.step action)

structure Shows (topic : Topic) (retain : ℕ) (events : List Event) (world : World) : Prop where
  retained : world.inner.retained topic 0 quiet = .ok (latest retain events)
  replayed : ∀ (access : Access) (owner : String) (options : SubscribeOptions) (limit : ℕ),
    options.capacity ≠ 0 → access.maySubscribe owner (.exact topic) = true →
      ∃ sub, world.inner.subscribe access owner (.exact topic) options (some limit) quiet = .ok sub ∧
        sub.queue = newest options.capacity limit (latest retain events)

def ShowsLatest (topic : Topic) (retain : ℕ) (actions : List Action) (world : World) : Prop :=
  ∀ done, done <+: actions → Shows topic retain (published topic done world) (world.run done)

def InOrder (topic : Topic) (retain : ℕ) (actions : List Action) (world : World) : Prop :=
  ∀ before event, before ++ [event] <+: published topic actions world → Follows retain before event

variable {events : List Event} {world : World}

theorem shows_of_reads {keep : ℕ} (hdur : world.inner.durable topic.text = some ⟨keep, kv⟩)
    (hreads : readLog topic quiet (world.inner.kvs kv) = .ok (latest retain events)) :
    Shows topic retain events world where
  retained := by
    rw [Inner.retained, hdur]
    dsimp only
    rw [hreads]
    exact congrArg Except.ok (if_neg (fun hlim => hlim.1 rfl))
  replayed := by
    intro access owner options limit hroomy hmay
    have hprel : world.inner.preload (.exact topic) options.capacity (some limit) quiet =
        .ok (newest options.capacity limit (latest retain events)) := by
      rw [Inner.preload, Inner.replay, hdur]
      dsimp only
      rw [hreads]
    rw [Inner.subscribe, dif_neg hroomy, hmay, hprel]
    exact ⟨_, rfl, rfl⟩

theorem Shows.reads {keep : ℕ} (hshows : Shows topic retain events world)
    (hdur : world.inner.durable topic.text = some ⟨keep, kv⟩) :
    readLog topic quiet (world.inner.kvs kv) = .ok (latest retain events) := by
  have hret := hshows.retained
  rw [Inner.retained, hdur] at hret
  dsimp only at hret
  cases hlog : readLog topic quiet (world.inner.kvs kv) with
  | error why =>
    rw [hlog] at hret
    cases hret
  | ok log =>
    rw [hlog] at hret
    rw [← Except.ok.inj hret, if_neg (fun hlim => hlim.1 rfl)]

theorem shows_run_iff {actions : List Action} (hrtn : 0 < retain)
    (hdur : world.inner.durable topic.text = some ⟨retain, kv⟩)
    (hlog : Logged topic retain events (world.inner.kvs kv))
    (hsteady : ∀ action ∈ actions, action.Steady topic) :
    (∀ done, done <+: actions → Shows topic retain (events ++ published topic done world) (world.run done)) ↔
      ∀ before event, before ++ [event] <+: published topic actions world →
        Follows retain (events ++ before) event := by
  induction actions generalizing events world with
  | nil =>
    constructor
    · intro _ before event hbeg
      have hnil := prefix_nil.mp hbeg
      exact absurd hnil (append_ne_nil_of_right_ne_nil _ (cons_ne_nil _ _))
    · intro _ done hdone
      rw [prefix_nil.mp hdone, published, append_nil]
      exact shows_of_reads hdur hlog.reads
  | cons action actions ih =>
    rw [forall_mem_cons] at hsteady
    have hnext := World.step_durable hdur hsteady.1
    have hheld := hlog.held.step action
    have hnow : Shows topic retain events world := shows_of_reads hdur hlog.reads
    have hspl : (∀ done, done <+: action :: actions →
        Shows topic retain (events ++ published topic done world) (world.run done)) ↔
        ∀ done, done <+: actions →
          Shows topic retain (events ++ ((publication topic action world).toList ++
            published topic done (world.step action))) ((world.step action).run done) := by
      constructor
      · intro hall done hdone
        exact hall (action :: done) (cons_prefix_cons.mpr ⟨rfl, hdone⟩)
      intro hall done hdone
      cases done with
      | nil =>
        rw [published, append_nil]
        exact hnow
      | cons first done =>
        obtain ⟨rfl, hrest⟩ := cons_prefix_cons.mp hdone
        exact hall done hrest
    rw [hspl]
    cases hpub : publication topic action world with
    | none =>
      have hltr : Logged topic retain events ((world.step action).inner.kvs kv) :=
        { hlog with log := by rw [hheld.log, heldAfter_none hpub] }
      simp only [published, hpub, toList_none, nil_append]
      exact ih hnext hltr hsteady.2
    | some event =>
      have htopic := topic_publication hpub
      have hrows : logOf topic ((world.step action).inner.kvs kv) =
          logOf topic (append retain event quiet (world.inner.kvs kv)).2 := by
        rw [hheld.log, heldAfter_some hpub hdur hsteady.1, (hlog.held.put htopic retain quiet).log]
      have hreads := hlog.reads_append_iff hrtn htopic
      rw [readLog_quiet, ← hrows, ← readLog_quiet] at hreads
      have hltr : Follows retain events event →
          Logged topic retain (events ++ [event]) ((world.step action).inner.kvs kv) := by
        intro hfol
        have hlater := hlog.append hrtn htopic hfol
        exact { hlater with log := hrows.trans hlater.log }
      simp only [published, hpub, toList_some, singleton_append]
      constructor
      · intro hall
        have hfol : Follows retain events event := hreads.mp ((hall [] nil_prefix).reads hnext)
        have hrest := (ih hnext (hltr hfol) hsteady.2).mp (by
          intro done hdone
          rw [append_assoc]
          exact hall done hdone)
        intro before other hbeg
        cases before with
        | nil =>
          obtain ⟨rfl, _⟩ := cons_prefix_cons.mp hbeg
          rw [append_nil]
          exact hfol
        | cons first before =>
          obtain ⟨rfl, haft⟩ := cons_prefix_cons.mp hbeg
          rw [← singleton_append, ← append_assoc]
          exact hrest before other haft
      intro hall
      have hfol : Follows retain events event := by
        have hfst := hall [] event (cons_prefix_cons.mpr ⟨rfl, nil_prefix⟩)
        rwa [append_nil] at hfst
      have hrest := (ih hnext (hltr hfol) hsteady.2).mpr (by
        intro before other hbeg
        rw [append_assoc]
        exact hall (event :: before) other (cons_prefix_cons.mpr ⟨rfl, hbeg⟩))
      intro done hdone
      rw [← singleton_append, ← append_assoc]
      exact hrest done hdone

/-- Whatever came before, once a topic is durable in a store that has no log of it, it shows
the latest events exactly in the runs whose publications on it follow one another. -/
theorem shows_latest_iff (kvs : ℕ → Table) (earlier actions : List Action)
    (hdurable : ((World.new kvs).run earlier).inner.durable topic.text = some ⟨retain, kv⟩)
    (hempty : logOf topic (((World.new kvs).run earlier).inner.kvs kv) = [])
    (hsteady : ∀ action ∈ actions, action.Steady topic) :
    ShowsLatest topic retain actions ((World.new kvs).run earlier) ↔
      InOrder topic retain actions ((World.new kvs).run earlier) := by
  have hretain : 0 < retain := retains_run kvs earlier _ _ hdurable
  have hlogged : Logged topic retain [] (((World.new kvs).run earlier).inner.kvs kv) :=
    { log := hempty.trans (by rw [latest, drop_nil, map_nil])
      fits := by
        rw [latest, drop_nil]
        exact forall_mem_nil _
      topics := forall_mem_nil _ }
  have hiff := shows_run_iff hretain hdurable hlogged hsteady
  simp only [nil_append] at hiff
  exact hiff

end Runs

namespace Gauge

def topic : Topic := ⟨"gauge.read", by decide +kernel⟩

def anyone : Access := { mayPublish := fun _ _ => true, maySubscribe := fun _ _ => true }

def kept : List Action := [.enableDurable topic 1 0]

/-- A reading that was taken at a time of its own. -/
def reading (tsMs : UInt64) : Action :=
  .publish anyone
    { id := 0, topic, tsMs, source := "gauge", schema := ⟨"reading", 1⟩, payload := [],
      trace := none }
    false 100 false quiet

def start : World := (World.new (fun _ => ∅)).run kept

theorem steady (actions : List UInt64) : ∀ action ∈ actions.map reading, action.Steady topic := by
  rw [List.forall_mem_map]
  intro tsMs _ _
  rfl

end Gauge

theorem gauge_shows_latest_iff :
    ShowsLatest Gauge.topic 1 ([10, 20].map Gauge.reading) Gauge.start ↔
      InOrder Gauge.topic 1 ([10, 20].map Gauge.reading) Gauge.start :=
  shows_latest_iff (fun _ => ∅) Gauge.kept ([10, 20].map Gauge.reading) rfl rfl
    (Gauge.steady [10, 20])

/-- The second reading is stamped before the first one, and is itself the row that is trimmed. -/
theorem late_reading_trimmed :
    Gauge.start.inner.durable Gauge.topic.text = some ⟨1, 0⟩ ∧
      logOf Gauge.topic (Gauge.start.inner.kvs 0) = [] ∧
      (∀ action ∈ [10, 5].map Gauge.reading, action.Steady Gauge.topic) ∧
      ¬ ShowsLatest Gauge.topic 1 ([10, 5].map Gauge.reading) Gauge.start := by
  refine ⟨rfl, rfl, Gauge.steady [10, 5], ?_⟩
  intro hshows
  have hretained := (hshows _ prefix_rfl).retained
  revert hretained
  decide +kernel

end WasmAgent.Bus
