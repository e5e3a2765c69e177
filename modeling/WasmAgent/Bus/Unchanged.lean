import WasmAgent.Bus.Retained

/-!
# Events as they were published

Whatever is published and whatever the store refuses, the rows of a topic's log are those of
events, in the order of their stamps.  The events are read back unchanged exactly when each of
them fits its length prefixes; one that does not is never read back.
-/

namespace WasmAgent.Bus

open List Option Function Std WasmAgent.Core

section Runs

variable {topic : Topic} {retain kv : ℕ} {events : List Event} {world : World}

theorem Held.shows_iff (hheld : Held topic events (world.inner.kvs kv))
    (hdur : world.inner.durable topic.text = some ⟨retain, kv⟩) :
    Shows topic events.length events world ↔ ∀ event ∈ events, event.Fits := by
  have hall : latest events.length events = events := latest_of_length_le (Nat.le_refl _)
  have hreads : readLog topic quiet (world.inner.kvs kv) = (events.map Event.row).mapM readRow := by
    rw [readLog_quiet, hheld.log]
  rw [← mapM_readRow, ← hreads]
  constructor
  · intro hshows
    exact (hshows.reads hdur).trans (congrArg _ hall)
  · intro hlog
    exact shows_of_reads hdur (hlog.trans (congrArg _ hall.symm))

/-- What decodes is what was encoded; and after any run, over stores that may hold events of a
topic, the topic shows the events its log holds exactly when each of them fits. -/
theorem stored_unchanged_iff (kvs : ℕ → Table) (actions : List Action) (stored : List Event)
    (hstored : Held topic stored (kvs kv))
    (hdurable : ((World.new kvs).run actions).inner.durable topic.text = some ⟨retain, kv⟩) :
    (∀ bytes event, Event.decode bytes = .ok event → event.encode = bytes) ∧
      (Shows topic (held topic kv actions (World.new kvs) stored).length
          (held topic kv actions (World.new kvs) stored) ((World.new kvs).run actions) ↔
        ∀ event ∈ held topic kv actions (World.new kvs) stored, event.Fits) := by
  constructor
  · intro bytes event hdec
    exact (readEvent_yields.weaken fun _ _ _ hpost => ⟨hpost.1, hpost.2.2⟩).whole hdec
  · have hheld : Held topic stored ((World.new kvs).inner.kvs kv) := hstored
    exact (hheld.run actions).shows_iff hdurable

end Runs

namespace Gauge

/-- A schema name one byte longer than its length prefix tells. -/
def longName : String := String.ofList (replicate 0x10000 'a')

def longNamed : Event :=
  { id := 0, topic, tsMs := 10, source := "gauge", schema := ⟨longName, 1⟩, payload := [],
    trace := none }

def named : List Action :=
  [.enableDurable topic 1 0, .publish anyone longNamed false 100 false quiet]

theorem held_empty : Held topic [] ∅ := ⟨rfl, forall_mem_nil _⟩

end Gauge

theorem stored_unchanged_iff_reading :
    Shows Gauge.topic 1 (held Gauge.topic 0 (Gauge.kept ++ [Gauge.reading 10])
      (World.new fun _ => ∅) []) ((World.new fun _ => ∅).run (Gauge.kept ++ [Gauge.reading 10])) := by
  apply (stored_unchanged_iff (fun _ => ∅) (Gauge.kept ++ [Gauge.reading 10]) []
    Gauge.held_empty rfl).2.mpr
  intro event hin
  cases mem_singleton.mp hin
  exact ⟨by decide +kernel, by decide +kernel, nofun, by decide⟩

/-- The publish is accepted, and the event is not what comes back. -/
theorem long_name_cut :
    ((World.new fun _ => ∅).run Gauge.named).inner.durable Gauge.topic.text = some ⟨1, 0⟩ ∧
      held Gauge.topic 0 Gauge.named (World.new fun _ => ∅) [] = [{ Gauge.longNamed with id := 1 }] ∧
      ¬ Shows Gauge.topic 1 [{ Gauge.longNamed with id := 1 }]
        ((World.new fun _ => ∅).run Gauge.named) := by
  refine ⟨rfl, rfl, ?_⟩
  intro hshows
  have hheld : Held Gauge.topic [] ((World.new fun _ => ∅).inner.kvs 0) := Gauge.held_empty
  have hfits := ((hheld.run Gauge.named).shows_iff rfl).mp hshows
  have hname := (hfits _ mem_cons_self).schema
  change (utf8 (String.ofList (replicate 0x10000 'a'))).length ≤ 0xFFFF at hname
  rw [utf8_ofList, length_flatMap, map_replicate, sum_replicate_nat] at hname
  revert hname
  decide

end WasmAgent.Bus
