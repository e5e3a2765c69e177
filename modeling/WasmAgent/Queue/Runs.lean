import WasmAgent.Queue.Repair

/-!
# Runs of the queue

Sequences of operations with any arguments and any clock readings, from the
empty store: whole operations, and operations that may stop after any of their
writes, the process starting again afterwards.
-/

namespace WasmAgent.Queue

open WasmAgent.Core WasmAgent.Core.Program

/-- The store after whole operations, one after the other. -/
def runAll (policy : Policy) (ops : List Op) (store : Store) : Store :=
  ops.foldl (fun current op => (op.program policy).final kv current) store

inductive Reached (policy : Policy) (ok : Store → Op → Prop) : Store → Prop where
  | empty : Reached policy ok Store.empty
  | step {store : Store} (op : Op) (hreached : Reached policy ok store) (hok : ok store op) :
      Reached policy ok ((op.program policy).final kv store)

/-- The stores that operations reach when each may stop after any number of its
writes. -/
inductive CrashReached (policy : Policy) (ok : Store → Op → ℕ → Prop) : Store → Prop where
  | empty : CrashReached policy ok Store.empty
  | step {store : Store} (op : Op) (count : ℕ) (hreached : CrashReached policy ok store)
      (hok : ok store op count) :
      CrashReached policy ok ((op.program policy).stopped kv count store)

variable {policy : Policy} {store : Store} {writes : List Write}

theorem discard_writes {Result : Type} (operation : Operation Result) (store : Store) :
    (discard operation : Operation Unit).writes kv store = operation.writes kv store := by
  have hbind := writes_bind kv operation (fun _ => (pure () : Operation Unit)) store
  rwa [pure_eq, writes_done, List.append_nil] at hbind

theorem discard_final {Result : Type} (operation : Operation Result) (store : Store) :
    (discard operation : Operation Unit).final kv store = operation.final kv store := by
  unfold final
  rw [discard_writes]

theorem Op.final_invariant {holds : Store → Prop} (op : Op)
    (halwd : ∀ current block, holds current → op.Allowed policy store current block →
      holds (kv.applyAll block current))
    (hrep : holds store → holds (Queue.repair.final kv store)) (hstr : holds store) :
    holds ((op.program policy).final kv store) := by
  by_cases hop : op = .repair
  · subst hop
    have hfin : (Op.repair.program policy).final kv store = Queue.repair.final kv store :=
      final_bind kv Queue.repair (fun _ => pure ()) store
    rw [hfin]
    exact hrep hstr
  · exact (op.goes policy store hop).chain.invariant halwd hstr

end WasmAgent.Queue
