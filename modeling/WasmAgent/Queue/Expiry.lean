import WasmAgent.Queue.Walks

/-!
# What is written as expired

A worker's operation writes a record as expired only when its freshness has passed.
-/

namespace WasmAgent.Queue

open List WasmAgent.Core WasmAgent.Core.Program

def Only {Result : Type} (allowed : Write → Prop) (operation : Operation Result) : Prop :=
  ∀ store, ∀ write ∈ operation.writes kv store, allowed write

namespace Only

variable {Result Next Item : Type} {allowed : Write → Prop} {operation : Operation Result}

theorem done (value : Result) : Only allowed (Program.done value : Operation Result) := by
  intro store write hwr
  cases hwr

theorem query {Reply : Type} {question : Query Reply} {next : Reply → Operation Result}
    (hnext : ∀ reply, Only allowed (next reply)) :
    Only allowed (Program.query question >>= next) := by
  intro store
  exact hnext (kv.answer question store) store

theorem write {change : Write} {next : Unit → Operation Result} (hchg : allowed change)
    (hnext : Only allowed (next ())) : Only allowed (Program.write change >>= next) := by
  intro store other hoth
  rw [write_bind, writes_put] at hoth
  cases mem_cons.mp hoth with
  | inl hsame => exact hsame ▸ hchg
  | inr hltr => exact hnext _ other hltr

theorem write_last {change : Write} (hchg : allowed change) :
    Only allowed (Program.write change) := by
  intro store other hoth
  rw [mem_singleton.mp hoth]
  exact hchg

theorem bind {next : Result → Operation Next} (hoper : Only allowed operation)
    (hnext : ∀ value, Only allowed (next value)) : Only allowed (operation >>= next) := by
  intro store write hwr
  rw [writes_bind] at hwr
  cases mem_append.mp hwr with
  | inl hfst => exact hoper store write hfst
  | inr hsnd => exact hnext _ _ write hsnd

end Only

def Write.Timely (now : Millis) : Write → Prop
  | .putJob job => job.state = .expired → job.freshUntil.any (· ≤ now)
  | _ => True

def Write.KeepsClaims : Write → Prop
  | .putClaim _ _ => False
  | .delClaim _ => False
  | _ => True

/-- A write of a job that is not enqueued and has not ended before. -/
def Write.Plain (now : Millis) (write : Write) : Prop := write.Timely now ∧ write.KeepsClaims

theorem Only.final {Result : Type} {now : Millis} {operation : Operation Result}
    (honly : Only (Write.Plain now) operation) {store : Store} {id : JobId} {job : Job}
    (hjob : (operation.final kv store).jobs[id]? = some job) :
    store.jobs[id]? = some job ∨ (job.state = .expired → job.freshUntil.any (· ≤ now)) := by
  rcases jobs_applyAll_cases _ store id job hjob with hbef | ⟨hput, -⟩
  · exact .inl hbef
  · exact .inr (honly store _ hput).1

end WasmAgent.Queue
