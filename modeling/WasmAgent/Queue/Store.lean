import Mathlib.Data.List.Nodup
import Std.Data.ExtTreeMap
import WasmAgent.Core.Conduct
import WasmAgent.Queue.Types

/-!
# The queue's keys in the store

One table for each kind of key that `wa-queue` writes: job records, the ordered
ready/leased index, dedupe claims, progress chunks, alerts and counters.  Each
table is ordered as the bytes of its keys are, so a scan lists it in key order.
-/

namespace WasmAgent.Queue

open List Std.ExtTreeMap Std WasmAgent.Core

/-- The state letter of an index key. -/
inductive Slot where
  | leased
  | ready
  deriving DecidableEq, Repr

/-- The byte of a slot: `L` sorts before `R`. -/
def Slot.code : Slot → ℕ
  | leased => 'L'.toNat
  | ready => 'R'.toNat

def JobState.slot : JobState → Option Slot
  | ready => some Slot.ready
  | leased => some Slot.leased
  | done => none
  | dead => none
  | expired => none

/-- `i/<queue>/<R|L><inverted priority><id>`. -/
structure IndexKey where
  queue : String
  slot : Slot
  rank : UInt32
  id : JobId
  deriving DecidableEq, Repr

/-- `d/<queue>/<dedupe key>`. -/
structure ClaimKey where
  queue : String
  key : String
  deriving DecidableEq, Repr

/-- `p/<id>/<seq>`. -/
structure ChunkKey where
  id : JobId
  seq : ℕ
  deriving DecidableEq, Repr

/-- `a/<id>/<kind>`. -/
structure AlertKey where
  id : JobId
  kind : AlertKind
  deriving DecidableEq, Repr

namespace IndexKey

def order : IndexKey → IndexKey → Ordering :=
  compareLex (compareOn (fun key => key.queue ++ "/"))
    (compareLex (compareOn (fun key => key.slot.code)) (compareLex (compareOn rank) (compareOn id)))

instance : Ord IndexKey := ⟨order⟩

instance : TransCmp order :=
  inferInstanceAs (TransCmp (compareLex _ (compareLex _ (compareLex _ _))))

instance : LawfulEqCmp order where
  eq_of_compare := by
    intro left right hequal
    obtain ⟨leftQueue, leftSlot, leftRank, leftId⟩ := left
    obtain ⟨rightQueue, rightSlot, rightRank, rightId⟩ := right
    simp only [order, compareLex, compareOn, Ordering.then_eq_eq,
      LawfulEqCmp.compare_eq_iff_eq] at hequal
    obtain ⟨hqueue, hslot, hrank, hid⟩ := hequal
    have hslots : leftSlot = rightSlot := by
      cases leftSlot <;> cases rightSlot <;> first | rfl | (exact absurd hslot (by decide))
    have hqueues : leftQueue = rightQueue := by
      simpa using hqueue
    rw [hqueues, hslots, hrank, hid]

end IndexKey

namespace ClaimKey

def order : ClaimKey → ClaimKey → Ordering :=
  compareLex (compareOn (fun claim => claim.queue ++ "/")) (compareOn key)

instance : TransCmp order := inferInstanceAs (TransCmp (compareLex _ _))

instance : LawfulEqCmp order where
  eq_of_compare := by
    intro left right hequal
    obtain ⟨leftQueue, leftKey⟩ := left
    obtain ⟨rightQueue, rightKey⟩ := right
    simp only [order, compareLex, compareOn, Ordering.then_eq_eq,
      LawfulEqCmp.compare_eq_iff_eq] at hequal
    have hqueues : leftQueue = rightQueue := by
      simpa using hequal.1
    rw [hqueues, hequal.2]

end ClaimKey

namespace ChunkKey

def order : ChunkKey → ChunkKey → Ordering := compareLex (compareOn id) (compareOn seq)

instance : TransCmp order := inferInstanceAs (TransCmp (compareLex _ _))

instance : LawfulEqCmp order where
  eq_of_compare := by
    intro left right hequal
    obtain ⟨leftId, leftSeq⟩ := left
    obtain ⟨rightId, rightSeq⟩ := right
    simp only [order, compareLex, compareOn, Ordering.then_eq_eq,
      LawfulEqCmp.compare_eq_iff_eq] at hequal
    rw [hequal.1, hequal.2]

end ChunkKey

namespace AlertKey

def order : AlertKey → AlertKey → Ordering :=
  compareLex (compareOn id) (compareOn (fun key => key.kind.code))

instance : TransCmp order := inferInstanceAs (TransCmp (compareLex _ _))

instance : LawfulEqCmp order where
  eq_of_compare := by
    intro left right hequal
    obtain ⟨leftId, leftKind⟩ := left
    obtain ⟨rightId, rightKind⟩ := right
    simp only [order, compareLex, compareOn, Ordering.then_eq_eq,
      LawfulEqCmp.compare_eq_iff_eq] at hequal
    have hkinds : leftKind = rightKind := by
      cases leftKind <;> cases rightKind <;> first | rfl | (exact absurd hequal.2 (by decide))
    rw [hequal.1, hkinds]

end AlertKey

/-- The store of one namespace.  A record lies under its own id: a decoder that
finds another id in it refuses the record. -/
structure Store where
  jobs : ExtTreeMap JobId Job
  index : ExtTreeMap IndexKey Unit IndexKey.order
  claims : ExtTreeMap ClaimKey JobId ClaimKey.order
  chunks : ExtTreeMap ChunkKey Bytes ChunkKey.order
  alerts : ExtTreeMap AlertKey Alert AlertKey.order
  nextId : Option ℕ
  nextAlert : Option ℕ
  alertLast : Option Millis
  jobs_id : ∀ (id : JobId) (job : Job), jobs[id]? = some job → job.id = id

/-- The counters `s/id` and `s/alert_seq`. -/
inductive Counter where
  | id
  | alertSeq
  deriving DecidableEq, Repr

/-- The reads an operation makes. -/
inductive Query : Type → Type where
  | job (id : JobId) : Query (Option Job)
  | jobs : Query (List Job)
  | indexPrefix (queue : String) (slot : Slot) : Query (List IndexKey)
  | index : Query (List IndexKey)
  | hasIndex (key : IndexKey) : Query Bool
  | claim (key : ClaimKey) : Query (Option JobId)
  | claims : Query (List (ClaimKey × JobId))
  | chunks (id : JobId) : Query (List (ℕ × Bytes))
  | alert (key : AlertKey) : Query (Option Alert)
  | alerts : Query (List Alert)
  | counter (counter : Counter) : Query (Option ℕ)
  | alertLast : Query (Option Millis)

inductive Write where
  | putJob (job : Job)
  | delJob (id : JobId)
  | putIndex (key : IndexKey)
  | delIndex (key : IndexKey)
  | putClaim (key : ClaimKey) (id : JobId)
  | delClaim (key : ClaimKey)
  | putChunk (key : ChunkKey) (chunk : Bytes)
  | delChunk (key : ChunkKey)
  | putAlert (alert : Alert)
  | putCounter (counter : Counter) (value : ℕ)
  | putAlertLast (instant : Millis)
  deriving DecidableEq

/-- `alert_key`. -/
def Alert.key (alert : Alert) : AlertKey := ⟨alert.job, alert.kind⟩

namespace Store

def empty : Store where
  jobs := ∅
  index := ∅
  claims := ∅
  chunks := ∅
  alerts := ∅
  nextId := none
  nextAlert := none
  alertLast := none
  jobs_id := by
    intro id job hjob
    simp at hjob

def allJobs (store : Store) : List Job := store.jobs.toList.map Prod.snd

def answer {Reply : Type} (query : Query Reply) (store : Store) : Reply :=
  match query with
  | .job id => store.jobs[id]?
  | .jobs => store.allJobs
  | .indexPrefix queue slot =>
      store.index.keys.filter (fun key => key.queue = queue ∧ key.slot = slot)
  | .index => store.index.keys
  | .hasIndex key => decide (key ∈ store.index)
  | .claim key => store.claims[key]?
  | .claims => store.claims.toList
  | .chunks id =>
      (store.chunks.toList.filter (fun entry => entry.1.id = id)).map
        (fun entry => (entry.1.seq, entry.2))
  | .alert key => store.alerts[key]?
  | .alerts => store.alerts.toList.map Prod.snd
  | .counter .id => store.nextId
  | .counter .alertSeq => store.nextAlert
  | .alertLast => store.alertLast

def saveJob (job : Job) (store : Store) : Store :=
  { store with
    jobs := store.jobs.insert job.id job
    jobs_id := by
      intro id stored hstored
      rw [ExtTreeMap.getElem?_insert] at hstored
      split at hstored
      · rename_i hsame
        cases hstored
        exact LawfulEqCmp.compare_eq_iff_eq.mp hsame
      · exact store.jobs_id id stored hstored }

def dropJob (id : JobId) (store : Store) : Store :=
  { store with
    jobs := store.jobs.erase id
    jobs_id := by
      intro other stored hstored
      rw [ExtTreeMap.getElem?_erase] at hstored
      split at hstored
      · cases hstored
      · exact store.jobs_id other stored hstored }

def apply (write : Write) (store : Store) : Store :=
  match write with
  | .putJob job => store.saveJob job
  | .delJob id => store.dropJob id
  | .putIndex key => { store with index := store.index.insert key () }
  | .delIndex key => { store with index := store.index.erase key }
  | .putClaim key id => { store with claims := store.claims.insert key id }
  | .delClaim key => { store with claims := store.claims.erase key }
  | .putChunk key chunk => { store with chunks := store.chunks.insert key chunk }
  | .delChunk key => { store with chunks := store.chunks.erase key }
  | .putAlert alert => { store with alerts := store.alerts.insert alert.key alert }
  | .putCounter .id value => { store with nextId := some value }
  | .putCounter .alertSeq value => { store with nextAlert := some value }
  | .putAlertLast instant => { store with alertLast := some instant }

end Store

/-- The key-value store as a machine: one call at a time. -/
def kv : Machine Query Write Store where
  answer := Store.answer
  apply := Store.apply

@[simp]
theorem answer_job (id : JobId) (store : Store) :
    kv.answer (Query.job id) store = store.jobs[id]? := by
  rfl

@[simp]
theorem answer_jobs (store : Store) : kv.answer Query.jobs store = store.allJobs := by
  rfl

@[simp]
theorem answer_claim (key : ClaimKey) (store : Store) :
    kv.answer (Query.claim key) store = store.claims[key]? := by
  rfl

@[simp]
theorem answer_counter_id (store : Store) :
    kv.answer (Query.counter Counter.id) store = store.nextId := by
  rfl

@[simp]
theorem answer_hasIndex (key : IndexKey) (store : Store) :
    kv.answer (Query.hasIndex key) store = decide (key ∈ store.index) := by
  rfl

theorem mem_answer_index (key : IndexKey) (store : Store) :
    key ∈ kv.answer Query.index store ↔ key ∈ store.index :=
  ExtTreeMap.mem_keys

theorem mem_answer_indexPrefix (key : IndexKey) (queue : String) (slot : Slot) (store : Store) :
    key ∈ kv.answer (Query.indexPrefix queue slot) store ↔
      key ∈ store.index ∧ key.queue = queue ∧ key.slot = slot := by
  change key ∈ store.index.keys.filter _ ↔ _
  rw [List.mem_filter, Std.ExtTreeMap.mem_keys, decide_eq_true_iff]

theorem mem_allJobs (job : Job) (store : Store) :
    job ∈ store.allJobs ↔ store.jobs[job.id]? = some job := by
  constructor
  · intro hmem
    obtain ⟨⟨id, stored⟩, hent, hstored⟩ := List.mem_map.mp hmem
    rw [mem_toList_iff_getElem?_eq_some] at hent
    obtain rfl : stored = job := hstored
    rwa [store.jobs_id id stored hent]
  · intro hjob
    apply List.mem_map.mpr
    exact ⟨(job.id, job), mem_toList_iff_getElem?_eq_some.mpr hjob, rfl⟩

variable (write : Write) (store : Store)

@[simp]
theorem jobs_apply (id : JobId) :
    (kv.apply write store).jobs[id]? =
      match write with
      | .putJob job => if job.id = id then some job else store.jobs[id]?
      | .delJob dropped => if dropped = id then none else store.jobs[id]?
      | _ => store.jobs[id]? := by
  cases write with
  | putJob job =>
    change (store.jobs.insert job.id job)[id]? = _
    rw [ExtTreeMap.getElem?_insert]
    simp
  | delJob dropped =>
    change (store.jobs.erase dropped)[id]? = _
    rw [ExtTreeMap.getElem?_erase]
    simp
  | putCounter counter value =>
    cases counter <;> rfl
  | _ => rfl

@[simp]
theorem mem_index_apply (key : IndexKey) :
    key ∈ (kv.apply write store).index ↔
      match write with
      | .putIndex added => added = key ∨ key ∈ store.index
      | .delIndex removed => removed ≠ key ∧ key ∈ store.index
      | _ => key ∈ store.index := by
  cases write with
  | putIndex added =>
    change key ∈ store.index.insert added () ↔ _
    rw [mem_insert, LawfulEqCmp.compare_eq_iff_eq]
  | delIndex removed =>
    change key ∈ store.index.erase removed ↔ _
    rw [mem_erase]
    simp
  | putCounter counter value =>
    cases counter <;> rfl
  | _ => rfl

@[simp]
theorem claims_apply (key : ClaimKey) :
    (kv.apply write store).claims[key]? =
      match write with
      | .putClaim claim id => if claim = key then some id else store.claims[key]?
      | .delClaim claim => if claim = key then none else store.claims[key]?
      | _ => store.claims[key]? := by
  cases write with
  | putClaim claim id =>
    change (store.claims.insert claim id)[key]? = _
    rw [ExtTreeMap.getElem?_insert]
    simp
  | delClaim claim =>
    change (store.claims.erase claim)[key]? = _
    rw [ExtTreeMap.getElem?_erase]
    simp
  | putCounter counter value =>
    cases counter <;> rfl
  | _ => rfl

@[simp]
theorem nextId_apply :
    (kv.apply write store).nextId =
      match write with
      | .putCounter .id value => some value
      | _ => store.nextId := by
  cases write with
  | putCounter counter value =>
    cases counter <;> rfl
  | _ => rfl

/-- A procedure over the store. -/
abbrev Operation := Program Query Write

end WasmAgent.Queue
