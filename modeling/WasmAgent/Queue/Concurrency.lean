import WasmAgent.Queue.Sightings

/-!
# Callers side by side

Any number of callers run operations over one store, one call of the store at a
time.  As long as no write undoes what another caller wrote in between, a
settled job stays settled, the record of every new job stays until it is
retired, and no id is handed out twice.
-/

namespace WasmAgent.Queue

open List Option Function WasmAgent.Core WasmAgent.Core.Program

variable {Caller : Type}

abbrev Office (Caller : Type) := World Query Write Store Report Sighting Caller

abbrev Log (Caller : Type) := List (Entry Write Store Report Caller)

/-- A write that undoes no write of another caller: it makes a new record, or finds
the record as it was seen last or at least one that is not done; it deletes a
finished record; it draws an id from the counter it read. -/
def Write.Undisturbed (write : Write) (sighting : Sighting) (store : Store) : Prop :=
  match write with
  | .putJob job => (sighting.drawn = some job.id ∧ sighting.made = false) ∨
      sighting.seen job.id = some store.jobs[job.id]? ∨
      ∃ stored, store.jobs[job.id]? = some stored ∧ stored.state ≠ .done
  | .delJob id => ∀ stored, store.jobs[id]? = some stored → stored.state.isTerminal
  | .putCounter .id _ => sighting.counter = some store.nextId ∧ store.nextId.getD 1 < u64Max
  | _ => True

/-! ## The three laws -/

def newIds (history : Log Caller) : List JobId :=
  history.filterMap fun entry =>
    match entry with
    | .returned _ (.enqueued _ ⟨id, false⟩) => some id
    | _ => none

def SettledIn (store : Store) (id : JobId) : Prop :=
  ∀ job, store.jobs[id]? = some job → job.state = .done

/-- The record was deleted when its job had ended. -/
def Retired (history : Log Caller) (id : JobId) : Prop :=
  ∃ caller store job, Entry.wrote caller (.delJob id) store ∈ history ∧
    store.jobs[id]? = some job ∧ job.state.isTerminal

structure Kept (office : Office Caller) : Prop where
  settled : ∀ caller id worker,
    Entry.returned caller (.settled id worker) ∈ office.history → SettledIn office.state id
  enqueued : ∀ caller request id,
    Entry.returned caller (.enqueued request ⟨id, false⟩) ∈ office.history →
      Retired office.history id ∨ ∃ job, office.state.jobs[id]? = some job ∧
        job.queue = request.queue ∧ job.payload = request.payload
  unique : (newIds office.history).Nodup

/-! ## The invariant -/

/-- What a running call may believe.  `birth` is the first record of every id. -/
structure Believes (birth : JobId → Option Job) (store : Store) (ids : List JobId)
    (sighting : Sighting) : Prop where
  seen : ∀ id job, sighting.seen id = some (some job) →
    ∃ first, birth id = some first ∧ first.SameJob job ∧ (job.state = .done → SettledIn store id)
  drawn : ∀ id, sighting.drawn = some id →
    id < store.nextId.getD 1 ∧ id ∉ ids ∧ (sighting.made = false → birth id = none)

structure Recorded (birth : JobId → Option Job) (store : Store) (history : Log Caller) :
    Prop where
  stored : ∀ (id : JobId) (job : Job), store.jobs[id]? = some job →
    ∃ first, birth id = some first ∧ first.SameJob job
  below : ∀ id first, birth id = some first → id < store.nextId.getD 1
  present : ∀ (id : JobId) (first : Job), birth id = some first →
    (∃ job, store.jobs[id]? = some job) ∨ Retired history id
  settled : ∀ caller id worker, Entry.returned caller (.settled id worker) ∈ history →
    SettledIn store id ∧ ∃ first, birth id = some first
  enqueued : ∀ caller request id, Entry.returned caller (.enqueued request ⟨id, false⟩) ∈ history →
    ∃ first, birth id = some first ∧ first.queue = request.queue ∧ first.payload = request.payload
  unique : (newIds history).Nodup

def Draws (threads : Caller → Thread Query Write Report Sighting) (caller : Caller)
    (id : JobId) : Prop :=
  ∃ sighting rest, threads caller = .running sighting rest ∧ sighting.drawn = some id

structure Consistent (birth : JobId → Option Job) (office : Office Caller) : Prop where
  recorded : Recorded birth office.state office.history
  believes : ∀ caller sighting rest, office.threads caller = .running sighting rest →
    Believes birth office.state (newIds office.history) sighting
  apart : ∀ first second id, Draws office.threads first id → Draws office.threads second id →
    first = second

variable {birth : JobId → Option Job}

theorem Consistent.kept {office : Office Caller}
    (hcons : Consistent birth office) : Kept office := by
  obtain ⟨hrecd, -, -⟩ := hcons
  constructor
  · intro caller id worker hmem
    exact (hrecd.settled caller id worker hmem).1
  · intro caller request id hmem
    obtain ⟨first, hfst, hque, hpay⟩ := hrecd.enqueued caller request id hmem
    rcases hrecd.present id first hfst with ⟨job, hjob⟩ | hrtd
    · right
      obtain ⟨other, hoth, hsame⟩ := hrecd.stored id job hjob
      rw [hfst] at hoth
      cases hoth
      exact ⟨job, hjob, hsame.queue.trans hque, hsame.payload.trans hpay⟩
    · exact .inl hrtd
  · exact hrecd.unique

variable {store : Store} {history : Log Caller}

theorem Recorded.born (hrecd : Recorded birth store history)
    {id : JobId} (hid : id ∈ newIds history) : ∃ first, birth id = some first := by
  obtain ⟨entry, hent, hsome⟩ := mem_filterMap.mp hid
  split at hsome
  · rename_i caller request other
    cases hsome
    obtain ⟨first, hfst, -⟩ := hrecd.enqueued caller request _ hent
    exact ⟨first, hfst⟩
  · cases hsome

theorem newIds_cons (entry : Entry Write Store Report Caller) (history : Log Caller) :
    newIds (entry :: history) = newIds history ∨
      ∃ caller request id, entry = .returned caller (.enqueued request ⟨id, false⟩) ∧
        newIds (entry :: history) = id :: newIds history := by
  unfold newIds
  rw [filterMap_cons]
  split
  · exact .inl rfl
  rename_i id hid
  right
  split at hid
  · rename_i caller request other
    cases hid
    exact ⟨caller, request, id, rfl, rfl⟩
  · cases hid

theorem Retired.cons {id : JobId} (hrtd : Retired history id)
    (entry : Entry Write Store Report Caller) : Retired (entry :: history) id := by
  obtain ⟨caller, store, job, hmem, hjob, hterm⟩ := hrtd
  exact ⟨caller, store, job, mem_cons_of_mem entry hmem, hjob, hterm⟩

theorem Recorded.write {birth birth' : JobId → Option Job} {store store' : Store}
    {history : Log Caller} {caller : Caller} {change : Write} (hrecd : Recorded birth store history)
    (hbirth : ∀ id first, birth id = some first → birth' id = some first)
    (hsetd : ∀ id first, birth id = some first → SettledIn store id → SettledIn store' id)
    (hsto : ∀ (id : JobId) (job : Job), store'.jobs[id]? = some job →
      ∃ first, birth' id = some first ∧ first.SameJob job)
    (hbelow : ∀ id first, birth' id = some first → id < store'.nextId.getD 1)
    (hpres : ∀ (id : JobId) (first : Job), birth' id = some first →
      (∃ job, store'.jobs[id]? = some job) ∨ Retired (.wrote caller change store :: history) id) :
    Recorded birth' store' (.wrote caller change store :: history) where
  stored := hsto
  below := hbelow
  present := hpres
  settled := by
    intro other id worker hmem
    rcases mem_cons.mp hmem with heq | hbef
    · cases heq
    · obtain ⟨hdone, first, hfst⟩ := hrecd.settled other id worker hbef
      exact ⟨hsetd id first hfst hdone, first, hbirth id first hfst⟩
  enqueued := by
    intro other request id hmem
    rcases mem_cons.mp hmem with heq | hbef
    · cases heq
    · obtain ⟨first, hfst, hreq⟩ := hrecd.enqueued other request id hbef
      exact ⟨first, hbirth id first hfst, hreq⟩
  unique := hrecd.unique

variable {sighting : Sighting}

theorem Believes.mono {birth birth' : JobId → Option Job} {store' : Store} {ids : List JobId}
    (hbel : Believes birth store ids sighting)
    (hbirth : ∀ id first, birth id = some first → birth' id = some first)
    (hsetd : ∀ id first, birth id = some first → SettledIn store id → SettledIn store' id)
    (hctr : store.nextId.getD 1 ≤ store'.nextId.getD 1)
    (hunb : ∀ id, sighting.drawn = some id → birth id = none → birth' id = none) :
    Believes birth' store' ids sighting where
  seen := by
    intro id job hseen
    obtain ⟨first, hfst, hsame, hdone⟩ := hbel.seen id job hseen
    exact ⟨first, hbirth id first hfst, hsame,
      fun hst => hsetd id first hfst (hdone hst)⟩
  drawn := by
    intro id hdrw
    obtain ⟨hbelow, hnew, hnone⟩ := hbel.drawn id hdrw
    exact ⟨Nat.lt_of_lt_of_le hbelow hctr, hnew, fun hmade => hunb id hdrw (hnone hmade)⟩

/-! ## Queries -/

variable {Reply : Type} (question : Query Reply)

theorem seen_observe {id : JobId} {job : Job}
    (hseen : (sightings.observe question (kv.answer question store) sighting).seen id =
      some (some job)) : store.jobs[id]? = some job ∨ sighting.seen id = some (some job) := by
  cases question with
  | job asked =>
    by_cases hid : id = asked
    · subst hid
      left
      exact Option.some.inj ((Sighting.seen_sees_self id _ sighting).symm.trans hseen)
    · right
      exact (Sighting.seen_sees_of_ne hid _ sighting).symm.trans hseen
  | jobs =>
    left
    have hfind : store.allJobs.find? (·.id = id) = some job := Option.some.inj hseen
    have hid : job.id = id := by
      simpa using find?_some hfind
    rw [← hid]
    exact (mem_allJobs job store).mp (mem_of_find?_eq_some hfind)
  | counter counter =>
    cases counter <;> exact .inr hseen
  | _ => exact .inr hseen

theorem drawn_observe (reply : Reply) (sighting : Sighting) :
    (sightings.observe question reply sighting).drawn = sighting.drawn ∧
      (sightings.observe question reply sighting).made = sighting.made := by
  cases question with
  | counter counter =>
    cases counter <;> exact ⟨rfl, rfl⟩
  | _ => exact ⟨rfl, rfl⟩

theorem Believes.observe (hrecd : Recorded birth store history)
    (hbel : Believes birth store (newIds history) sighting) :
    Believes birth store (newIds history)
      (sightings.observe question (kv.answer question store) sighting) where
  seen := by
    intro id job hseen
    rcases seen_observe question hseen with hsto | hbef
    · obtain ⟨first, hfst, hsame⟩ := hrecd.stored id job hsto
      refine ⟨first, hfst, hsame, ?_⟩
      intro hdone other hoth
      rw [hsto] at hoth
      cases hoth
      exact hdone
    · exact hbel.seen id job hbef
  drawn := by
    obtain ⟨hdrw, hmade⟩ := drawn_observe question (kv.answer question store) sighting
    rw [hdrw, hmade]
    exact hbel.drawn

section Steps

variable [DecidableEq Caller] {office : Office Caller} {birth : JobId → Option Job}
variable {caller : Caller} {sighting : Sighting}

theorem apart_update {threads : Caller → Thread Query Write Report Sighting}
    {thread : Thread Query Write Report Sighting}
    (hapart : ∀ first second id, Draws threads first id → Draws threads second id → first = second)
    (hdrw : ∀ view rest id, thread = .running view rest → view.drawn = some id →
      Draws threads caller id ∨ ∀ other, ¬ Draws threads other id) :
    ∀ first second id, Draws (update threads caller thread) first id →
      Draws (update threads caller thread) second id → first = second := by
  have hcases : ∀ other id, Draws (update threads caller thread) other id →
      Draws threads other id ∨ other = caller ∧ ∀ third, ¬ Draws threads third id := by
    rintro other id ⟨view, rest, hrun, hid⟩
    rcases running_update hrun with ⟨rfl, hthis⟩ | ⟨-, hbef⟩
    · rcases hdrw view rest id hthis hid with hold | hnew
      · exact .inl hold
      · exact .inr ⟨rfl, hnew⟩
    · exact .inl ⟨view, rest, hbef, hid⟩
  intro first second id hfst hsnd
  rcases hcases first id hfst with hfst | ⟨hfst, hnone⟩
  · rcases hcases second id hsnd with hsnd | ⟨-, hnone⟩
    · exact hapart first second id hfst hsnd
    · exact absurd hfst (hnone first)
  · rcases hcases second id hsnd with hsnd | ⟨hsnd, -⟩
    · exact absurd hsnd (hnone second)
    · rw [hfst, hsnd]

theorem Consistent.begin (program : Operation Report) (hcons : Consistent birth office) :
    Consistent birth (office.begin sightings caller program) where
  recorded := hcons.recorded
  believes := by
    intro other view rest hrun
    rcases running_update hrun with ⟨-, hthis⟩ | ⟨-, hbef⟩
    · cases hthis
      constructor
      · intro id job hseen
        cases hseen
      · intro id hdrw
        cases hdrw
    · exact hcons.believes other view rest hbef
  apart := by
    apply apart_update hcons.apart
    intro view rest id hthis hdrw
    cases hthis
    cases hdrw

theorem Consistent.reply {question : Query Reply} {next : Reply → Operation Report}
    (hcons : Consistent birth office)
    (hthr : office.threads caller = .running sighting (.ask question next)) :
    Consistent birth (office.reply kv sightings caller sighting question next) where
  recorded := hcons.recorded
  believes := by
    intro other view rest hrun
    rcases running_update hrun with ⟨-, hthis⟩ | ⟨-, hbef⟩
    · cases hthis
      exact (hcons.believes caller sighting _ hthr).observe question hcons.recorded
    · exact hcons.believes other view rest hbef
  apart := by
    apply apart_update hcons.apart
    intro view rest id hthis hdrw
    cases hthis
    rw [(drawn_observe question (kv.answer question office.state) sighting).1] at hdrw
    exact .inl ⟨sighting, _, hthr, hdrw⟩

/-! ## Ends -/

omit [DecidableEq Caller] in
theorem newIds_finish {result : Report} {rest : Operation Report} (hcons : Consistent birth office)
    (hthr : office.threads caller = .running sighting rest) (hres : result.Sighted sighting) :
    newIds (.returned caller result :: office.history) = newIds office.history ∨
      ∃ id, Draws office.threads caller id ∧ id ∉ newIds office.history ∧
        newIds (.returned caller result :: office.history) = id :: newIds office.history := by
  rcases newIds_cons (.returned caller result) office.history with hsame | ⟨_, request, id, hent, hnew⟩
  · exact .inl hsame
  · cases hent
    refine .inr ⟨id, ⟨sighting, rest, hthr, hres.1⟩, ?_, hnew⟩
    exact ((hcons.believes caller sighting rest hthr).drawn id hres.1).2.1

theorem Consistent.finish {result : Report} (hcon : Consistent birth office)
    (hthr : office.threads caller = .running sighting (.done result))
    (hres : result.Sighted sighting) : Consistent birth (office.finish caller result) := by
  have hbel := hcon.believes caller sighting _ hthr
  have hids := newIds_finish hcon hthr hres
  obtain ⟨hrecd, hoths, hapart⟩ := hcon
  constructor
  · constructor
    · exact hrecd.stored
    · exact hrecd.below
    · intro id first hfst
      rcases hrecd.present id first hfst with hsto | hrtd
      · exact .inl hsto
      · exact .inr (hrtd.cons _)
    · intro other id worker hmem
      rcases mem_cons.mp hmem with heq | hbef
      · cases heq
        obtain ⟨job, hseen, hdone⟩ := hres
        obtain ⟨first, hfst, -, hsetd⟩ := hbel.seen id job hseen
        exact ⟨hsetd hdone, first, hfst⟩
      · exact hrecd.settled other id worker hbef
    · intro other request id hmem
      rcases mem_cons.mp hmem with heq | hbef
      · cases heq
        obtain ⟨-, job, hseen, hque, hpay⟩ := hres
        obtain ⟨first, hfst, hsame, -⟩ := hbel.seen id job hseen
        exact ⟨first, hfst, hsame.queue.symm.trans hque, hsame.payload.symm.trans hpay⟩
      · exact hrecd.enqueued other request id hbef
    · change (newIds (.returned caller result :: office.history)).Nodup
      rcases hids with hsame | ⟨id, -, hnew, hcons⟩
      · rw [hsame]
        exact hrecd.unique
      · rw [hcons]
        exact nodup_cons.mpr ⟨hnew, hrecd.unique⟩
  · intro other view rest hrun
    rcases running_update hrun with ⟨-, hidle⟩ | ⟨hoth, hbef⟩
    · cases hidle
    have hview := hoths other view rest hbef
    refine ⟨hview.seen, ?_⟩
    intro id hdrw
    obtain ⟨hbelow, hnew, hnone⟩ := hview.drawn id hdrw
    refine ⟨hbelow, ?_, hnone⟩
    change id ∉ newIds (.returned caller result :: office.history)
    rcases hids with hsame | ⟨own, hown, -, hcons⟩
    · rwa [hsame]
    rw [hcons, mem_cons, not_or]
    refine ⟨?_, hnew⟩
    rintro rfl
    exact hoth (hapart other caller id ⟨view, rest, hbef, hdrw⟩ hown)
  · apply apart_update hapart
    intro view rest id hidle
    cases hidle

/-! ## Writes -/

variable {next : Operation Report} {change : Write} {birth' : JobId → Option Job}

theorem Consistent.commit_of (hcons : Consistent birth office)
    (hbirth : ∀ id first, birth id = some first → birth' id = some first)
    (hsetd : ∀ id first, birth id = some first → SettledIn office.state id →
      SettledIn (kv.apply change office.state) id)
    (hctr : office.state.nextId.getD 1 ≤ (kv.apply change office.state).nextId.getD 1)
    (hunb : ∀ other id, other ≠ caller → Draws office.threads other id → birth id = none →
      birth' id = none)
    (hrecd : Recorded birth' (kv.apply change office.state)
      (.wrote caller change office.state :: office.history))
    (hown : Believes birth' (kv.apply change office.state) (newIds office.history)
      (sightings.record change sighting))
    (hdrw : ∀ id, (sightings.record change sighting).drawn = some id →
      Draws office.threads caller id ∨ ∀ other, ¬ Draws office.threads other id) :
    Consistent birth' (office.commit kv sightings caller sighting change next) where
  recorded := hrecd
  believes := by
    intro other view rest hrun
    rcases running_update hrun with ⟨-, hthis⟩ | ⟨hoth, hbef⟩
    · cases hthis
      exact hown
    · apply (hcons.believes other view rest hbef).mono hbirth hsetd hctr
      intro id hid
      exact hunb other id hoth ⟨view, rest, hbef, hid⟩
  apart := by
    apply apart_update hcons.apart
    intro view rest id hthis
    cases hthis
    exact hdrw id

theorem Consistent.quiet {next : Operation Report} (hcons : Consistent birth office)
    (hthr : office.threads caller = .running sighting (.put change next))
    (hjobs : ∀ id : JobId, (kv.apply change office.state).jobs[id]? = office.state.jobs[id]?)
    (hnext : (kv.apply change office.state).nextId = office.state.nextId)
    (hrec : sightings.record change sighting = sighting) :
    Consistent birth (office.commit kv sightings caller sighting change next) := by
  have hsetd : ∀ id (first : Job), birth id = some first → SettledIn office.state id →
      SettledIn (kv.apply change office.state) id := by
    intro id _ _ hbef job hjob
    rw [hjobs] at hjob
    exact hbef job hjob
  have hctr : office.state.nextId.getD 1 ≤ (kv.apply change office.state).nextId.getD 1 := by
    rw [hnext]
  have hbel := hcons.believes caller sighting _ hthr
  apply hcons.commit_of (fun _ _ hfst => hfst) hsetd hctr (fun _ _ _ _ hnone => hnone)
  · apply hcons.recorded.write (fun _ _ hfst => hfst) hsetd
    · intro id job hjob
      rw [hjobs] at hjob
      exact hcons.recorded.stored id job hjob
    · rw [hnext]
      exact hcons.recorded.below
    · intro id first hfst
      rw [hjobs]
      exact (hcons.recorded.present id first hfst).imp_right (·.cons _)
  · rw [hrec]
    exact hbel.mono (fun _ _ hfst => hfst) hsetd hctr (fun _ _ hnone => hnone)
  · intro id hdrw
    rw [hrec] at hdrw
    exact .inl ⟨sighting, _, hthr, hdrw⟩

/-- A record is put under an id that was born before, or is born with it. -/
theorem Consistent.putJob {job : Job} (hcons : Consistent birth office)
    (hthr : office.threads caller = .running sighting (.put (.putJob job) next))
    (hbirth : ∀ id first, birth id = some first → birth' id = some first)
    (hoths : ∀ id, id ≠ job.id → birth' id = birth id)
    (hthis : ∃ first, birth' job.id = some first ∧ first.SameJob job)
    (hbelow : job.id < office.state.nextId.getD 1)
    (hdone : ∀ first, birth job.id = some first → SettledIn office.state job.id → job.state = .done)
    (hunb : ∀ other id, other ≠ caller → Draws office.threads other id → birth id = none →
      birth' id = none)
    (hdrw : ∀ id, sighting.drawn = some id → id < office.state.nextId.getD 1 ∧
      id ∉ newIds office.history ∧
      ((sightings.record (.putJob job) sighting).made = false → birth' id = none)) :
    Consistent birth' (office.commit kv sightings caller sighting (.putJob job) next) := by
  have hcases : ∀ id (stored : Job),
      (kv.apply (.putJob job) office.state).jobs[id]? = some stored →
      job.id = id ∧ job = stored ∨ office.state.jobs[id]? = some stored := by
    intro id stored hsto
    rw [jobs_apply] at hsto
    dsimp only at hsto
    split at hsto
    · rename_i hid
      exact .inl ⟨hid, Option.some.inj hsto⟩
    · exact .inr hsto
  have hsetd : ∀ id (first : Job), birth id = some first → SettledIn office.state id →
      SettledIn (kv.apply (.putJob job) office.state) id := by
    intro id first hfst hbef stored hsto
    rcases hcases id stored hsto with ⟨rfl, rfl⟩ | hold
    · exact hdone first hfst hbef
    · exact hbef stored hold
  apply hcons.commit_of hbirth hsetd le_rfl hunb
  · apply hcons.recorded.write hbirth hsetd
    · intro id stored hsto
      rcases hcases id stored hsto with ⟨rfl, rfl⟩ | hold
      · exact hthis
      · obtain ⟨first, hfst, hsame⟩ := hcons.recorded.stored id stored hold
        exact ⟨first, hbirth id first hfst, hsame⟩
    · intro id first hfst
      by_cases hid : id = job.id
      · rw [hid]
        exact hbelow
      · rw [hoths id hid] at hfst
        exact hcons.recorded.below id first hfst
    · intro id first hfst
      rw [jobs_apply]
      dsimp only
      split
      · exact .inl ⟨job, rfl⟩
      rename_i hid
      rw [hoths id (Ne.symm hid)] at hfst
      exact (hcons.recorded.present id first hfst).imp_right (·.cons _)
  · refine ⟨?_, hdrw⟩
    intro id other hseen
    by_cases hid : id = job.id
    · subst hid
      have hjob := (Sighting.seen_sees_self job.id (some job) sighting).symm.trans hseen
      cases hjob
      obtain ⟨first, hfst, hsame⟩ := hthis
      refine ⟨first, hfst, hsame, ?_⟩
      intro hst stored hsto
      simp at hsto
      rw [← hsto]
      exact hst
    have hold := (Sighting.seen_sees_of_ne hid (some job) sighting).symm.trans hseen
    obtain ⟨first, hfst, hsame, hsettled⟩ :=
      (hcons.believes caller sighting _ hthr).seen id other hold
    exact ⟨first, hbirth id first hfst, hsame, fun hst => hsetd id first hfst (hsettled hst)⟩
  · intro id hid
    exact .inl ⟨sighting, _, hthr, hid⟩

theorem Consistent.continued {before job : Job} (hcons : Consistent birth office)
    (hthr : office.threads caller = .running sighting (.put (.putJob job) next))
    (hseen : sighting.seen job.id = some (some before)) (hcon : Continues before job)
    (hok : Write.Undisturbed (.putJob job) sighting office.state) :
    Consistent birth (office.commit kv sightings caller sighting (.putJob job) next) := by
  have hbel := hcons.believes caller sighting _ hthr
  obtain ⟨first, hfst, hsame, -⟩ := hbel.seen job.id before hseen
  apply hcons.putJob hthr (fun _ _ hfst => hfst) (fun _ _ => rfl)
    ⟨first, hfst, hsame.trans hcon.same⟩ (hcons.recorded.below job.id first hfst) _
    (fun _ _ _ _ hnone => hnone)
  · intro id hdrw
    obtain ⟨hbelow, hnew, hnone⟩ := hbel.drawn id hdrw
    exact ⟨hbelow, hnew, fun hmade => hnone (Bool.or_eq_false_iff.mp hmade).1⟩
  -- A settled record is only replaced by a done one.
  intro _ _ hsetd
  rcases hok with ⟨hdrw, hmade⟩ | hsto | ⟨stored, hsto, hst⟩
  · rw [(hbel.drawn job.id hdrw).2.2 hmade] at hfst
    cases hfst
  · rw [hseen] at hsto
    exact hcon.done (hsetd before (Option.some.inj hsto).symm)
  · exact absurd (hsetd stored hsto) hst

theorem Consistent.created {job : Job} (hcons : Consistent birth office)
    (hthr : office.threads caller = .running sighting (.put (.putJob job) next))
    (hdrw : sighting.drawn = some job.id) (hmade : sighting.made = false) :
    Consistent (update birth job.id (some job))
      (office.commit kv sightings caller sighting (.putJob job) next) := by
  obtain ⟨hbelow, hnew, hnone⟩ := (hcons.believes caller sighting _ hthr).drawn job.id hdrw
  have hunb := hnone hmade
  have hoths : ∀ id, id ≠ job.id → update birth job.id (some job) id = birth id :=
    fun id hid => update_of_ne hid _ _
  apply hcons.putJob hthr _ hoths ⟨job, update_self .., Job.SameJob.refl job⟩ hbelow
  · intro first hfst
    cases hunb.symm.trans hfst
  · intro other id hne hdraws hidNone
    rw [hoths id _, hidNone]
    rintro rfl
    exact hne (hcons.apart other caller _ hdraws ⟨sighting, _, hthr, hdrw⟩)
  · intro id hid
    obtain rfl := Option.some.inj (hdrw.symm.trans hid)
    refine ⟨hbelow, hnew, ?_⟩
    intro hstill
    have hfalse := (Bool.or_eq_false_iff.mp hstill).2
    rw [hdrw] at hfalse
    simp at hfalse
  · intro id first hfst
    rw [hoths id _, hfst]
    rintro rfl
    cases hunb.symm.trans hfst

theorem Consistent.retired {dropped : JobId} (hcons : Consistent birth office)
    (hthr : office.threads caller = .running sighting (.put (.delJob dropped) next))
    (hok : Write.Undisturbed (.delJob dropped) sighting office.state) :
    Consistent birth (office.commit kv sightings caller sighting (.delJob dropped) next) := by
  have hbel := hcons.believes caller sighting _ hthr
  have hsto : ∀ (id : JobId) (job : Job),
      (kv.apply (.delJob dropped) office.state).jobs[id]? = some job →
      office.state.jobs[id]? = some job := by
    intro id job hjob
    rw [jobs_apply] at hjob
    dsimp only at hjob
    split at hjob
    · cases hjob
    · exact hjob
  have hsetd : ∀ id (first : Job), birth id = some first → SettledIn office.state id →
      SettledIn (kv.apply (.delJob dropped) office.state) id := by
    intro id _ _ hbef job hjob
    exact hbef job (hsto id job hjob)
  have hbelievesAfter := hbel.mono (fun _ _ hfst => hfst) hsetd le_rfl (fun _ _ hnone => hnone)
  apply hcons.commit_of (fun _ _ hfst => hfst) hsetd le_rfl (fun _ _ _ _ hnone => hnone)
  · apply hcons.recorded.write (fun _ _ hfst => hfst) hsetd
    · intro id job hjob
      exact hcons.recorded.stored id job (hsto id job hjob)
    · exact hcons.recorded.below
    · intro id first hfst
      rcases hcons.recorded.present id first hfst with ⟨job, hjob⟩ | hrtd
      · by_cases hid : dropped = id
        · subst hid
          exact .inr ⟨caller, office.state, job, mem_cons_self, hjob, hok job hjob⟩
        · refine .inl ⟨job, ?_⟩
          rw [jobs_apply]
          dsimp only
          rw [if_neg hid, hjob]
      · exact .inr (hrtd.cons _)
  · refine ⟨?_, hbelievesAfter.drawn⟩
    intro id job hseen
    by_cases hid : id = dropped
    · subst hid
      cases (Sighting.seen_sees_self id none sighting).symm.trans hseen
    · exact hbelievesAfter.seen id job
        ((Sighting.seen_sees_of_ne hid none sighting).symm.trans hseen)
  · intro id hdrw
    exact .inl ⟨sighting, _, hthr, hdrw⟩

theorem Consistent.drew {value : ℕ} (hcons : Consistent birth office)
    (hthr : office.threads caller = .running sighting (.put (.putCounter .id value) next))
    (hsig : Write.Sighted (.putCounter .id value) sighting)
    (hok : Write.Undisturbed (.putCounter .id value) sighting office.state) :
    Consistent birth (office.commit kv sightings caller sighting (.putCounter .id value) next) := by
  have hbel := hcons.believes caller sighting _ hthr
  obtain ⟨-, stored, hctr, hval⟩ := hsig
  obtain ⟨hread, hroom⟩ := hok
  rw [hctr] at hread
  obtain rfl := Option.some.inj hread
  have hnext : (kv.apply (.putCounter .id value) office.state).nextId.getD 1 =
      office.state.nextId.getD 1 + 1 := by
    simp only [nextId_apply, getD_some, hval, saturatingAddU64]
    omega
  have hsetd : ∀ id (first : Job), birth id = some first → SettledIn office.state id →
      SettledIn (kv.apply (.putCounter .id value) office.state) id :=
    fun _ _ _ hbef => hbef
  have hle : office.state.nextId.getD 1 ≤
      (kv.apply (.putCounter .id value) office.state).nextId.getD 1 := by
    rw [hnext]
    exact Nat.le_succ _
  have hdrw : ∀ id, (sightings.record (.putCounter .id value) sighting).drawn = some id →
      id = office.state.nextId.getD 1 := by
    intro id hid
    change sighting.counter.map _ = _ at hid
    rw [hctr] at hid
    exact (Option.some.inj hid).symm
  apply hcons.commit_of (fun _ _ hfst => hfst) hsetd hle (fun _ _ _ _ hnone => hnone)
  · apply hcons.recorded.write (fun _ _ hfst => hfst) hsetd
    · exact hcons.recorded.stored
    · intro id first hfst
      exact Nat.lt_of_lt_of_le (hcons.recorded.below id first hfst) hle
    · intro id first hfst
      exact (hcons.recorded.present id first hfst).imp_right (·.cons _)
  · refine ⟨hbel.seen, ?_⟩
    intro id hid
    rw [hdrw id hid]
    refine ⟨?_, ?_, ?_⟩
    · rw [hnext]
      exact Nat.lt_succ_self _
    · intro hmem
      obtain ⟨first, hfst⟩ := hcons.recorded.born hmem
      exact Nat.lt_irrefl _ (hcons.recorded.below _ first hfst)
    intro _
    rw [eq_none_iff_forall_not_mem]
    intro first hfst
    exact Nat.lt_irrefl _ (hcons.recorded.below _ first hfst)
  intro id hid
  right
  rintro other ⟨view, rest, hrun, hoth⟩
  have hbelow := ((hcons.believes other view rest hrun).drawn id hoth).1
  rw [hdrw id hid] at hbelow
  exact Nat.lt_irrefl _ hbelow

theorem Consistent.commit (hcons : Consistent birth office)
    (hthr : office.threads caller = .running sighting (.put change next))
    (hsig : change.Sighted sighting) (hok : change.Undisturbed sighting office.state) :
    ∃ birth', Consistent birth' (office.commit kv sightings caller sighting change next) := by
  cases change with
  | putJob job =>
    rcases hsig with ⟨before, hseen, hcon⟩ | ⟨hdrw, hmade⟩
    · exact ⟨_, hcons.continued hthr hseen hcon hok⟩
    · exact ⟨_, hcons.created hthr hdrw hmade⟩
  | delJob dropped => exact ⟨_, hcons.retired hthr hok⟩
  | putCounter counter value =>
    cases counter with
    | id => exact ⟨_, hcons.drew hthr hsig hok⟩
    | alertSeq => exact ⟨_, hcons.quiet hthr (fun _ => rfl) rfl rfl⟩
  | _ => exact ⟨_, hcons.quiet hthr (fun _ => rfl) rfl rfl⟩

def IsCall (policy : Policy) (_ : Caller) (program : Operation Report) : Prop :=
  ∃ op : Op, program = op.reporting policy

/-- In every interleaving of any callers whose writes undo no write of another, a
settled job stays settled, new jobs keep their records and ids are handed out once. -/
theorem kept_of_undisturbed (policy : Policy) (office : Office Caller)
    (hoffice : Interleaved kv sightings (IsCall policy) Write.Undisturbed Store.empty office) :
    Kept office := by
  have hcalls : ∀ (caller : Caller) program, IsCall policy caller program →
      Legal kv sightings Write.Sighted Report.Sighted program sightings.blank := by
    rintro caller program ⟨op, rfl⟩
    exact op.sound policy
  have hstart : ∃ birth, Consistent birth
      (World.start Store.empty : Office Caller) := by
    refine ⟨fun _ => none, ⟨?_, ?_, ?_, ?_, ?_, nodup_nil⟩, ?_, ?_⟩
    · intro id job hjob
      simp [World.start, Store.empty] at hjob
    · intro id first hfirst
      cases hfirst
    · intro id first hfirst
      cases hfirst
    · intro caller id worker hmem
      cases hmem
    · intro caller request id hmem
      cases hmem
    · intro caller view rest hrunning
      cases hrunning
    · rintro first second id ⟨view, rest, hrunning, -⟩
      cases hrunning
  have hinvariant : ∃ birth, Consistent birth office := by
    apply hoffice.invariant hcalls hstart
    · rintro world caller program ⟨birth, hconsistent⟩ _
      exact ⟨birth, hconsistent.begin program⟩
    · rintro world caller view result ⟨birth, hconsistent⟩ hthread hresult
      exact ⟨birth, hconsistent.finish hthread hresult⟩
    · rintro world caller view Reply question next ⟨birth, hconsistent⟩ hthread
      exact ⟨birth, hconsistent.reply hthread⟩
    · rintro world caller view change next ⟨birth, hconsistent⟩ hthread hsighted hok
      exact hconsistent.commit hthread hsighted hok
  obtain ⟨birth, hconsistent⟩ := hinvariant
  exact hconsistent.kept

end Steps

/-! ## The host's two callers -/

inductive Party where
  | sweeper
  | guest
  deriving DecidableEq

def Party.Calls : Party → Op → Prop
  | .sweeper, .sweep _ _ _ => True
  | .sweeper, .nextAlerts _ => True
  | .guest, .enqueue _ _ => True
  | .guest, .take _ _ _ _ => True
  | .guest, .heartbeat _ _ _ _ => True
  | .guest, .settle _ _ (some _) _ => True
  | .guest, .fail _ _ (some _) _ => True
  | _, _ => False

def HostCall (policy : Policy) (party : Party) (program : Operation Report) : Prop :=
  ∃ op, party.Calls op ∧ program = op.reporting policy

instance (write : Write) (sighting : Sighting) (store : Store) :
    Decidable (write.Undisturbed sighting store) :=
  match write with
  | .putJob job =>
      inferInstanceAs (Decidable ((sighting.drawn = some job.id ∧ sighting.made = false) ∨
        sighting.seen job.id = some store.jobs[job.id]? ∨
        ∃ stored ∈ store.jobs[job.id]?, stored.state ≠ .done))
  | .delJob id =>
      inferInstanceAs (Decidable (∀ stored ∈ store.jobs[id]?, stored.state.isTerminal = true))
  | .putCounter .id _ =>
      inferInstanceAs
        (Decidable (sighting.counter = some store.nextId ∧ store.nextId.getD 1 < u64Max))
  | .putCounter .alertSeq _ => isTrue trivial
  | .putIndex _ => isTrue trivial
  | .delIndex _ => isTrue trivial
  | .putClaim _ _ => isTrue trivial
  | .delClaim _ => isTrue trivial
  | .putChunk _ _ => isTrue trivial
  | .delChunk _ => isTrue trivial
  | .putAlert _ => isTrue trivial
  | .putAlertLast _ => isTrue trivial

/-- What the calls returned, latest first. -/
def reports (history : Log Caller) : List Report :=
  history.filterMap fun entry =>
    match entry with
    | .returned _ report => some report
    | .wrote _ _ _ => none

theorem returned_of_mem_reports {report : Report} (hmem : report ∈ reports history) :
    ∃ caller, Entry.returned caller report ∈ history := by
  obtain ⟨entry, hent, hsome⟩ := mem_filterMap.mp hmem
  cases entry with
  | wrote caller write found => cases hsome
  | returned caller result =>
    cases hsome
    exact ⟨caller, hent⟩

/-- A job is enqueued while the other thread sweeps. -/
def sweptEnqueue : List (Turn Party Op) :=
  .call .sweeper (.sweep 0 0 0) ::
  .call .guest (.enqueue 0 (EnqueueRequest.new "stt" [])) ::
  (List.replicate 8 [.step .sweeper, .step .guest]).flatten

/-- The two threads after it. -/
def served : Office Party :=
  (World.start Store.empty : Office Party).play kv sightings (Op.reporting Policy.default)
    Write.Undisturbed sweptEnqueue

theorem kept_served :
    Interleaved kv sightings (IsCall Policy.default) Write.Undisturbed Store.empty served ∧
      newIds served.history = [1] ∧ Kept served := by
  have hserved : Interleaved kv sightings (IsCall Policy.default) Write.Undisturbed Store.empty
      served := by
    apply Interleaved.play sweptEnqueue .start
    intro caller request _
    exact ⟨request, rfl⟩
  exact ⟨hserved, by decide, kept_of_undisturbed Policy.default served hserved⟩

def lapsedLease : List (Turn Party Op) :=
  .call .guest (.enqueue 0 (EnqueueRequest.new "stt" [])) :: List.replicate 8 (.step .guest) ++
  .call .guest (.take 0 "stt" "worker-1" none) :: List.replicate 12 (.step .guest) ++
  .call .sweeper (.sweep 100000 100000 100000) :: List.replicate 3 (.step .sweeper) ++
  .call .guest (.settle 99999 1 (some "worker-1") []) :: List.replicate 6 (.step .guest) ++
  List.replicate 20 (.step .sweeper)

/-- The two threads after it, every write carried out. -/
def revived : Office Party :=
  (World.start Store.empty : Office Party).play kv sightings (Op.reporting Policy.default)
    (fun _ _ _ => True) lapsedLease

/-- The sweep puts the record that it read over the settled one, and the job is ready again. -/
theorem settledJob_made_ready :
    ¬ ∀ (policy : Policy) (office : Office Party),
      Interleaved kv sightings (HostCall policy) (fun _ _ _ => True) Store.empty office →
        Kept office := by
  intro hclaim
  have hrevived : Interleaved kv sightings (HostCall Policy.default) (fun _ _ _ => True)
      Store.empty revived := by
    apply Interleaved.play lapsedLease .start
    intro caller request hmem
    simp only [lapsedLease, mem_cons, mem_append, mem_replicate,
      Turn.call.injEq, reduceCtorEq, and_false, or_false] at hmem
    rcases hmem with ((⟨rfl, rfl⟩ | ⟨rfl, rfl⟩) | ⟨rfl, rfl⟩) | ⟨rfl, rfl⟩
    all_goals
      refine ⟨_, ?_, rfl⟩
      exact trivial
  have hkept := hclaim Policy.default revived hrevived
  have hreport : Report.settled 1 (some "worker-1") ∈ reports revived.history := by decide
  obtain ⟨caller, hreturned⟩ := returned_of_mem_reports hreport
  have hready : ∃ job ∈ revived.state.jobs[1]?, job.state = .ready := by decide
  obtain ⟨job, hjob, hstate⟩ := hready
  have hdone := hkept.settled caller 1 (some "worker-1") hreturned job hjob
  rw [hstate] at hdone
  cases hdone

end WasmAgent.Queue
