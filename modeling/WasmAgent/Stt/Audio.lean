import WasmAgent.Queue.Filing
import WasmAgent.Stt.Producer

/-!
# The audio of a job

A blob is written before its job, served to the worker that holds the lease, and deleted when the
job is settled, or by the sweeper.
-/

namespace WasmAgent.Stt

open List Std.ExtTreeMap Std WasmAgent.Core WasmAgent.Core.Program

def named? (serde : Serde) (job : Queue.Job) : Option FetchHandle :=
  match SttRequest.decode serde job.payload with
  | .ok request =>
      match request.audio with
      | .inline _ _ => none
      | .fetch named => some named
  | .error _ => none

section Calls

variable (serde : Serde) (nowMs : Int64)

def serveAudio (job : Queue.JobId) (worker handle : String) (site : Site) :
    Except Refusal Queue.Bytes :=
  match site.store.jobs[job]? with
  | none => .error .notFound
  | some record =>
      if record.state ≠ .leased ∨ record.leaseWorker ≠ some worker then .error .leaseLost
      else if record.freshUntil.any (· ≤ nowMs.toInt) then .error .staleJob
      else
        match SttRequest.decode serde record.payload with
        | .error _ => .error (.malformed "payload")
        | .ok request =>
            match request.audio with
            | .inline _ _ => .error .notFound
            | .fetch named =>
                if named.handle ≠ handle then .error .notFound
                else if named.isExpired nowMs then .error .staleJob
                else
                  match site.audio[handle]? with
                  | some bytes => .ok bytes
                  | none => .error .notFound

def discardAudio (answers : AudioAnswers) (job : Queue.JobId) (handle : String) (site : Site) :
    Bool × Site :=
  match site.store.jobs[job]? with
  | none => (false, site)
  | some record =>
      match named? serde record with
      | none => (false, site)
      | some named =>
          if named.handle = handle then (!answers.delFails, site.del answers handle)
          else (false, site)

def listed (limit : ℕ) (store : Queue.Store) : List Queue.Job :=
  (store.allJobs.filter fun job => job.queue = queueName).take limit

/-- Nobody will decode the audio any more. -/
def worthless (job : Queue.Job) (named : FetchHandle) : Bool :=
  job.state.isTerminal || named.isExpired nowMs ||
    job.freshUntil.any (· ≤ nowMs.toInt) && job.state ≠ .leased

/-- The body of the loop of `purge_audio`. -/
def purgeJob (answers : AudioAnswers) (progress : ℕ × Site) (job : Queue.Job) : ℕ × Site :=
  match named? serde job with
  | none => progress
  | some named =>
      if worthless nowMs job named then
        (if answers.delFails then progress.1 else progress.1 + 1,
          progress.2.del answers named.handle)
      else progress

def purgeAudio (answers : AudioAnswers) (site : Site) : ℕ × Site :=
  (listed 512 site.store).foldl (purgeJob serde nowMs answers) (0, site)

end Calls

inductive Step where
  | enqueue (arrival : Arrival) (handle : String) (answers : AudioAnswers)
  | take (worker : String) (leaseMs : Option Queue.Millis)
  | fail (job : Queue.JobId) (worker : Option String) (reason : String)
  | done (job : Queue.JobId) (worker : Option String) (result : Queue.Bytes)
  | serveAudio (job : Queue.JobId) (worker handle : String)
  | discardAudio (job : Queue.JobId) (handle : String) (answers : AudioAnswers)
  | purgeAudio (answers : AudioAnswers)

structure Node where
  serde : Serde
  limits : Queue.Policy
  policy : SttPolicy

structure Moment where
  nowMs : Int64
  step : Step

def Site.operate (site : Site) {Result : Type} (operation : Queue.Operation Result) : Site :=
  { site with store := operation.final Queue.kv site.store }

def Node.step (node : Node) (site : Site) (moment : Moment) : Site :=
  match moment.step with
  | .enqueue arrival handle answers =>
      (Stt.enqueue node.policy moment.nowMs arrival handle node.serde node.limits moment.nowMs.toInt
        answers site).2
  | .take worker leaseMs =>
      site.operate (Queue.take node.limits moment.nowMs.toInt queueName worker leaseMs)
  | .fail job worker reason =>
      site.operate (Queue.failInner node.limits moment.nowMs.toInt job worker reason)
  | .done job worker result =>
      site.operate (Queue.settle node.limits moment.nowMs.toInt job worker result)
  | .serveAudio _ _ _ => site
  | .discardAudio job handle answers => (Stt.discardAudio node.serde answers job handle site).2
  | .purgeAudio answers => (Stt.purgeAudio node.serde moment.nowMs answers site).2

/-- A node without jobs and blobs. -/
def Site.empty : Site := ⟨.empty, ∅, ⟨0, 0⟩⟩

def Node.run (node : Node) (moments : List Moment) : Site := moments.foldl node.step Site.empty

def Moment.handle? (moment : Moment) : Option String :=
  match moment.step with
  | .enqueue _ handle _ => some handle
  | _ => none

/-- The clock does not go back, no handle is given twice, and the requests can be read back. -/
structure Orderly (node : Node) (moments : List Moment) : Prop where
  forward : moments.Pairwise fun first second => first.nowMs ≤ second.nowMs
  distinct : (moments.filterMap Moment.handle?).Nodup
  recovers : ∀ moment ∈ moments, ∀ arrival handle answers,
    moment.step = .enqueue arrival handle answers →
      Recovers node.serde (requestOf node.policy moment.nowMs arrival handle).toJson

variable {job : Queue.Job} {named : FetchHandle}

section Blobs

variable {serde : Serde} {nowMs : Int64} {answers : AudioAnswers} {site : Site} {blob : String}

theorem audio_del (handle : String) : (site.del answers handle).audio[blob]? =
    if answers.delFails = false ∧ handle = blob then none else site.audio[blob]? := by
  rw [Site.del]
  cases answers.delFails with
  | true => rfl
  | false =>
    change (site.audio.erase handle)[blob]? = _
    rw [getElem?_erase]
    simp

theorem store_del (handle : String) : (site.del answers handle).store = site.store := by
  rw [Site.del]
  split
  · rfl
  · rfl

variable (progress : ℕ × Site)

theorem purgeJob_audio (job : Queue.Job) :
    (purgeJob serde nowMs answers progress job).2.audio[blob]? =
      if ∃ named, named? serde job = some named ∧ worthless nowMs job named = true ∧
          answers.delFails = false ∧ named.handle = blob then none
      else progress.2.audio[blob]? := by
  rw [purgeJob]
  cases hnmd : named? serde job with
  | none =>
    dsimp only
    rw [if_neg]
    rintro ⟨named, hsome, -⟩
    cases hsome
  | some named =>
    dsimp only
    split
    · next hwor =>
      rw [audio_del]
      apply if_congr _ rfl rfl
      constructor
      · rintro ⟨hfls, hblob⟩
        exact ⟨named, rfl, hwor, hfls, hblob⟩
      · rintro ⟨other, hoth, -, hfls, hblob⟩
        cases hoth
        exact ⟨hfls, hblob⟩
    rename_i hworth
    rw [if_neg]
    rintro ⟨other, hoth, hwor, -⟩
    cases hoth
    exact hworth hwor

variable {jobs : List Queue.Job}

theorem foldl_purgeJob_kept
    (hjobs : ∀ job ∈ jobs, ∀ named, named? serde job = some named → named.handle = blob →
      worthless nowMs job named = false) :
    (jobs.foldl (purgeJob serde nowMs answers) progress).2.audio[blob]? =
      progress.2.audio[blob]? := by
  induction jobs generalizing progress with
  | nil => rfl
  | cons job jobs ih =>
    rw [foldl_cons, ih _ fun other hoth => hjobs other (mem_cons_of_mem job hoth),
      purgeJob_audio, if_neg]
    rintro ⟨named, hnmd, hwor, -, hblob⟩
    rw [hjobs job mem_cons_self named hnmd hblob] at hwor
    cases hwor

theorem foldl_purgeJob_none {progress : ℕ × Site} (hnone : progress.2.audio[blob]? = none) :
    (jobs.foldl (purgeJob serde nowMs answers) progress).2.audio[blob]? = none := by
  induction jobs generalizing progress with
  | nil => exact hnone
  | cons job jobs ih =>
    apply ih
    rw [purgeJob_audio, hnone, ite_self]

theorem foldl_purgeJob_dropped (hjob : job ∈ jobs) (hnmd : named? serde job = some named)
    (hwor : worthless nowMs job named = true) (hfls : answers.delFails = false) :
    (jobs.foldl (purgeJob serde nowMs answers) progress).2.audio[named.handle]? = none := by
  obtain ⟨before, after, rfl⟩ := append_of_mem hjob
  rw [foldl_append, foldl_cons]
  apply foldl_purgeJob_none
  rw [purgeJob_audio, if_pos ⟨named, hnmd, hwor, hfls, rfl⟩]

theorem foldl_purgeJob_store (jobs : List Queue.Job) (progress : ℕ × Site) :
    (jobs.foldl (purgeJob serde nowMs answers) progress).2.store = progress.2.store := by
  induction jobs generalizing progress with
  | nil => rfl
  | cons job jobs ih =>
    rw [foldl_cons, ih, purgeJob]
    split
    · rfl
    split
    · exact store_del _
    · rfl

theorem store_discardAudio (job : Queue.JobId) (handle : String) :
    (discardAudio serde answers job handle site).2.store = site.store := by
  rw [discardAudio]
  split
  · rfl
  split
  · rfl
  split
  · exact store_del handle
  · rfl

theorem store_of_listed {limit : ℕ} {store : Queue.Store} (hjob : job ∈ listed limit store) :
    store.jobs[job.id]? = some job := by
  exact (Queue.mem_allJobs job store).mp (List.mem_of_mem_filter (mem_of_mem_take hjob))

end Blobs

variable {id : Queue.JobId}

section Records

variable {node : Node} {site : Site} {moment : Moment}

/-- A record after a step of a worker comes from a record with the same payload. -/
def Stems (nowMs : ℤ) (before : Queue.Store) (id : Queue.JobId) (job' : Queue.Job) : Prop :=
  ∃ job, before.jobs[id]? = some job ∧ job'.payload = job.payload ∧
    (job'.state = .expired → job = job' ∨ job'.freshUntil.any (· ≤ nowMs))

variable {before : Queue.Store}

theorem Stems.same {nowMs : ℤ} (hjob : before.jobs[id]? = some job) : Stems nowMs before id job :=
  ⟨job, hjob, rfl, fun _ => .inl rfl⟩

/-- Every record comes from an earlier one with the same payload. -/
def Descends (before current : Queue.Store) : Prop :=
  ∀ (id : Queue.JobId) (job' : Queue.Job), current.jobs[id]? = some job' →
    ∃ job, before.jobs[id]? = some job ∧ job'.payload = job.payload

variable {limits : Queue.Policy}

theorem descends_of_moves {Result : Type}
    {operation : Queue.Operation Result} {post : Result → Queue.Store → Prop}
    (hgoes : Goes Queue.kv (Queue.Move limits) post operation before) :
    Descends before (operation.final Queue.kv before) := by
  refine @Chain.invariant _ _ _ Queue.kv (Queue.Move limits) (Descends before) before _ ?_
    hgoes.chain ?_
  · intro current block hcur hmove id job' hjob'
    rw [← take_length (l := block)] at hjob'
    cases hmove.evolves block.length id job' hjob' with
    | inl hsame => exact hcur id job' hsame
    | inr hevol =>
      obtain ⟨middle, hmid, hevo⟩ := hevol
      obtain ⟨job, hjob, hsame⟩ := hcur id middle hmid
      exact ⟨job, hjob, hevo.same.payload.trans hsame⟩
  · intro id job hjob
    exact ⟨job, hjob, rfl⟩

theorem stems_of_moves {Result : Type} {nowMs : ℤ}
    {operation : Queue.Operation Result} {post : Result → Queue.Store → Prop}
    (hgoes : Goes Queue.kv (Queue.Move limits) post operation before)
    (honly : Queue.Only (Queue.Write.Plain nowMs) operation) {job' : Queue.Job}
    (hjob' : (operation.final Queue.kv before).jobs[id]? = some job') :
    Stems nowMs before id job' := by
  obtain ⟨job, hjob, hsame⟩ := descends_of_moves hgoes id job' hjob'
  refine ⟨job, hjob, hsame, ?_⟩
  intro hexp
  cases honly.final hjob' with
  | inl hbef =>
    rw [hjob] at hbef
    exact .inl (Option.some.inj hbef)
  | inr htim => exact .inr (htim hexp)

theorem named?_job {nowMs : Int64} {arrival : Arrival} {handle : String}
    (hserde : Recovers node.serde (requestOf node.policy nowMs arrival handle).toJson)
    {queueNow : Queue.Millis}
    (hnmd : named? node.serde ((jobOf node.policy nowMs arrival handle node.serde).job node.limits
      queueNow id) = some named) : named.handle = handle := by
  have hdec := decode_encode node.serde _ hserde
  change (match SttRequest.decode node.serde ((requestOf node.policy nowMs arrival handle).encode
    node.serde) with
    | .ok request => match request.audio with
      | .inline _ _ => none
      | .fetch named => some named
    | .error _ => none) = some named at hnmd
  by_cases hfits : (requestOf node.policy nowMs arrival handle).Fits
  · rw [hdec.reads hfits] at hnmd
    dsimp only at hnmd
    rw [requestOf, audioOf] at hnmd
    split at hnmd
    · cases hnmd
    rename_i hsrc
    split at hsrc
    · cases hsrc
    · cases hsrc
      cases hnmd
      rfl
  · obtain ⟨error, herr⟩ := hdec.refuses hfits
    rw [herr] at hnmd
    cases hnmd

section Enqueues

variable {nowMs : Int64} {arrival : Arrival} {handle : String} {answers : AudioAnswers}

theorem store_drop (audio : AudioSource) : (site.drop answers audio).store = site.store := by
  cases audio with
  | inline bytes mime => rfl
  | fetch named => exact store_del named.handle

variable {blob : String} (hblob : handle ≠ blob)
include hblob

theorem audio_drop :
    (site.drop answers (audioOf node.policy nowMs arrival handle)).audio[blob]? =
      site.audio[blob]? := by
  rw [audioOf]
  split
  · rfl
  · change (site.del answers handle).audio[blob]? = _
    rw [audio_del, if_neg]
    exact fun hdel => hblob hdel.2

omit hblob in
theorem submit_store (stored : Site) :
    (submit node.policy nowMs arrival handle node.serde node.limits nowMs.toInt answers
        stored).2.store =
      (Queue.enqueue node.limits nowMs.toInt
        (jobOf node.policy nowMs arrival handle node.serde)).final Queue.kv stored.store := by
  rw [submit]
  split
  · split
    · exact store_drop _
    · rfl
  · exact store_drop _

theorem submit_audio (stored : Site) :
    (submit node.policy nowMs arrival handle node.serde node.limits nowMs.toInt answers
        stored).2.audio[blob]? = stored.audio[blob]? := by
  rw [submit]
  split
  · split
    · exact audio_drop hblob
    · rfl
  · exact audio_drop hblob

theorem storeAudio_audio {stored : Site}
    (hsto : storeAudio node.policy arrival handle answers site = .ok stored) :
    stored.audio[blob]? = site.audio[blob]? := by
  rw [storeAudio] at hsto
  split at hsto
  · cases hsto
    rfl
  split at hsto
  · cases hsto
  split at hsto
  · cases hsto
  · cases hsto
    exact getElem?_insert_of_ne hblob

omit hblob in
theorem enqueue_store : (enqueue node.policy nowMs arrival handle node.serde node.limits
      nowMs.toInt answers site).2.store = site.store ∨
    (enqueue node.policy nowMs arrival handle node.serde node.limits nowMs.toInt answers
        site).2.store =
      (Queue.enqueue node.limits nowMs.toInt
        (jobOf node.policy nowMs arrival handle node.serde)).final Queue.kv site.store := by
  rw [enqueue]
  split
  · exact .inl rfl
  split
  · exact .inl rfl
  split
  · exact .inl rfl
  · next stored hsto =>
    right
    rw [submit_store, (storeAudio_ok hsto).2]

theorem enqueue_audio :
    (enqueue node.policy nowMs arrival handle node.serde node.limits nowMs.toInt answers
        site).2.audio[blob]? = site.audio[blob]? := by
  rw [enqueue]
  split
  · rfl
  split
  · rfl
  split
  · rfl
  · next stored hsto =>
    rw [submit_audio hblob, storeAudio_audio hblob hsto]

end Enqueues

def made? : Except Queue.QueueError Queue.EnqueueOutcome → Option Queue.JobId
  | .ok ⟨id, false⟩ => some id
  | _ => none

theorem step_records (node : Node) (site : Site) (moment : Moment)
    (hrec : ∀ arrival handle answers, moment.step = .enqueue arrival handle answers →
      Recovers node.serde (requestOf node.policy moment.nowMs arrival handle).toJson) :
    ∃ made : Option Queue.JobId, ∀ id job', (node.step site moment).store.jobs[id]? = some job' →
      Stems moment.nowMs.toInt site.store id job' ∨
        made = some id ∧ job'.state = .ready ∧
          ∀ named, named? node.serde job' = some named → moment.handle? = some named.handle := by
  obtain ⟨nowMs, step⟩ := moment
  cases step with
  | enqueue arrival handle answers =>
    have hserde := hrec arrival handle answers rfl
    have hmakes := (@Queue.enqueue_makes node.limits site.store nowMs.toInt
      (jobOf node.policy nowMs arrival handle node.serde)).outcome
    generalize (Queue.enqueue node.limits nowMs.toInt
      (jobOf node.policy nowMs arrival handle node.serde)).result Queue.kv site.store = asked at hmakes
    refine ⟨made? asked, ?_⟩
    intro id job' hjob'
    change (enqueue node.policy nowMs arrival handle node.serde node.limits nowMs.toInt answers
      site).2.store.jobs[id]? = some job' at hjob'
    cases enqueue_store with
    | inl hsame =>
      rw [hsame] at hjob'
      exact .inl (Stems.same hjob')
    | inr hstr =>
      rw [hstr] at hjob'
      by_cases hnew : asked = .ok ⟨id, false⟩
      · right
        rw [(hmakes id).2 hnew] at hjob'
        cases hjob'
        refine ⟨by rw [hnew, made?], rfl, ?_⟩
        intro named hnmd
        rw [named?_job hserde hnmd]
        rfl
      · left
        rw [(hmakes id).1 hnew] at hjob'
        exact Stems.same hjob'
  | take worker leaseMs =>
    refine ⟨none, fun id job' hjob' => .inl ?_⟩
    exact stems_of_moves (Queue.take_goes _ _ _ _) (Queue.take_records _ _ _).only hjob'
  | fail job worker reason =>
    refine ⟨none, fun id job' hjob' => .inl ?_⟩
    exact stems_of_moves (Queue.failInner_goes _ _ _ _) (Queue.failInner_records _ _ _).only hjob'
  | done job worker result =>
    refine ⟨none, fun id job' hjob' => .inl ?_⟩
    exact stems_of_moves (Queue.settle_goes _ _ _ _) (Queue.settle_records _ _ _).only hjob'
  | serveAudio job worker handle => exact ⟨none, fun id job' hjob' => .inl (Stems.same hjob')⟩
  | discardAudio job handle answers =>
    refine ⟨none, fun id job' hjob' => .inl (Stems.same ?_)⟩
    rw [← store_discardAudio job handle]
    exact hjob'
  | purgeAudio answers =>
    refine ⟨none, fun id job' hjob' => .inl (Stems.same ?_)⟩
    change (purgeAudio node.serde nowMs answers site).2.store.jobs[id]? = some job' at hjob'
    rw [purgeAudio, foldl_purgeJob_store] at hjob'
    exact hjob'

end Records

section Lifetime

variable {node : Node} {moments : List Moment} {moment : Moment}

def handles (moments : List Moment) : List String := moments.filterMap Moment.handle?

/-- What holds after any orderly run, at any later time. -/
structure Accounted (node : Node) (moments : List Moment) (clock : ℤ) : Prop where
  given : ∀ (id : Queue.JobId) (job : Queue.Job) (named : FetchHandle),
    (node.run moments).store.jobs[id]? = some job →
    named? node.serde job = some named → named.handle ∈ handles moments
  apart : ∀ (id other : Queue.JobId) (job job' : Queue.Job) (named named' : FetchHandle),
    (node.run moments).store.jobs[id]? = some job →
    (node.run moments).store.jobs[other]? = some job' → named? node.serde job = some named →
    named? node.serde job' = some named' → named.handle = named'.handle → id = other
  stale : ∀ (id : Queue.JobId) (job : Queue.Job), (node.run moments).store.jobs[id]? = some job → job.state = .expired →
    job.freshUntil.any (· ≤ clock)

theorem Node.run_append (node : Node) (moments : List Moment) (moment : Moment) :
    node.run (moments ++ [moment]) = node.step (node.run moments) moment :=
  foldl_append

theorem named?_of_payload {serde : Serde} {job' : Queue.Job}
    (hpay : job'.payload = job.payload) : named? serde job' = named? serde job := by
  rw [named?, named?, hpay]

theorem mem_handles_append {handle : String} (hgiven : handle ∈ handles moments) :
    handle ∈ handles (moments ++ [moment]) := by
  rw [handles, filterMap_append]
  exact mem_append_left _ hgiven

theorem Orderly.front (hord : Orderly node (moments ++ [moment])) : Orderly node moments where
  forward := (pairwise_append.mp hord.forward).1
  distinct := by
    have hdist := hord.distinct
    rw [filterMap_append] at hdist
    exact (nodup_append.mp hdist).1
  recovers other hoth := hord.recovers other (mem_append_left _ hoth)

theorem Orderly.new (hord : Orderly node (moments ++ [moment])) {handle : String}
    (hhan : moment.handle? = some handle) : handle ∉ handles moments := by
  have hdist := hord.distinct
  rw [filterMap_append] at hdist
  intro hgiven
  apply (nodup_append.mp hdist).2.2 handle hgiven handle _ rfl
  rw [filterMap_cons_some hhan]
  exact mem_cons_self

theorem Accounted.step (hacc : Accounted node moments moment.nowMs.toInt)
    (hord : Orderly node (moments ++ [moment])) :
    Accounted node (moments ++ [moment]) moment.nowMs.toInt := by
  have hlast : moment ∈ moments ++ [moment] := mem_append_right _ mem_cons_self
  obtain ⟨made, hrecs⟩ := step_records node (node.run moments) moment (hord.recovers moment hlast)
  rw [← Node.run_append] at hrecs
  have hgiven : ∀ id job' named, Stems moment.nowMs.toInt (node.run moments).store id job' →
      named? node.serde job' = some named → named.handle ∈ handles moments := by
    intro id job' named hstems hnmd
    obtain ⟨job, hjob, hpay, -⟩ := hstems
    rw [named?_of_payload hpay] at hnmd
    exact hacc.given id job named hjob hnmd
  constructor
  case given =>
    intro id job' named hjob' hnmd
    cases hrecs id job' hjob' with
    | inl hstems => exact mem_handles_append (hgiven id job' named hstems hnmd)
    | inr hnew =>
      rw [handles, filterMap_append, filterMap_cons_some (hnew.2.2 named hnmd)]
      exact mem_append_right _ mem_cons_self
  case apart =>
    intro id other job' job'' named named' hjob' hjob'' hnmd hnmd' hsame
    cases hrecs id job' hjob' with
    | inl hstems =>
      cases hrecs other job'' hjob'' with
      | inl hstems' =>
        obtain ⟨job, hjob, hpay, -⟩ := hstems
        obtain ⟨first, hfst, hpay', -⟩ := hstems'
        rw [named?_of_payload hpay] at hnmd
        rw [named?_of_payload hpay'] at hnmd'
        exact hacc.apart id other job first named named' hjob hfst hnmd hnmd' hsame
      | inr hnew =>
        have hbef := hgiven id job' named hstems hnmd
        rw [hsame] at hbef
        exact absurd hbef (hord.new (hnew.2.2 named' hnmd'))
    | inr hnew =>
      cases hrecs other job'' hjob'' with
      | inl hstems' =>
        have hbef := hgiven other job'' named' hstems' hnmd'
        rw [← hsame] at hbef
        exact absurd hbef (hord.new (hnew.2.2 named hnmd))
      | inr hnew' => exact Option.some.inj (hnew.1.symm.trans hnew'.1)
  case stale =>
    intro id job' hjob' hexp
    cases hrecs id job' hjob' with
    | inl hstems =>
      obtain ⟨job, hjob, -, htim⟩ := hstems
      cases htim hexp with
      | inl hsame =>
        rw [← hsame] at hexp ⊢
        exact hacc.stale id job hjob hexp
      | inr hpas => exact hpas
    | inr hnew =>
      rw [hnew.2.1] at hexp
      cases hexp

theorem Accounted.later {clock later : ℤ} (hacc : Accounted node moments clock)
    (hltr : clock ≤ later) : Accounted node moments later where
  given := hacc.given
  apart := hacc.apart
  stale id job hjob hexp := by
    have hpas := hacc.stale id job hjob hexp
    rw [Option.any_eq_true] at hpas ⊢
    obtain ⟨instant, hins, hle⟩ := hpas
    refine ⟨instant, hins, ?_⟩
    rw [decide_eq_true_eq] at hle ⊢
    exact hle.trans hltr

theorem accounted_run (hord : Orderly node moments) {clock : ℤ}
    (hclock : ∀ moment ∈ moments, moment.nowMs.toInt ≤ clock) : Accounted node moments clock := by
  induction moments using reverseRecOn generalizing clock with
  | nil =>
    have hnone : ∀ (id : Queue.JobId) (job : Queue.Job), (node.run []).store.jobs[id]? ≠ some job := by
      intro id job hjob
      have hemp : (node.run []).store.jobs[id]? = none := getElem?_empty
      cases hjob
    exact {
      given := fun id job named hjob _ => absurd hjob (hnone id job)
      apart := fun id other job job' named named' hjob _ _ _ _ => absurd hjob (hnone id job)
      stale := fun id job hjob _ => absurd hjob (hnone id job) }
  | append_singleton moments moment ih =>
    have hfwd := (pairwise_append.mp hord.forward).2.2
    have hbef := ih hord.front fun earlier hearl =>
      Int64.le_iff_toInt_le.mp (hfwd earlier hearl moment mem_cons_self)
    exact (hbef.step hord).later (hclock moment (mem_append_right _ mem_cons_self))

theorem blob_kept (hacc : Accounted node moments moment.nowMs.toInt)
    (hord : Orderly node (moments ++ [moment]))
    (hjob : (node.run moments).store.jobs[id]? = some job)
    (hnmd : named? node.serde job = some named) (hdone : job.state ≠ .done)
    (hdead : job.state ≠ .dead) (hfre : ¬ job.Stale moment.nowMs.toInt) :
    (node.step (node.run moments) moment).audio[named.handle]? =
        (node.run moments).audio[named.handle]? ∨
      (∃ answers, moment.step = .discardAudio id named.handle answers) ∨
      ∃ answers, moment.step = .purgeAudio answers ∧ named.isExpired moment.nowMs = true := by
  obtain ⟨nowMs, step⟩ := moment
  cases step with
  | enqueue arrival handle answers =>
    left
    apply enqueue_audio
    rintro rfl
    exact hord.new rfl (hacc.given id job named hjob hnmd)
  | take | fail | done | serveAudio => exact .inl rfl
  | discardAudio other handle answers =>
    change (discardAudio node.serde answers other handle (node.run moments)).2.audio[named.handle]? =
      _ ∨ _
    rw [discardAudio]
    cases hoth : (node.run moments).store.jobs[other]? with
    | none => exact .inl rfl
    | some record =>
      dsimp only
      cases hrec : named? node.serde record with
      | none => exact .inl rfl
      | some named' =>
        dsimp only
        by_cases hhan : named'.handle = handle
        · rw [if_pos hhan]
          by_cases hsame : named.handle = handle
          · right
            left
            have hid := hacc.apart id other job record named named' hjob hoth hnmd hrec
              (hsame.trans hhan.symm)
            exact ⟨answers, by rw [hid, hsame]⟩
          · left
            rw [audio_del, if_neg]
            exact fun hdel => hsame hdel.2.symm
        · rw [if_neg hhan]
          exact .inl rfl
  | purgeAudio answers =>
    cases hexp : named.isExpired nowMs with
    | true => exact .inr (.inr ⟨answers, rfl, rfl⟩)
    | false =>
      left
      change (purgeAudio node.serde nowMs answers (node.run moments)).2.audio[named.handle]? = _
      apply foldl_purgeJob_kept
      intro other hlst named' hnmd' hsame
      have hoth := store_of_listed hlst
      have hid := hacc.apart id other.id job other named named' hjob hoth hnmd hnmd' hsame.symm
      rw [hid, hoth] at hjob
      cases hjob
      rw [hnmd] at hnmd'
      cases hnmd'
      have hlive : job.state.isTerminal = false := by
        cases hst : job.state with
        | ready | leased => rfl
        | done => exact absurd hst hdone
        | dead => exact absurd hst hdead
        | expired => exact absurd (hacc.stale _ job hoth hst) hfre
      have hfre : job.freshUntil.any (· ≤ nowMs.toInt) = false := Bool.eq_false_iff.mpr hfre
      rw [worthless, hlive, hexp, hfre]
      rfl

end Lifetime

/-- A step of an orderly run deletes the blob of a job that is neither done nor dead, inside its
freshness, only as the `discard_audio` of this job or as a `purge_audio` after its handle has
expired; and a `purge_audio` deletes the blob of every finished job that it lists. -/
theorem audio_lifetime (node : Node) (moments : List Moment) (moment : Moment)
    (horderly : Orderly node (moments ++ [moment])) :
    (∀ (id : Queue.JobId) (job : Queue.Job) (named : FetchHandle),
      (node.run moments).store.jobs[id]? = some job → named? node.serde job = some named →
      job.state ≠ .done → job.state ≠ .dead → ¬ job.Stale moment.nowMs.toInt →
        (node.run (moments ++ [moment])).audio[named.handle]? =
            (node.run moments).audio[named.handle]? ∨
          (∃ answers, moment.step = .discardAudio id named.handle answers) ∨
          ∃ answers, moment.step = .purgeAudio answers ∧ named.isExpired moment.nowMs = true) ∧
      ∀ answers, moment.step = .purgeAudio answers → answers.delFails = false →
        ∀ job ∈ listed 512 (node.run (moments ++ [moment])).store, ∀ named,
          named? node.serde job = some named → job.state.isTerminal = true →
            (node.run (moments ++ [moment])).audio[named.handle]? = none := by
  have hforward := (pairwise_append.mp horderly.forward).2.2
  have haccounted : Accounted node moments moment.nowMs.toInt := by
    apply accounted_run horderly.front
    intro earlier hearlier
    exact Int64.le_iff_toInt_le.mp (hforward earlier hearlier moment mem_cons_self)
  rw [Node.run_append]
  constructor
  · intro id job named hjob hnamed hdone hdead hfresh
    exact blob_kept haccounted horderly hjob hnamed hdone hdead hfresh
  intro answers hstep hfails job hjob named hnamed hterminal
  obtain ⟨nowMs, step⟩ := moment
  cases hstep
  change job ∈ listed 512 (purgeAudio node.serde nowMs answers (node.run moments)).2.store at hjob
  change (purgeAudio node.serde nowMs answers (node.run moments)).2.audio[named.handle]? = none
  rw [purgeAudio, foldl_purgeJob_store] at hjob
  apply foldl_purgeJob_dropped _ hjob hnamed _ hfails
  rw [worthless, hterminal]
  rfl

section Retries

/-- A node that keeps all audio behind handles. -/
def cellar : Node where
  serde := textsOf [(requestOf { SttPolicy.default with inlineMax := 0 } 0 (noteIn "c") "h").toJson]
  limits := .default
  policy := { SttPolicy.default with inlineMax := 0 }

def note : Moment := ⟨0, .enqueue (noteIn "c") "h" ⟨none, false⟩⟩

def taken : Moment := ⟨1, .take "local:n1" none⟩

/-- The sweeper comes when the handle has just expired. -/
def swept : Moment := ⟨120000, .purgeAudio ⟨none, false⟩⟩

theorem orderly_note {moment : Moment} (hltr : 0 ≤ moment.nowMs) (hhan : moment.handle? = none)
    (hstep : ∀ arrival handle answers, moment.step ≠ .enqueue arrival handle answers) :
    Orderly cellar ([note] ++ [moment]) where
  forward := pairwise_pair.mpr hltr
  distinct := by
    rw [filterMap_append, filterMap_cons_none hhan]
    exact nodup_singleton "h"
  recovers other hoth arrival handle answers hoth' := by
    cases mem_pair.mp hoth with
    | inl hnote =>
      rw [hnote] at hoth'
      cases hoth'
      rw [hnote]
      simp only [note, cellar]
      exact recovers_textsOf _
    | inr hmom =>
      rw [hmom] at hoth'
      exact absurd hoth' (hstep arrival handle answers)

theorem note_queued :
    ((cellar.run [note]).store.jobs[1]?.map fun job =>
      (named? cellar.serde job, job.state, job.freshUntil)) =
        some (some ⟨"h", 120000, 1, .ogg⟩, .ready, some 300000) := by
  decide +kernel

theorem audio_lifetime_taken :
    (cellar.run ([note] ++ [taken])).audio["h"]? = (cellar.run [note]).audio["h"]? ∨
      (∃ answers, taken.step = .discardAudio 1 "h" answers) ∨
      ∃ answers, taken.step = .purgeAudio answers ∧
        FetchHandle.isExpired ⟨"h", 120000, 1, .ogg⟩ taken.nowMs = true := by
  obtain ⟨job, hjob, hfacts⟩ := Option.map_eq_some_iff.mp note_queued
  obtain ⟨hnamed, hrest⟩ := Prod.mk.inj hfacts
  obtain ⟨hstate, hfresh⟩ := Prod.mk.inj hrest
  apply (audio_lifetime cellar [note] taken
    (orderly_note (by decide +kernel) rfl (by nofun))).1 1 job ⟨"h", 120000, 1, .ogg⟩ hjob hnamed
  · rw [hstate]
    decide
  · rw [hstate]
    decide
  · rw [Queue.Job.Stale, hfresh]
    decide

/-- The audio of a job that is fresh for three more minutes is gone when its handle expires. -/
theorem fresh_audio_is_purged :
    ((cellar.run [note]).store.jobs[1]?.map fun job =>
      (named? cellar.serde job, job.state, job.freshUntil)) =
        some (some ⟨"h", 120000, 1, .ogg⟩, .ready, some 300000) ∧
      (cellar.run [note]).audio["h"]? = some [7] ∧
      (cellar.run [note, swept]).audio["h"]? = none := by
  decide +kernel

end Retries

end WasmAgent.Stt
