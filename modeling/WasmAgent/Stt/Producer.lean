import WasmAgent.Mesh.Push
import WasmAgent.Queue.Freshness
import WasmAgent.Stt.Admission
import WasmAgent.Stt.Request

/-!
# The producing node

A note that arrives becomes a job of the queue, its audio in the payload or behind a handle; a
worker is given the job with the request it carries.
-/

namespace WasmAgent.Stt

open List Option Std WasmAgent.Core WasmAgent.Core.Program

def queueName : String := "stt.requests"

def liveBandMs : ℤ := 15 * 60 * 1000

structure SttPolicy where
  freshMs : Int64
  maxAttempts : UInt32
  fetchTtlMs : Int64
  inlineMax : ℕ
  deadlineMs : Option Int64

/-- `SttPolicy::default`. -/
def SttPolicy.default : SttPolicy where
  freshMs := 300000
  maxAttempts := 6
  fetchTtlMs := 120000
  inlineMax := inlineMaxBytes
  deadlineMs := none

/-- What the channel knows about one note when it arrives. -/
structure Arrival where
  audio : Queue.Bytes
  mime : Mime
  language : String
  account : String
  generation : UInt64
  chat : String
  msg : String
  sentAtMs : Int64
  declaredSeconds : Option UInt32

inductive EnqueueFailure where
  | stale (freshUntilMs : Int64)
  | request (error : RequestError)
  | audio (why : String)
  | queue (error : Queue.QueueError)
  deriving DecidableEq

structure Metrics where
  enqueued : ℕ
  staleDropped : ℕ

structure Site where
  store : Queue.Store
  audio : ExtTreeMap String Queue.Bytes
  metrics : Metrics

/-- How the audio store answers: why it refuses a blob, and whether it fails to delete one. -/
structure AudioAnswers where
  put : Option String
  delFails : Bool

/-- `i64::saturating_add`. -/
def saturatingAdd (left right : Int64) : Int64 := Int64.ofIntClamp (left.toInt + right.toInt)

def Site.del (site : Site) (answers : AudioAnswers) (handle : String) : Site :=
  if answers.delFails then site else { site with audio := site.audio.erase handle }

/-- Deletes the blob behind a handle, if there is one. -/
def Site.drop (site : Site) (answers : AudioAnswers) : AudioSource → Site
  | .inline _ _ => site
  | .fetch named => site.del answers named.handle

section Enqueue

variable (policy : SttPolicy) (nowMs : Int64) (arrival : Arrival) (handle : String)

/-- The priority of a note that has not been attempted. -/
def priority (sentAtMs : Int64) : UInt32 :=
  if (saturatingSub nowMs sentAtMs).toInt ≤ liveBandMs then 20 else 10

def freshUntil : Int64 := saturatingAdd arrival.sentAtMs policy.freshMs

def audioOf : AudioSource :=
  if arrival.audio.length ≤ policy.inlineMax then
    .inline arrival.audio arrival.mime
  else
    .fetch ⟨handle, saturatingAdd nowMs policy.fetchTtlMs, UInt64.ofNat arrival.audio.length,
      arrival.mime⟩

def requestOf : SttRequest where
  audio := audioOf policy nowMs arrival handle
  language := arrival.language
  freshUntilMs := freshUntil policy arrival
  chat := arrival.chat
  msg := arrival.msg
  account := arrival.account
  generation := arrival.generation
  declaredSeconds := arrival.declaredSeconds

def jobOf (serde : Serde) : Queue.EnqueueRequest :=
  let request := requestOf policy nowMs arrival handle
  -- The difference wraps: a clock far below zero leaves one millisecond.
  let left := freshUntil policy arrival - nowMs
  { Queue.EnqueueRequest.new queueName (request.encode serde) with
    priority := priority nowMs arrival.sentAtMs
    freshForMs := some (max left.toInt 1)
    maxAttempts := some policy.maxAttempts
    dedupeKey := some request.dedupeKey
    deadlineInMs := policy.deadlineMs.map Int64.toInt }

/-- Writes the audio, where it is too large for the payload. -/
def storeAudio (answers : AudioAnswers) (site : Site) : Except EnqueueFailure Site :=
  if arrival.audio.length ≤ policy.inlineMax then .ok site
  else if handle.isEmpty then .error (.audio "missing_handle")
  else
    match answers.put with
    | some why => .error (.audio why)
    | none => .ok { site with audio := site.audio.insert handle arrival.audio }

/-- Asks the queue, its clock at `queueNow`; a blob that no job names does not stay. -/
def submit (serde : Serde) (limits : Queue.Policy) (queueNow : Queue.Millis)
    (answers : AudioAnswers) (site : Site) :
    Except EnqueueFailure Queue.EnqueueOutcome × Site :=
  let asked := Queue.enqueue limits queueNow (jobOf policy nowMs arrival handle serde)
  let after := { site with store := asked.final Queue.kv site.store }
  match asked.result Queue.kv site.store with
  | .ok outcome =>
      if outcome.dedupeHit then
        (.ok outcome, after.drop answers (audioOf policy nowMs arrival handle))
      else
        (.ok outcome, { after with
          metrics := { after.metrics with enqueued := after.metrics.enqueued + 1 } })
  | .error error =>
      (.error (.queue error), after.drop answers (audioOf policy nowMs arrival handle))

def enqueue (serde : Serde) (limits : Queue.Policy) (queueNow : Queue.Millis)
    (answers : AudioAnswers) (site : Site) :
    Except EnqueueFailure Queue.EnqueueOutcome × Site :=
  if arrival.audio.isEmpty || maxAudioBytes < arrival.audio.length then
    (.error (.request (.tooLarge "audio")), site)
  else if freshUntil policy arrival ≤ nowMs then
    (.error (.stale (freshUntil policy arrival)), { site with
      metrics := { site.metrics with staleDropped := site.metrics.staleDropped + 1 } })
  else
    match storeAudio policy arrival handle answers site with
    | .error failure => (.error failure, site)
    | .ok stored => submit policy nowMs arrival handle serde limits queueNow answers stored

end Enqueue

section Replies

/-- What a `take` found. -/
inductive TakeReply where
  | taken (job : UInt64) (leaseUntilMs : Int64) (attempts : UInt32) (request : SttRequest)
  | empty
  | busy (leased : UInt32)
  deriving DecidableEq

/-- The word a refusal of a payload begins with. -/
def RequestError.reason : RequestError → String
  | malformed what => "malformed:" ++ what
  | field name => "invalid:" ++ name
  | tooLarge name => "too-large:" ++ name
  | unsupportedVersion version => "version:" ++ toString version.toNat

def orMalformed {Value : Type} (value : Option Value) (what : String) : Except Refusal Value :=
  match value with
  | some found => .ok found
  | none => .error (.malformed what)

def TakeReply.toJson (serde : Serde) : TakeReply → Json
  | taken job leaseUntilMs attempts request =>
      let value := match serde.parse (request.encode serde) with
        | .ok (.object fields) =>
            .object (Mesh.insertField "attempts" (ofUInt64 attempts.toUInt64)
              (Mesh.insertField "lease_until_ms" (ofInt64 leaseUntilMs)
                (Mesh.insertField "job" (ofUInt64 job) fields)))
        | .ok value => value
        | .error _ => .null
      .object [("taken", value)]
  | empty => .object [("state", .string "empty")]
  | busy leased => .object [("leased", ofUInt64 leased.toUInt64), ("state", .string "busy")]

def copyWithout (names : List String) (fields : List (String × Json)) : List (String × Json) :=
  fields.filter fun field => field.1 ∉ names

def readTaken (serde : Serde) (fields : List (String × Json)) : Except Refusal SttRequest :=
  match SttRequest.decode serde
      (utf8 (serde.print (.object (copyWithout ["job", "lease_until_ms", "attempts"] fields)))) with
  | .ok request => .ok request
  | .error error => .error (.malformed
      (if error.reason.startsWith "version" then "request_version" else "request"))

def TakeReply.fromJson (serde : Serde) (value : Json) : Except Refusal TakeReply := do
  let _ ← orMalformed value.asObject "not_an_object"
  let state := (value.field? "state").bind Json.asStr
  if state = some "empty" then
    return .empty
  else if state = some "busy" then
    return .busy (((value.field? "leased").bind asU64).getD 0).toUInt32
  else
    let fields ← orMalformed ((value.field? "taken").bind Json.asObject) "take_reply"
    let found := Json.object fields
    let job ← orMalformed ((found.field? "job").bind asU64) "job"
    let leaseUntilMs ← orMalformed ((found.field? "lease_until_ms").bind asI64) "lease_until_ms"
    let attempts := (((found.field? "attempts").bind asU64).getD 0).toUInt32
    let request ← readTaken serde fields
    return .taken job leaseUntilMs attempts request

end Replies

section Agreement

theorem filter_insertField {keep : String → Bool} {name : String} (hname : keep name = false)
    (value : Json) (fields : List (String × Json)) :
    (Mesh.insertField name value fields).filter (fun field => keep field.1) =
      fields.filter fun field => keep field.1 := by
  have hskips : ∀ (other : Json) (rest : List (String × Json)),
      ((name, other) :: rest).filter (fun field => keep field.1) =
        rest.filter fun field => keep field.1 := by
    intro other rest
    apply filter_cons_of_neg
    rw [hname]
    exact Bool.false_ne_true
  induction fields with
  | nil => exact hskips value []
  | cons field fields ih =>
    obtain ⟨other, old⟩ := field
    rw [Mesh.insertField]
    by_cases hsame : name = other
    · rw [if_pos hsame, hskips, ← hsame, hskips]
    rw [if_neg hsame]
    by_cases hlt : name < other
    · rw [if_pos hlt, hskips]
    · rw [if_neg hlt, filter_cons, filter_cons, ih]

variable {serde : Serde} {request : SttRequest} {fields : List (String × Json)}

theorem copyWithout_toJson (hfiel : request.toJson = .object fields) :
    copyWithout ["job", "lease_until_ms", "attempts"] fields = fields := by
  rw [SttRequest.toJson, SttRequest.declaredFields] at hfiel
  cases hfiel
  cases request.declaredSeconds with
  | none => rfl
  | some seconds => rfl

theorem copyWithout_taken (job lease attempts : Json) :
    copyWithout ["job", "lease_until_ms", "attempts"]
        (Mesh.insertField "attempts" attempts (Mesh.insertField "lease_until_ms" lease
          (Mesh.insertField "job" job fields))) =
      copyWithout ["job", "lease_until_ms", "attempts"] fields := by
  have hskip : ∀ name ∈ ["job", "lease_until_ms", "attempts"], ∀ value rest,
      copyWithout ["job", "lease_until_ms", "attempts"] (Mesh.insertField name value rest) =
        copyWithout ["job", "lease_until_ms", "attempts"] rest := by
    intro name hname value rest
    apply @filter_insertField fun key => decide (key ∉ ["job", "lease_until_ms", "attempts"])
    exact decide_eq_false (not_not.mpr hname)
  rw [hskip _ (by decide), hskip _ (by decide), hskip _ (by decide)]

theorem fromJson_toJson (hserde : Recovers serde request.toJson) (hfits : request.Fits)
    (job : UInt64) (leaseUntilMs : Int64) (attempts : UInt32) :
    TakeReply.fromJson serde ((TakeReply.taken job leaseUntilMs attempts request).toJson serde) =
      .ok (.taken job leaseUntilMs attempts request) := by
  obtain ⟨fields, hfiel⟩ : ∃ fields, request.toJson = .object fields := ⟨_, rfl⟩
  have hpar : serde.parse (request.encode serde) = .ok (.object fields) := by
    rw [← hfiel]
    exact hserde
  have hread : ∀ lease count, readTaken serde (Mesh.insertField "attempts" count
      (Mesh.insertField "lease_until_ms" lease (Mesh.insertField "job" (ofUInt64 job) fields))) =
        .ok request := by
    intro lease count
    rw [readTaken, copyWithout_taken, copyWithout_toJson hfiel, ← hfiel]
    have hdec := (decode_encode serde request hserde).reads hfits
    rw [SttRequest.encode] at hdec
    rw [hdec]
  rw [TakeReply.toJson, hpar]
  dsimp only
  rw [TakeReply.fromJson]
  have hlook : ∀ name value rest, (Json.object (Mesh.insertField name value rest)).field? name =
      some value := by
    intro name value rest
    rw [Mesh.field?_insertField, if_pos rfl]
  generalize htkn : Mesh.insertField "attempts" (ofUInt64 attempts.toUInt64)
    (Mesh.insertField "lease_until_ms" (ofInt64 leaseUntilMs)
      (Mesh.insertField "job" (ofUInt64 job) fields)) = taken
  have hjob : (Json.object taken).field? "job" = some (ofUInt64 job) := by
    rw [← htkn, Mesh.field?_insertField, if_neg (by decide), Mesh.field?_insertField,
      if_neg (by decide), hlook]
  have hlse : (Json.object taken).field? "lease_until_ms" = some (ofInt64 leaseUntilMs) := by
    rw [← htkn, Mesh.field?_insertField, if_neg (by decide), hlook]
  have hatts : (Json.object taken).field? "attempts" = some (ofUInt64 attempts.toUInt64) := by
    rw [← htkn, hlook]
  have hreq : readTaken serde taken = .ok request := by
    rw [← htkn, hread]
  change (do
    let job ← orMalformed (((Json.object taken).field? "job").bind asU64) "job"
    let leaseUntilMs ← orMalformed (((Json.object taken).field? "lease_until_ms").bind asI64)
      "lease_until_ms"
    let request ← readTaken serde taken
    return TakeReply.taken job leaseUntilMs
      ((((Json.object taken).field? "attempts").bind asU64).getD 0).toUInt32 request) = _
  rw [hjob, hlse, hatts, hreq, bind_some, bind_some, bind_some,
    asU64_ofUInt64, asI64_ofInt64, asU64_ofUInt64, getD_some, UInt32.toUInt32_toUInt64]
  rfl

variable {policy : SttPolicy} {nowMs : Int64} {arrival : Arrival} {handle : String}
variable {limits : Queue.Policy} {queueNow : Queue.Millis} {answers : AudioAnswers} {site : Site}

theorem storeAudio_ok {stored : Site} (hsto : storeAudio policy arrival handle answers site = .ok stored) :
    (policy.inlineMax < arrival.audio.length → handle.isEmpty = false) ∧
      stored.store = site.store := by
  rw [storeAudio] at hsto
  split at hsto
  · next hinl =>
    cases hsto
    exact ⟨fun hlarge => absurd hinl (Nat.not_le.mpr hlarge), rfl⟩
  split at hsto
  · cases hsto
  next hnmd =>
    split at hsto
    · cases hsto
    · cases hsto
      exact ⟨fun _ => Bool.eq_false_iff.mpr hnmd, rfl⟩

theorem submit_new {id : Queue.JobId}
    (hnew : (submit policy nowMs arrival handle serde limits queueNow answers site).1 =
      .ok ⟨id, false⟩) :
    (submit policy nowMs arrival handle serde limits queueNow answers site).2.store.jobs[id]? =
      some ((jobOf policy nowMs arrival handle serde).job limits queueNow id) := by
  have hmakes := (@Queue.enqueue_makes limits site.store queueNow
    (jobOf policy nowMs arrival handle serde)).outcome id
  rw [submit] at hnew ⊢
  dsimp only at hnew ⊢
  cases hres : (Queue.enqueue limits queueNow
      (jobOf policy nowMs arrival handle serde)).result Queue.kv site.store with
  | error error =>
    rw [hres] at hnew
    cases hnew
  | ok outcome =>
    rw [hres] at hnew hmakes
    dsimp only at hnew ⊢
    split at hnew
    · next hhit =>
      have hsame : outcome = ⟨id, false⟩ := Except.ok.inj hnew
      rw [hsame] at hhit
      cases hhit
    rename_i hfre
    have hsame : outcome = ⟨id, false⟩ := Except.ok.inj hnew
    rw [if_neg hfre]
    exact hmakes.2 (congrArg Except.ok hsame)

theorem enqueue_new {id : Queue.JobId}
    (hnew : (enqueue policy nowMs arrival handle serde limits queueNow answers site).1 =
      .ok ⟨id, false⟩) :
    arrival.audio ≠ [] ∧ arrival.audio.length ≤ maxAudioBytes ∧
      (policy.inlineMax < arrival.audio.length → handle.isEmpty = false) ∧
      (enqueue policy nowMs arrival handle serde limits queueNow answers site).2.store.jobs[id]? =
        some ((jobOf policy nowMs arrival handle serde).job limits queueNow id) := by
  rw [enqueue] at hnew ⊢
  split at hnew
  · cases hnew
  next haudio =>
    rw [if_neg haudio]
    rw [Bool.or_eq_true, not_or, List.isEmpty_iff, decide_eq_true_eq] at haudio
    split at hnew
    · cases hnew
    next hfre =>
      rw [if_neg hfre]
      split at hnew
      · cases hnew
      next stored hsto =>
        exact ⟨haudio.1, Nat.not_lt.mp haudio.2, (storeAudio_ok hsto).1, submit_new hnew⟩

/-- The note's fields are within the bounds of the reader. -/
structure Carried (policy : SttPolicy) (arrival : Arrival) (handle : String) : Prop where
  language : Bounded arrival.language maxLanguageChars
  chat : Bounded arrival.chat maxIdChars
  msg : Bounded arrival.msg maxIdChars
  account : Bounded arrival.account maxIdChars
  declaredSeconds : ∀ seconds ∈ arrival.declaredSeconds, seconds.toNat ≤ 24 * 3600
  inline : arrival.audio.length ≤ policy.inlineMax → arrival.audio.length ≤ inlineMaxBytes
  fetch : policy.inlineMax < arrival.audio.length → handle.length ≤ maxIdChars

theorem fits_requestOf (haudio : arrival.audio ≠ []) (hbound : arrival.audio.length ≤ maxAudioBytes)
    (hhan : policy.inlineMax < arrival.audio.length → handle.isEmpty = false) :
    (requestOf policy nowMs arrival handle).Fits ↔ Carried policy arrival handle := by
  have hsrc : (audioOf policy nowMs arrival handle).Fits ↔
      (arrival.audio.length ≤ policy.inlineMax → arrival.audio.length ≤ inlineMaxBytes) ∧
        (policy.inlineMax < arrival.audio.length → handle.length ≤ maxIdChars) := by
    have hwidth : maxAudioBytes < 2 ^ 64 := by decide
    rw [audioOf]
    split
    · next hinl =>
      constructor
      · intro hfits
        exact ⟨fun _ => hfits.2, fun hlarge => absurd hinl (Nat.not_le.mpr hlarge)⟩
      · intro hcard
        exact ⟨haudio, hcard.1 hinl⟩
    rename_i hlarge
    have hlarge := Nat.not_le.mp hlarge
    have hsize : (UInt64.ofNat arrival.audio.length).toNat = arrival.audio.length :=
      UInt64.toNat_ofNat_of_lt' (hbound.trans_lt hwidth)
    constructor
    · intro hfits
      exact ⟨fun hinl => absurd hinl (Nat.not_le.mpr hlarge), fun _ => hfits.1.2⟩
    intro hcard
    refine ⟨⟨hhan hlarge, hcard.2 hlarge⟩, ?_, ?_⟩
    · intro hzero
      apply haudio
      apply length_eq_zero_iff.mp
      rw [← hsize]
      exact congrArg UInt64.toNat hzero
    · exact hsize.trans_le hbound
  constructor
  · intro hfits
    have haudioFits := hsrc.mp hfits.audio
    exact { hfits with inline := haudioFits.1, fetch := haudioFits.2 }
  · intro hcard
    exact { hcard with audio := hsrc.mpr ⟨hcard.inline, hcard.fetch⟩ }

end Agreement

def Delivered (serde : Serde) (store : Queue.Store) (id : Queue.JobId) (request : SttRequest) :
    Prop :=
  ∃ job, store.jobs[id]? = some job ∧ SttRequest.decode serde job.payload = .ok request ∧
    ∀ (name : UInt64) (leaseUntilMs : Int64) (attempts : UInt32),
      TakeReply.fromJson serde ((TakeReply.taken name leaseUntilMs attempts request).toJson serde) =
        .ok (.taken name leaseUntilMs attempts request)

/-- A new job can be read by a worker exactly where the note's fields are within the bounds of the
reader. -/
theorem payload_agreement (serde : Serde) (policy : SttPolicy) (nowMs : Int64) (arrival : Arrival)
    (handle : String) (limits : Queue.Policy) (queueNow : Queue.Millis) (answers : AudioAnswers)
    (site : Site) (id : Queue.JobId)
    (hserde : Recovers serde (requestOf policy nowMs arrival handle).toJson)
    (hnew : (enqueue policy nowMs arrival handle serde limits queueNow answers site).1 =
      .ok ⟨id, false⟩) :
    (∀ bytes, Base64.decode (Base64.encode bytes) = some bytes) ∧
      (Delivered serde
          (enqueue policy nowMs arrival handle serde limits queueNow answers site).2.store id
          (requestOf policy nowMs arrival handle) ↔
        Carried policy arrival handle) := by
  obtain ⟨haudio, hbound, hhandle, hjob⟩ := enqueue_new hnew
  refine ⟨Base64.decode_encode, ?_⟩
  have hfits := @fits_requestOf policy nowMs arrival handle haudio hbound hhandle
  rw [← hfits]
  have hdecode := decode_encode serde (requestOf policy nowMs arrival handle) hserde
  constructor
  · rintro ⟨job, hstored, hread, -⟩
    apply Classical.byContradiction
    intro hunfit
    obtain ⟨error, herror⟩ := hdecode.refuses hunfit
    rw [hjob] at hstored
    cases hstored
    exact absurd (hread.symm.trans herror) (by nofun)
  · intro hfits
    exact ⟨_, hjob, hdecode.reads hfits, fromJson_toJson hserde hfits⟩

section Notes

def noteIn (chat : String) : Arrival where
  audio := [7]
  mime := .ogg
  language := "pt"
  account := "a"
  generation := 1
  chat := chat
  msg := "m"
  sentAtMs := 0
  declaredSeconds := some 2

def textsOf (values : List Json) : Serde where
  parse bytes :=
    match values.find? fun value => utf8 (String.ofList (value.text fun _ => [])) = bytes with
    | some value => .ok value
    | none => .error "expected value"
  print value := String.ofList (value.text fun _ => [])

theorem recovers_textsOf (value : Json) : Recovers (textsOf [value]) value := by
  rw [Recovers, textsOf]
  dsimp only
  rw [find?_cons_of_pos]
  exact decide_eq_true rfl

def arrives (chat : String) : Except EnqueueFailure Queue.EnqueueOutcome × Site :=
  enqueue .default 0 (noteIn chat) "h"
    (textsOf [(requestOf .default 0 (noteIn chat) "h").toJson]) .default 0 ⟨none, false⟩
    ⟨.empty, ∅, ⟨0, 0⟩⟩

theorem arrives_new : (arrives "c").1 = .ok ⟨1, false⟩ := by
  decide +kernel

theorem payload_agreement_note :
    Delivered (textsOf [(requestOf .default 0 (noteIn "c") "h").toJson]) (arrives "c").2.store 1
        (requestOf .default 0 (noteIn "c") "h") ↔
      Carried .default (noteIn "c") "h" := by
  have hagreement := payload_agreement (textsOf [(requestOf .default 0 (noteIn "c") "h").toJson])
    .default 0 (noteIn "c") "h" .default 0 ⟨none, false⟩ ⟨.empty, ∅, ⟨0, 0⟩⟩ 1 (recovers_textsOf _)
    arrives_new
  rw [arrives]
  exact hagreement.2

/-- A note without a chat is queued, and no worker can read it. -/
theorem note_without_chat_is_queued :
    (arrives "").1 = .ok ⟨1, false⟩ ∧
      ((arrives "").2.store.jobs[1]?.map fun job => SttRequest.decode
        (textsOf [(requestOf .default 0 (noteIn "") "h").toJson]) job.payload) =
          some (.error (.field "chat")) := by
  decide +kernel

end Notes

end WasmAgent.Stt
