import WasmAgent.Stt.Request

/-!
# One decode

From a leased job to its settlement.  The recognizer is not interruptible: after a failed call its
further segments and its result are thrown away.
-/

namespace WasmAgent.Stt

open List

structure Segment where
  startMs : UInt64
  endMs : UInt64
  text : String

def Segment.hasText (segment : Segment) : Bool := !(Queue.trim segment.text.toList).isEmpty

structure Transcript where
  text : String
  language : String
  segments : UInt32
  elapsedMs : UInt64

/-- An error by what is read of it. -/
structure RecognizerError where
  reason : String
  retryable : Bool

/-- A refusal is its word on the wire. -/
inductive WireError where
  | unreachable (reason : String)
  | refused (refusal : String)

/-- A call of the sink and what it answered. -/
inductive SinkCall where
  | heartbeat (answer : Except WireError Int64)
  | progress (segment : Segment) (answer : Except WireError Unit)
  | done (transcript : Transcript) (answer : Except WireError Unit)
  | fail (reason : String) (answer : Except WireError Unit)
  | discardAudio (handle : Option String)

/-- The calls for a job, each at the last reading of the clock. -/
abbrev Calls := List (Int64 × SinkCall)

/-- A sink answers a call as the calls before it have left it. -/
structure JobSink where
  heartbeat : Calls → Except WireError Int64
  progress : Calls → Segment → Except WireError Unit
  done : Calls → Transcript → Except WireError Unit
  fail : Calls → String → Except WireError Unit

inductive Outcome where
  | decoded (job : UInt64) (tookMs : Int64) (segments : UInt32) (bytes : UInt64)
  | stale (job : UInt64)
  | lost (job : UInt64)
  | failed (job : UInt64) (reason : String) (retryable : Bool)

def Outcome.isDecoded : Outcome → Bool
  | decoded _ _ _ _ => true
  | _ => false

/-- What `on_segment` captures, and how often the clock was read. -/
structure Streaming where
  calls : Calls
  readings : ℕ
  segments : UInt32
  lastBeat : Int64
  beatUntil : Int64
  lost : Bool

structure Decoder where
  leaseMs : Int64
  heartbeatEveryMs : Int64

namespace Decoder

variable (decoder : Decoder) (sink : JobSink) (clock : ℕ → Int64)

def publish (now : Int64) (segment : Segment) (streaming : Streaming) : Streaming :=
  let answer := sink.progress streaming.calls segment
  let streaming := { streaming with
    calls := streaming.calls ++ [(now, SinkCall.progress segment answer)] }
  match answer with
  | .ok () => { streaming with segments := streaming.segments + 1 }
  | .error _ => { streaming with lost := true }

def beat (now : Int64) (streaming : Streaming) : Streaming :=
  let answer := sink.heartbeat streaming.calls
  let streaming := { streaming with calls := streaming.calls ++ [(now, SinkCall.heartbeat answer)] }
  match answer with
  | .ok lease => { streaming with lastBeat := now, beatUntil := lease }
  | .error _ => { streaming with lost := true }

def onSegment (streaming : Streaming) (segment : Segment) : Streaming :=
  if !segment.hasText || streaming.lost then
    streaming
  else
    let now := clock streaming.readings
    let streaming := { streaming with readings := streaming.readings + 1 }
    if streaming.beatUntil ≤ now ∨ decoder.heartbeatEveryMs ≤ now - streaming.lastBeat then
      let streaming := beat sink now streaming
      if streaming.lost then streaming else publish sink now segment streaming
    else
      publish sink now segment streaming

def streamed (segments : List Segment) : Streaming :=
  segments.foldl (onSegment decoder sink clock)
    ⟨[], 1, 0, clock 0, clock 0 + decoder.leaseMs, false⟩

/-- `heard` is what the recognizer makes of the audio, `bytes` the length of the audio. -/
def decode (job : UInt64) (request : SttRequest) (bytes : UInt64)
    (heard : List Segment × Except RecognizerError Transcript) : Calls × Outcome :=
  let started := clock 0
  let fail (now : Int64) (calls : Calls) (reason : String) : Calls :=
    calls ++ [(now, .fail reason (sink.fail calls reason))]
  if !(started < request.freshUntilMs) then
    (fail started [] "fresh_until passed before decode", .stale job)
  else
    let streamed := streamed decoder sink clock heard.1
    if streamed.lost then
      (streamed.calls, .lost job)
    else
      let finished := clock streamed.readings
      match heard.2 with
      | .error error =>
          (fail finished streamed.calls error.reason, .failed job error.reason error.retryable)
      | .ok transcript =>
          if !(finished < request.freshUntilMs) then
            (fail finished streamed.calls "fresh_until passed before the result", .stale job)
          else
            let answer := sink.done streamed.calls transcript
            let calls := streamed.calls ++ [(finished, .done transcript answer)]
            match answer with
            | .ok () =>
                let handle := match request.audio with
                  | .fetch handle => some handle.handle
                  | .inline _ _ => none
                (calls ++ [(finished, .discardAudio handle)],
                  .decoded job (max (finished - started) 0) streamed.segments bytes)
            | .error (.unreachable _) => (calls, .lost job)
            | .error (.refused refusal) =>
                (calls, if refusal = "lease_lost" then .lost job else .failed job refusal false)

end Decoder

namespace SinkCall

def settles : SinkCall → Bool
  | done _ _ | fail _ _ => true
  | _ => false

/-- A call after which the job is no longer this worker's. -/
def loses : SinkCall → Bool
  | heartbeat (.error _) | progress _ (.error _) => true
  | _ => false

def published : SinkCall → Option Segment
  | progress segment _ => some segment
  | _ => none

def succeeds : SinkCall → Bool
  | done _ (.ok _) => true
  | _ => false

theorem settles_of_succeeds {call : SinkCall} (hok : call.succeeds = true) :
    call.settles = true := by
  cases call <;> first | rfl | cases hok

end SinkCall

/-- The end of the lease that a worker saw last. -/
def leaseSeen (lease : Int64) (calls : Calls) : Int64 :=
  calls.foldl (fun lease call => match call.2 with
    | .heartbeat (.ok later) => later
    | _ => lease) lease

/-- A segment is published under a lease that has not run out, or right after a heartbeat. -/
def Covered (lease : Int64) (calls : Calls) : Prop :=
  ∀ (before : Calls) (now : Int64) (segment : Segment) (answer : Except WireError Unit),
    before ++ [(now, .progress segment answer)] <+: calls → now < leaseSeen lease before ∨
      ∃ later, before.getLast? = some (now, .heartbeat (.ok later))

/-- The calls of one decode over the segments `texts` that are to be published. -/
structure SettlesOnce (request : SttRequest) (lease : Int64) (texts : List Segment)
    (calls : Calls) (outcome : Outcome) : Prop where
  once : calls.countP (·.2.settles) ≤ 1
  fresh : ∀ now transcript answer, (now, .done transcript answer) ∈ calls →
    now < request.freshUntilMs
  stops : ∀ call ∈ calls.dropLast, call.2.loses = false
  published : calls.filterMap (·.2.published) <+: texts
  covered : Covered lease calls
  decoded : outcome.isDecoded = calls.any (·.2.succeeds)

section Calls

variable {request : SttRequest} {lease : Int64} {texts : List Segment} {calls : Calls}
variable {call : Int64 × SinkCall}

theorem leaseSeen_append (now : Int64) (call : SinkCall) :
    leaseSeen lease (calls ++ [(now, call)]) = match call with
      | .heartbeat (.ok later) => later
      | _ => leaseSeen lease calls := by
  rw [leaseSeen, foldl_append]
  rfl

theorem Covered.append (hcov : Covered lease calls)
    (hnew : ∀ segment answer, call.2 = .progress segment answer → call.1 < leaseSeen lease calls ∨
      ∃ later, calls.getLast? = some (call.1, .heartbeat (.ok later))) :
    Covered lease (calls ++ [call]) := by
  intro before now segment answer hfront
  rcases prefix_concat_iff.mp hfront with hsame | hold
  · obtain ⟨rfl, hcall⟩ := append_inj' hsame rfl
    cases hcall
    exact hnew segment answer rfl
  · exact hcov before now segment answer hold

theorem Covered.quiet {tail : Calls} (hcov : Covered lease calls)
    (hquiet : ∀ call ∈ tail, call.2.published = none) : Covered lease (calls ++ tail) := by
  induction tail generalizing calls with
  | nil => rwa [append_nil]
  | cons call tail ih =>
    rw [forall_mem_cons] at hquiet
    rw [append_cons]
    apply ih _ hquiet.2
    apply hcov.append
    intro segment answer hcall
    cases hcall ▸ hquiet.1

/-- What the calls during the recognition keep: nothing is settled, and only the last call can be
one that loses the job. -/
structure Streams (lease : Int64) (texts : List Segment) (streaming : Streaming) : Prop where
  open' : ∀ call ∈ streaming.calls, call.2.settles = false
  stops : ∀ call ∈ streaming.calls.dropLast, call.2.loses = false
  holds : streaming.lost = false ↔ ∀ call ∈ streaming.calls, call.2.loses = false
  published : streaming.calls.filterMap (·.2.published) <+: texts
  complete : streaming.lost = false → streaming.calls.filterMap (·.2.published) = texts
  covered : Covered lease streaming.calls
  seen : streaming.beatUntil = leaseSeen lease streaming.calls

variable {streaming : Streaming} {sink : JobSink} {clock : ℕ → Int64} {segment : Segment}
variable (hstr : Streams lease texts streaming)
include hstr

theorem Streams.append (call : Int64 × SinkCall) {after : Streaming}
    (hheld : streaming.lost = false)
    (hcalls : after.calls = streaming.calls ++ [call]) (hlost : after.lost = call.2.loses)
    (hopen : call.2.settles = false)
    (hnew : ∀ segment answer, call.2 = .progress segment answer →
      call.1 < leaseSeen lease streaming.calls ∨
        ∃ later, streaming.calls.getLast? = some (call.1, .heartbeat (.ok later)))
    (hseen : after.beatUntil = leaseSeen lease after.calls) :
    Streams lease (texts ++ call.2.published.toList) after := by
  have hpub : after.calls.filterMap (·.2.published) = texts ++ call.2.published.toList := by
    rw [hcalls, filterMap_append, hstr.complete hheld]
    cases hnone : call.2.published <;> simp [hnone]
  have hkept := hstr.holds.mp hheld
  constructor
  · rw [hcalls]
    exact forall_mem_append.mpr ⟨hstr.open', forall_mem_singleton.mpr hopen⟩
  · rw [hcalls, dropLast_concat]
    exact hkept
  · rw [hlost, hcalls, forall_mem_append, forall_mem_singleton]
    exact (and_iff_right hkept).symm
  · exact hpub ▸ prefix_rfl
  · exact fun _ => hpub
  · exact hcalls ▸ hstr.covered.append hnew
  · exact hseen

theorem Streams.more (hlost : streaming.lost = true) (rest : List Segment) :
    Streams lease (texts ++ rest) streaming :=
  { hstr with
    published := hstr.published.trans (prefix_append texts rest)
    complete := fun hheld => absurd (hheld.symm.trans hlost) Bool.false_ne_true }

theorem streams_publish {now : Int64} (hheld : streaming.lost = false)
    (hnew : now < leaseSeen lease streaming.calls ∨
      ∃ later, streaming.calls.getLast? = some (now, .heartbeat (.ok later))) :
    Streams lease (texts ++ [segment]) (Decoder.publish sink now segment streaming) := by
  have hseen (answer : Except WireError Unit) : streaming.beatUntil =
      leaseSeen lease (streaming.calls ++ [(now, .progress segment answer)]) :=
    hstr.seen.trans (leaseSeen_append now (.progress segment answer)).symm
  rw [Decoder.publish]
  cases sink.progress streaming.calls segment with
  | error why => exact hstr.append (now, .progress segment _) hheld rfl rfl rfl (fun _ _ _ => hnew) (hseen _)
  | ok => exact hstr.append (now, .progress segment _) hheld rfl hheld rfl (fun _ _ _ => hnew) (hseen _)

theorem streams_beat {now : Int64} (hheld : streaming.lost = false) :
    Streams lease texts (Decoder.beat sink now streaming) ∧
      ((Decoder.beat sink now streaming).lost = false → ∃ later,
        (Decoder.beat sink now streaming).calls.getLast? = some (now, .heartbeat (.ok later))) := by
  rw [← append_nil texts, Decoder.beat]
  cases sink.heartbeat streaming.calls with
  | error why =>
    refine ⟨hstr.append (now, .heartbeat (.error why)) hheld rfl rfl rfl nofun ?_, nofun⟩
    exact hstr.seen.trans (leaseSeen_append now (.heartbeat (.error why))).symm
  | ok later =>
    refine ⟨hstr.append (now, .heartbeat (.ok later)) hheld rfl hheld rfl nofun ?_, fun _ => ?_⟩
    · exact (leaseSeen_append now (.heartbeat (.ok later))).symm
    · exact ⟨later, getLast?_concat⟩

theorem streams_onSegment (decoder : Decoder) :
    Streams lease (texts ++ [segment].filter Segment.hasText)
      (decoder.onSegment sink clock streaming segment) := by
  obtain ⟨calls, readings, count, lastBeat, beatUntil, lost⟩ := streaming
  rw [Decoder.onSegment]
  cases htxt : segment.hasText with
  | false => simpa [htxt] using hstr
  | true =>
    rw [filter_cons_of_pos htxt, filter_nil]
    cases lost with
    | true => exact hstr.more rfl _
    | false =>
      have hread : Streams lease texts ⟨calls, readings + 1, count, lastBeat, beatUntil, false⟩ :=
        { hstr with }
      dsimp only
      rw [show (!true || false) = false from rfl, if_neg Bool.false_ne_true]
      split
      · obtain ⟨hbeat, hlast⟩ := @streams_beat _ _ _ sink hread (clock readings) rfl
        split
        · next hgone => exact hbeat.more hgone _
        · next hkept =>
          rw [Bool.not_eq_true] at hkept
          exact streams_publish hbeat hkept (.inr (hlast hkept))
      · next hdue =>
        apply streams_publish hread rfl
        left
        rw [← hread.seen]
        exact Int64.not_le.mp (not_or.mp hdue).1

omit hstr in
theorem streams_foldl (decoder : Decoder) (segments : List Segment)
    (hstr : Streams lease texts streaming) :
    Streams lease (texts ++ segments.filter Segment.hasText)
      (segments.foldl (decoder.onSegment sink clock) streaming) := by
  induction segments generalizing texts streaming with
  | nil => simpa using hstr
  | cons segment segments ih =>
    have hrest := ih (@streams_onSegment _ _ _ sink clock segment hstr decoder)
    rwa [append_assoc, ← filter_append] at hrest

theorem Streams.ends {outcome : Outcome} {tail : Calls}
    (hheld : tail ≠ [] → streaming.lost = false)
    (hquiet : ∀ call ∈ tail, call.2.loses = false ∧ call.2.published = none)
    (honce : tail.countP (·.2.settles) ≤ 1)
    (hfresh : ∀ now transcript answer, (now, .done transcript answer) ∈ tail →
      now < request.freshUntilMs)
    (hdec : outcome.isDecoded = tail.any (·.2.succeeds)) :
    SettlesOnce request lease texts (streaming.calls ++ tail) outcome := by
  have hpub : (streaming.calls ++ tail).filterMap (·.2.published) =
      streaming.calls.filterMap (·.2.published) := by
    rw [filterMap_append, filterMap_eq_nil_iff.mpr fun call hcall => (hquiet call hcall).2,
      append_nil]
  constructor
  · rw [countP_append, countP_eq_zero.mpr fun call hcall => by simp [hstr.open' call hcall],
      Nat.zero_add]
    exact honce
  · intro now transcript answer hmem
    rcases mem_append.mp hmem with hold | hnew
    · cases hstr.open' _ hold
    · exact hfresh now transcript answer hnew
  · intro call hcall
    by_cases hnone : tail = []
    · rw [hnone, append_nil] at hcall
      exact hstr.stops call hcall
    · rcases mem_append.mp (dropLast_subset _ hcall) with hold | hnew
      · exact hstr.holds.mp (hheld hnone) call hold
      · exact (hquiet call hnew).1
  · exact hpub ▸ hstr.published
  · exact hstr.covered.quiet fun call hcall => (hquiet call hcall).2
  · have hnot : streaming.calls.any (·.2.succeeds) = false := by
      rw [any_eq_false]
      intro call hcall hok
      cases (hstr.open' call hcall).symm.trans (SinkCall.settles_of_succeeds hok)
    rw [hdec, any_append, hnot, Bool.false_or]

/-- A last call that settles the job in any way but a result. -/
theorem Streams.closes {outcome : Outcome} (hheld : streaming.lost = false)
    (hquiet : call.2.loses = false ∧ call.2.published = none)
    (hfresh : ∀ transcript answer, call.2 = .done transcript answer → call.1 < request.freshUntilMs)
    (hdec : outcome.isDecoded = call.2.succeeds) :
    SettlesOnce request lease texts (streaming.calls ++ [call]) outcome := by
  apply hstr.ends (fun _ => hheld) (forall_mem_singleton.mpr hquiet) countP_le_length
  · intro now transcript answer hmem
    obtain rfl := mem_singleton.mp hmem
    exact hfresh transcript answer rfl
  · rwa [any_cons, any_nil, Bool.or_false]

end Calls

theorem streamed_append {decoder : Decoder} {sink : JobSink} {clock : ℕ → Int64}
    {seen : List Segment} (rest : List Segment)
    (hlost : (decoder.streamed sink clock seen).lost = true) :
    decoder.streamed sink clock (seen ++ rest) = decoder.streamed sink clock seen := by
  rw [Decoder.streamed, foldl_append]
  change rest.foldl _ (decoder.streamed sink clock seen) = _
  induction rest with
  | nil => rfl
  | cons segment rest ih => rwa [foldl_cons, Decoder.onSegment, hlost, Bool.or_true, if_pos rfl]

end WasmAgent.Stt
