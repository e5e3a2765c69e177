import WasmAgent.Core.Reading
import WasmAgent.Queue.Types

/-!
# The queue's records as bytes

Length-prefixed fields and big-endian numbers, as `wa-queue` lays them out.  A
record is decoded whole or not at all, and only from the bytes that encoding it
gives.
-/

namespace WasmAgent.Queue

open List WasmAgent.Core

/-- `QueueError::Corrupt`: a stored record that cannot be decoded. -/
structure Corrupt where
  why : String
  deriving DecidableEq

def u32b (value : UInt32) : Bytes := bigEndian 4 value.toNat

def u64b (value : ℕ) : Bytes := bigEndian 8 value

/-- The two's complement of an `i64`. -/
def unsigned (value : Int) : ℕ := (value % 0x10000000000000000).toNat

def signed (value : ℕ) : Int :=
  if value < 0x8000000000000000 then value else value - 0x10000000000000000

def i64b (value : Int) : Bytes := u64b (unsigned value)

/-- The length is cut to 32 bits, as the cast cuts it. -/
def bytesb (value : Bytes) : Bytes := u32b (UInt32.ofNat value.length) ++ value

def strb (text : String) : Bytes := bytesb (utf8 text)

def optb {Value : Type} (put : Value → Bytes) : Option Value → Bytes
  | some value => 1 :: put value
  | none => [0]

def optStrb : Option String → Bytes := optb strb

def optI64b : Option Int → Bytes := optb i64b

def optBytesb : Option Bytes → Bytes := optb bytesb

namespace Reader

def take (count : ℕ) : Reading Corrupt Bytes :=
  Core.Reader.takeOr ⟨"length overflow"⟩ ⟨"truncated record"⟩ count

/-- The next `count` bytes, each of them indexed. -/
def fixed (count : ℕ) : Reading Corrupt Bytes := do
  let bytes ← take count
  (Core.Reader.array count bytes : Except (Stop Corrupt) Bytes)

def u8 : Reading Corrupt UInt8 := (fun bytes => UInt8.ofNat (fromBigEndian bytes)) <$> fixed 1

def u32 : Reading Corrupt UInt32 := (fun bytes => UInt32.ofNat (fromBigEndian bytes)) <$> fixed 4

def u64 : Reading Corrupt ℕ := fromBigEndian <$> fixed 8

def i64 : Reading Corrupt Int := (fun bytes => signed (fromBigEndian bytes)) <$> fixed 8

def bytes : Reading Corrupt Bytes := do
  let len ← u32
  take len.toNat

def string : Reading Corrupt String := do
  let raw ← bytes
  match String.fromUTF8? ⟨raw.toArray⟩ with
  | some text => return text
  | none => throw (.error ⟨"record is not utf-8"⟩)

def opt {Value : Type} (read : Reading Corrupt Value) : Reading Corrupt (Option Value) := do
  let tag ← u8
  if tag = 0 then
    return none
  else if tag = 1 then
    some <$> read
  else
    throw (.error ⟨s!"bad option tag {tag}"⟩)

def optString : Reading Corrupt (Option String) := opt string

def optI64 : Reading Corrupt (Option Int) := opt i64

def optBytes : Reading Corrupt (Option Bytes) := opt bytes

def jobId : Reading Corrupt JobId := u64

def finished : Reading Corrupt Unit := do
  let reader ← get
  if reader.offset = reader.buf.length then
    return ()
  else
    throw (.error ⟨"trailing bytes in record"⟩)

end Reader

def stateCode : JobState → UInt8
  | .ready => 0
  | .leased => 1
  | .done => 2
  | .dead => 3
  | .expired => 4

def stateFrom (code : UInt8) : Except (Stop Corrupt) JobState :=
  if code = 0 then .ok .ready
  else if code = 1 then .ok .leased
  else if code = 2 then .ok .done
  else if code = 3 then .ok .dead
  else if code = 4 then .ok .expired
  else .error (.error ⟨s!"bad job state {code}"⟩)

def AlertKind.fromCode (code : UInt8) : Except (Stop Corrupt) AlertKind :=
  if code = UInt8.ofNat AlertKind.expired.code then .ok .expired
  else if code = UInt8.ofNat AlertKind.timedOut.code then .ok .timedOut
  else if code = UInt8.ofNat AlertKind.dead.code then .ok .dead
  else .error (.error ⟨s!"bad alert kind {code}"⟩)

def alertStateCode : AlertState → UInt8
  | .ready => 0
  | .sent => 1
  | .dropped => 2

def alertStateFrom (code : UInt8) : Except (Stop Corrupt) AlertState :=
  if code = 0 then .ok .ready
  else if code = 1 then .ok .sent
  else if code = 2 then .ok .dropped
  else .error (.error ⟨s!"bad alert state {code}"⟩)

def encodeJob (job : Job) : Bytes :=
  [u64b job.id, strb job.queue, bytesb job.payload, u32b job.priority, i64b job.notBefore,
    i64b job.createdAt, i64b job.updatedAt, optI64b job.freshUntil, optI64b job.deadline,
    u32b job.maxAttempts, u32b job.attempts, u32b job.leaseExpiries, optStrb job.dedupeKey,
    [stateCode job.state], optStrb job.leaseWorker, optI64b job.leaseUntil,
    optStrb job.lastError, optBytesb job.result, u32b job.progressEntries,
    u64b job.progressBytes].flatten

/-- The fields of a record, in the order in which they lie. -/
def readJob (id : JobId) : Reading Corrupt Job := do
  let stored ← Reader.jobId
  if stored ≠ id then
    throw (.error ⟨s!"record at job-{id} claims to be job-{stored}"⟩)
  else do
    let queue ← Reader.string
    let payload ← Reader.bytes
    let priority ← Reader.u32
    let notBefore ← Reader.i64
    let createdAt ← Reader.i64
    let updatedAt ← Reader.i64
    let freshUntil ← Reader.optI64
    let deadline ← Reader.optI64
    let maxAttempts ← Reader.u32
    let attempts ← Reader.u32
    let leaseExpiries ← Reader.u32
    let dedupeKey ← Reader.optString
    let code ← Reader.u8
    let state ← (stateFrom code : Except (Stop Corrupt) JobState)
    let leaseWorker ← Reader.optString
    let leaseUntil ← Reader.optI64
    let lastError ← Reader.optString
    let result ← Reader.optBytes
    let progressEntries ← Reader.u32
    let progressBytes ← Reader.u64
    Reader.finished
    return {
      id := id
      queue := queue
      payload := payload
      priority := priority
      notBefore := notBefore
      freshUntil := freshUntil
      deadline := deadline
      maxAttempts := maxAttempts
      attempts := attempts
      leaseExpiries := leaseExpiries
      dedupeKey := dedupeKey
      state := state
      leaseWorker := leaseWorker
      leaseUntil := leaseUntil
      lastError := lastError
      result := result
      progressEntries := progressEntries
      progressBytes := progressBytes
      createdAt := createdAt
      updatedAt := updatedAt }

def decodeJob (id : JobId) (bytes : Bytes) : Except (Stop Corrupt) Job :=
  readWhole (readJob id) bytes

def encodeAlert (alert : Alert) : Bytes :=
  [u64b alert.seq, strb alert.queue, [UInt8.ofNat alert.kind.code], strb alert.reason,
    i64b alert.atMs, [alertStateCode alert.state]].flatten

/-- `id_after` the prefix `a/` of an alert's key. -/
def alertKeyId (key : Bytes) : Option JobId :=
  if (2 : ℕ) + 8 ≤ key.length then some (fromBigEndian ((key.drop 2).take 8)) else none

/-- `alert_key`, as bytes. -/
def alertKeyBytes (id : JobId) (kind : AlertKind) : Bytes :=
  utf8 "a/" ++ bigEndian 8 id ++ utf8 "/" ++ [UInt8.ofNat kind.code]

def readAlert (id : JobId) : Reading Corrupt Alert := do
  let seq ← Reader.u64
  let queue ← Reader.string
  let kindCode ← Reader.u8
  let kind ← (AlertKind.fromCode kindCode : Except (Stop Corrupt) AlertKind)
  let reason ← Reader.string
  let atMs ← Reader.i64
  let stateByte ← Reader.u8
  let state ← (alertStateFrom stateByte : Except (Stop Corrupt) AlertState)
  Reader.finished
  return {
    seq := seq
    job := id
    queue := queue
    kind := kind
    reason := reason
    atMs := atMs
    state := state }

def decodeAlert (key bytes : Bytes) : Except (Stop Corrupt) Alert :=
  match alertKeyId key with
  | some id => readWhole (readAlert id) bytes
  | none => .error (.error ⟨"alert key"⟩)

section Numbers

theorem unsigned_lt (value : Int) : unsigned value < 0x100 ^ 8 := by
  unfold unsigned
  omega

theorem signed_unsigned {value : Int} (hlow : i64Min ≤ value) (hhigh : value ≤ i64Max) :
    signed (unsigned value) = value := by
  unfold signed unsigned
  unfold i64Min at hlow
  unfold i64Max at hhigh
  split <;> omega

theorem unsigned_signed {value : ℕ} (hval : value < 0x100 ^ 8) :
    unsigned (signed value) = value := by
  unfold signed unsigned
  split <;> omega

theorem u32b_ofNat {bytes : Bytes} (hlen : bytes.length = 4) :
    u32b (UInt32.ofNat (fromBigEndian bytes)) = bytes := by
  have hlt := fromBigEndian_lt bytes
  rw [hlen] at hlt
  have hword : (UInt32.ofNat (fromBigEndian bytes)).toNat = fromBigEndian bytes :=
    UInt32.toNat_ofNat_of_lt' hlt
  rw [u32b, hword, ← hlen, bigEndian_fromBigEndian]

theorem ofNat_u32b (value : UInt32) : UInt32.ofNat (fromBigEndian (u32b value)) = value := by
  rw [u32b, fromBigEndian_bigEndian value.toNat_lt, UInt32.ofNat_toNat]

theorem u64b_fromBigEndian {bytes : Bytes} (hlen : bytes.length = 8) :
    u64b (fromBigEndian bytes) = bytes := by
  rw [u64b, ← hlen, bigEndian_fromBigEndian]

theorem i64b_signed {bytes : Bytes} (hlen : bytes.length = 8) :
    i64b (signed (fromBigEndian bytes)) = bytes := by
  have hlt := fromBigEndian_lt bytes
  rw [hlen] at hlt
  rw [i64b, unsigned_signed hlt, u64b_fromBigEndian hlen]

theorem fromBigEndian_byte (byte : UInt8) : UInt8.ofNat (fromBigEndian [byte]) = byte := by
  change UInt8.ofNat (byte.toNat + 0x100 * 0) = byte
  rw [Nat.mul_zero, Nat.add_zero, UInt8.ofNat_toNat]

end Numbers

variable {Value : Type}

namespace Reader

theorem fixed_reads {count : ℕ} {bytes : Bytes} (hlen : bytes.length = count) :
    Reads (fixed count) bytes bytes :=
  Core.Reader.array_reads hlen

variable {post : Bytes → Bytes → Core.Reader → Prop}

theorem fixed_yields {count : ℕ}
    (hpost : ∀ bytes after, bytes.length = count → post bytes bytes after) :
    Yields (fixed count) post :=
  Core.Reader.array_yields hpost

theorem u8_reads (value : UInt8) : Reads u8 [value] value := by
  have hreads := (fixed_reads (rfl : [value].length = 1)).map
    (fun bytes => UInt8.ofNat (fromBigEndian bytes))
  rwa [fromBigEndian_byte] at hreads

theorem u8_yields {post : Bytes → UInt8 → Core.Reader → Prop}
    (hpost : ∀ value after, post [value] value after) : Yields u8 post := by
  apply Yields.map
  apply fixed_yields
  intro bytes after hlen
  obtain ⟨value, rfl⟩ := length_eq_one_iff.mp hlen
  rw [fromBigEndian_byte]
  exact hpost value after

theorem u32_reads (value : UInt32) : Reads u32 (u32b value) value := by
  have hreads := (fixed_reads (bigEndian_length 4 value.toNat)).map
    (fun bytes => UInt32.ofNat (fromBigEndian bytes))
  rwa [← u32b, ofNat_u32b] at hreads

theorem u32_yields {post : Bytes → UInt32 → Core.Reader → Prop}
    (hpost : ∀ value after, post (u32b value) value after) : Yields u32 post := by
  apply Yields.map
  apply fixed_yields
  intro bytes after hlen
  have hval := hpost (UInt32.ofNat (fromBigEndian bytes)) after
  rwa [u32b_ofNat hlen] at hval

theorem u64_reads {value : ℕ} (hval : value ≤ u64Max) : Reads u64 (u64b value) value := by
  have hreads := (fixed_reads (bigEndian_length 8 value)).map fromBigEndian
  rwa [← u64b, u64b, fromBigEndian_bigEndian (Nat.lt_succ_of_le hval), ← u64b] at hreads

theorem u64_yields {post : Bytes → ℕ → Core.Reader → Prop}
    (hpost : ∀ value after, post (u64b value) value after) : Yields u64 post := by
  apply Yields.map
  apply fixed_yields
  intro bytes after hlen
  have hval := hpost (fromBigEndian bytes) after
  rwa [u64b_fromBigEndian hlen] at hval

theorem i64_reads {value : Int} (hlow : i64Min ≤ value) (hhigh : value ≤ i64Max) :
    Reads i64 (i64b value) value := by
  have hreads := (fixed_reads (bigEndian_length 8 (unsigned value))).map
    (fun bytes => signed (fromBigEndian bytes))
  rwa [fromBigEndian_bigEndian (unsigned_lt value), signed_unsigned hlow hhigh] at hreads

theorem i64_yields {post : Bytes → Int → Core.Reader → Prop}
    (hpost : ∀ value after, post (i64b value) value after) : Yields i64 post := by
  apply Yields.map
  apply fixed_yields
  intro bytes after hlen
  have hval := hpost (signed (fromBigEndian bytes)) after
  rwa [i64b_signed hlen] at hval

theorem bytes_reads {value : Bytes} (hshrt : value.length < 0x100000000) :
    Reads bytes (bytesb value) value := by
  have hlen : value.length = (UInt32.ofNat value.length).toNat := by
    rw [UInt32.toNat_ofNat', Nat.mod_eq_of_lt hshrt]
  apply (u32_reads (UInt32.ofNat value.length)).bind
  rw [← hlen]
  exact Core.Reader.takeOr_reads value

theorem bytes_yields
    (hpost : ∀ value after, post (bytesb value) value after) : Yields bytes post := by
  apply Yields.bind
  apply u32_yields
  intro len _
  apply Core.Reader.takeOr_yields
  intro value after hlen
  have hval := hpost value after
  rwa [bytesb, hlen, UInt32.ofNat_toNat] at hval

theorem string_reads {text : String} (hshrt : (utf8 text).length < 0x100000000) :
    Reads string (strb text) text := by
  have hreads : Reads string (strb text ++ []) text := by
    apply (bytes_reads hshrt).bind
    rw [fromUTF8_utf8]
    exact Reads.pure text
  rwa [append_nil] at hreads

theorem string_yields {post : Bytes → String → Core.Reader → Prop}
    (hpost : ∀ text after, post (strb text) text after) : Yields string post := by
  apply Yields.bind
  apply bytes_yields
  intro raw _
  split
  · next text htext =>
    apply Yields.pure
    intro after
    rw [append_nil, ← utf8_of_fromUTF8 htext]
    exact hpost text after
  · exact Yields.error _

theorem opt_reads {read : Reading Corrupt Value} {put : Value → Bytes} {value : Option Value}
    (hread : ∀ inner ∈ value, Reads read (put inner) inner) :
    Reads (opt read) (optb put value) value := by
  cases value with
  | none =>
    have hreads : Reads (opt read) ([0] ++ []) none := (u8_reads 0).bind (Reads.pure none)
    exact hreads
  | some inner => exact (u8_reads 1).bind ((hread inner rfl).map some)

theorem opt_yields {read : Reading Corrupt Value} {put : Value → Bytes}
    {post : Bytes → Option Value → Core.Reader → Prop}
    (hread : ∀ {inner : Bytes → Value → Core.Reader → Prop},
      (∀ value after, inner (put value) value after) → Yields read inner)
    (hpost : ∀ value after, post (optb put value) value after) : Yields (opt read) post := by
  apply Yields.bind
  apply u8_yields
  intro tag _
  split
  · next htag =>
    apply Yields.pure
    intro after
    rw [htag]
    exact hpost none after
  split
  · next htag =>
    apply Yields.map
    apply hread
    intro value after
    rw [htag]
    exact hpost (some value) after
  · exact Yields.error _

theorem finished_reads {before : Core.Reader} (hrest : before.rest = []) :
    finished before = .ok ((), before) := by
  have hlen := congrArg List.length hrest
  have hins := before.inside
  rw [Core.Reader.rest, length_drop, length_nil] at hlen
  have hend : before.offset = before.buf.length := by omega
  change (if before.offset = before.buf.length then _ else _ : Reading Corrupt Unit) before = _
  rw [if_pos hend]
  rfl

theorem finished_yields {post : Bytes → Unit → Core.Reader → Prop}
    (hpost : ∀ after, after.rest = [] → post [] () after) : Yields finished post := by
  have hrun : ∀ before, finished before = if before.offset = before.buf.length then
      .ok ((), before) else .error (.error ⟨"trailing bytes in record"⟩) := by
    intro before
    change (if before.offset = before.buf.length then _ else _ : Reading Corrupt Unit) before = _
    split <;> rfl
  constructor
  · intro before value after hread
    rw [hrun] at hread
    split at hread
    · next hend =>
      cases hread
      refine ⟨[], Core.Reader.Passes.refl before, hpost before ?_⟩
      rw [Core.Reader.rest, hend, drop_length]
    · cases hread
  · intro before hpan
    rw [hrun] at hpan
    split at hpan <;> cases hpan

end Reader

/-- An instant that an `i64` holds. -/
def FitsI64 (value : Int) : Prop := i64Min ≤ value ∧ value ≤ i64Max

instance (value : Int) : Decidable (FitsI64 value) := inferInstanceAs (Decidable (_ ∧ _))

def FitsU32 (field : Bytes) : Prop := field.length < 0x100000000

instance (field : Bytes) : Decidable (FitsU32 field) := inferInstanceAs (Decidable (_ < _))

structure Job.Typed (job : Job) : Prop where
  id : job.id ≤ u64Max
  notBefore : FitsI64 job.notBefore
  createdAt : FitsI64 job.createdAt
  updatedAt : FitsI64 job.updatedAt
  freshUntil : ∀ instant ∈ job.freshUntil, FitsI64 instant
  deadline : ∀ instant ∈ job.deadline, FitsI64 instant
  leaseUntil : ∀ instant ∈ job.leaseUntil, FitsI64 instant
  progressBytes : job.progressBytes ≤ u64Max

/-- The byte fields of a job are shorter than `2^32`. -/
structure Job.Short (job : Job) : Prop where
  queue : FitsU32 (utf8 job.queue)
  payload : FitsU32 job.payload
  dedupeKey : ∀ key ∈ job.dedupeKey, FitsU32 (utf8 key)
  leaseWorker : ∀ worker ∈ job.leaseWorker, FitsU32 (utf8 worker)
  lastError : ∀ reason ∈ job.lastError, FitsU32 (utf8 reason)
  result : ∀ answer ∈ job.result, FitsU32 answer

structure Alert.Typed (alert : Alert) : Prop where
  seq : alert.seq ≤ u64Max
  job : alert.job ≤ u64Max
  atMs : FitsI64 alert.atMs

structure Alert.Short (alert : Alert) : Prop where
  queue : FitsU32 (utf8 alert.queue)
  reason : FitsU32 (utf8 alert.reason)

section Records

@[simp]
theorem stateFrom_stateCode (state : JobState) : stateFrom (stateCode state) = .ok state := by
  cases state <;> rfl

theorem stateCode_of_stateFrom {code : UInt8} {state : JobState}
    (hst : stateFrom code = .ok state) : stateCode state = code := by
  unfold stateFrom at hst
  split_ifs at hst <;> cases hst <;> next hcode => exact hcode.symm

theorem stateFrom_sober (code : UInt8) : stateFrom code ≠ .error .panic := by
  unfold stateFrom
  split_ifs <;> intro hpan <;> cases hpan

theorem optStrb_reads {text : Option String} (hshrt : ∀ inner ∈ text, FitsU32 (utf8 inner)) :
    Reads Reader.optString (optStrb text) text := by
  apply Reader.opt_reads
  intro inner hinner
  exact Reader.string_reads (hshrt inner hinner)

theorem optI64b_reads {instant : Option Int} (hfits : ∀ inner ∈ instant, FitsI64 inner) :
    Reads Reader.optI64 (optI64b instant) instant := by
  apply Reader.opt_reads
  intro inner hinner
  obtain ⟨hlow, hhigh⟩ := hfits inner hinner
  exact Reader.i64_reads hlow hhigh

theorem optBytesb_reads {field : Option Bytes} (hshrt : ∀ inner ∈ field, FitsU32 inner) :
    Reads Reader.optBytes (optBytesb field) field := by
  apply Reader.opt_reads
  intro inner hinner
  exact Reader.bytes_reads (hshrt inner hinner)

theorem finished_readsLast (value : Value) :
    ReadsLast (do Reader.finished; return value : Reading Corrupt Value) [] value := by
  intro before after _ hpas hend
  have hsame : before = after := Core.Reader.eq_of_rest hpas.buf.symm hpas.rest
  subst hsame
  rw [bind_run, Reader.finished_reads hend]
  rfl

theorem finished_return_yields {value : Value} {post : Bytes → Value → Core.Reader → Prop}
    (hpost : ∀ after, after.rest = [] → post [] value after) :
    Yields (do Reader.finished; return value : Reading Corrupt Value) post := by
  change Yields ((fun _ => value) <$> Reader.finished) post
  apply Yields.map
  exact Reader.finished_yields hpost

theorem readJob_reads {job : Job} (htyped : job.Typed) (hshrt : job.Short) :
    ReadsLast (readJob job.id) (encodeJob job) job := by
  apply (Reader.u64_reads htyped.id).bindLast
  rw [if_neg (fun hne => hne rfl)]
  apply (Reader.string_reads hshrt.queue).bindLast
  apply (Reader.bytes_reads hshrt.payload).bindLast
  apply (Reader.u32_reads job.priority).bindLast
  apply (Reader.i64_reads htyped.notBefore.1 htyped.notBefore.2).bindLast
  apply (Reader.i64_reads htyped.createdAt.1 htyped.createdAt.2).bindLast
  apply (Reader.i64_reads htyped.updatedAt.1 htyped.updatedAt.2).bindLast
  apply (optI64b_reads htyped.freshUntil).bindLast
  apply (optI64b_reads htyped.deadline).bindLast
  apply (Reader.u32_reads job.maxAttempts).bindLast
  apply (Reader.u32_reads job.attempts).bindLast
  apply (Reader.u32_reads job.leaseExpiries).bindLast
  apply (optStrb_reads hshrt.dedupeKey).bindLast
  apply (Reader.u8_reads (stateCode job.state)).bindLast
  apply (Reads.lift (stateFrom_stateCode job.state)).bindLast
  apply (optStrb_reads hshrt.leaseWorker).bindLast
  apply (optI64b_reads htyped.leaseUntil).bindLast
  apply (optStrb_reads hshrt.lastError).bindLast
  apply (optBytesb_reads hshrt.result).bindLast
  apply (Reader.u32_reads job.progressEntries).bindLast
  apply (Reader.u64_reads htyped.progressBytes).bindLast
  exact finished_readsLast job

theorem optString_yields {post : Bytes → Option String → Core.Reader → Prop}
    (hpost : ∀ text after, post (optStrb text) text after) : Yields Reader.optString post :=
  Reader.opt_yields Reader.string_yields hpost

theorem optI64_yields {post : Bytes → Option Int → Core.Reader → Prop}
    (hpost : ∀ instant after, post (optI64b instant) instant after) : Yields Reader.optI64 post :=
  Reader.opt_yields Reader.i64_yields hpost

theorem optBytes_yields {post : Bytes → Option Bytes → Core.Reader → Prop}
    (hpost : ∀ field after, post (optBytesb field) field after) : Yields Reader.optBytes post :=
  Reader.opt_yields Reader.bytes_yields hpost

theorem readJob_yields (id : JobId) :
    Yields (readJob id) (fun taken job after => after.rest = [] ∧ job.id = id ∧
      encodeJob job = taken) := by
  apply Yields.bind
  apply Reader.u64_yields
  intro stored _
  split
  · exact Yields.error _
  rename_i hid
  obtain rfl : stored = id := by
    by_contra hne
    exact hid hne
  apply Yields.bind (Reader.string_yields _)
  intro queue _
  apply Yields.bind (Reader.bytes_yields _)
  intro payload _
  apply Yields.bind (Reader.u32_yields _)
  intro priority _
  apply Yields.bind (Reader.i64_yields _)
  intro notBefore _
  apply Yields.bind (Reader.i64_yields _)
  intro createdAt _
  apply Yields.bind (Reader.i64_yields _)
  intro updatedAt _
  apply Yields.bind (optI64_yields _)
  intro freshUntil _
  apply Yields.bind (optI64_yields _)
  intro deadline _
  apply Yields.bind (Reader.u32_yields _)
  intro maxAttempts _
  apply Yields.bind (Reader.u32_yields _)
  intro attempts _
  apply Yields.bind (Reader.u32_yields _)
  intro leaseExpiries _
  apply Yields.bind (optString_yields _)
  intro dedupeKey _
  apply Yields.bind (Reader.u8_yields _)
  intro code _
  apply Yields.lift (stateFrom_sober code)
  intro state hst
  apply Yields.bind (optString_yields _)
  intro leaseWorker _
  apply Yields.bind (optI64_yields _)
  intro leaseUntil _
  apply Yields.bind (optString_yields _)
  intro lastError _
  apply Yields.bind (optBytes_yields _)
  intro result _
  apply Yields.bind (Reader.u32_yields _)
  intro progressEntries _
  apply Yields.bind (Reader.u64_yields _)
  intro progressBytes _
  apply finished_return_yields
  intro after hend
  refine ⟨hend, rfl, ?_⟩
  rw [encodeJob, stateCode_of_stateFrom hst]
  rfl

theorem fromCode_code (kind : AlertKind) :
    AlertKind.fromCode (UInt8.ofNat kind.code) = .ok kind := by
  cases kind <;> rfl

theorem code_of_fromCode {code : UInt8} {kind : AlertKind}
    (hkind : AlertKind.fromCode code = .ok kind) : UInt8.ofNat kind.code = code := by
  unfold AlertKind.fromCode at hkind
  split_ifs at hkind <;> cases hkind <;> next hcode => exact hcode.symm

theorem fromCode_sober (code : UInt8) : AlertKind.fromCode code ≠ .error .panic := by
  unfold AlertKind.fromCode
  split_ifs <;> intro hpan <;> cases hpan

theorem alertStateFrom_code (state : AlertState) :
    alertStateFrom (alertStateCode state) = .ok state := by
  cases state <;> rfl

theorem alertStateCode_of_from {code : UInt8} {state : AlertState}
    (hst : alertStateFrom code = .ok state) : alertStateCode state = code := by
  unfold alertStateFrom at hst
  split_ifs at hst <;> cases hst <;> next hcode => exact hcode.symm

theorem alertStateFrom_sober (code : UInt8) : alertStateFrom code ≠ .error .panic := by
  unfold alertStateFrom
  split_ifs <;> intro hpan <;> cases hpan

theorem readAlert_reads {alert : Alert} (htyped : alert.Typed) (hshrt : alert.Short) :
    ReadsLast (readAlert alert.job) (encodeAlert alert) alert := by
  apply (Reader.u64_reads htyped.seq).bindLast
  apply (Reader.string_reads hshrt.queue).bindLast
  apply (Reader.u8_reads (UInt8.ofNat alert.kind.code)).bindLast
  apply (Reads.lift (fromCode_code alert.kind)).bindLast
  apply (Reader.string_reads hshrt.reason).bindLast
  apply (Reader.i64_reads htyped.atMs.1 htyped.atMs.2).bindLast
  apply (Reader.u8_reads (alertStateCode alert.state)).bindLast
  apply (Reads.lift (alertStateFrom_code alert.state)).bindLast
  exact finished_readsLast alert

theorem readAlert_yields (id : JobId) :
    Yields (readAlert id) (fun taken alert after => after.rest = [] ∧ alert.job = id ∧
      encodeAlert alert = taken) := by
  apply Yields.bind (Reader.u64_yields _)
  intro seq _
  apply Yields.bind (Reader.string_yields _)
  intro queue _
  apply Yields.bind (Reader.u8_yields _)
  intro kindCode _
  apply Yields.lift (fromCode_sober kindCode)
  intro kind hkind
  apply Yields.bind (Reader.string_yields _)
  intro reason _
  apply Yields.bind (Reader.i64_yields _)
  intro atMs _
  apply Yields.bind (Reader.u8_yields _)
  intro stateByte _
  apply Yields.lift (alertStateFrom_sober stateByte)
  intro state hst
  apply finished_return_yields
  intro after hend
  refine ⟨hend, rfl, ?_⟩
  rw [encodeAlert, code_of_fromCode hkind, alertStateCode_of_from hst]
  rfl

end Records

section Lengths

theorem flatten_length_le {pieces : List Bytes} {bound : ℕ}
    (hpiec : ∀ piece ∈ pieces, piece.length ≤ bound) :
    pieces.flatten.length ≤ pieces.length * bound := by
  induction pieces with
  | nil => exact Nat.zero_le _
  | cons piece pieces ih =>
    have hpiece := hpiec piece mem_cons_self
    have hrest := ih (fun other hoth => hpiec other (mem_cons_of_mem _ hoth))
    rw [flatten_cons, length_append, length_cons, Nat.succ_mul]
    omega

theorem bytesb_length_le {field : Bytes} (hshrt : FitsU32 field) :
    (bytesb field).length ≤ 0x100000004 := by
  unfold FitsU32 at hshrt
  rw [bytesb, length_append, u32b, bigEndian_length]
  omega

theorem optb_length_le {put : Value → Bytes} {value : Option Value}
    (hput : ∀ inner ∈ value, (put inner).length ≤ 0x100000004) :
    (optb put value).length ≤ 0x100000005 := by
  cases value with
  | none => exact (by decide : 1 ≤ 0x100000005)
  | some inner => exact Nat.succ_le_succ (hput inner rfl)

theorem u64b_length_le (value : ℕ) : (u64b value).length ≤ 0x100000005 := by
  rw [u64b, bigEndian_length]
  decide

theorem u32b_length_le (value : UInt32) : (u32b value).length ≤ 0x100000005 := by
  rw [u32b, bigEndian_length]
  decide

theorem optI64b_length_le (value : Option Int) : (optI64b value).length ≤ 0x100000005 := by
  apply optb_length_le
  intro inner _
  rw [i64b, u64b, bigEndian_length]
  decide

theorem encodeJob_length_le {job : Job} (hshrt : job.Short) :
    (encodeJob job).length ≤ usizeMax := by
  have hfield : ∀ field, FitsU32 field → (bytesb field).length ≤ 0x100000005 :=
    fun field hfield => Nat.le_succ_of_le (bytesb_length_le hfield)
  have htext : ∀ {text : Option String}, (∀ inner ∈ text, FitsU32 (utf8 inner)) →
      (optStrb text).length ≤ 0x100000005 := by
    intro text hfits
    apply optb_length_le
    intro inner hinner
    exact bytesb_length_le (hfits inner hinner)
  apply Nat.le_trans (@flatten_length_le _ 0x100000005 ?_)
  · simp only [length_cons, length_nil]
    decide
  simp only [forall_mem_cons, u64b_length_le, u32b_length_le, optI64b_length_le, i64b,
    hfield _ hshrt.payload, true_and, not_mem_nil, false_imp_iff, implies_true, and_true]
  refine ⟨hfield _ hshrt.queue, htext hshrt.dedupeKey, by simp, htext hshrt.leaseWorker,
    htext hshrt.lastError, optb_length_le ?_⟩
  intro inner hinner
  exact bytesb_length_le (hshrt.result inner hinner)

theorem encodeAlert_length_le {alert : Alert} (hshrt : alert.Short) :
    (encodeAlert alert).length ≤ usizeMax := by
  have hfield : ∀ field, FitsU32 field → (bytesb field).length ≤ 0x100000005 :=
    fun field hfield => Nat.le_succ_of_le (bytesb_length_le hfield)
  apply Nat.le_trans (@flatten_length_le _ 0x100000005 ?_)
  · simp only [length_cons, length_nil]
    decide
  simp only [forall_mem_cons, u64b_length_le, i64b, true_and, not_mem_nil,
    false_imp_iff, implies_true, and_true]
  exact ⟨hfield _ hshrt.queue, by simp, hfield _ hshrt.reason, by simp⟩

end Lengths

theorem alertKeyId_alertKeyBytes {id : JobId} (hid : id ≤ u64Max) (kind : AlertKind) :
    alertKeyId (alertKeyBytes id kind) = some id := by
  have htail : ((alertKeyBytes id kind).drop 2).take 8 = bigEndian 8 id := by
    exact take_left' (bigEndian_length 8 id)
  have hlen : 2 + 8 ≤ (alertKeyBytes id kind).length := by
    have hpref : (utf8 "a/").length = 2 := rfl
    rw [alertKeyBytes, length_append, length_append, length_append, hpref, bigEndian_length]
    omega
  rw [alertKeyId, if_pos hlen, htail, fromBigEndian_bigEndian (Nat.lt_succ_of_le hid)]

/-- A record is read back as it was, from its own bytes and from no others, and
every other byte string is refused with an error. -/
theorem records_canonical :
    (∀ job : Job, job.Typed → job.Short → decodeJob job.id (encodeJob job) = .ok job) ∧
    (∀ id bytes job, decodeJob id bytes = .ok job → job.id = id ∧ encodeJob job = bytes) ∧
    (∀ id bytes, (∃ job, decodeJob id bytes = .ok job) ∨
      ∃ fault, decodeJob id bytes = .error (.error fault)) ∧
    (∀ alert : Alert, alert.Typed → alert.Short →
      decodeAlert (alertKeyBytes alert.job alert.kind) (encodeAlert alert) = .ok alert) ∧
    (∀ key bytes alert, decodeAlert key bytes = .ok alert →
      alertKeyId key = some alert.job ∧ encodeAlert alert = bytes) ∧
    ∀ key bytes, (∃ alert, decodeAlert key bytes = .ok alert) ∨
      ∃ fault, decodeAlert key bytes = .error (.error fault) := by
  refine ⟨?_, ?_, ?_, ?_, ?_, ?_⟩
  · intro job htyped hshort
    exact (readJob_reads htyped hshort).whole (encodeJob_length_le hshort)
  · intro id bytes job hdecoded
    exact (readJob_yields id).whole hdecoded
  · intro id bytes
    exact (readJob_yields id).whole_ends bytes
  · intro alert htyped hshort
    rw [decodeAlert, alertKeyId_alertKeyBytes htyped.job]
    exact (readAlert_reads htyped hshort).whole (encodeAlert_length_le hshort)
  · intro key bytes alert hdecoded
    unfold decodeAlert at hdecoded
    split at hdecoded
    · next id hid =>
      obtain ⟨hjob, hencoded⟩ := (readAlert_yields id).whole hdecoded
      exact ⟨by rw [hid, hjob], hencoded⟩
    · cases hdecoded
  intro key bytes
  unfold decodeAlert
  split
  · next id _ => exact (readAlert_yields id).whole_ends bytes
  · exact Or.inr ⟨_, rfl⟩

def storedJob : Job where
  id := 7
  queue := "mail"
  payload := [0, 255]
  priority := 3
  notBefore := -1
  freshUntil := none
  deadline := some 60000
  maxAttempts := 5
  attempts := 1
  leaseExpiries := 2
  dedupeKey := some "k"
  state := .leased
  leaseWorker := some "node-1"
  leaseUntil := some 90000
  lastError := some "böse"
  result := some []
  progressEntries := 1
  progressBytes := 12
  createdAt := 10
  updatedAt := 20

theorem records_storedJob :
    decodeJob 7 (encodeJob storedJob) = .ok storedJob ∧
      ∀ bytes, decodeJob 7 bytes = .ok storedJob → bytes = encodeJob storedJob := by
  refine ⟨records_canonical.1 storedJob ?_ ?_, ?_⟩
  · refine ⟨by decide, by decide, by decide, by decide, ?_, ?_, ?_, by decide⟩ <;>
      intro instant hinstant <;> cases hinstant <;> decide
  · refine ⟨by decide, by decide, ?_, ?_, ?_, ?_⟩ <;>
      intro field hfield <;> cases hfield <;> decide
  · intro bytes hdecoded
    exact (records_canonical.2.1 7 bytes storedJob hdecoded).2.symm

end WasmAgent.Queue
