import WasmAgent.Bounded.Replay

/-!
# Replay files read back

What is read of a record is what its bytes were written from, and the bytes of a record
are no others.
-/

namespace WasmAgent.Bounded

open List WasmAgent.Core

namespace Payload

/-- As the file holds it: a length of 32 bits, and the digest of the bytes themselves. -/
def Stored : Payload → Prop
  | .inline proof bytes => bytes.length ≤ u32Max ∧ proof = sha256 bytes
  | _ => True

end Payload

namespace Record

/-- As the file holds it. -/
structure Stored (record : Record) : Prop where
  ts : ∃ ms, record.ts = fromMillis ms
  duration : ∃ micros : UInt32, record.duration = micros.toNat * 1000
  interface : (utf8 record.interface).length ≤ u16Max
  function : (utf8 record.function).length ≤ u16Max
  args : record.args.Stored
  result : record.result.Stored

def bytes (record : Record) : Bytes :=
  littleEndian 8 record.seq.toNat ++ (littleEndian 8 (millis record.ts) ++
    (littleEndian 4 (durationMicros record.duration) ++ (strBytes record.interface ++
      (strBytes record.function ++ (putPayload record.args ++ putPayload record.result)))))

/-- Whole milliseconds, and whole microseconds up to the largest of 32 bits. -/
def truncated (record : Record) : Record :=
  { record with
    ts := record.ts.tdiv 1000000 * 1000000
    duration := durationMicros record.duration * 1000 }

end Record

variable {bytes : Bytes}

section Encoding

theorem putStr_ok_iff {text : String} :
    putStr text = .ok bytes ↔ (utf8 text).length ≤ u16Max ∧ bytes = strBytes text := by
  rw [putStr]
  split
  · next hlong =>
    constructor
    · intro hok
      cases hok
    · intro hok
      exact absurd hlong (Nat.not_lt.mpr hok.1)
  rename_i hshrt
  constructor
  · intro hok
    cases hok
    exact ⟨Nat.le_of_not_lt hshrt, rfl⟩
  · intro hok
    rw [hok.2]

theorem putStr_of_short {text : String} (hshrt : (utf8 text).length ≤ u16Max) :
    putStr text = .ok (strBytes text) :=
  putStr_ok_iff.mpr ⟨hshrt, rfl⟩

theorem encodeRecord_ok_iff {record : Record} :
    encodeRecord record = .ok bytes ↔ (utf8 record.interface).length ≤ u16Max ∧
      (utf8 record.function).length ≤ u16Max ∧ bytes = record.bytes := by
  constructor
  · intro hok
    rw [encodeRecord] at hok
    cases hitf : putStr record.interface with
    | error why =>
      rw [hitf] at hok
      cases hok
    | ok interface =>
      cases hfun : putStr record.function with
      | error why =>
        rw [hitf, hfun] at hok
        cases hok
      | ok function =>
        rw [hitf, hfun] at hok
        cases hok
        obtain ⟨hfst, rfl⟩ := putStr_ok_iff.mp hitf
        obtain ⟨hsnd, rfl⟩ := putStr_ok_iff.mp hfun
        exact ⟨hfst, hsnd, rfl⟩
  · rintro ⟨hitf, hfun, rfl⟩
    rw [encodeRecord, putStr_of_short hitf, putStr_of_short hfun]
    rfl

theorem encodeRecords_ok_iff {records : List Record} :
    encodeRecords records = .ok bytes ↔
      (∀ record ∈ records, (utf8 record.interface).length ≤ u16Max ∧
        (utf8 record.function).length ≤ u16Max) ∧ bytes = records.flatMap Record.bytes := by
  induction records generalizing bytes with
  | nil =>
    constructor
    · intro hok
      cases hok
      exact ⟨nofun, rfl⟩
    · intro hok
      rw [hok.2]
      rfl
  | cons record records ih =>
    constructor
    · intro hok
      rw [encodeRecords] at hok
      cases hfst : encodeRecord record with
      | error why =>
        rw [hfst] at hok
        cases hok
      | ok first =>
        cases hrest : encodeRecords records with
        | error why =>
          rw [hfst, hrest] at hok
          cases hok
        | ok rest =>
          rw [hfst, hrest] at hok
          cases hok
          obtain ⟨hitf, hfun, rfl⟩ := encodeRecord_ok_iff.mp hfst
          obtain ⟨hnames, rfl⟩ := ih.mp hrest
          refine ⟨?_, rfl⟩
          intro other hoth
          cases mem_cons.mp hoth with
          | inl hsame => exact hsame ▸ ⟨hitf, hfun⟩
          | inr hoth => exact hnames other hoth
    rintro ⟨hnames, rfl⟩
    have hrec := hnames record mem_cons_self
    have hrest := ih.mpr ⟨fun other hoth => hnames other (mem_cons_of_mem _ hoth), rfl⟩
    rw [encodeRecords, encodeRecord_ok_iff.mpr ⟨hrec.1, hrec.2, rfl⟩, hrest]
    rfl

end Encoding

section Strings

variable {Value : Type} {next : String → Reading Error Value}

theorem str_reads {text : String} {rest : Bytes} {result : Value}
    (hshrt : (utf8 text).length ≤ u16Max) (hnext : Reads (next text) rest result) :
    Reads (do
      let len ← Cursor.u16
      let text ← Cursor.text len.toNat
      next text) (strBytes text ++ rest) result := by
  rw [strBytes, append_assoc]
  apply (Cursor.u16_reads hshrt).bind
  rw [UInt16.toNat_ofNat_of_lt' (Nat.lt_succ_of_le hshrt)]
  exact (Cursor.text_reads text).bind hnext

theorem str_yields {post : Bytes → Value → Reader → Prop}
    (hnext : ∀ text, (utf8 text).length ≤ u16Max →
      Yields (next text) (fun rest result after => post (strBytes text ++ rest) result after)) :
    Yields (do
      let len ← Cursor.u16
      let text ← Cursor.text len.toNat
      next text) post := by
  apply Yields.bind
  apply Cursor.u16_yields
  intro len _
  apply Yields.bind
  apply Cursor.text_yields
  intro text _ hlen
  have hshrt : (utf8 text).length ≤ u16Max := by
    rw [hlen]
    exact Nat.le_of_lt_succ len.toNat_lt
  apply (hnext text hshrt).weaken
  intro rest result after hpost
  rwa [strBytes, hlen, append_assoc] at hpost

end Strings

section Records

theorem parsePayload_reads {payload : Payload} (hsto : payload.Stored) :
    Reads parsePayload (putPayload payload) payload := by
  cases payload with
  | empty => exact (Cursor.u8_reads 0).bind (Reads.pure _)
  | inline digest bytes =>
    obtain ⟨hshrt, rfl⟩ := hsto
    apply (Cursor.u8_reads 1).bind
    apply (Cursor.u32_reads hshrt).bind
    rw [UInt32.toNat_ofNat_of_lt' (Nat.lt_succ_of_le hshrt)]
    exact (Cursor.take_reads bytes).bindNil (Reads.pure _)
  | digest digest len =>
    apply (Cursor.u8_reads 2).bind
    apply (Cursor.digest_reads digest).bind
    have hlen := Cursor.u64_reads (Nat.le_of_lt_succ len.toNat_lt)
    rw [UInt64.ofNat_toNat] at hlen
    exact hlen.bindNil (Reads.pure _)
  | blob reference =>
    apply (Cursor.u8_reads 3).bind
    apply (Cursor.digest_reads reference.key.digest).bind
    have hlen := Cursor.u64_reads (Nat.le_of_lt_succ reference.len.toNat_lt)
    rw [UInt64.ofNat_toNat] at hlen
    exact hlen.bindNil (Reads.pure _)

theorem parsePayload_yields {post : Bytes → Payload → Reader → Prop}
    (hpost : ∀ payload after, payload.Stored → post (putPayload payload) payload after) :
    Yields parsePayload post := by
  apply Yields.bind
  apply Cursor.u8_yields
  intro tag _
  split
  · next htag =>
    apply Yields.pure
    intro after
    rw [htag]
    exact hpost .empty after trivial
  split
  · next htag =>
    rw [htag]
    apply Yields.bind
    apply Cursor.u32_yields
    intro len _
    apply Yields.bind
    apply Cursor.take_yields
    intro bytes _ hlen
    apply Yields.pure
    intro after
    rw [append_nil, ← hlen]
    apply hpost (.inline (sha256 bytes) bytes) after
    refine ⟨?_, rfl⟩
    rw [hlen]
    exact Nat.le_of_lt_succ len.toNat_lt
  split
  · next htag =>
    rw [htag]
    apply Yields.bind
    apply Cursor.digest_yields
    intro digest _
    apply Yields.bind
    apply Cursor.u64_yields
    intro len _
    apply Yields.pure
    intro after
    exact hpost (.digest digest len) after trivial
  split
  · next htag =>
    rw [htag]
    apply Yields.bind
    apply Cursor.digest_yields
    intro digest _
    apply Yields.bind
    apply Cursor.u64_yields
    intro len _
    apply Yields.pure
    intro after
    exact hpost (.blob ⟨⟨digest⟩, len⟩) after trivial
  · exact Yields.error _

theorem millis_fromMillis (ms : UInt64) : millis (fromMillis ms) = ms.toNat := by
  have hbound := Nat.le_of_lt_succ ms.toNat_lt
  rw [millis, since, fromMillis, u64Max]
  omega

theorem durationMicros_whole (micros : UInt32) : durationMicros (micros.toNat * 1000) = micros.toNat := by
  have hbound := Nat.le_of_lt_succ micros.toNat_lt
  rw [durationMicros, Nat.mul_div_cancel _ (by decide)]
  exact Nat.min_eq_left hbound

theorem readRecord_reads {record : Record} (hsto : record.Stored) :
    Reads readRecord record.bytes record := by
  obtain ⟨seq, ts, interface, function, args, result, duration⟩ := record
  obtain ⟨⟨ms, hms⟩, ⟨micros, hmic⟩, hitf, hfun, hargs, hres⟩ := hsto
  subst hms hmic
  have hseq := Cursor.u64_reads (Nat.le_of_lt_succ seq.toNat_lt)
  have hmil := Cursor.u64_reads (Nat.le_of_lt_succ ms.toNat_lt)
  have hdur := Cursor.u32_reads (Nat.le_of_lt_succ micros.toNat_lt)
  rw [UInt64.ofNat_toNat] at hseq hmil
  rw [UInt32.ofNat_toNat] at hdur
  rw [Record.bytes, millis_fromMillis, durationMicros_whole]
  apply hseq.bind
  apply hmil.bind
  apply hdur.bind
  apply str_reads hitf
  apply str_reads hfun
  apply (parsePayload_reads hargs).bind
  exact (parsePayload_reads hres).bindNil (Reads.pure _)

theorem readRecord_yields {post : Bytes → Record → Reader → Prop}
    (hpost : ∀ record after, record.Stored → post record.bytes record after) :
    Yields readRecord post := by
  apply Yields.bind
  apply Cursor.u64_yields
  intro seq _
  apply Yields.bind
  apply Cursor.u64_yields
  intro ms _
  apply Yields.bind
  apply Cursor.u32_yields
  intro micros _
  apply str_yields
  intro interface hitf
  apply str_yields
  intro function hfun
  apply Yields.bind
  apply parsePayload_yields
  intro args _ hargs
  apply Yields.bind
  apply parsePayload_yields
  intro result _ hres
  apply Yields.pure
  intro after
  have hrec := hpost ⟨seq, fromMillis ms, interface, function, args, result,
    micros.toNat * 1000⟩ after ⟨⟨ms, rfl⟩, ⟨micros, rfl⟩, hitf, hfun, hargs, hres⟩
  rwa [Record.bytes, millis_fromMillis, durationMicros_whole, ← append_nil (putPayload result)]
    at hrec

end Records

section Headers

theorem blobBytes_length (blob : BlobRef) : (blobBytes blob).length = 40 := by
  rw [blobBytes, length_append, littleEndian_length, blob.key.digest.property]

variable (blobs : List BlobRef)

theorem tableBytes_length : (blobs.flatMap blobBytes).length = blobs.length * 40 := by
  induction blobs with
  | nil => rfl
  | cons blob blobs ih =>
    rw [flatMap_cons, length_append, blobBytes_length, ih, length_cons]
    omega

theorem readBlobs_reads : Reads (readBlobs blobs.length) (blobs.flatMap blobBytes) blobs := by
  induction blobs with
  | nil => exact Reads.pure _
  | cons blob blobs ih =>
    rw [flatMap_cons, blobBytes, append_assoc]
    apply (Cursor.digest_reads blob.key.digest).bind
    have hlen := Cursor.u64_reads (Nat.le_of_lt_succ blob.len.toNat_lt)
    rw [UInt64.ofNat_toNat] at hlen
    apply hlen.bind
    exact ih.bindNil (Reads.pure _)

theorem readTable_reads : Reads (readTable blobs.length) (blobs.flatMap blobBytes) blobs := by
  intro before after hshrt hpas
  have hlen := congrArg length hpas.rest
  rw [length_append, tableBytes_length, Reader.rest, length_drop] at hlen
  change (if _ then _ else _ : Reading Error (List BlobRef)) before = _
  rw [if_neg (by omega)]
  exact readBlobs_reads blobs before after hshrt hpas

theorem readBlobs_yields (count : ℕ) :
    Yields (readBlobs count) (fun _ blobs _ => blobs.length = count) := by
  induction count with
  | zero => exact Yields.pure (fun _ => rfl)
  | succ count ih =>
    apply Yields.bind
    apply Cursor.digest_yields
    intro key _
    apply Yields.bind
    apply Cursor.u64_yields
    intro len _
    apply Yields.bind
    apply ih.weaken
    intro _ rest _ hlen
    exact Yields.pure (fun _ => congrArg (· + 1) hlen)

theorem readTable_yields (count : ℕ) :
    Yields (readTable count) (fun _ blobs _ => blobs.length = count) := by
  apply Yields.look
  intro reader
  split
  · exact Yields.error _
  · exact readBlobs_yields count

theorem readFields_yields (version flags : UInt16) :
    Yields (readFields version flags) (fun _ header _ => header.blobs.length ≤ u32Max) := by
  apply Yields.bind
  apply Cursor.u64_yields
  intro created _
  apply Yields.bind
  apply Cursor.u64_yields
  intro records _
  apply Yields.bind
  apply Cursor.u64_yields
  intro bodyLen _
  apply Yields.bind
  apply Cursor.digest_yields
  intro bodySha256 _
  apply Yields.bind
  apply Cursor.u64_yields
  intro maxAge _
  apply Yields.bind
  apply Cursor.u64_yields
  intro maxBytes _
  apply Yields.bind
  apply Cursor.u64_yields
  intro blobThreshold _
  apply Yields.bind
  apply Cursor.u8_yields
  intro keepArgs _
  apply str_yields
  intro trigger _
  apply str_yields
  intro label _
  apply Yields.bind
  apply Cursor.u32_yields
  intro blobCount _
  apply Yields.bind
  apply (readTable_yields blobCount.toNat).weaken
  intro _ blobs _ hlen
  apply Yields.pure
  intro _
  rw [hlen]
  exact Nat.le_of_lt_succ blobCount.toNat_lt

theorem readHeader_yields : Yields readHeader (fun _ header _ => header.blobs.length ≤ u32Max) := by
  apply Yields.bind
  apply Cursor.take_yields
  intro found _ _
  split
  · exact Yields.error _
  apply Yields.bind
  apply Cursor.u16_yields
  intro version _
  split
  · exact Yields.error _
  split
  · exact Yields.error _
  apply Yields.bind
  apply Cursor.u16_yields
  intro flags _
  split
  · exact Yields.error _
  · exact readFields_yields version flags

theorem parseHeader_sober (bytes : Bytes) : parseHeader bytes ≠ .error .panic := by
  intro hpan
  rw [parseHeader] at hpan
  cases hread : readHeader (Reader.new bytes) with
  | error stop =>
    rw [hread] at hpan
    cases hpan
    exact readHeader_yields.sober _ hread
  | ok reached =>
    rw [hread] at hpan
    cases hpan

theorem parseHeader_inside {header : ReplayHeader} {start : ℕ}
    (hpar : parseHeader bytes = .ok (header, start)) :
    start ≤ bytes.length ∧ header.blobs.length ≤ u32Max := by
  rw [parseHeader] at hpar
  cases hread : readHeader (Reader.new bytes) with
  | error stop =>
    rw [hread] at hpar
    cases hpar
  | ok reached =>
    rw [hread] at hpar
    cases hpar
    obtain ⟨_, hpas, htable⟩ := readHeader_yields.takes _ reached.1 reached.2 hread
    have hins := reached.2.inside
    rw [hpas.buf] at hins
    exact ⟨hins, htable⟩

def headerOf (cfg : RingConfig) (records : List Record) (createdMs : ℕ) (body : Bytes)
    (trigger : Trigger) (label : String) (blobs : List BlobRef) : ReplayHeader where
  version := formatVersion
  flags := flagKnown
  created := fromMillis (UInt64.ofNat createdMs)
  records := UInt64.ofNat records.length
  bodyLen := UInt64.ofNat body.length
  bodySha256 := sha256 body
  trigger := Trigger.parse trigger.asStr
  label := label
  blobs := blobs
  ring := ⟨cfg.maxBytes, (UInt64.ofNat (durationMillis cfg.maxAge)).toNat * 1000000,
    cfg.blobThreshold, cfg.keepArgs⟩

section Saved

variable {cfg : RingConfig} {records : List Record} {createdMs : ℕ} {body : Bytes}
variable {trigger : Trigger} {label : String} {blobs : List BlobRef} {file : Bytes}

variable (hok : putHeader cfg records createdMs body trigger label blobs = .ok file)
include hok

theorem putHeader_ok :
    (utf8 trigger.asStr).length ≤ u16Max ∧ (utf8 label).length ≤ u16Max ∧
      file = magic ++ (littleEndian 2 formatVersion.toNat ++ (littleEndian 2 flagKnown.toNat ++
        (littleEndian 8 createdMs ++ (littleEndian 8 records.length ++
        (littleEndian 8 body.length ++ ((sha256 body).val ++
        (littleEndian 8 (durationMillis cfg.maxAge) ++ (littleEndian 8 cfg.maxBytes.toNat ++
        (littleEndian 8 cfg.blobThreshold.toNat ++ ((if cfg.keepArgs then [1] else [0]) ++
        (strBytes trigger.asStr ++ (strBytes label ++ (littleEndian 4 blobs.length ++
        blobs.flatMap blobBytes))))))))))))) := by
  rw [putHeader] at hok
  cases htrig : putStr trigger.asStr with
  | error why =>
    rw [htrig] at hok
    cases hok
  | ok triggerBytes =>
    cases hlabel : putStr label with
    | error why =>
      rw [htrig, hlabel] at hok
      cases hok
    | ok labelBytes =>
      rw [htrig, hlabel] at hok
      cases hok
      obtain ⟨hfst, rfl⟩ := putStr_ok_iff.mp htrig
      obtain ⟨hsnd, rfl⟩ := putStr_ok_iff.mp hlabel
      exact ⟨hfst, hsnd, rfl⟩

theorem readHeader_reads (hcre : createdMs ≤ u64Max) (hrecs : records.length ≤ u64Max)
    (hbody : body.length ≤ u64Max) (hblobs : blobs.length ≤ u32Max) :
    Reads readHeader file (headerOf cfg records createdMs body trigger label blobs) := by
  obtain ⟨htrig, hlabel, rfl⟩ := putHeader_ok hok
  have hmaxBytes := Cursor.u64_reads (Nat.le_of_lt_succ cfg.maxBytes.toNat_lt)
  have hthr := Cursor.u64_reads (Nat.le_of_lt_succ cfg.blobThreshold.toNat_lt)
  have hkeep : Reads Cursor.u8 (if cfg.keepArgs then [1] else [0])
      (if cfg.keepArgs then 1 else 0) := by
    split
    · exact Cursor.u8_reads 1
    · exact Cursor.u8_reads 0
  have hflag : decide ((if cfg.keepArgs then 1 else 0 : UInt8) ≠ 0) = cfg.keepArgs := by
    cases cfg.keepArgs <;> rfl
  rw [UInt64.ofNat_toNat] at hmaxBytes hthr
  apply (Cursor.take_reads magic).bind
  rw [if_neg (fun hoth => hoth rfl)]
  apply (Cursor.u16_reads (show formatVersion.toNat ≤ u16Max by decide)).bind
  rw [UInt16.ofNat_toNat, if_neg (by decide), if_neg (by decide)]
  apply (Cursor.u16_reads (show flagKnown.toNat ≤ u16Max by decide)).bind
  rw [UInt16.ofNat_toNat, if_neg (by decide)]
  apply (Cursor.u64_reads hcre).bind
  apply (Cursor.u64_reads hrecs).bind
  apply (Cursor.u64_reads hbody).bind
  apply (Cursor.digest_reads (sha256 body)).bind
  apply (Cursor.u64_reads (Nat.min_le_right _ _)).bind
  apply hmaxBytes.bind
  apply hthr.bind
  apply hkeep.bind
  apply str_reads htrig
  apply str_reads hlabel
  apply (Cursor.u32_reads hblobs).bind
  rw [UInt32.toNat_ofNat_of_lt' (Nat.lt_succ_of_le hblobs)]
  apply (readTable_reads blobs).bindNil
  rw [headerOf, hflag]
  exact Reads.pure _

omit hok

theorem parseHeader_of_put (rest : Bytes)
    (hok : putHeader cfg records createdMs body trigger label blobs = .ok file)
    (hcre : createdMs ≤ u64Max) (hrecs : records.length ≤ u64Max) (hbody : body.length ≤ u64Max)
    (hblobs : blobs.length ≤ u32Max) (hfits : (file ++ rest).length ≤ usizeMax) :
    parseHeader (file ++ rest) =
      .ok (headerOf cfg records createdMs body trigger label blobs, file.length) := by
  have hins : file.length ≤ (file ++ rest).length := by
    rw [length_append]
    exact Nat.le_add_right _ _
  have hread := readHeader_reads hok hcre hrecs hbody hblobs (Reader.new (file ++ rest))
    ⟨file ++ rest, file.length, hins⟩ hfits
    ⟨rfl, by rw [Reader.rest, Reader.rest, drop_left]; rfl⟩
  rw [parseHeader, hread]
  rfl

end Saved

end Headers

section Streams

variable {body rest : Bytes} {pos : ℕ} {record : Record}

theorem readRecord_stored :
    Yields readRecord (fun bytes record _ => bytes = record.bytes ∧ record.Stored) :=
  readRecord_yields (fun _ _ hsto => ⟨rfl, hsto⟩)

theorem slice_rest (hpos : pos ≤ body.length) :
    (Reader.slice body pos body.length : Except (Stop Error) Bytes) = .ok (body.drop pos) := by
  rw [Reader.slice, if_pos ⟨hpos, Nat.le_refl _⟩, take_of_length_le (Nat.le_of_eq length_drop)]

theorem parseRecord_eq (hpos : pos ≤ body.length) :
    parseRecord body pos = (readRecord (Reader.new (body.drop pos))).map
      (fun reached => (reached.1, pos + reached.2.offset)) := by
  rw [parseRecord, slice_rest hpos]
  change (readRecord (Reader.new (body.drop pos)) >>= _) = _
  cases readRecord (Reader.new (body.drop pos)) <;> rfl

theorem parseRecord_of_drop (hsto : record.Stored) (hfits : body.length ≤ usizeMax)
    (hpos : pos ≤ body.length) (hrest : body.drop pos = record.bytes ++ rest) :
    parseRecord body pos = .ok (record, pos + record.bytes.length) := by
  have hins : record.bytes.length ≤ (body.drop pos).length := by
    rw [hrest, length_append]
    exact Nat.le_add_right _ _
  have hshrt : (body.drop pos).length ≤ usizeMax := by
    rw [length_drop]
    omega
  have hcut : (body.drop pos).drop record.bytes.length = rest := by
    rw [hrest, drop_left]
  have hpas : (Reader.new (body.drop pos)).Passes record.bytes
      ⟨body.drop pos, record.bytes.length, hins⟩ := by
    refine ⟨rfl, ?_⟩
    change body.drop pos = record.bytes ++ (body.drop pos).drop record.bytes.length
    rw [hcut]
    exact hrest
  rw [parseRecord_eq hpos, readRecord_reads hsto _ _ hshrt hpas]
  rfl

theorem drop_of_parseRecord {next : ℕ} (hpos : pos ≤ body.length)
    (hpar : parseRecord body pos = .ok (record, next)) :
    record.Stored ∧ next ≤ body.length ∧ body.drop pos = record.bytes ++ body.drop next := by
  rw [parseRecord_eq hpos] at hpar
  cases hread : readRecord (Reader.new (body.drop pos)) with
  | error stop =>
    rw [hread] at hpar
    cases hpar
  | ok reached =>
    rw [hread] at hpar
    cases hpar
    obtain ⟨bytes, hpas, rfl, hsto⟩ := readRecord_stored.takes _ _ _ hread
    have hbuf : reached.2.buf = body.drop pos := hpas.buf
    have hins := reached.2.inside
    have hrest := hpas.rest
    rw [Reader.rest, Reader.rest, hbuf, drop_drop] at hrest
    rw [hbuf, length_drop] at hins
    exact ⟨hsto, by omega, hrest⟩

theorem parseRecord_sober (hpos : pos ≤ body.length) : parseRecord body pos ≠ .error .panic := by
  intro hpan
  rw [parseRecord_eq hpos] at hpan
  cases hread : readRecord (Reader.new (body.drop pos)) with
  | error stop =>
    rw [hread] at hpan
    cases hpan
    exact readRecord_stored.sober _ hread
  | ok reached =>
    rw [hread] at hpan
    cases hpan

structure Underway (steps : ℕ) (reader : ReplayReader) : Prop where
  open_ : reader.failed = false
  inside : reader.pos ≤ reader.body.length
  left : reader.read + steps = reader.header.records.toNat

variable {reader : ReplayReader} {steps : ℕ}

theorem nextRecord_eq (hund : Underway (steps + 1) reader) :
    reader.nextRecord = match parseRecord reader.body reader.pos with
      | .ok (record, pos) =>
          (.ok (some record), { reader with pos := pos, read := reader.read + 1 })
      | .error stop => (.error stop, { reader with failed := true }) := by
  have hlt := hund.left
  have hmore : ¬ decide (reader.header.records.toNat ≤ reader.read) = true := by
    rw [decide_eq_true_iff]
    omega
  rw [ReplayReader.nextRecord, hund.open_, Bool.false_or]
  refine (if_neg hmore).trans ?_
  cases parseRecord reader.body reader.pos <;> rfl

theorem Underway.next {next : ℕ} (hund : Underway (steps + 1) reader)
    (hnext : next ≤ reader.body.length) :
    Underway steps { reader with pos := next, read := reader.read + 1 } where
  open_ := hund.open_
  inside := hnext
  left := by
    have hlt := hund.left
    change reader.read + 1 + steps = reader.header.records.toNat
    omega

variable {records : List Record}

theorem collect_of_drop {reader : ReplayReader} (hund : Underway records.length reader)
    (hfits : reader.body.length ≤ usizeMax) (hsto : ∀ record ∈ records, record.Stored)
    (hrest : reader.body.drop reader.pos = records.flatMap Record.bytes ++ rest) :
    reader.collect records.length = .ok records := by
  induction records generalizing reader with
  | nil => rfl
  | cons record records ih =>
    rw [flatMap_cons, append_assoc] at hrest
    have hpar := parseRecord_of_drop (hsto record mem_cons_self) hfits hund.inside hrest
    obtain ⟨-, hins, hdrop⟩ := drop_of_parseRecord hund.inside hpar
    rw [hdrop] at hrest
    have hltr := ih (hund.next hins) hfits
      (fun other hoth => hsto other (mem_cons_of_mem _ hoth))
      (append_cancel_left hrest)
    rw [length_cons, ReplayReader.collect, nextRecord_eq hund, hpar]
    change (record :: ·) <$> ReplayReader.collect records.length _ = _
    rw [hltr]
    rfl

theorem drop_of_collect (hund : Underway steps reader)
    (hcoll : reader.collect steps = .ok records) :
    records.length = steps ∧ (∀ record ∈ records, record.Stored) ∧
      ∃ rest, reader.body.drop reader.pos = records.flatMap Record.bytes ++ rest := by
  induction steps generalizing reader records with
  | zero =>
    cases hcoll
    exact ⟨rfl, nofun, _, rfl⟩
  | succ steps ih =>
    rw [ReplayReader.collect, nextRecord_eq hund] at hcoll
    cases hpar : parseRecord reader.body reader.pos with
    | error stop =>
      rw [hpar] at hcoll
      cases hcoll
    | ok found =>
      rw [hpar] at hcoll
      obtain ⟨hsto, hins, hdrop⟩ := drop_of_parseRecord hund.inside hpar
      change (found.1 :: ·) <$> ReplayReader.collect steps _ = _ at hcoll
      cases hltr : ReplayReader.collect steps
          { reader with pos := found.2, read := reader.read + 1 } with
      | error stop =>
        rw [hltr] at hcoll
        cases hcoll
      | ok later =>
        rw [hltr] at hcoll
        cases hcoll
        obtain ⟨hlen, hall, rest, hrest⟩ := ih (hund.next hins) hltr
        refine ⟨congrArg (· + 1) hlen, ?_, rest, ?_⟩
        · intro record hrec
          cases mem_cons.mp hrec with
          | inl hsame => exact hsame ▸ hsto
          | inr hrec => exact hall record hrec
        · rw [hdrop, flatMap_cons, append_assoc]
          exact congrArg (found.1.bytes ++ ·) hrest

theorem collect_sober (hund : Underway steps reader) : reader.collect steps ≠ .error .panic := by
  induction steps generalizing reader with
  | zero => nofun
  | succ steps ih =>
    intro hpan
    rw [ReplayReader.collect, nextRecord_eq hund] at hpan
    cases hpar : parseRecord reader.body reader.pos with
    | error stop =>
      rw [hpar] at hpan
      cases hpan
      exact parseRecord_sober hund.inside hpar
    | ok found =>
      rw [hpar] at hpan
      obtain ⟨-, hins, -⟩ := drop_of_parseRecord hund.inside hpar
      change (found.1 :: ·) <$> ReplayReader.collect steps _ = _ at hpan
      cases hltr : ReplayReader.collect steps
          { reader with pos := found.2, read := reader.read + 1 } with
      | ok later =>
        rw [hltr] at hpan
        cases hpan
      | error stop =>
        rw [hltr] at hpan
        cases hpan
        exact ih (hund.next hins) hltr

end Streams

end WasmAgent.Bounded
