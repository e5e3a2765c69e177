import WasmAgent.Sink.Codec

/-!
# Frames read back

What is read of a frame is what it was written from.  Of the frames that are read, those
that writing gives are the ones that list the attributes of each record in the order of
their keys.
-/

namespace WasmAgent.Sink

open List WasmAgent.Core

section Lengths

@[simp]
theorem putId_length (id : Id) : (putId id).length = idLen id := by
  rw [putId, length_append, littleEndian_length, idLen]

@[simp]
theorem putTrace_length (trace : Option TraceId) : (putTrace trace).length = traceLen trace := by
  cases trace with
  | none => rfl
  | some trace =>
    rw [putTrace, length_cons, trace.property]
    rfl

theorem putAttr_length (attr : Attr) :
    (putAttr attr).length = idLen attr.key + 1 + valueLen attr.value := by
  obtain ⟨key, value⟩ := attr
  rw [putAttr, length_append, putId_length, Nat.add_assoc]
  congr 1
  cases value with
  | id id => rw [putValue, length_cons, putId_length, Nat.add_comm]; rfl
  | count value => rw [putValue, length_cons, littleEndian_length]; rfl
  | digest len hash =>
    rw [putValue, length_cons, length_append, littleEndian_length, littleEndian_length]
    rfl
  | redacted => rfl

@[simp]
theorem putAttrs_length (attrs : Attrs) : (putAttrs attrs.entries).length = attrsLen attrs := by
  have hfold : ∀ (entries : List Attr) (start : ℕ),
      entries.foldl (fun total attr => total + idLen attr.key + 1 + valueLen attr.value) start =
        start + (entries.flatMap putAttr).length := by
    intro entries
    induction entries with
    | nil => exact fun start => rfl
    | cons attr entries ih =>
      intro start
      rw [foldl_cons, ih, flatMap_cons, length_append, putAttr_length]
      omega
  rw [putAttrs, attrsLen, hfold, length_cons, Nat.add_comm]

theorem putRecord_length (record : Record) : (putRecord record).length = record.encodedLen := by
  rw [putRecord, length_append, putAttrs_length]
  cases record with
  | span span =>
    simp only [putFields, length_cons, length_append, putId_length, littleEndian_length,
      putTrace_length, Record.encodedLen, Record.attrs]
    omega
  | metric metric =>
    simp only [putFields, length_cons, length_append, putId_length, littleEndian_length,
      Record.encodedLen, Record.attrs]
    omega
  | event event =>
    simp only [putFields, length_cons, length_append, putId_length, littleEndian_length,
      putTrace_length, Record.encodedLen, Record.attrs]
    omega

theorem putHeader_length (count : ℕ) : (putHeader count).length = headerBytes := by
  rw [putHeader, length_append, littleEndian_length]
  rfl

theorem putRecords_length (records : List Record) :
    (records.flatMap putRecord).length = (records.map Record.encodedLen).sum := by
  rw [length_flatMap]
  congr 2
  funext record
  exact putRecord_length record

theorem encode_ok_iff {records : List Record} {frame : Bytes} :
    encode records = .ok frame ↔ records.length ≤ maxRecords ∧ frame.length ≤ maxFrameBytes ∧
      frame = putHeader records.length ++ records.flatMap putRecord := by
  have hlen : (putHeader records.length ++ records.flatMap putRecord).length =
      headerBytes + (records.map Record.encodedLen).sum := by
    rw [length_append, putHeader_length, putRecords_length]
  rw [encode, ← hlen]
  split
  · next hmany => exact ⟨nofun, fun h => absurd hmany (Nat.not_lt.mpr h.1)⟩
  rename_i hfew
  split
  · next hlarge =>
    constructor
    · nofun
    · intro h
      rw [← h.2.2] at hlarge
      exact absurd hlarge (Nat.not_lt.mpr h.2.1)
  rename_i hsmall
  constructor
  · intro hok
    cases hok
    exact ⟨Nat.le_of_not_lt hfew, Nat.le_of_not_lt hsmall, rfl⟩
  · intro h
    rw [h.2.2]

end Lengths

section Values

theorem readU8_reads (value : UInt8) : Reads readU8 [value] value := by
  have hread := (@Reader.number_reads CodecError .truncated .truncated 1 value.toNat
    value.toNat_lt).map UInt8.ofNat
  rwa [littleEndian, littleEndian, UInt8.ofNat_toNat] at hread

theorem readU16_reads {value : ℕ} (hval : value < 2 ^ 16) :
    Reads readU16 (littleEndian 2 value) (UInt16.ofNat value) :=
  (Reader.number_reads hval).map UInt16.ofNat

theorem readU32_reads (value : UInt32) : Reads readU32 (littleEndian 4 value.toNat) value := by
  have hread := (@Reader.number_reads CodecError .truncated .truncated 4 value.toNat
    value.toNat_lt).map UInt32.ofNat
  rwa [UInt32.ofNat_toNat] at hread

theorem readU64_reads (value : UInt64) : Reads readU64 (littleEndian 8 value.toNat) value := by
  have hread := (@Reader.number_reads CodecError .truncated .truncated 8 value.toNat
    value.toNat_lt).map UInt64.ofNat
  rwa [UInt64.ofNat_toNat] at hread

theorem readU8_yields {post : Bytes → UInt8 → Reader → Prop}
    (hpost : ∀ value after, post [value] value after) : Yields readU8 post := by
  apply Yields.map
  apply Reader.number_yields
  intro value after _
  exact hpost (UInt8.ofNat value) after

theorem readU16_yields {post : Bytes → UInt16 → Reader → Prop}
    (hpost : ∀ value after, post (littleEndian 2 value.toNat) value after) :
    Yields readU16 post := by
  apply Yields.map
  apply Reader.number_yields
  intro value after hval
  have hread := hpost (UInt16.ofNat value) after
  rwa [UInt16.toNat_ofNat_of_lt' hval] at hread

theorem readU32_yields {post : Bytes → UInt32 → Reader → Prop}
    (hpost : ∀ value after, post (littleEndian 4 value.toNat) value after) :
    Yields readU32 post := by
  apply Yields.map
  apply Reader.number_yields
  intro value after hval
  have hread := hpost (UInt32.ofNat value) after
  rwa [UInt32.toNat_ofNat_of_lt' hval] at hread

theorem readU64_yields {post : Bytes → UInt64 → Reader → Prop}
    (hpost : ∀ value after, post (littleEndian 8 value.toNat) value after) :
    Yields readU64 post := by
  apply Yields.map
  apply Reader.number_yields
  intro value after hval
  have hread := hpost (UInt64.ofNat value) after
  rwa [UInt64.toNat_ofNat_of_lt' hval] at hread

theorem orElse_sober {Value : Type} {fault : CodecError} (found : Option Value) :
    orElse fault found ≠ .error .panic := by
  cases found with
  | none => nofun
  | some value => nofun

theorem orElse_ok {Value : Type} {fault : CodecError} {found : Option Value} {value : Value}
    (hok : orElse fault found = .ok value) : found = some value := by
  cases found with
  | none => cases hok
  | some other =>
    cases hok
    rfl

end Values

section Coded

variable {Value Result : Type} {fromCode : UInt8 → Option Value}
variable {next : Value → Reading CodecError Result}

theorem coded_reads {code : UInt8} {value : Value} {rest : Bytes} {result : Result}
    (hcode : fromCode code = some value) (hnext : Reads (next value) rest result) :
    Reads (do
      let code ← readU8
      let value ← orElse .badDiscriminant (fromCode code)
      next value) (code :: rest) result := by
  apply (readU8_reads code).bind
  rw [hcode]
  exact hnext

theorem coded_yields {post : Bytes → Result → Reader → Prop}
    (hnext : ∀ code value, fromCode code = some value →
      Yields (next value) (fun rest result after => post (code :: rest) result after)) :
    Yields (do
      let code ← readU8
      let value ← orElse .badDiscriminant (fromCode code)
      next value) post := by
  apply Yields.bind
  apply readU8_yields
  intro code _
  apply Yields.lift (orElse_sober _)
  intro value hval
  exact hnext code value (orElse_ok hval)

end Coded

section Names

theorem readId_reads (id : Id) : Reads readId (putId id) id := by
  have hshrt := id.clean.short
  have hlen : (utf8 id.text).length < 2 ^ 16 := Nat.lt_of_le_of_lt hshrt (by decide)
  apply (readU16_reads hlen).bind
  rw [UInt16.toNat_ofNat_of_lt' hlen, if_neg (Nat.not_lt.mpr hshrt)]
  apply (Reader.takeOr_reads (utf8 id.text)).bindNil
  rw [fromUTF8_utf8]
  apply Reads.lift
  rw [Id.fromWire_text]
  rfl

theorem readId_yields {post : Bytes → Id → Reader → Prop}
    (hpost : ∀ id after, post (putId id) id after) : Yields readId post := by
  apply Yields.bind
  apply readU16_yields
  intro len _
  split
  · exact Yields.error _
  apply Yields.bind
  apply Reader.takeOr_yields
  intro bytes _ hlen
  apply Yields.lift (orElse_sober _)
  intro text htext
  have hbs := utf8_of_fromUTF8 (orElse_ok htext)
  apply Yields.liftLast (orElse_sober _)
  intro id after hid
  have hput : putId id = littleEndian 2 len.toNat ++ (bytes ++ []) := by
    rw [putId, Id.text_of_fromWire (orElse_ok hid), hbs, hlen, append_nil]
  exact hput ▸ hpost id after

theorem readTrace_reads (trace : Option TraceId) : Reads readTrace (putTrace trace) trace := by
  cases trace with
  | none => exact (readU8_reads 0).bindNil (Reads.pure none)
  | some trace =>
    obtain ⟨bytes, hlen⟩ := trace
    apply (readU8_reads 1).bind
    have htake := @Reader.takeOr_reads CodecError .truncated .truncated bytes
    rw [hlen] at htake
    apply htake.bindNil
    rw [toTraceId, dif_pos hlen]
    exact Reads.pure _

theorem readTrace_yields {post : Bytes → Option TraceId → Reader → Prop}
    (hpost : ∀ trace after, post (putTrace trace) trace after) : Yields readTrace post := by
  apply Yields.bind
  apply readU8_yields
  intro tag _
  split
  · next htag =>
    rw [htag]
    apply Yields.pure
    exact hpost none
  split
  · next htag =>
    rw [htag]
    apply Yields.bind
    apply Reader.takeOr_yields
    intro bytes _ hlen
    rw [toTraceId, dif_pos hlen]
    apply Yields.pure
    intro after
    rw [append_nil]
    exact hpost (some ⟨bytes, hlen⟩) after
  · exact Yields.error _

theorem readValue_reads (value : AttrValue) : Reads readValue (putValue value) value := by
  cases value with
  | id id => exact (readU8_reads 0).bind ((readId_reads id).bindNil (Reads.pure _))
  | count value => exact (readU8_reads 1).bind ((readU64_reads value).bindNil (Reads.pure _))
  | digest len hash =>
    exact (readU8_reads 2).bind
      ((readU32_reads len).bind ((readU64_reads hash).bindNil (Reads.pure _)))
  | redacted => exact (readU8_reads 3).bindNil (Reads.pure _)

theorem readValue_yields {post : Bytes → AttrValue → Reader → Prop}
    (hpost : ∀ value after, post (putValue value) value after) : Yields readValue post := by
  apply Yields.bind
  apply readU8_yields
  intro tag _
  split
  · next htag =>
    rw [htag]
    apply Yields.bind
    apply readId_yields
    intro id _
    apply Yields.pure
    intro after
    rw [append_nil]
    exact hpost (.id id) after
  split
  · next htag =>
    rw [htag]
    apply Yields.bind
    apply readU64_yields
    intro value _
    apply Yields.pure
    intro after
    rw [append_nil]
    exact hpost (.count value) after
  split
  · next htag =>
    rw [htag]
    apply Yields.bind
    apply readU32_yields
    intro len _
    apply Yields.bind
    apply readU64_yields
    intro hash _
    apply Yields.pure
    intro after
    rw [append_nil]
    exact hpost (.digest len hash) after
  split
  · next htag =>
    rw [htag]
    apply Yields.pure
    exact hpost .redacted
  · exact Yields.error _

theorem readAttr_reads (attr : Attr) : Reads readAttr (putAttr attr) attr :=
  (readId_reads attr.key).bind ((readValue_reads attr.value).bindNil (Reads.pure _))

theorem readAttr_yields {post : Bytes → Attr → Reader → Prop}
    (hpost : ∀ attr after, post (putAttr attr) attr after) : Yields readAttr post := by
  apply Yields.bind
  apply readId_yields
  intro key _
  apply Yields.bind
  apply readValue_yields
  intro value _
  apply Yields.pure
  intro after
  rw [append_nil]
  exact hpost ⟨key, value⟩ after

end Names

end WasmAgent.Sink
