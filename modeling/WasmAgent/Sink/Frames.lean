import WasmAgent.Core.Survival
import WasmAgent.Sink.RoundTrips

/-!
# Which frames are read

Every frame that writing gives is read back.  A frame that is read is the one that writing
what was read gives just when it lists the attributes of each record in the order of their
keys: the reader sorts them on its own and looks for repeated keys only.
-/

namespace WasmAgent.Sink

open List WasmAgent.Core

section Attributes

theorem ascending_unique {left right : List Attr}
    (hleft : left.Pairwise fun before after => before.key.text < after.key.text)
    (hrt : right.Pairwise fun before after => before.key.text < after.key.text)
    (hperm : left.Perm right) : left = right := by
  apply hperm.eq_of_pairwise _ hleft hrt
  intro before after _ _ hlt hgt
  exact absurd hgt (not_lt_of_gt hlt)

theorem Attrs.ext_entries {left right : Attrs} (hents : left.entries = right.entries) :
    left = right := by
  obtain ⟨entries, _, _⟩ := left
  obtain ⟨_, _, _⟩ := right
  cases hents
  rfl

theorem Attrs.push_perm {attrs more : Attrs} {attr : Attr} (hmore : attrs.push attr = some more) :
    more.entries.Perm (attrs.entries ++ [attr]) := by
  rw [Attrs.push] at hmore
  split at hmore
  · cases hmore
  · cases hmore
    exact sortByKey_perm _

theorem Attrs.push_some {attrs : Attrs} {attr : Attr} (hroom : attrs.entries.length < maxAttrs)
    (hnew : attr.key ∉ attrs.entries.map Attr.key) : ∃ more, attrs.push attr = some more := by
  rw [Attrs.push, dif_neg (not_or.mpr ⟨Nat.not_le.mpr hroom, hnew⟩)]
  exact ⟨_, rfl⟩

theorem pushAttrs_reads {written : List Attr} {attrs : Attrs}
    (hroom : attrs.entries.length + written.length ≤ maxAttrs)
    (hdist : ((attrs.entries ++ written).map Attr.key).Nodup) :
    ∃ result, result.entries.Perm (attrs.entries ++ written) ∧
      Reads (pushAttrs written.length attrs) (written.flatMap putAttr) result := by
  induction written generalizing attrs with
  | nil =>
    refine ⟨attrs, ?_, Reads.pure attrs⟩
    rw [append_nil]
  | cons attr written ih =>
    rw [length_cons] at hroom
    have hnew : attr.key ∉ attrs.entries.map Attr.key := by
      rw [map_append, map_cons, nodup_append'] at hdist
      intro hmem
      exact hdist.2.2 hmem mem_cons_self
    obtain ⟨more, hmore⟩ := Attrs.push_some (by omega) hnew
    have hperm := Attrs.push_perm hmore
    have hwhole : (more.entries ++ written).Perm (attrs.entries ++ attr :: written) := by
      have hmoved := hperm.append_right written
      rwa [append_assoc, singleton_append] at hmoved
    have hlen : more.entries.length + written.length ≤ maxAttrs := by
      have hcnt := hwhole.length_eq
      rw [length_append, length_append, length_cons] at hcnt
      omega
    obtain ⟨result, hres, hread⟩ := ih hlen ((hwhole.map Attr.key).nodup_iff.mpr hdist)
    refine ⟨result, hres.trans hwhole, ?_⟩
    apply (readAttr_reads attr).bind
    rw [hmore]
    exact hread

variable {post : Bytes → Attrs → Reader → Prop}

theorem pushAttrs_yields {count : ℕ} {attrs : Attrs}
    (hpost : ∀ (written : List Attr) result after, written.length = count →
      result.entries.Perm (attrs.entries ++ written) →
        post (written.flatMap putAttr) result after) :
    Yields (pushAttrs count attrs) post := by
  induction count generalizing attrs post with
  | zero =>
    apply Yields.pure
    intro after
    apply hpost [] attrs after rfl
    rw [append_nil]
  | succ count ih =>
    apply Yields.bind
    apply readAttr_yields
    intro attr _
    apply Yields.lift (orElse_sober _)
    intro more hmore
    have hperm := Attrs.push_perm (orElse_ok hmore)
    apply ih
    intro written result after hlen hres
    have hwhole := hperm.append_right written
    rw [append_assoc, singleton_append] at hwhole
    have hread := hpost (attr :: written) result after (congrArg (· + 1) hlen) (hres.trans hwhole)
    rwa [flatMap_cons] at hread

theorem readAttrs_reads (attrs : Attrs) : Reads readAttrs (putAttrs attrs.entries) attrs := by
  have hcap := attrs.capped
  have hcnt : (UInt8.ofNat attrs.entries.length).toNat = attrs.entries.length :=
    UInt8.toNat_ofNat_of_lt' (Nat.lt_of_le_of_lt hcap (by decide))
  obtain ⟨result, hres, hread⟩ := @pushAttrs_reads attrs.entries Attrs.new
    (by rw [Attrs.new, length_nil, Nat.zero_add]; exact hcap) attrs.distinct
  have hsame : result = attrs :=
    Attrs.ext_entries (ascending_unique result.ascending attrs.ascending hres)
  apply (readU8_reads _).bind
  rw [hcnt, if_neg (Nat.not_lt.mpr hcap)]
  rwa [hsame] at hread

theorem readAttrs_yields (hpost : ∀ (written : List Attr) attrs after, attrs.entries.Perm written →
      post (putAttrs written) attrs after) : Yields readAttrs post := by
  apply Yields.bind
  apply readU8_yields
  intro count _
  split
  · exact Yields.error _
  apply pushAttrs_yields
  intro written attrs after hlen hperm
  have hread := hpost written attrs after hperm
  rwa [putAttrs, hlen, UInt8.ofNat_toNat] at hread

end Attributes

section Records

/-- The same record with other attributes. -/
def Record.withAttrs (record : Record) (attrs : Attrs) : Record :=
  match record with
  | .span fields => .span { fields with attrs := attrs }
  | .metric fields => .metric { fields with labels := attrs }
  | .event fields => .event { fields with attrs := attrs }

variable (record : Record)

@[simp]
theorem Record.withAttrs_attrs : record.withAttrs record.attrs = record := by
  cases record <;> rfl

theorem readFields_reads : Reads readFields (putFields record) record.withAttrs := by
  cases record with
  | span span =>
    apply (readU8_reads tagSpan).bind
    apply (readId_reads span.component).bind
    apply (readId_reads span.op).bind
    apply (readU64_reads span.startMs).bind
    apply (readU64_reads span.durationUs).bind
    apply coded_reads span.status.fromCode_code
    exact (readTrace_reads span.trace).bindNil (Reads.pure _)
  | metric metric =>
    apply (readU8_reads tagMetric).bind
    apply (readId_reads metric.component).bind
    apply (readId_reads metric.name).bind
    apply coded_reads metric.kind.fromCode_code
    apply coded_reads metric.unit.fromCode_code
    exact (readU64_reads metric.value).bindNil (Reads.pure _)
  | event event =>
    apply (readU8_reads tagEvent).bind
    apply (readId_reads event.topic).bind
    apply (readId_reads event.source).bind
    apply (readId_reads event.schema).bind
    apply (readU32_reads event.schemaVersion).bind
    apply (readU64_reads event.tsMs).bind
    apply (readU64_reads event.count).bind
    apply coded_reads event.severity.fromCode_code
    exact (readTrace_reads event.trace).bindNil (Reads.pure _)

theorem readFields_yields {post : Bytes → (Attrs → Record) → Reader → Prop}
    (hpost : ∀ record after, post (putFields record) record.withAttrs after) :
    Yields readFields post := by
  apply Yields.bind
  apply readU8_yields
  intro tag _
  split
  · next htag =>
    rw [htag]
    apply Yields.bind
    apply readId_yields
    intro component _
    apply Yields.bind
    apply readId_yields
    intro op _
    apply Yields.bind
    apply readU64_yields
    intro startMs _
    apply Yields.bind
    apply readU64_yields
    intro durationUs _
    apply coded_yields
    intro code status hstt
    apply Yields.bind
    apply readTrace_yields
    intro trace _
    apply Yields.pure
    intro after
    rw [append_nil, ← SpanStatus.code_of_fromCode hstt]
    exact hpost (.span ⟨component, op, startMs, durationUs, status, trace, Attrs.new⟩) after
  split
  · next htag =>
    rw [htag]
    apply Yields.bind
    apply readId_yields
    intro component _
    apply Yields.bind
    apply readId_yields
    intro name _
    apply coded_yields
    intro kindCode kind hkind
    apply coded_yields
    intro unitCode unit hunit
    apply Yields.bind
    apply readU64_yields
    intro value _
    apply Yields.pure
    intro after
    rw [append_nil, ← MetricKind.code_of_fromCode hkind, ← MetricUnit.code_of_fromCode hunit]
    exact hpost (.metric ⟨component, name, kind, unit, value, Attrs.new⟩) after
  · split
    · next htag =>
      rw [htag]
      apply Yields.bind
      apply readId_yields
      intro topic _
      apply Yields.bind
      apply readId_yields
      intro source _
      apply Yields.bind
      apply readId_yields
      intro schema _
      apply Yields.bind
      apply readU32_yields
      intro schemaVersion _
      apply Yields.bind
      apply readU64_yields
      intro tsMs _
      apply Yields.bind
      apply readU64_yields
      intro count _
      apply coded_yields
      intro code severity hsev
      apply Yields.bind
      apply readTrace_yields
      intro trace _
      apply Yields.pure
      intro after
      rw [append_nil, ← Severity.code_of_fromCode hsev]
      exact hpost (.event
        ⟨topic, source, schema, schemaVersion, tsMs, count, severity, trace, Attrs.new⟩) after
    · exact Yields.error _

theorem readRecord_reads : Reads readRecord (putRecord record) record := by
  apply (readFields_reads record).bind
  apply (readAttrs_reads record.attrs).bindNil
  rw [Record.withAttrs_attrs]
  exact Reads.pure record

theorem readRecords_reads (records : List Record) :
    Reads (readRecords records.length) (records.flatMap putRecord) records := by
  have hreads := @many_reads CodecError Record Record readRecord putRecord id records
    fun record _ => readRecord_reads record
  rwa [map_id] at hreads

structure Draft where
  record : Record
  written : List Attr
  perm : record.attrs.entries.Perm written

def Draft.bytes (draft : Draft) : Bytes := putFields draft.record ++ putAttrs draft.written

theorem Draft.bytes_of_ascending {draft : Draft}
    (hasc : draft.written.Pairwise fun before after => before.key.text < after.key.text) :
    draft.bytes = putRecord draft.record := by
  rw [Draft.bytes, putRecord, ascending_unique draft.record.attrs.ascending hasc draft.perm]

theorem putFields_withAttrs (attrs : Attrs) :
    putFields (record.withAttrs attrs) = putFields record := by
  cases record <;> rfl

theorem withAttrs_entries (attrs : Attrs) : (record.withAttrs attrs).attrs = attrs := by
  cases record <;> rfl

theorem readRecord_yields {post : Bytes → Record → Reader → Prop}
    (hpost : ∀ (draft : Draft) after, post draft.bytes draft.record after) :
    Yields readRecord post := by
  apply Yields.bind
  apply readFields_yields
  intro record _
  apply Yields.bind
  apply readAttrs_yields
  intro written attrs _ hperm
  apply Yields.pure
  intro after
  rw [← withAttrs_entries record attrs] at hperm
  have hread := hpost ⟨record.withAttrs attrs, written, hperm⟩ after
  rwa [Draft.bytes, putFields_withAttrs, ← append_nil (putAttrs written)] at hread

theorem readRecords_yields {count : ℕ} {post : Bytes → List Record → Reader → Prop}
    (hpost : ∀ (drafts : List Draft) after, drafts.length = count →
      post (drafts.flatMap Draft.bytes) (drafts.map Draft.record) after) :
    Yields (readRecords count) post :=
  many_yields (fun _ hread => readRecord_yields hread) hpost

end Records

section Keys

/-- The keys of a record's attributes, in the order in which a frame lists them. -/
def readKeys : Reading CodecError (List Id) := do
  let _ ← readFields
  let count ← readU8
  many count.toNat (Attr.key <$> readAttr)

def writtenKeys (frame : Bytes) : Except (Stop CodecError) (List (List Id)) :=
  openFrame (many · readKeys) frame

def InOrder (frame : Bytes) : Prop :=
  ∀ lists, writtenKeys frame = .ok lists →
    ∀ keys ∈ lists, keys.Pairwise fun before after => before.text < after.text

def Draft.keys (draft : Draft) : List Id := draft.written.map Attr.key

theorem readKeys_reads (draft : Draft) : Reads readKeys draft.bytes draft.keys := by
  have hlen : draft.written.length ≤ maxAttrs := by
    rw [← draft.perm.length_eq]
    exact draft.record.attrs.capped
  have hcnt : (UInt8.ofNat draft.written.length).toNat = draft.written.length :=
    UInt8.toNat_ofNat_of_lt' (Nat.lt_of_le_of_lt hlen (by decide))
  apply (readFields_reads draft.record).bind
  apply (readU8_reads _).bind
  rw [hcnt]
  exact many_reads fun attr _ => (readAttr_reads attr).map Attr.key

end Keys

section Whole

variable {Value : Type} {body : ℕ → Reading CodecError Value} {frame rest : Bytes} {count : ℕ}

theorem putHeader_slices (count : ℕ) (rest : Bytes) :
    (putHeader count ++ rest).take 4 = magic ∧
      ((putHeader count ++ rest).drop 4).take 2 = littleEndian 2 count := by
  rw [putHeader, append_assoc]
  constructor
  · rfl
  · change (littleEndian 2 count ++ rest).take 2 = _
    have htake := @take_left _ (littleEndian 2 count) rest
    rwa [littleEndian_length] at htake

theorem openFrame_reads {value : Value} (hcnt : count ≤ maxRecords)
    (hsize : (putHeader count ++ rest).length ≤ maxFrameBytes)
    (hbody : Reads (body count) rest value) :
    openFrame body (putHeader count ++ rest) = .ok value := by
  have hhead : headerBytes ≤ (putHeader count ++ rest).length := by
    rw [length_append, putHeader_length]
    exact Nat.le_add_right _ _
  have hslic := putHeader_slices count rest
  have hfst : (Reader.slice (putHeader count ++ rest) 0 4 : Except (Stop CodecError) Bytes) =
      .ok magic := by
    rw [Reader.slice, if_pos ⟨by decide, Nat.le_trans (by decide) hhead⟩, drop_zero]
    exact congrArg Except.ok hslic.1
  have hsnd : (Reader.slice (putHeader count ++ rest) 4 headerBytes :
      Except (Stop CodecError) Bytes) = .ok (littleEndian 2 count) := by
    rw [Reader.slice, if_pos ⟨by decide, hhead⟩]
    exact congrArg Except.ok hslic.2
  have hnum : fromLittleEndian (littleEndian 2 count) = count :=
    fromLittleEndian_littleEndian (Nat.lt_of_le_of_lt hcnt (by decide))
  have hrun := hbody ⟨putHeader count ++ rest, headerBytes, hhead⟩
    ⟨putHeader count ++ rest, (putHeader count ++ rest).length, Nat.le_refl _⟩
    (Nat.le_trans hsize (by decide)) ⟨rfl, by
      have hend : (⟨putHeader count ++ rest, (putHeader count ++ rest).length,
        Nat.le_refl _⟩ : Reader).rest = [] := drop_length
      rw [hend, append_nil, Reader.rest]
      change (putHeader count ++ rest).drop headerBytes = rest
      rw [← putHeader_length count, drop_left]⟩
  rw [openFrame, if_neg (Nat.not_lt.mpr hsize), dif_neg (Nat.not_lt.mpr hhead), hfst, ok_bind,
    if_neg (not_not.mpr rfl), hsnd, ok_bind, hnum, if_neg (Nat.not_lt.mpr hcnt), hrun, ok_bind]
  exact if_neg (not_not.mpr rfl)

theorem putHeader_of_slices (hsize : headerBytes ≤ frame.length) (hmagic : frame.take 4 = magic) :
    frame = putHeader (fromLittleEndian ((frame.drop 4).take 2)) ++ frame.drop headerBytes := by
  have hwidth : ((frame.drop 4).take 2).length = 2 := by
    rw [length_take, length_drop]
    have hsix : 6 ≤ frame.length := hsize
    omega
  have hnum := littleEndian_fromLittleEndian ((frame.drop 4).take 2)
  rw [hwidth] at hnum
  have hdrop : frame.drop headerBytes = (frame.drop 4).drop 2 := by
    rw [drop_drop]
    rfl
  rw [putHeader, hnum, hdrop, append_assoc, take_append_drop, ← hmagic, take_append_drop]

theorem openFrame_yields {post : ℕ → Bytes → Value → Prop} {value : Value}
    (hbody : ∀ count, Yields (body count) fun bytes value _ => post count bytes value)
    (hread : openFrame body frame = .ok value) :
    frame.length ≤ maxFrameBytes ∧ ∃ count ≤ maxRecords, ∃ rest,
      frame = putHeader count ++ rest ∧ post count rest value := by
  rw [openFrame] at hread
  split at hread
  · cases hread
  rename_i hsize
  split at hread
  · cases hread
  rename_i hhead
  have hlong := Nat.le_of_not_lt hhead
  rw [Reader.slice, if_pos ⟨by decide, Nat.le_trans (by decide) hlong⟩, ok_bind] at hread
  split at hread
  · cases hread
  rename_i hmagic
  rw [Reader.slice, if_pos ⟨by decide, hlong⟩, ok_bind] at hread
  split at hread
  · cases hread
  rename_i hcnt
  obtain ⟨⟨found, reader⟩, hrun, hend⟩ := bind_eq_ok.mp hread
  dsimp only at hend
  split at hend
  · cases hend
  rename_i hwhole
  cases hend
  obtain ⟨rest, hpas, hpost⟩ := (hbody _).takes _ _ _ hrun
  have hnone : reader.rest = [] := by
    rw [Reader.rest, hpas.buf, not_not.mp hwhole, drop_length]
  have hrest : frame.drop headerBytes = rest := by
    have htkn := hpas.rest
    rwa [hnone, append_nil] at htkn
  refine ⟨Nat.le_of_not_lt hsize, _, Nat.le_of_not_lt hcnt, rest, ?_, hpost⟩
  rw [← hrest]
  exact putHeader_of_slices hlong (not_not.mp hmagic)

theorem openFrame_sober (hbody : ∀ count before, body count before ≠ .error .panic) :
    openFrame body frame ≠ .error .panic := by
  rw [openFrame]
  split
  · intro hpan
    cases hpan
  split
  · intro hpan
    cases hpan
  rename_i hhead
  have hlong := Nat.le_of_not_lt hhead
  rw [Reader.slice, if_pos ⟨by decide, Nat.le_trans (by decide) hlong⟩, ok_bind]
  split
  · intro hpan
    cases hpan
  rw [Reader.slice, if_pos ⟨by decide, hlong⟩, ok_bind]
  split
  · intro hpan
    cases hpan
  intro hpan
  cases hrun : body (fromLittleEndian ((frame.drop 4).take (headerBytes - 4)))
      ⟨frame, headerBytes, hlong⟩ with
  | error stop =>
    rw [hrun] at hpan
    cases hpan
    exact hbody _ _ hrun
  | ok result =>
    rw [hrun, ok_bind] at hpan
    dsimp only at hpan
    split at hpan <;> cases hpan

end Whole

section Results

variable {records : List Record} {frame : Bytes}

theorem decode_ok (hread : decode frame = .ok records) :
    frame.length ≤ maxFrameBytes ∧ ∃ drafts : List Draft, drafts.length ≤ maxRecords ∧
      records = drafts.map Draft.record ∧
      frame = putHeader drafts.length ++ drafts.flatMap Draft.bytes := by
  have hbody : ∀ count, Yields (readRecords count) fun bytes records _ =>
      ∃ drafts : List Draft, drafts.length = count ∧ records = drafts.map Draft.record ∧
        bytes = drafts.flatMap Draft.bytes := by
    intro count
    apply readRecords_yields
    intro drafts after hlen
    exact ⟨drafts, hlen, rfl, rfl⟩
  obtain ⟨hsize, count, hcnt, rest, hframe, drafts, hlen, hrecs, hrest⟩ :=
    openFrame_yields hbody hread
  rw [← hlen, hrest] at hframe
  exact ⟨hsize, drafts, hlen ▸ hcnt, hrecs, hframe⟩

theorem decode_encode (hframe : encode records = .ok frame) : decode frame = .ok records := by
  obtain ⟨hcnt, hsize, rfl⟩ := encode_ok_iff.mp hframe
  exact openFrame_reads hcnt hsize (readRecords_reads records)

theorem writtenKeys_of_drafts {drafts : List Draft} (hcnt : drafts.length ≤ maxRecords)
    (hsize : (putHeader drafts.length ++ drafts.flatMap Draft.bytes).length ≤ maxFrameBytes) :
    writtenKeys (putHeader drafts.length ++ drafts.flatMap Draft.bytes) =
      .ok (drafts.map Draft.keys) :=
  openFrame_reads hcnt hsize (many_reads fun draft _ => readKeys_reads draft)

/-- A record as the encoder lists its attributes. -/
def Draft.ofRecord (record : Record) : Draft := ⟨record, record.attrs.entries, .refl _⟩

theorem inOrder_of_encode (hframe : encode records = .ok frame) : InOrder frame := by
  obtain ⟨hcnt, hsize, rfl⟩ := encode_ok_iff.mp hframe
  have hdraf : (records.map Draft.ofRecord).flatMap Draft.bytes = records.flatMap putRecord := by
    rw [flatMap_map]
    rfl
  have hlen : (records.map Draft.ofRecord).length = records.length := length_map _
  rw [← hdraf, ← hlen] at hsize ⊢
  intro lists hlists
  rw [writtenKeys_of_drafts (hlen ▸ hcnt) hsize] at hlists
  cases hlists
  intro keys hkeys
  rw [map_map, mem_map] at hkeys
  obtain ⟨record, -, rfl⟩ := hkeys
  exact pairwise_map.mpr record.attrs.ascending

theorem encode_decode (hread : decode frame = .ok records)
    (horder : InOrder frame) : encode records = .ok frame := by
  obtain ⟨hsize, drafts, hcnt, rfl, rfl⟩ := decode_ok hread
  have hlists := horder _ (writtenKeys_of_drafts hcnt hsize)
  have hbs : drafts.flatMap Draft.bytes = (drafts.map Draft.record).flatMap putRecord := by
    rw [flatMap_map]
    apply flatMap_congr
    intro draft hdraft
    have hkeys := hlists _ (mem_map_of_mem hdraft)
    rw [Draft.keys, pairwise_map] at hkeys
    exact Draft.bytes_of_ascending hkeys
  rw [encode_ok_iff, length_map]
  exact ⟨hcnt, hsize, congrArg (putHeader drafts.length ++ ·) hbs⟩

/-- The wire format: what is encoded is decoded, at the length the records say; what is
decoded is what would be encoded just when every record's attributes are listed in order;
and what is not decoded ends in an error. -/
theorem wire_format (records : List Record) (frame : Bytes) :
    (encode records = .ok frame → decode frame = .ok records ∧
      frame.length = headerBytes + (records.map Record.encodedLen).sum) ∧
    (decode frame = .ok records → (encode records = .ok frame ↔ InOrder frame)) ∧
    ((∃ found, decode frame = .ok found) ∨ ∃ fault, decode frame = .error (.error fault)) := by
  constructor
  · intro hframe
    obtain ⟨-, -, hbytes⟩ := encode_ok_iff.mp hframe
    refine ⟨decode_encode hframe, ?_⟩
    rw [hbytes, length_append, putHeader_length, putRecords_length]
  constructor
  · exact fun hread => ⟨inOrder_of_encode, encode_decode hread⟩
  have hsober : decode frame ≠ .error .panic := by
    apply openFrame_sober
    intro count
    exact (@readRecords_yields count (fun _ _ _ => True) fun _ _ _ => trivial).sober
  cases hread : decode frame with
  | ok found => exact .inl ⟨found, rfl⟩
  | error stop =>
    cases stop with
    | error fault => exact .inr ⟨fault, rfl⟩
    | panic => exact absurd hread hsober

def labelled : Record :=
  .metric ⟨Id.new "c", Id.new "n", .counter, .count, 7,
    ⟨[⟨Id.new "a", .count 1⟩, ⟨Id.new "b", .redacted⟩], by decide, by decide +kernel⟩⟩

/-- A frame of that counter whose labels stand the other way round. -/
def unsortedFrame : Bytes :=
  [0x57, 0x54, 0x53, 0x31, 1, 0, 2, 1, 0, 0x63, 1, 0, 0x6e, 0, 0, 7, 0, 0, 0, 0, 0, 0, 0,
    2, 1, 0, 0x62, 3, 1, 0, 0x61, 1, 1, 0, 0, 0, 0, 0, 0, 0]

theorem wire_format_labelled : ∃ frame, encode [labelled] = .ok frame ∧
    decode frame = .ok [labelled] ∧ InOrder frame := by
  have hok : ∃ frame, encode [labelled] = .ok frame := ⟨_, rfl⟩
  obtain ⟨frame, hframe⟩ := hok
  obtain ⟨hround, hcanonical, -⟩ := wire_format [labelled] frame
  have hread := (hround hframe).1
  exact ⟨frame, hframe, hread, (hcanonical hread).mp hframe⟩

/-- The reader takes a frame that no batch is written to. -/
theorem unsorted_frame_is_read : decode unsortedFrame = .ok [labelled] ∧
    encode [labelled] ≠ .ok unsortedFrame := by
  decide +kernel

end Results

end WasmAgent.Sink
