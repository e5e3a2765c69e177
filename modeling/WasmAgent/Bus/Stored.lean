import WasmAgent.Bus.Retention

/-!
# Stored events

An event whose fields fit their length prefixes is read back as it was.  A longer field is
cut when it is written, and what is read back is never the event that was published.
-/

namespace WasmAgent.Bus

open List WasmAgent.Core

structure Event.Fits (event : Event) : Prop where
  source : (utf8 event.source).length ≤ 0xFFFF
  schema : (utf8 event.schema.name).length ≤ 0xFFFF
  trace : ∀ trace ∈ event.trace, (utf8 trace).length ≤ 0xFFFF
  payload : event.payload.length ≤ 0xFFFFFFFF

theorem Topic.length_le (topic : Topic) : (utf8 topic.text).length ≤ maxTopic := by
  have hvld := topic.valid
  rw [check] at hvld
  split at hvld
  · cases hvld
  · split at hvld
    · cases hvld
    · next hshrt => exact Nat.not_lt.mp hshrt

namespace Reader

theorem u8_reads (value : UInt8) : Reads u8 [value] value := by
  have hreads := (@Core.Reader.array_reads DecodeError .truncated .truncated 1 [value] rfl).map
    (fun bytes => UInt8.ofNat (fromLittleEndian bytes))
  have hval : UInt8.ofNat (fromLittleEndian [value]) = value := by
    rw [fromLittleEndian, fromLittleEndian, Nat.mul_zero, Nat.add_zero, UInt8.ofNat_toNat]
  rwa [hval] at hreads

theorem number_reads {Value : Type} {width value : ℕ} (make : ℕ → Value)
    (hval : value < 0x100 ^ width) :
    Reads ((fun bytes => make (fromLittleEndian bytes)) <$> fixed width)
      (littleEndian width value) (make value) := by
  have hreads := (@Core.Reader.array_reads DecodeError .truncated .truncated width
    (littleEndian width value) (littleEndian_length width value)).map
      (fun bytes => make (fromLittleEndian bytes))
  rwa [fromLittleEndian_littleEndian hval] at hreads

theorem u16_reads {value : ℕ} (hval : value ≤ 0xFFFF) :
    Reads u16 (littleEndian 2 value) (UInt16.ofNat value) :=
  number_reads UInt16.ofNat (Nat.lt_succ_of_le hval)

theorem u32_reads (value : UInt32) : Reads u32 (littleEndian 4 value.toNat) value := by
  have hreads := number_reads UInt32.ofNat (show value.toNat < 0x100 ^ 4 from value.toNat_lt)
  rwa [UInt32.ofNat_toNat] at hreads

theorem u64_reads (value : UInt64) : Reads u64 (littleEndian 8 value.toNat) value := by
  have hreads := number_reads UInt64.ofNat (show value.toNat < 0x100 ^ 8 from value.toNat_lt)
  rwa [UInt64.ofNat_toNat] at hreads

theorem string_reads {text : String} (hshrt : (utf8 text).length ≤ 0xFFFF) :
    Reads string (putStr text) text := by
  rw [putStr, Nat.min_eq_left hshrt, take_length]
  apply (u16_reads hshrt).bind
  have hcnt : (UInt16.ofNat (utf8 text).length).toNat = (utf8 text).length :=
    UInt16.toNat_ofNat_of_lt' (Nat.lt_succ_of_le hshrt)
  rw [hcnt]
  apply (Core.Reader.takeOr_reads (utf8 text)).bindNil
  rw [fromUTF8_utf8]
  exact Reads.pure text

theorem bytes_reads {payload : Bytes} (hshrt : payload.length ≤ 0xFFFFFFFF) :
    Reads bytes (putBytes payload) payload := by
  rw [putBytes, Nat.min_eq_left hshrt, take_length]
  have hcnt : (UInt32.ofNat payload.length).toNat = payload.length :=
    UInt32.toNat_ofNat_of_lt' (Nat.lt_succ_of_le hshrt)
  apply (number_reads UInt32.ofNat (show payload.length < 0x100 ^ 4 from
    Nat.lt_succ_of_le hshrt)).bind
  rw [hcnt]
  exact Core.Reader.takeOr_reads payload

theorem topic_reads (topic : Topic) : Reads Reader.topic (putStr topic.text) topic := by
  have hshrt : (utf8 topic.text).length ≤ 0xFFFF := Nat.le_trans topic.length_le (by decide)
  apply (string_reads hshrt).bindNil
  rw [Topic.parse_ok.mpr rfl]
  exact Reads.pure topic

theorem trace_reads {trace : Option String} (hshrt : ∀ text ∈ trace, (utf8 text).length ≤ 0xFFFF) :
    Reads Reader.trace (putTrace trace) trace := by
  cases trace with
  | none => exact (u8_reads 0).bindNil (Reads.pure none)
  | some text =>
    apply (u8_reads 1).bind
    exact (string_reads (hshrt text rfl)).map some

theorem header_reads : Reads header (magic ++ [format]) () := by
  apply (Core.Reader.takeOr_reads magic).bind
  rw [if_neg (fun hne => hne rfl)]
  apply (u8_reads format).bindNil
  rw [if_neg (fun hne => hne rfl)]
  exact Reads.pure ()

theorem finished_run (before : Core.Reader) :
    finished before = if before.offset = before.buf.length then .ok ((), before)
      else .error (.error (.trailingBytes (before.buf.length - before.offset))) := by
  change (if before.offset = before.buf.length then _ else _ : Reading DecodeError Unit) before = _
  split <;> rfl

theorem finished_reads {before : Core.Reader} (hrest : before.rest = []) :
    finished before = .ok ((), before) := by
  have hlen := congrArg length hrest
  have hins := before.inside
  rw [Core.Reader.rest, length_drop, length_nil] at hlen
  rw [finished_run, if_pos (by omega)]

theorem number_yields {Value : Type} {width : ℕ} {make : ℕ → Value}
    {post : Bytes → Value → Core.Reader → Prop}
    (hpost : ∀ value after, value < 0x100 ^ width →
      post (littleEndian width value) (make value) after) :
    Yields ((fun bytes => make (fromLittleEndian bytes)) <$> fixed width) post := by
  apply Yields.map
  apply Core.Reader.array_yields
  intro bytes after hlen
  have hfits := fromLittleEndian_lt bytes
  rw [hlen] at hfits
  have hbs := hpost (fromLittleEndian bytes) after hfits
  rwa [← hlen, littleEndian_fromLittleEndian] at hbs

theorem u8_yields {post : Bytes → UInt8 → Core.Reader → Prop}
    (hpost : ∀ value after, post [value] value after) : Yields u8 post := by
  apply number_yields
  intro value after hlt
  have hbs := hpost (UInt8.ofNat value) after
  rw [littleEndian, littleEndian]
  exact hbs

theorem u32_yields {post : Bytes → UInt32 → Core.Reader → Prop}
    (hpost : ∀ value : UInt32, ∀ after, post (littleEndian 4 value.toNat) value after) :
    Yields u32 post := by
  apply number_yields
  intro value after hlt
  have hbs := hpost (UInt32.ofNat value) after
  rwa [UInt32.toNat_ofNat_of_lt' hlt] at hbs

theorem u64_yields {post : Bytes → UInt64 → Core.Reader → Prop}
    (hpost : ∀ value : UInt64, ∀ after, post (littleEndian 8 value.toNat) value after) :
    Yields u64 post := by
  apply number_yields
  intro value after hlt
  have hbs := hpost (UInt64.ofNat value) after
  rwa [UInt64.toNat_ofNat_of_lt' hlt] at hbs

theorem string_yields {post : Bytes → String → Core.Reader → Prop}
    (hpost : ∀ text after, (utf8 text).length ≤ 0xFFFF → post (putStr text) text after) :
    Yields string post := by
  apply Yields.bind
  apply number_yields
  intro count _ hcnt
  rw [UInt16.toNat_ofNat_of_lt' hcnt]
  apply Yields.bind
  apply Core.Reader.takeOr_yields
  intro raw _ hlen
  split
  · next text htext =>
    apply Yields.pure
    intro after
    have hraw : utf8 text = raw := utf8_of_fromUTF8 htext
    have hshrt : (utf8 text).length ≤ 0xFFFF := by
      rw [hraw, hlen]
      exact Nat.le_of_lt_succ hcnt
    have hbs := hpost text after hshrt
    rwa [putStr, Nat.min_eq_left hshrt, take_length, hraw, hlen, ← append_nil raw] at hbs
  · exact Yields.error _

theorem bytes_yields {post : Bytes → Bytes → Core.Reader → Prop}
    (hpost : ∀ payload after, payload.length ≤ 0xFFFFFFFF → post (putBytes payload) payload after) :
    Yields bytes post := by
  apply Yields.bind
  apply number_yields
  intro count _ hcnt
  rw [UInt32.toNat_ofNat_of_lt' hcnt]
  apply Core.Reader.takeOr_yields
  intro payload after hlen
  have hshrt : payload.length ≤ 0xFFFFFFFF := by
    rw [hlen]
    exact Nat.le_of_lt_succ hcnt
  have hbs := hpost payload after hshrt
  rwa [putBytes, Nat.min_eq_left hshrt, take_length, hlen] at hbs

theorem topic_yields {post : Bytes → Topic → Core.Reader → Prop}
    (hpost : ∀ (topic : Topic) (after : Core.Reader), post (putStr topic.text) topic after) :
    Yields Reader.topic post := by
  apply Yields.bind
  apply string_yields
  intro text _ _
  split
  · next topic hpar =>
    apply Yields.pure
    intro after
    rw [append_nil, ← Topic.parse_ok.mp hpar]
    exact hpost topic after
  · exact Yields.error _

theorem trace_yields {post : Bytes → Option String → Core.Reader → Prop}
    (hpost : ∀ (trace : Option String) (after : Core.Reader),
      (∀ text ∈ trace, (utf8 text).length ≤ 0xFFFF) → post (putTrace trace) trace after) :
    Yields Reader.trace post := by
  apply Yields.bind
  apply u8_yields
  intro flag _
  split
  · next hflag =>
    apply Yields.pure
    intro after
    rw [hflag]
    exact hpost none after (by nofun)
  split
  · next hflag =>
    apply Yields.map
    apply string_yields
    intro text after hshrt
    rw [hflag]
    apply hpost (some text) after
    intro other hoth
    cases hoth
    exact hshrt
  · exact Yields.error _

variable {post : Bytes → Unit → Core.Reader → Prop}

theorem header_yields
    (hpost : ∀ after, post (magic ++ [format]) () after) : Yields header post := by
  apply Yields.bind
  apply Core.Reader.takeOr_yields
  intro opening _ _
  split
  · exact Yields.error _
  rename_i hopen
  apply Yields.bind
  apply u8_yields
  intro version _
  split
  · exact Yields.error _
  rename_i hver
  apply Yields.pure
  intro after
  rw [not_not.mp hopen, not_not.mp hver]
  exact hpost after

theorem finished_yields
    (hpost : ∀ after, after.rest = [] → post [] () after) : Yields finished post := by
  constructor
  · intro before value after hread
    rw [finished_run] at hread
    split at hread
    · next hend =>
      cases hread
      refine ⟨[], Core.Reader.Passes.refl before, hpost before ?_⟩
      rw [Core.Reader.rest, hend, drop_length]
    · cases hread
  · intro before hpan
    rw [finished_run] at hpan
    split at hpan <;> cases hpan

end Reader

section Records

variable {event : Event}

theorem finished_readsLast {Value : Type} (value : Value) :
    ReadsLast (do Reader.finished; return value : Reading DecodeError Value) [] value := by
  intro before after _ hpas hend
  have hsame : before = after := Core.Reader.eq_of_rest hpas.buf.symm hpas.rest
  subst hsame
  rw [bind_run, Reader.finished_reads hend]
  rfl

theorem readEvent_reads (hfits : event.Fits) : ReadsLast readEvent event.encode event := by
  have henc : event.encode = (magic ++ [format]) ++ (littleEndian 8 event.id.toNat ++
      (putStr event.topic.text ++ (littleEndian 8 event.tsMs.toNat ++ (putStr event.source ++
        (putStr event.schema.name ++ (littleEndian 4 event.schema.version.toNat ++
          (putTrace event.trace ++ (putBytes event.payload ++ [])))))))) := by
    rw [Event.encode, append_nil, append_assoc]
  rw [henc]
  apply Reader.header_reads.bindLast
  apply (Reader.u64_reads event.id).bindLast
  apply (Reader.topic_reads event.topic).bindLast
  apply (Reader.u64_reads event.tsMs).bindLast
  apply (Reader.string_reads hfits.source).bindLast
  apply (Reader.string_reads hfits.schema).bindLast
  apply (Reader.u32_reads event.schema.version).bindLast
  apply (Reader.trace_reads hfits.trace).bindLast
  apply (Reader.bytes_reads hfits.payload).bindLast
  exact finished_readsLast event

theorem readEvent_yields :
    Yields readEvent (fun taken event after =>
      after.rest = [] ∧ event.Fits ∧ event.encode = taken) := by
  apply Yields.bind
  apply Reader.header_yields
  intro _
  apply Yields.bind
  apply Reader.u64_yields
  intro id _
  apply Yields.bind
  apply Reader.topic_yields
  intro topic _
  apply Yields.bind
  apply Reader.u64_yields
  intro tsMs _
  apply Yields.bind
  apply Reader.string_yields
  intro source _ hsrc
  apply Yields.bind
  apply Reader.string_yields
  intro name _ hname
  apply Yields.bind
  apply Reader.u32_yields
  intro version _
  apply Yields.bind
  apply Reader.trace_yields
  intro trace _ htrace
  apply Yields.bind
  apply Reader.bytes_yields
  intro payload _ hpay
  change Yields ((fun _ => (⟨id, topic, tsMs, source, ⟨name, version⟩, payload, trace⟩ : Event)) <$>
    Reader.finished) _
  apply Yields.map
  apply Reader.finished_yields
  intro after hend
  refine ⟨hend, ⟨hsrc, hname, htrace, hpay⟩, ?_⟩
  rw [Event.encode]
  simp

theorem length_putStr_le (text : String) : (putStr text).length ≤ 2 + 0xFFFF := by
  rw [putStr, length_append, littleEndian_length]
  exact Nat.add_le_add_left (Nat.le_trans (length_take_le _ _) (Nat.min_le_right _ _)) 2

theorem length_encode_le (event : Event) : event.encode.length ≤ usizeMax := by
  have htopic := length_putStr_le event.topic.text
  have hsrc := length_putStr_le event.source
  have hname := length_putStr_le event.schema.name
  have htrace : (putTrace event.trace).length ≤ 3 + 0xFFFF := by
    cases event.trace with
    | none => decide
    | some text =>
      have htext := length_putStr_le text
      rw [putTrace, length_cons]
      omega
  have hpay : (putBytes event.payload).length ≤ 4 + 0xFFFFFFFF := by
    rw [putBytes, length_append, littleEndian_length]
    exact Nat.add_le_add_left (Nat.le_trans (length_take_le _ _) (Nat.min_le_right _ _)) 4
  have hmagic : magic.length = 6 := by decide
  rw [Event.encode]
  simp only [length_append, littleEndian_length, length_singleton, hmagic, usizeMax]
  omega

theorem decode_encode_iff (event : Event) : Event.decode event.encode = .ok event ↔ event.Fits := by
  constructor
  · intro hdec
    exact (readEvent_yields.weaken (fun _ _ _ hpost => hpost.2.1)).value_whole hdec
  · intro hfits
    exact (readEvent_reads hfits).whole (length_encode_le event)

end Records

end WasmAgent.Bus
