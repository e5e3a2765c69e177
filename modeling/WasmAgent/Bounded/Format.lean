import WasmAgent.Bounded.Ring

/-!
# The replay file format

A plain header and a stream of records, little-endian and length-prefixed.  A record is
read from the bytes that writing it gives and from no others; what follows the last record
is not looked at.
-/

namespace WasmAgent.Bounded

open List WasmAgent.Core

inductive Trigger where
  | error
  | timeout
  | crash
  | transcription
  | manual
  | other (text : String)
  deriving DecidableEq

namespace Trigger

def asStr : Trigger → String
  | .error => "error"
  | .timeout => "timeout"
  | .crash => "crash"
  | .transcription => "transcription"
  | .manual => "manual"
  | .other text => text

def parse (text : String) : Trigger :=
  if text = "error" then .error
  else if text = "timeout" then .timeout
  else if text = "crash" then .crash
  else if text = "transcription" then .transcription
  else if text = "manual" then .manual
  else .other text

end Trigger

structure ReplayHeader where
  version : UInt16
  flags : UInt16
  created : Instant
  records : UInt64
  bodyLen : UInt64
  bodySha256 : Digest
  trigger : Trigger
  label : String
  blobs : List BlobRef
  ring : RingConfig
  deriving DecidableEq

def magic : Bytes := [0x57, 0x41, 0x2d, 0x52, 0x45, 0x50, 0x4c, 0x59]
def formatVersion : UInt16 := 1
def flagKnown : UInt16 := 0

def u16Max : ℕ := 0xFFFF

section Writing

/-- Milliseconds since the epoch, none before it. -/
def millis (ts : Instant) : ℕ := min (since ts 0 / 1000000) u64Max

def fromMillis (ms : UInt64) : Instant := ms.toNat * 1000000

def durationMillis (duration : ℕ) : ℕ := min (duration / 1000000) u64Max

def durationMicros (duration : ℕ) : ℕ := min (duration / 1000) u32Max

def tooLong : Error :=
  .badField "string too long for the v1 format"

def strBytes (text : String) : Bytes := littleEndian 2 (utf8 text).length ++ utf8 text

def putStr (text : String) : Except Error Bytes :=
  if u16Max < (utf8 text).length then .error tooLong else .ok (strBytes text)

def putPayload : Payload → Bytes
  | .empty => [0]
  | .inline _ bytes => 1 :: (littleEndian 4 bytes.length ++ bytes)
  | .digest sha256 len => 2 :: (sha256.val ++ littleEndian 8 len.toNat)
  | .blob reference => 3 :: (reference.key.digest.val ++ littleEndian 8 reference.len.toNat)

def encodeRecord (record : Record) : Except Error Bytes := do
  let interface ← putStr record.interface
  let function ← putStr record.function
  return littleEndian 8 record.seq.toNat ++ (littleEndian 8 (millis record.ts) ++
    (littleEndian 4 (durationMicros record.duration) ++ (interface ++ (function ++
      (putPayload record.args ++ putPayload record.result)))))

def encodeRecords : List Record → Except Error Bytes
  | [] => .ok []
  | record :: records => do
      let first ← encodeRecord record
      let rest ← encodeRecords records
      return first ++ rest

def blobBytes (blob : BlobRef) : Bytes := blob.key.digest.val ++ littleEndian 8 blob.len.toNat

def putHeader (cfg : RingConfig) (records : List Record) (createdMs : ℕ) (body : Bytes)
    (trigger : Trigger) (label : String) (blobs : List BlobRef) : Except Error Bytes := do
  let trigger ← putStr trigger.asStr
  let label ← putStr label
  return magic ++ (littleEndian 2 formatVersion.toNat ++ (littleEndian 2 flagKnown.toNat ++
    (littleEndian 8 createdMs ++ (littleEndian 8 records.length ++ (littleEndian 8 body.length ++
    ((sha256 body).val ++ (littleEndian 8 (durationMillis cfg.maxAge) ++
    (littleEndian 8 cfg.maxBytes.toNat ++ (littleEndian 8 cfg.blobThreshold.toNat ++
    ((if cfg.keepArgs then [1] else [0]) ++ (trigger ++ (label ++
    (littleEndian 4 blobs.length ++ blobs.flatMap blobBytes)))))))))))))

end Writing

namespace Cursor

def take (count : ℕ) : Reading Error Bytes := fun reader =>
  Reader.takeOr (.corrupt "length overflow")
    (.corrupt s!"truncated at {reader.offset} (wanted {count} more bytes)") count reader

/-- The next `count` bytes, each of them indexed. -/
def fixed (count : ℕ) : Reading Error Bytes := do
  let bytes ← take count
  (Reader.array count bytes : Except (Stop Error) Bytes)

def u8 : Reading Error UInt8 := (fun bytes => UInt8.ofNat (fromLittleEndian bytes)) <$> fixed 1

def u16 : Reading Error UInt16 := (fun bytes => UInt16.ofNat (fromLittleEndian bytes)) <$> fixed 2

def u32 : Reading Error UInt32 := (fun bytes => UInt32.ofNat (fromLittleEndian bytes)) <$> fixed 4

def u64 : Reading Error UInt64 := (fun bytes => UInt64.ofNat (fromLittleEndian bytes)) <$> fixed 8

def toDigest (bytes : Bytes) : Except (Stop Error) Digest :=
  if hlength : bytes.length = 32 then .ok ⟨bytes, hlength⟩ else .error .panic

def digest : Reading Error Digest := do
  let bytes ← take 32
  (toDigest bytes : Except (Stop Error) Digest)

def text (len : ℕ) : Reading Error String := do
  let bytes ← take len
  match String.fromUTF8? ⟨bytes.toArray⟩ with
  | some text => return text
  | none => throw (.error (.corrupt "string not utf-8"))

end Cursor

section Parsing

def parsePayload : Reading Error Payload := do
  let tag ← Cursor.u8
  if tag = 0 then
    return .empty
  else if tag = 1 then
    let len ← Cursor.u32
    let bytes ← Cursor.take len.toNat
    return .inline (sha256 bytes) bytes
  else if tag = 2 then
    let digest ← Cursor.digest
    let len ← Cursor.u64
    return .digest digest len
  else if tag = 3 then
    let key ← Cursor.digest
    let len ← Cursor.u64
    return .blob ⟨⟨key⟩, len⟩
  else
    throw (.error (.corrupt s!"unknown payload tag {tag}"))

def readRecord : Reading Error Record := do
  let seq ← Cursor.u64
  let ms ← Cursor.u64
  let micros ← Cursor.u32
  let interfaceLen ← Cursor.u16
  let interface ← Cursor.text interfaceLen.toNat
  let functionLen ← Cursor.u16
  let function ← Cursor.text functionLen.toNat
  let args ← parsePayload
  let result ← parsePayload
  return ⟨seq, fromMillis ms, interface, function, args, result, micros.toNat * 1000⟩

def parseRecord (body : Bytes) (pos : ℕ) : Except (Stop Error) (Record × ℕ) := do
  let rest ← Reader.slice body pos body.length
  let (record, cursor) ← readRecord (Reader.new rest)
  return (record, pos + cursor.offset)

def readBlobs : ℕ → Reading Error (List BlobRef)
  | 0 => return []
  | count + 1 => do
      let key ← Cursor.digest
      let len ← Cursor.u64
      let rest ← readBlobs count
      return ⟨⟨key⟩, len⟩ :: rest

def readTable (count : ℕ) : Reading Error (List BlobRef) := do
  let reader ← get
  if reader.buf.length - reader.offset < min (count * 40) usizeMax then
    throw (.error (.corrupt "blob table larger than the file"))
  else
    readBlobs count

def readFields (version flags : UInt16) : Reading Error ReplayHeader := do
  let created ← Cursor.u64
  let records ← Cursor.u64
  let bodyLen ← Cursor.u64
  let bodySha256 ← Cursor.digest
  let maxAge ← Cursor.u64
  let maxBytes ← Cursor.u64
  let blobThreshold ← Cursor.u64
  let keepArgs ← Cursor.u8
  let triggerLen ← Cursor.u16
  let trigger ← Cursor.text triggerLen.toNat
  let labelLen ← Cursor.u16
  let label ← Cursor.text labelLen.toNat
  let blobCount ← Cursor.u32
  let blobs ← readTable blobCount.toNat
  return {
    version := version
    flags := flags
    created := fromMillis created
    records := records
    bodyLen := bodyLen
    bodySha256 := bodySha256
    trigger := Trigger.parse trigger
    label := label
    blobs := blobs
    ring := ⟨maxBytes, maxAge.toNat * 1000000, blobThreshold, keepArgs ≠ 0⟩ }

def hex4 (value : UInt16) : String :=
  String.ofList (List.replicate (4 - (Nat.toDigits 16 value.toNat).length) '0' ++
    Nat.toDigits 16 value.toNat)

def readHeader : Reading Error ReplayHeader := do
  let found ← Cursor.take 8
  if found ≠ magic then
    throw (.error (.corrupt "not a wa replay file (bad magic)"))
  else do
    let version ← Cursor.u16
    if formatVersion < version then
      throw (.error (.unsupportedVersion version))
    else if version < formatVersion then
      throw (.error (.corrupt s!"no reader for format version {version}"))
    else do
      let flags ← Cursor.u16
      if flags &&& ~~~flagKnown ≠ 0 then
        throw (.error (.corrupt s!"unknown flags 0x{hex4 flags}"))
      else
        readFields version flags

/-- The header of a file, and where its body starts. -/
def parseHeader (bytes : Bytes) : Except (Stop Error) (ReplayHeader × ℕ) := do
  let (header, cursor) ← readHeader (Reader.new bytes)
  return (header, cursor.offset)

end Parsing

namespace Cursor

theorem take_reads (bytes : Bytes) : Reads (take bytes.length) bytes bytes := by
  intro before after hshrt hpas
  exact Reader.takeOr_reads bytes before after hshrt hpas

variable {post : Bytes → Bytes → Reader → Prop}

theorem take_yields {count : ℕ}
    (hpost : ∀ bytes after, bytes.length = count → post bytes bytes after) :
    Yields (take count) post := by
  constructor
  · intro before
    exact (Reader.takeOr_yields hpost).takes before
  · intro before
    exact (Reader.takeOr_yields hpost).sober before

theorem fixed_reads {count : ℕ} {bytes : Bytes} (hlength : bytes.length = count) :
    Reads (fixed count) bytes bytes := by
  subst hlength
  apply (take_reads bytes).bindNil
  rw [Reader.array_ok rfl]
  exact Reads.pure bytes

theorem fixed_yields {count : ℕ}
    (hpost : ∀ bytes after, bytes.length = count → post bytes bytes after) :
    Yields (fixed count) post := by
  apply Yields.bind
  apply take_yields
  intro bytes _ hlength
  rw [Reader.array_ok hlength]
  apply Yields.pure
  intro after
  rw [append_nil]
  exact hpost bytes after hlength

section Numbers

variable {width : ℕ}

theorem number_reads {Value : Type} {make : ℕ → Value} {value : ℕ} (hval : value < 0x100 ^ width) :
    Reads ((fun bytes => make (fromLittleEndian bytes)) <$> fixed width)
      (littleEndian width value) (make value) := by
  have hreads := (fixed_reads (littleEndian_length width value)).map
    (fun bytes => make (fromLittleEndian bytes))
  rwa [fromLittleEndian_littleEndian hval] at hreads

theorem number_yields {Value : Type} {make : ℕ → Value} {post : Bytes → Value → Reader → Prop}
    (hpost : ∀ value after, value < 0x100 ^ width →
      post (littleEndian width value) (make value) after) :
    Yields ((fun bytes => make (fromLittleEndian bytes)) <$> fixed width) post := by
  apply Yields.map
  apply fixed_yields
  intro bytes after hlength
  have hfits := fromLittleEndian_lt bytes
  rw [hlength] at hfits
  have hbs := hpost (fromLittleEndian bytes) after hfits
  rwa [← hlength, littleEndian_fromLittleEndian] at hbs

theorem u8_reads (value : UInt8) : Reads u8 [value] value := by
  have hreads : Reads u8 (littleEndian 1 value.toNat) (UInt8.ofNat value.toNat) :=
    number_reads value.toNat_lt
  rwa [littleEndian, littleEndian, UInt8.ofNat_toNat] at hreads

theorem u16_reads {value : ℕ} (hval : value ≤ u16Max) :
    Reads u16 (littleEndian 2 value) (UInt16.ofNat value) :=
  number_reads (Nat.lt_succ_of_le hval)

theorem u32_reads {value : ℕ} (hval : value ≤ u32Max) :
    Reads u32 (littleEndian 4 value) (UInt32.ofNat value) :=
  number_reads (Nat.lt_succ_of_le hval)

theorem u64_reads {value : ℕ} (hval : value ≤ u64Max) :
    Reads u64 (littleEndian 8 value) (UInt64.ofNat value) :=
  number_reads (Nat.lt_succ_of_le hval)

theorem u8_yields {post : Bytes → UInt8 → Reader → Prop}
    (hpost : ∀ value after, post [value] value after) : Yields u8 post := by
  apply number_yields
  intro value after _
  exact hpost (UInt8.ofNat value) after

theorem u16_yields {post : Bytes → UInt16 → Reader → Prop}
    (hpost : ∀ value after, post (littleEndian 2 value.toNat) value after) : Yields u16 post := by
  apply number_yields
  intro value after hval
  have hbs := hpost (UInt16.ofNat value) after
  rwa [UInt16.toNat_ofNat_of_lt' hval] at hbs

theorem u32_yields {post : Bytes → UInt32 → Reader → Prop}
    (hpost : ∀ value after, post (littleEndian 4 value.toNat) value after) : Yields u32 post := by
  apply number_yields
  intro value after hval
  have hbs := hpost (UInt32.ofNat value) after
  rwa [UInt32.toNat_ofNat_of_lt' hval] at hbs

theorem u64_yields {post : Bytes → UInt64 → Reader → Prop}
    (hpost : ∀ value after, post (littleEndian 8 value.toNat) value after) : Yields u64 post := by
  apply number_yields
  intro value after hval
  have hbs := hpost (UInt64.ofNat value) after
  rwa [UInt64.toNat_ofNat_of_lt' hval] at hbs

end Numbers

theorem digest_reads (value : Digest) : Reads digest value.val value := by
  obtain ⟨bytes, hlength⟩ := value
  have htake : Reads (take 32) bytes bytes := by
    rw [← hlength]
    exact take_reads bytes
  apply htake.bindNil
  rw [toDigest, dif_pos hlength]
  exact Reads.pure _

theorem digest_yields {post : Bytes → Digest → Reader → Prop}
    (hpost : ∀ value after, post value.val value after) : Yields digest post := by
  apply Yields.bind
  apply take_yields
  intro bytes _ hlength
  rw [toDigest, dif_pos hlength]
  apply Yields.pure
  intro after
  rw [append_nil]
  exact hpost ⟨bytes, hlength⟩ after

theorem text_reads (value : String) : Reads (text (utf8 value).length) (utf8 value) value := by
  apply (take_reads (utf8 value)).bindNil
  rw [fromUTF8_utf8]
  exact Reads.pure value

theorem text_yields {len : ℕ} {post : Bytes → String → Reader → Prop}
    (hpost : ∀ value after, (utf8 value).length = len → post (utf8 value) value after) :
    Yields (text len) post := by
  apply Yields.bind
  apply take_yields
  intro bytes _ hlength
  split
  · next value hval =>
    apply Yields.pure
    intro after
    have hbs := utf8_of_fromUTF8 hval
    rw [append_nil, ← hbs]
    apply hpost
    rw [hbs, hlength]
  · exact Yields.error _

end Cursor

end WasmAgent.Bounded
