import WasmAgent.Sink.Record

/-!
# The frames of the telemetry sink

A frame is a magic, a count and that many records, little-endian and length-prefixed.  The
attributes stand last in every record.
-/

namespace WasmAgent.Sink

open WasmAgent.Core

def magic : Bytes := [0x57, 0x54, 0x53, 0x31]
def headerBytes : ℕ := 6
def maxRecords : ℕ := 4096
def maxFrameBytes : ℕ := 1 <<< 20

def tagSpan : UInt8 := 1
def tagMetric : UInt8 := 2
def tagEvent : UInt8 := 3

inductive CodecError where
  | badMagic
  | truncated
  | badCount
  | tooLarge
  | trailingBytes
  | badUtf8
  | badBound
  | badName
  | badDiscriminant
  deriving DecidableEq

section Writing

def putId (id : Id) : Bytes := littleEndian 2 (utf8 id.text).length ++ utf8 id.text

def putTrace : Option TraceId → Bytes
  | some trace => 1 :: trace.val
  | none => [0]

def putValue : AttrValue → Bytes
  | .id id => 0 :: putId id
  | .count value => 1 :: littleEndian 8 value.toNat
  | .digest len hash => 2 :: (littleEndian 4 len.toNat ++ littleEndian 8 hash.toNat)
  | .redacted => [3]

def putAttr (attr : Attr) : Bytes := putId attr.key ++ putValue attr.value

def putAttrs (entries : List Attr) : Bytes := UInt8.ofNat entries.length :: entries.flatMap putAttr

/-- What stands before the attributes. -/
def putFields : Record → Bytes
  | .span span =>
      tagSpan :: (putId span.component ++ (putId span.op ++ (littleEndian 8 span.startMs.toNat ++
        (littleEndian 8 span.durationUs.toNat ++ (span.status.code :: putTrace span.trace)))))
  | .metric metric =>
      tagMetric :: (putId metric.component ++ (putId metric.name ++ (metric.kind.code ::
        metric.unit.code :: littleEndian 8 metric.value.toNat)))
  | .event event =>
      tagEvent :: (putId event.topic ++ (putId event.source ++ (putId event.schema ++
        (littleEndian 4 event.schemaVersion.toNat ++ (littleEndian 8 event.tsMs.toNat ++
          (littleEndian 8 event.count.toNat ++ (event.severity.code :: putTrace event.trace)))))))

def putRecord (record : Record) : Bytes := putFields record ++ putAttrs record.attrs.entries

def putHeader (count : ℕ) : Bytes := magic ++ littleEndian 2 count

/-- Refuses a batch that `decode` would refuse. -/
def encode (records : List Record) : Except CodecError Bytes :=
  if maxRecords < records.length then
    .error .badCount
  else if maxFrameBytes < headerBytes + (records.map Record.encodedLen).sum then
    .error .tooLarge
  else
    .ok (putHeader records.length ++ records.flatMap putRecord)

end Writing

section Reading

def take (len : ℕ) : Reading CodecError Bytes := Reader.takeOr .truncated .truncated len

def readNumber (width : ℕ) : Reading CodecError ℕ := Reader.number .truncated .truncated width

def readU8 : Reading CodecError UInt8 := UInt8.ofNat <$> readNumber 1

def readU16 : Reading CodecError UInt16 := UInt16.ofNat <$> readNumber 2

def readU32 : Reading CodecError UInt32 := UInt32.ofNat <$> readNumber 4

def readU64 : Reading CodecError UInt64 := UInt64.ofNat <$> readNumber 8

def orElse {Value : Type} (fault : CodecError) : Option Value → Except (Stop CodecError) Value
  | some value => .ok value
  | none => .error (.error fault)

def readId : Reading CodecError Id := do
  let len ← readU16
  if maxId < len.toNat then
    throw (.error .badBound)
  else do
    let bytes ← take len.toNat
    let text ← orElse .badUtf8 (String.fromUTF8? ⟨bytes.toArray⟩)
    orElse .badName (Id.fromWire text)

/-- Copies sixteen bytes, which panics on any other number. -/
def toTraceId (bytes : Bytes) : Except (Stop CodecError) TraceId :=
  if hlength : bytes.length = 16 then .ok ⟨bytes, hlength⟩ else .error .panic

def readTrace : Reading CodecError (Option TraceId) := do
  let tag ← readU8
  if tag = 0 then
    return none
  else if tag = 1 then do
    let bytes ← take 16
    let trace ← (toTraceId bytes : Except (Stop CodecError) TraceId)
    return some trace
  else
    throw (.error .badDiscriminant)

def readValue : Reading CodecError AttrValue := do
  let tag ← readU8
  if tag = 0 then do
    let id ← readId
    return .id id
  else if tag = 1 then do
    let value ← readU64
    return .count value
  else if tag = 2 then do
    let len ← readU32
    let hash ← readU64
    return .digest len hash
  else if tag = 3 then
    return .redacted
  else
    throw (.error .badDiscriminant)

def readAttr : Reading CodecError Attr := do
  let key ← readId
  let value ← readValue
  return ⟨key, value⟩

/-- So many more attributes; one that is not kept is refused. -/
def pushAttrs : ℕ → Attrs → Reading CodecError Attrs
  | 0, attrs => return attrs
  | count + 1, attrs => do
      let attr ← readAttr
      let more ← orElse .badBound (attrs.push attr)
      pushAttrs count more

def readAttrs : Reading CodecError Attrs := do
  let count ← readU8
  if maxAttrs < count.toNat then
    throw (.error .badBound)
  else
    pushAttrs count.toNat Attrs.new

/-- What stands before the attributes of a record. -/
def readFields : Reading CodecError (Attrs → Record) := do
  let tag ← readU8
  if tag = tagSpan then do
    let component ← readId
    let op ← readId
    let startMs ← readU64
    let durationUs ← readU64
    let code ← readU8
    let status ← orElse .badDiscriminant (SpanStatus.fromCode code)
    let trace ← readTrace
    return fun attrs => .span ⟨component, op, startMs, durationUs, status, trace, attrs⟩
  else if tag = tagMetric then do
    let component ← readId
    let name ← readId
    let code ← readU8
    let kind ← orElse .badDiscriminant (MetricKind.fromCode code)
    let code ← readU8
    let unit ← orElse .badDiscriminant (MetricUnit.fromCode code)
    let value ← readU64
    return fun labels => .metric ⟨component, name, kind, unit, value, labels⟩
  else if tag = tagEvent then do
    let topic ← readId
    let source ← readId
    let schema ← readId
    let schemaVersion ← readU32
    let tsMs ← readU64
    let count ← readU64
    let code ← readU8
    let severity ← orElse .badDiscriminant (Severity.fromCode code)
    let trace ← readTrace
    return fun attrs =>
      .event ⟨topic, source, schema, schemaVersion, tsMs, count, severity, trace, attrs⟩
  else
    throw (.error .badDiscriminant)

def readRecord : Reading CodecError Record := do
  let make ← readFields
  let attrs ← readAttrs
  return make attrs

def readRecords (count : ℕ) : Reading CodecError (List Record) := many count readRecord

def openFrame {Value : Type} (body : ℕ → Reading CodecError Value) (frame : Bytes) :
    Except (Stop CodecError) Value :=
  if maxFrameBytes < frame.length then
    .error (.error .tooLarge)
  else if hshort : frame.length < headerBytes then
    .error (.error .truncated)
  else do
    let found ← (Reader.slice frame 0 4 : Except (Stop CodecError) Bytes)
    if found ≠ magic then
      .error (.error .badMagic)
    else do
      let count ← (Reader.slice frame 4 headerBytes : Except (Stop CodecError) Bytes)
      if maxRecords < fromLittleEndian count then
        .error (.error .badCount)
      else do
        let (value, reader) ← body (fromLittleEndian count)
          ⟨frame, headerBytes, Nat.le_of_not_lt hshort⟩
        if reader.offset ≠ frame.length then .error (.error .trailingBytes) else .ok value

def decode (frame : Bytes) : Except (Stop CodecError) (List Record) := openFrame readRecords frame

end Reading

end WasmAgent.Sink
