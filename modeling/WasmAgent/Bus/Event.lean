import WasmAgent.Core.Reading

/-!
# Topics and patterns

A topic is a dotted path; a pattern names one topic, or everything under a path.  Who may
publish where and subscribe to what is asked of a policy.
-/

namespace WasmAgent.Bus

open WasmAgent.Core

abbrev Bytes := List UInt8

def maxSegment : ℕ := 64

def maxTopic : ℕ := 256

def maxSegments : ℕ := 16

/-- Why a topic or pattern was refused. -/
inductive TopicError where
  | empty
  | tooLong (length : ℕ)
  | tooManySegments (count : ℕ)
  | emptySegment
  | segmentTooLong (segment : String) (length : ℕ)
  | badSegment (segment : String)
  | badWildcard
  deriving DecidableEq

def segments (text : String) : List String := (text.toList.splitOn '.').map String.ofList

def alphanumeric (char : Char) : Bool := char.isAlpha || char.isDigit

def segmentOk (segment : String) : Bool :=
  !segment.isEmpty && (utf8 segment).length ≤ maxSegment &&
    segment.toList.head?.all alphanumeric && segment.toList.getLast?.all alphanumeric &&
    segment.toList.all (fun char => alphanumeric char || char == '-' || char == '_')

def checkSegment (segment : String) : Except TopicError Unit :=
  if segment.isEmpty then .error .emptySegment
  else if maxSegment < (utf8 segment).length then
    .error (.segmentTooLong segment (utf8 segment).length)
  else if segmentOk segment then .ok ()
  else .error (.badSegment segment)

def check (text : String) : Except TopicError Unit :=
  if text.isEmpty then .error .empty
  else if maxTopic < (utf8 text).length then .error (.tooLong (utf8 text).length)
  else if maxSegments < (segments text).length then
    .error (.tooManySegments (segments text).length)
  else (segments text).forM checkSegment

structure Topic where
  text : String
  valid : check text = .ok ()
  deriving DecidableEq

namespace Topic

def parse (text : String) : Except TopicError Topic :=
  match valid : check text with
  | .ok _ => .ok ⟨text, valid⟩
  | .error fault => .error fault

end Topic

/-- One exact topic, or everything under a prefix; the empty prefix covers everything. -/
inductive Pattern where
  | exact (topic : Topic)
  | under (base : String)
  deriving DecidableEq

namespace Pattern

def covered (base path : Bytes) : Bool :=
  decide (base.length < path.length) && base.isPrefixOf path && path[base.length]? == some 46

/-- Does `topic` fall under this pattern? -/
def accepts : Pattern → Topic → Bool
  | exact wanted, topic => wanted == topic
  | under base, topic => base.isEmpty || covered (utf8 base) (utf8 topic.text)

end Pattern

/-- The access policy, asked while the bus is not locked. -/
structure Access where
  mayPublish : String → Topic → Bool
  maySubscribe : String → Pattern → Bool

theorem Topic.parse_ok {text : String} {topic : Topic} :
    Topic.parse text = .ok topic ↔ topic.text = text := by
  rw [Topic.parse]
  apply Iff.intro
  · intro hpar
    split at hpar
    · cases hpar
      rfl
    · cases hpar
  rintro rfl
  split
  · rfl
  · next hflt =>
    rw [topic.valid] at hflt
    cases hflt

/-! ## The event envelope and its wire form

Every event carries where it comes from, what it is about and bytes the bus never reads.
The wire form has a magic, a format byte, and fields with a length before them, of two
bytes for texts and of four for the payload.
-/

structure Schema where
  name : String
  version : UInt32
  deriving DecidableEq

/-- One published fact. -/
structure Event where
  id : UInt64
  topic : Topic
  tsMs : UInt64
  source : String
  schema : Schema
  payload : Bytes
  trace : Option String
  deriving DecidableEq

def magic : Bytes := utf8 "WABUS1"

def format : UInt8 := 1

def putStr (text : String) : Bytes :=
  littleEndian 2 (min (utf8 text).length 0xFFFF) ++ (utf8 text).take (min (utf8 text).length 0xFFFF)

/-- The length goes in four bytes, and a longer string is cut at what they hold. -/
def putBytes (bytes : Bytes) : Bytes :=
  littleEndian 4 (min bytes.length 0xFFFFFFFF) ++ bytes.take (min bytes.length 0xFFFFFFFF)

def putTrace : Option String → Bytes
  | some trace => 1 :: putStr trace
  | none => [0]

def Event.encode (event : Event) : Bytes :=
  magic ++ ([format] ++ (littleEndian 8 event.id.toNat ++ (putStr event.topic.text ++
    (littleEndian 8 event.tsMs.toNat ++ (putStr event.source ++ (putStr event.schema.name ++
      (littleEndian 4 event.schema.version.toNat ++ (putTrace event.trace ++
        putBytes event.payload))))))))

/-- A stored event could not be read back. -/
inductive DecodeError where
  | truncated
  | badMagic
  | unsupportedFormat (format : UInt8)
  | badTopic (why : TopicError)
  | badStr
  | badTraceFlag (flag : UInt8)
  | trailingBytes (count : ℕ)
  deriving DecidableEq

namespace Reader

def take (count : ℕ) : Reading DecodeError Bytes := Core.Reader.takeOr .truncated .truncated count

/-- The next `count` bytes, each of them indexed. -/
def fixed (count : ℕ) : Reading DecodeError Bytes := do
  let bytes ← take count
  (Core.Reader.array count bytes : Except (Stop DecodeError) Bytes)

def u8 : Reading DecodeError UInt8 :=
  (fun bytes => UInt8.ofNat (fromLittleEndian bytes)) <$> fixed 1

def u16 : Reading DecodeError UInt16 :=
  (fun bytes => UInt16.ofNat (fromLittleEndian bytes)) <$> fixed 2

def u32 : Reading DecodeError UInt32 :=
  (fun bytes => UInt32.ofNat (fromLittleEndian bytes)) <$> fixed 4

def u64 : Reading DecodeError UInt64 :=
  (fun bytes => UInt64.ofNat (fromLittleEndian bytes)) <$> fixed 8

def string : Reading DecodeError String := do
  let count ← u16
  let raw ← take count.toNat
  match String.fromUTF8? ⟨raw.toArray⟩ with
  | some text => return text
  | none => throw (.error .badStr)

def bytes : Reading DecodeError Bytes := do
  let count ← u32
  take count.toNat

def topic : Reading DecodeError Topic := do
  let text ← string
  match Topic.parse text with
  | .ok topic => return topic
  | .error why => throw (.error (.badTopic why))

def trace : Reading DecodeError (Option String) := do
  let flag ← u8
  if flag = 0 then
    return none
  else if flag = 1 then
    some <$> string
  else
    throw (.error (.badTraceFlag flag))

def finished : Reading DecodeError Unit := do
  let reader ← get
  if reader.offset = reader.buf.length then
    return ()
  else
    throw (.error (.trailingBytes (reader.buf.length - reader.offset)))

def header : Reading DecodeError Unit := do
  let opening ← take magic.length
  if opening ≠ magic then
    throw (.error .badMagic)
  let version ← u8
  if version ≠ format then
    throw (.error (.unsupportedFormat version))

end Reader

def readEvent : Reading DecodeError Event := do
  Reader.header
  let id ← Reader.u64
  let topic ← Reader.topic
  let tsMs ← Reader.u64
  let source ← Reader.string
  let name ← Reader.string
  let version ← Reader.u32
  let trace ← Reader.trace
  let payload ← Reader.bytes
  Reader.finished
  return { id, topic, tsMs, source, schema := ⟨name, version⟩, payload, trace }

/-- Decode what `Event.encode` wrote. -/
def Event.decode (bytes : Bytes) : Except (Stop DecodeError) Event := readWhole readEvent bytes

end WasmAgent.Bus
