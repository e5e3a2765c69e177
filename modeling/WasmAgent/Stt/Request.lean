import WasmAgent.Core.Json
import WasmAgent.Core.Survival
import WasmAgent.Queue.Types
import WasmAgent.Stt.Base64

/-!
# Transcription requests

What one job of `stt.requests` carries, as the producer writes it and as a worker reads it.
-/

namespace WasmAgent.Stt

open List Option WasmAgent.Core

def inlineMaxBytes : ℕ := 256 * 1024
def maxAudioBytes : ℕ := 20 * 1024 * 1024
def maxIdChars : ℕ := 128
def maxLanguageChars : ℕ := 16
def payloadVersion : UInt64 := 1

inductive Mime where
  | ogg
  | mp3
  | wav
  | m4a
  deriving DecidableEq

namespace Mime

def asStr : Mime → String
  | ogg => "audio/ogg"
  | mp3 => "audio/mpeg"
  | wav => "audio/wav"
  | m4a => "audio/mp4"

def parse (text : String) : Option Mime :=
  match String.ofList (Queue.trim (text.toList.takeWhile (· ≠ ';'))) with
  | "audio/ogg" | "audio/opus" => some ogg
  | "audio/mpeg" | "audio/mp3" => some mp3
  | "audio/wav" | "audio/x-wav" => some wav
  | "audio/mp4" | "audio/aac" | "audio/m4a" => some m4a
  | _ => none

end Mime

/-- A short-lived permission to fetch one job's audio from the producing node. -/
structure FetchHandle where
  handle : String
  expiresAtMs : Int64
  bytes : UInt64
  mime : Mime
  deriving DecidableEq

def FetchHandle.isExpired (handle : FetchHandle) (nowMs : Int64) : Bool :=
  handle.expiresAtMs ≤ nowMs

inductive AudioSource where
  | inline (bytes : Queue.Bytes) (mime : Mime)
  | fetch (handle : FetchHandle)
  deriving DecidableEq

structure SttRequest where
  audio : AudioSource
  language : String
  freshUntilMs : Int64
  chat : String
  msg : String
  account : String
  generation : UInt64
  declaredSeconds : Option UInt32
  deriving DecidableEq

def SttRequest.dedupeKey (request : SttRequest) : String :=
  request.account ++ "/" ++ toString request.generation.toNat ++ "/" ++ request.chat ++ "/" ++
    request.msg

inductive RequestError where
  | malformed (what : String)
  | field (name : String)
  | tooLarge (name : String)
  | unsupportedVersion (version : UInt64)
  deriving DecidableEq

section Numbers

def ofUInt64 (value : UInt64) : Json :=
  .number (.unsigned value)

def ofInt64 (value : Int64) : Json :=
  .number (if value < 0 then .negative value else .unsigned value.toUInt64)

def asU64 : Json → Option UInt64
  | .number (.unsigned value) => some value
  | _ => none

def asI64 : Json → Option Int64
  | .number (.unsigned value) => if value.toNat < 2 ^ 63 then some value.toInt64 else none
  | .number (.negative value) => some value
  | _ => none

@[simp]
theorem asU64_ofUInt64 (value : UInt64) : asU64 (ofUInt64 value) = some value := by
  rfl

@[simp]
theorem asI64_ofInt64 (value : Int64) : asI64 (ofInt64 value) = some value := by
  rw [ofInt64]
  split
  · rfl
  rename_i hnon
  have hle := Int64.not_lt.mp hnon
  have hbound := value.toInt_lt
  rw [asI64, Int64.toNat_toUInt64_of_le hle, Int64.toInt64_toUInt64, if_pos]
  rw [Int64.toNatClampNeg]
  omega

end Numbers

section Writing

def AudioSource.toJson : AudioSource → Json
  | inline bytes mime =>
      .object [("inline", .object [("b64", .string (Base64.encode bytes)),
        ("mime", .string mime.asStr)])]
  | fetch handle =>
      .object [("fetch", .object [("bytes", ofUInt64 handle.bytes),
        ("expires_at_ms", ofInt64 handle.expiresAtMs), ("handle", .string handle.handle),
        ("mime", .string handle.mime.asStr)])]

def SttRequest.declaredFields (request : SttRequest) : List (String × Json) :=
  match request.declaredSeconds with
  | some seconds => [("declared_seconds", ofUInt64 seconds.toUInt64)]
  | none => []

def SttRequest.toJson (request : SttRequest) : Json :=
  .object ([("account", .string request.account), ("audio", request.audio.toJson),
    ("chat", .string request.chat)] ++ request.declaredFields ++
    [("fresh_until_ms", ofInt64 request.freshUntilMs), ("generation", ofUInt64 request.generation),
      ("language", .string request.language), ("msg", .string request.msg),
      ("v", ofUInt64 payloadVersion)])

def SttRequest.encode (serde : Serde) (request : SttRequest) : Queue.Bytes :=
  utf8 (serde.print request.toJson)

end Writing

section Reading

def strictKeys (object : Json) (allowed : List String) : Except RequestError Unit :=
  if (object.asObject.getD []).all fun field => field.1 ∈ allowed then .ok ()
  else .error (.malformed "unknown_field")

def orField {Value : Type} (value : Option Value) (name : String) : Except RequestError Value :=
  match value with
  | some found => .ok found
  | none => .error (.field name)

def number (object : Json) (key : String) : Except RequestError Json :=
  match object.field? key with
  | some (.number value) => .ok (.number value)
  | _ => .error (.field
      (if key = "v" ∨ key = "fresh_until_ms" ∨ key = "generation" then key else "field"))

def textField (object : Json) (key : String) : Option String := (object.field? key).bind Json.asStr

def unsignedField (object : Json) (key name : String) : Except RequestError UInt64 := do
  let value ← number object key
  orField (asU64 value) name

def signedField (object : Json) (key name : String) : Except RequestError Int64 := do
  let value ← number object key
  orField (asI64 value) name

def boundedField (object : Json) (key name : String) (limit : ℕ) : Except RequestError String := do
  let value ← orField (textField object key) name
  orField (if value.isEmpty || limit < value.length then none else some value) name

def idField (object : Json) (key : String) : Except RequestError String :=
  boundedField object key key maxIdChars

def mimeField (object : Json) : Except RequestError Mime :=
  orField ((textField object "mime").bind Mime.parse) "audio.mime"

def checkVersion (object : Json) : Except RequestError Unit := do
  let version ← unsignedField object "v" "v"
  if version = payloadVersion then .ok () else .error (.unsupportedVersion version)

def inlineBytes (encoded : String) : Except RequestError Queue.Bytes :=
  if inlineMaxBytes + 3 < (utf8 encoded).length / 4 * 3 then .error (.tooLarge "audio.inline")
  else
    match Base64.decode encoded with
    | none => .error (.malformed "audio.b64")
    | some bytes =>
        if inlineMaxBytes < bytes.length then .error (.tooLarge "audio.inline")
        else if bytes.isEmpty then .error (.field "audio.inline")
        else .ok bytes

def readInline (object : Json) : Except RequestError AudioSource := do
  strictKeys object ["mime", "b64"]
  let mime ← mimeField object
  let encoded ← orField (textField object "b64") "audio.b64"
  let bytes ← inlineBytes encoded
  return .inline bytes mime

def checkBytes (bytes : UInt64) : Except RequestError Unit :=
  if bytes = 0 ∨ maxAudioBytes < bytes.toNat then .error (.tooLarge "audio.bytes") else .ok ()

def readFetch (object : Json) : Except RequestError AudioSource := do
  strictKeys object ["handle", "expires_at_ms", "bytes", "mime"]
  let handle ← boundedField object "handle" "audio.handle" maxIdChars
  let expiresAtMs ← signedField object "expires_at_ms" "audio.expires_at_ms"
  let bytes ← unsignedField object "bytes" "audio.bytes"
  checkBytes bytes
  let mime ← mimeField object
  return .fetch ⟨handle, expiresAtMs, bytes, mime⟩

def readAudio (object : Json) : Except RequestError AudioSource := do
  strictKeys object ["inline", "fetch"]
  match object.field? "inline", object.field? "fetch" with
  | some inline, none =>
      match inline.asObject with
      | some _ => readInline inline
      | none => .error (.field "audio.inline")
  | none, some fetch =>
      match fetch.asObject with
      | some _ => readFetch fetch
      | none => .error (.field "audio.fetch")
  | _, _ => .error (.field "audio")

def audioField (object : Json) : Except RequestError Json :=
  match object.field? "audio" with
  | some (.object fields) => .ok (.object fields)
  | _ => .error (.field "audio")

def readDeclared (object : Json) : Except RequestError (Option UInt32) :=
  match object.field? "declared_seconds" with
  | none | some .null => .ok none
  | some value =>
      match (asU64 value).filter (· ≤ 24 * 3600) with
      | some seconds => .ok (some seconds.toUInt32)
      | none => .error (.field "declared_seconds")

def readRequest (object : Json) : Except RequestError SttRequest := do
  strictKeys object ["v", "audio", "language", "fresh_until_ms", "chat", "msg", "account",
    "generation", "declared_seconds"]
  checkVersion object
  let audioObject ← audioField object
  let audio ← readAudio audioObject
  let language ← boundedField object "language" "language" maxLanguageChars
  let freshUntilMs ← signedField object "fresh_until_ms" "fresh_until_ms"
  let chat ← idField object "chat"
  let msg ← idField object "msg"
  let account ← idField object "account"
  let generation ← unsignedField object "generation" "generation"
  let declaredSeconds ← readDeclared object
  return ⟨audio, language, freshUntilMs, chat, msg, account, generation, declaredSeconds⟩

def SttRequest.decode (serde : Serde) (payload : Queue.Bytes) : Except RequestError SttRequest :=
  match String.fromUTF8? ⟨payload.toArray⟩ with
  | none => .error (.malformed "not_utf8")
  | some text =>
      match serde.parse (utf8 text) with
      | .error _ => .error (.malformed "not_json")
      | .ok (.object fields) => readRequest (.object fields)
      | .ok _ => .error (.malformed "not_an_object")

end Reading

section Agreement

structure ReadsIf {Value : Type} (fits : Prop) (reading : Except RequestError Value)
    (value : Value) : Prop where
  reads : fits → reading = .ok value
  refuses : ¬ fits → ∃ error, reading = .error error

namespace ReadsIf

variable {Value Next : Type} {fits fitsNext : Prop} {first : Except RequestError Value}
variable {next : Value → Except RequestError Next} {value : Value} {result : Next}

theorem ok (value : Value) : ReadsIf True (.ok value) value where
  reads _ := rfl
  refuses hnot := absurd trivial hnot

theorem bind (hfst : ReadsIf fits first value) (hnext : ReadsIf fitsNext (next value) result) :
    ReadsIf (fits ∧ fitsNext) (first >>= next) result where
  reads hfits := by
    rw [hfst.reads hfits.1, ok_bind]
    exact hnext.reads hfits.2
  refuses hnot := by
    by_cases hfits : fits
    · rw [hfst.reads hfits, ok_bind]
      exact hnext.refuses fun hrest => hnot ⟨hfits, hrest⟩
    · obtain ⟨error, herr⟩ := hfst.refuses hfits
      rw [herr]
      exact ⟨error, rfl⟩

theorem last (hfst : ReadsIf fits first value) (hnext : next value = .ok result) :
    ReadsIf fits (first >>= next) result where
  reads hfits := by
    rw [hfst.reads hfits, ok_bind]
    exact hnext
  refuses hnot := by
    obtain ⟨error, herr⟩ := hfst.refuses hnot
    rw [herr]
    exact ⟨error, rfl⟩

theorem after (hfst : first = .ok value) (hnext : ReadsIf fitsNext (next value) result) :
    ReadsIf fitsNext (first >>= next) result := by
  rw [hfst, ok_bind]
  exact hnext

theorem of_iff (hreads : ReadsIf fits first value) (hiff : fits ↔ fitsNext) :
    ReadsIf fitsNext first value where
  reads hfits := hreads.reads (hiff.mpr hfits)
  refuses hnot := hreads.refuses (mt hiff.mp hnot)

end ReadsIf

/-- Not empty, and of so many characters at most. -/
def Bounded (text : String) (limit : ℕ) : Prop := text.isEmpty = false ∧ text.length ≤ limit

def AudioSource.Fits : AudioSource → Prop
  | inline bytes _ => bytes ≠ [] ∧ bytes.length ≤ inlineMaxBytes
  | fetch handle =>
      Bounded handle.handle maxIdChars ∧ handle.bytes ≠ 0 ∧ handle.bytes.toNat ≤ maxAudioBytes

structure SttRequest.Fits (request : SttRequest) : Prop where
  audio : request.audio.Fits
  language : Bounded request.language maxLanguageChars
  chat : Bounded request.chat maxIdChars
  msg : Bounded request.msg maxIdChars
  account : Bounded request.account maxIdChars
  declaredSeconds : ∀ seconds ∈ request.declaredSeconds, seconds.toNat ≤ 24 * 3600

variable {object : Json}

theorem unsignedField_reads {key name : String} {value : UInt64}
    (hfield : object.field? key = some (ofUInt64 value)) :
    unsignedField object key name = .ok value := by
  rw [unsignedField, number, hfield]
  rfl

theorem signedField_reads {key name : String} {value : Int64}
    (hfield : object.field? key = some (ofInt64 value)) :
    signedField object key name = .ok value := by
  have hval := asI64_ofInt64 value
  rw [signedField, number, hfield]
  rw [ofInt64] at hval ⊢
  change orField (asI64 _) name = _
  rw [hval]
  rfl

theorem boundedField_reads {key name : String} {limit : ℕ} {value : String}
    (hfield : object.field? key = some (.string value)) :
    ReadsIf (Bounded value limit) (boundedField object key name limit) value := by
  have htext : textField object key = some value := by
    rw [textField, hfield]
    rfl
  rw [boundedField, htext, orField, ok_bind]
  constructor
  · intro hboun
    rw [hboun.1, Bool.false_or, decide_eq_false (Nat.not_lt.mpr hboun.2)]
    rfl
  intro hunb
  rw [if_pos]
  · exact ⟨_, rfl⟩
  rw [Bool.or_eq_true, decide_eq_true_eq]
  by_cases hemp : value.isEmpty = true
  · exact .inl hemp
  apply Or.inr
  apply Nat.not_le.mp
  intro hle
  exact hunb ⟨Bool.eq_false_iff.mpr hemp, hle⟩

theorem parse_asStr (mime : Mime) : Mime.parse mime.asStr = some mime := by
  cases mime with
  | ogg | mp3 | wav | m4a => decide +kernel

theorem mimeField_reads {mime : Mime} (hfield : object.field? "mime" = some (.string mime.asStr)) :
    mimeField object = .ok mime := by
  rw [mimeField, textField, hfield]
  change orField (Mime.parse mime.asStr) _ = _
  rw [parse_asStr]
  rfl

theorem inlineBytes_reads (bytes : Queue.Bytes) :
    ReadsIf (bytes ≠ [] ∧ bytes.length ≤ inlineMaxBytes) (inlineBytes (Base64.encode bytes))
      bytes := by
  rw [inlineBytes, Base64.length_utf8_encode]
  constructor
  · rintro ⟨hne, hsmall⟩
    have hemp : bytes.isEmpty = false := isEmpty_eq_false_iff.mpr hne
    rw [if_neg, Base64.decode_encode]
    · dsimp only
      rw [if_neg (Nat.not_lt.mpr hsmall), hemp]
      rfl
    · omega
  intro hunfit
  split
  · exact ⟨_, rfl⟩
  rw [Base64.decode_encode]
  dsimp only
  split
  · exact ⟨_, rfl⟩
  rename_i hsmall
  by_cases hemp : bytes = []
  · rw [hemp]
    exact ⟨_, rfl⟩
  · exact absurd ⟨hemp, Nat.not_lt.mp hsmall⟩ hunfit

theorem checkBytes_reads (bytes : UInt64) :
    ReadsIf (bytes ≠ 0 ∧ bytes.toNat ≤ maxAudioBytes) (checkBytes bytes) () := by
  rw [checkBytes]
  constructor
  · intro hfits
    rw [if_neg]
    intro hunfit
    cases hunfit with
    | inl hzero => exact hfits.1 hzero
    | inr hlarge => exact Nat.not_lt.mpr hfits.2 hlarge
  intro hunfit
  rw [if_pos]
  · exact ⟨_, rfl⟩
  · by_cases hzero : bytes = 0
    · exact .inl hzero
    · exact .inr (Nat.not_le.mp fun hle => hunfit ⟨hzero, hle⟩)

theorem readAudio_reads (audio : AudioSource) : ReadsIf audio.Fits (readAudio audio.toJson) audio := by
  cases audio with
  | inline bytes mime =>
    rw [AudioSource.toJson, readAudio]
    apply ReadsIf.after (rfl : _ = Except.ok ())
    change ReadsIf _ (readInline _) _
    rw [readInline]
    apply ReadsIf.after (rfl : _ = Except.ok ())
    apply ReadsIf.after (mimeField_reads rfl)
    apply ReadsIf.after (rfl : _ = Except.ok (Base64.encode bytes))
    exact (inlineBytes_reads bytes).last rfl
  | fetch handle =>
    rw [AudioSource.toJson, readAudio]
    apply ReadsIf.after (rfl : _ = Except.ok ())
    change ReadsIf _ (readFetch _) _
    rw [readFetch]
    apply ReadsIf.after (rfl : _ = Except.ok ())
    apply ReadsIf.bind (boundedField_reads rfl)
    apply ReadsIf.after (signedField_reads rfl)
    apply ReadsIf.after (unsignedField_reads rfl)
    apply (checkBytes_reads handle.bytes).last
    rw [mimeField_reads rfl]
    rfl

/-- A reader reads what the printer wrote. -/
def Recovers (serde : Serde) (value : Json) : Prop :=
  serde.parse (utf8 (serde.print value)) = .ok value

section Fields

variable (request : SttRequest)

theorem field?_toJson {key : String} {value : Json} (hkey : key ≠ "declared_seconds")
    (hfield : (Json.object [("account", .string request.account), ("audio", request.audio.toJson),
      ("chat", .string request.chat), ("fresh_until_ms", ofInt64 request.freshUntilMs),
      ("generation", ofUInt64 request.generation), ("language", .string request.language),
      ("msg", .string request.msg), ("v", ofUInt64 payloadVersion)]).field? key = some value) :
    request.toJson.field? key = some value := by
  rw [SttRequest.toJson, SttRequest.declaredFields]
  cases request.declaredSeconds with
  | none => exact hfield
  | some seconds =>
    rw [Json.field?, find?_append, find?_append, find?_singleton, if_neg, or_none, ← find?_append]
    · exact hfield
    · rw [decide_eq_true_eq]
      exact Ne.symm hkey

theorem readDeclared_reads :
    ReadsIf (∀ seconds ∈ request.declaredSeconds, seconds.toNat ≤ 24 * 3600)
      (readDeclared request.toJson) request.declaredSeconds := by
  rw [readDeclared]
  have hfield : request.toJson.field? "declared_seconds" =
      request.declaredSeconds.map fun seconds => ofUInt64 seconds.toUInt64 := by
    rw [SttRequest.toJson, SttRequest.declaredFields]
    cases request.declaredSeconds with
    | none | some => rfl
  rw [hfield]
  cases request.declaredSeconds with
  | none => exact (ReadsIf.ok none).of_iff ⟨fun _ => (by nofun), fun _ => trivial⟩
  | some seconds =>
    change ReadsIf _ (match (some seconds.toUInt64).filter (· ≤ 24 * 3600) with
      | some seconds => _
      | none => _) _
    rw [filter_some]
    have hsame : seconds.toUInt64 ≤ 24 * 3600 ↔ seconds.toNat ≤ 24 * 3600 := by
      rw [UInt64.le_iff_toNat_le, UInt32.toNat_toUInt64]
      rfl
    constructor
    · intro hfits
      rw [if_pos (decide_eq_true (hsame.mpr (hfits seconds rfl)))]
      dsimp only
      rw [UInt32.toUInt32_toUInt64]
    intro hunfit
    rw [if_neg]
    · exact ⟨_, rfl⟩
    rw [decide_eq_true_eq, hsame]
    intro hle
    apply hunfit
    intro other hoth
    cases hoth
    exact hle

theorem readRequest_reads : ReadsIf request.Fits (readRequest request.toJson) request := by
  have hkeys : strictKeys request.toJson ["v", "audio", "language", "fresh_until_ms", "chat", "msg",
      "account", "generation", "declared_seconds"] = .ok () := by
    rw [SttRequest.toJson, SttRequest.declaredFields]
    cases request.declaredSeconds with
    | none | some => rfl
  have hver : checkVersion request.toJson = .ok () := by
    rw [checkVersion, unsignedField_reads (field?_toJson request (by decide) rfl)]
    rfl
  have haudio : audioField request.toJson = .ok request.audio.toJson := by
    rw [audioField, field?_toJson request (by decide) rfl]
    cases request.audio with
    | inline | fetch => rfl
  have hfits : request.Fits ↔ request.audio.Fits ∧ Bounded request.language maxLanguageChars ∧
      Bounded request.chat maxIdChars ∧ Bounded request.msg maxIdChars ∧
      Bounded request.account maxIdChars ∧
      ∀ seconds ∈ request.declaredSeconds, seconds.toNat ≤ 24 * 3600 := by
    constructor
    · intro hfits
      exact ⟨hfits.audio, hfits.language, hfits.chat, hfits.msg, hfits.account,
        hfits.declaredSeconds⟩
    · rintro ⟨haudio, hlan, hchat, hmsg, hacc, hdec⟩
      exact ⟨haudio, hlan, hchat, hmsg, hacc, hdec⟩
  rw [readRequest]
  apply ReadsIf.after hkeys
  apply ReadsIf.after hver
  apply ReadsIf.after haudio
  apply ReadsIf.of_iff _ hfits.symm
  apply (readAudio_reads request.audio).bind
  apply (boundedField_reads (field?_toJson request (by decide) rfl)).bind
  apply ReadsIf.after (signedField_reads (field?_toJson request (by decide) rfl))
  apply (boundedField_reads (field?_toJson request (by decide) rfl)).bind
  apply (boundedField_reads (field?_toJson request (by decide) rfl)).bind
  apply (boundedField_reads (field?_toJson request (by decide) rfl)).bind
  apply ReadsIf.after (unsignedField_reads (field?_toJson request (by decide) rfl))
  exact (readDeclared_reads request).last rfl

end Fields

theorem decode_encode (serde : Serde) (request : SttRequest)
    (hserde : Recovers serde request.toJson) :
    ReadsIf request.Fits (SttRequest.decode serde (request.encode serde)) request := by
  rw [SttRequest.decode, SttRequest.encode, fromUTF8_utf8]
  dsimp only
  rw [hserde]
  exact readRequest_reads request

end Agreement

end WasmAgent.Stt
