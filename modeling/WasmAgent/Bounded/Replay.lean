import WasmAgent.Bounded.Directory
import WasmAgent.Bounded.Format
import WasmAgent.State.Records
import Mathlib.Data.List.DropRight
import Std.Data.String.ToNat

/-!
# Saving a ring and reading it back

A save takes a reference on every blob the ring's records refer to, and writes one file
through the quota of the directory.  A reader checks the header, the length and the digest
of the body, and then decodes one record after another.
-/

namespace WasmAgent.Bounded

open List Option WasmAgent.Core

/-- `zstd`, as far as the replays use it: what was compressed comes back, a frame is never
empty, and what is decompressed fits a vector. -/
structure Zstd where
  compress : Bytes → Bytes
  decompress : Bytes → Except String Bytes
  decompress_compress : ∀ bytes, bytes.length ≤ usizeMax → decompress (compress bytes) = .ok bytes
  compress_ne_nil : ∀ bytes, compress bytes ≠ []
  decompress_fits : ∀ {bytes body}, decompress bytes = .ok body → body.length ≤ usizeMax

def Zstd.rawFrames : Zstd where
  compress := State.Records.compress 3
  decompress input := State.Records.decompress input usizeMax
  decompress_compress bytes hfits := by
    rw [State.Records.decompress_compress, List.take_of_length_le hfits]
  compress_ne_nil bytes := by
    rw [State.Records.compress, State.Records.frameMagic]
    nofun
  decompress_fits := by
    intro bytes body hbody
    rw [State.Records.decompress] at hbody
    split at hbody
    · cases hbody
    split at hbody
    · cases hbody
    cases hblocks : State.Records.rawBlocks bytes.length (bytes.drop 6) with
    | error why =>
      rw [hblocks] at hbody
      cases hbody
    | ok whole =>
      rw [hblocks] at hbody
      cases hbody
      rw [List.length_take]
      exact Nat.min_le_left _ _

structure SaveOptions where
  trigger : Trigger
  label : String
  pin : Bool

structure SavedReplay where
  name : String
  bytes : ℕ
  records : ℕ
  pinned : Bool
  missingBlobs : List BlobKey

/-- A ring, and the directory its replays are saved in. -/
structure Node where
  ring : RecordRing
  dir : BoundedDir

/-- How a save's operations on the file system go; the index is written once for every blob
that is counted. -/
structure SaveDisk where
  index : BlobKey → Answer
  compress : Answer
  write : WriteDisk
  pin : Answer

namespace Node

def onRing {Value : Type} (effect : Effect RecordRing Error Value) : Effect Node Error Value :=
  Effect.within Node.ring (fun ring node => { node with ring := ring }) effect

def onDir {Value : Type} (effect : Effect BoundedDir Error Value) : Effect Node Error Value :=
  Effect.within Node.dir (fun dir node => { node with dir := dir }) effect

end Node

/-- The length under which the ring's records refer to a blob. -/
def recordLenOfBlob (records : List Record) (key : BlobKey) : UInt64 :=
  (((records.flatMap Record.blobs).find? (fun blob => blob.key = key)).map BlobRef.len).getD 0

namespace RecordRing

/-- Counts one blob, or finds it missing. -/
def takeRef (disk : BlobKey → Answer) (key : BlobKey) : Effect RecordRing Error (List BlobKey) := do
  let ring ← Effect.read
  match ring.blobs with
  | some store =>
      if store.has key then
        let _ ← onStore store (BlobStore.addRef (disk key) key)
        return []
      else
        return [key]
  | none => return [key]

/-- What the file is to declare, and what of it is missing. -/
def takeRefs (disk : BlobKey → Answer) :
    List BlobKey → Effect RecordRing Error (List BlobRef × List BlobKey)
  | [] => return ([], [])
  | key :: keys => do
      let ring ← Effect.read
      let missing ← takeRef disk key
      let (blobs, more) ← takeRefs disk keys
      return (⟨key, recordLenOfBlob ring.records key⟩ :: blobs, missing ++ more)

end RecordRing

section Names

/-- `char::to_ascii_lowercase`. -/
def toAsciiLower (letter : Char) : Char :=
  if 'A' ≤ letter ∧ letter ≤ 'Z' then Char.ofNat (letter.toNat + 32) else letter

def isNameLetter (letter : Char) : Bool :=
  ('a' ≤ letter && letter ≤ 'z') || ('0' ≤ letter && letter ≤ '9')

def dashed : List Char → List Char → Bool → List Char
  | [], out, _ => out
  | letter :: letters, out, lastDash =>
      if isNameLetter (toAsciiLower letter) then
        dashed letters (out ++ [toAsciiLower letter]) false
      else if !lastDash && !out.isEmpty then
        dashed letters (out ++ ['-']) true
      else
        dashed letters out lastDash

def sanitize (text : String) : String :=
  String.ofList (((dashed (text.toList.take 64) [] false).rdropWhile (· = '-')).take 40)

def stem (opts : SaveOptions) (createdMs : ℕ) : String :=
  let label := if (sanitize opts.label).isEmpty then "replay" else sanitize opts.label
  let trigger :=
    if (sanitize opts.trigger.asStr).isEmpty then "other" else sanitize opts.trigger.asStr
  label ++ "." ++ trigger ++ "." ++ Nat.repr createdMs

/-- The names a file may get, in the order in which they are tried. -/
def candidate (stem : String) (tried : ℕ) : String :=
  if tried = 0 then stem ++ ".wrz" else stem ++ "-" ++ Nat.repr (tried + 1) ++ ".wrz"

/-- The first name that is free; one more try than there are files finds it. -/
def freeName (dir : BoundedDir) (stem : String) : ℕ → ℕ → String
  | 0, tried => candidate stem tried
  | steps + 1, tried =>
      if dir.exists (candidate stem tried) then freeName dir stem steps (tried + 1)
      else candidate stem tried

def fileName (dir : BoundedDir) (opts : SaveOptions) (createdMs : ℕ) : String :=
  freeName dir (stem opts createdMs) dir.files.length 0

end Names

section Saving

variable (zstd : Zstd)

def putFile (ring : RecordRing) (opts : SaveOptions) (now : Instant) (body : Bytes)
    (blobs : List BlobRef) : Except Error Bytes := do
  let header ← putHeader ring.cfg ring.records (millis now) body opts.trigger opts.label blobs
  return header ++ zstd.compress body

def pinSaved (disk : SaveDisk) (opts : SaveOptions) (name : String) : Effect Node Error Unit :=
  if opts.pin then Node.onDir (BoundedDir.pin disk.pin name) else return ()

/-- What follows the references: the file, written under its name. -/
def writeSaved (disk : SaveDisk) (opts : SaveOptions) (now : Instant) (node : Node) (body : Bytes)
    (blobs : List BlobRef) : Effect Node Error (String × ℕ) := do
  perform disk.compress
  let file ← Effect.lift (putFile zstd node.ring opts now body blobs)
  let name := fileName node.dir opts (millis now)
  Node.onDir (BoundedDir.writeStamped disk.write name file now)
  pinSaved disk opts name
  return (name, file.length)

def save (disk : SaveDisk) (opts : SaveOptions) (now : Instant) : Effect Node Error SavedReplay := do
  let node ← Effect.read
  let body ← Effect.lift (encodeRecords node.ring.records)
  let (blobs, missing) ←
    Node.onRing (RecordRing.takeRefs disk.index (referencedBlobs node.ring.records))
  let (name, size) ← writeSaved zstd disk opts now node body blobs
  return ⟨name, size, node.ring.records.length, opts.pin, missing⟩

end Saving

structure ReplayReader where
  header : ReplayHeader
  body : Bytes
  pos : ℕ
  read : ℕ
  failed : Bool

structure Replay where
  header : ReplayHeader
  records : List Record
  deriving DecidableEq

namespace ReplayReader

def openBody (zstd : Zstd) (header : ReplayHeader) (compressed : Bytes) :
    Except (Stop Error) Bytes :=
  if compressed.isEmpty then
    .error (.error (.corrupt "body is empty"))
  else
    match zstd.decompress compressed with
    | .error why => .error (.error (.corrupt ("zstd: " ++ why)))
    | .ok body =>
        if body.length ≠ header.bodyLen.toNat then
          .error (.error (.corrupt
            s!"body length {body.length} does not match header {header.bodyLen}"))
        else if sha256 body ≠ header.bodySha256 then
          .error (.error (.corrupt "body sha256 does not match header"))
        else
          .ok body

def fromBytes (zstd : Zstd) (bytes : Bytes) : Except (Stop Error) ReplayReader := do
  let (header, consumed) ← parseHeader bytes
  let compressed ← Reader.slice bytes consumed bytes.length
  let body ← openBody zstd header compressed
  return ⟨header, body, 0, 0, false⟩

def remaining (reader : ReplayReader) : ℕ := reader.header.records.toNat - reader.read

def nextRecord (reader : ReplayReader) : Except (Stop Error) (Option Record) × ReplayReader :=
  if reader.failed || reader.header.records.toNat ≤ reader.read then
    (.ok none, reader)
  else
    match parseRecord reader.body reader.pos with
    | .ok (record, pos) => (.ok (some record), { reader with pos := pos, read := reader.read + 1 })
    | .error stop => (.error stop, { reader with failed := true })

def collect : ℕ → ReplayReader → Except (Stop Error) (List Record)
  | 0, _ => .ok []
  | steps + 1, reader =>
      match reader.nextRecord with
      | (.error stop, _) => .error stop
      | (.ok none, _) => .ok []
      | (.ok (some record), next) => (record :: ·) <$> collect steps next

end ReplayReader

namespace Replay

variable (zstd : Zstd) (allocates : ℕ → Bool)

def readAll (bytes : Bytes) : Except (Stop Error) Replay := do
  let reader ← ReplayReader.fromBytes zstd bytes
  let records ← reader.collect reader.remaining
  return ⟨reader.header, records⟩

/-- `Vec::with_capacity`, which does not return when there is no room for that many records. -/
def reserve (count : ℕ) : Except (Stop Error) Unit :=
  if allocates count then .ok () else .error .panic

def load (bytes : Bytes) : Except (Stop Error) Replay := do
  let reader ← ReplayReader.fromBytes zstd bytes
  reserve allocates reader.header.records.toNat
  let records ← reader.collect reader.remaining
  return ⟨reader.header, records⟩

def verify (replay : Replay) : Except Error Unit :=
  if replay.records.length ≠ replay.header.records.toNat then
    .error (.corrupt s!"{replay.records.length} records, header says {replay.header.records}")
  else
    replay.records.forM (fun record => record.blobs.forM (fun blob =>
      if replay.header.blobs.any (fun declared => declared.key = blob.key) then .ok ()
      else .error (.corrupt
        s!"seq {record.seq} references blob {blob.key.short} the header does not declare")))

end Replay

section Counting

namespace RecordRing

variable {disk : BlobKey → Answer} {ring : RecordRing}

/-- The keys that a save counts: those that are stored, up to the first whose index cannot be
written. -/
def counted (disk : BlobKey → Answer) (ring : RecordRing) : List BlobKey → List BlobKey
  | [] => []
  | key :: keys =>
      if ring.has key then
        match disk key with
        | .ok _ => key :: counted disk ring keys
        | .error _ => [key]
      else counted disk ring keys

/-- The index cannot be written for one of the keys. -/
def CountFails (disk : BlobKey → Answer) (ring : RecordRing) (keys : List BlobKey) : Prop :=
  ∃ key ∈ keys, ring.has key = true ∧ disk key ≠ .ok ()

/-- How taking references ends. -/
structure Counted (disk : BlobKey → Answer) (keys : List BlobKey) (before : RecordRing)
    (answer : Except Error (List BlobRef × List BlobKey)) (after : RecordRing) : Prop where
  same : after = { before with blobs := after.blobs }
  refs : after.refs = before.refs.raiseAll (counted disk before keys)
  failed : (∃ fault, answer = .error fault) ↔ CountFails disk before keys
  declared : ∀ found, answer = .ok found →
    found.1 = keys.map (fun key => ⟨key, recordLenOfBlob before.records key⟩) ∧
      counted disk before keys = keys.filter before.has

theorem takeRef_missing {key : BlobKey} (hmis : ring.has key = false) :
    takeRef disk key ring = (.ok [key], ring) := by
  change (match ring.blobs with | some store => _ | none => _ :
    Effect RecordRing Error (List BlobKey)) ring = _
  rw [has] at hmis
  cases hstr : ring.blobs with
  | none => rfl
  | some store =>
    rw [hstr] at hmis
    change (if store.has key then _ else _ : Effect RecordRing Error (List BlobKey)) ring = _
    rw [if_neg (Bool.eq_false_iff.mp hmis)]
    rfl

theorem takeRef_stored {key : BlobKey} (hhas : ring.has key = true) :
    ∃ after, takeRef disk key ring =
        (((disk key).mapError Error.io).map (fun _ => []), after) ∧
      after = { ring with blobs := after.blobs } ∧ after.refs = ring.refs.raise key ∧
      ∀ other, after.has other = ring.has other := by
  rw [has] at hhas
  cases hstr : ring.blobs with
  | none =>
    rw [hstr] at hhas
    cases hhas
  | some store =>
    rw [hstr] at hhas
    refine ⟨{ ring with blobs := some { store with refs := store.refs.raise key } }, ?_, rfl, ?_, ?_⟩
    · change (match ring.blobs with | some store => _ | none => _ :
        Effect RecordRing Error (List BlobKey)) ring = _
      rw [hstr]
      change (if store.has key then _ else _ : Effect RecordRing Error (List BlobKey)) ring = _
      rw [if_pos hhas, Effect.bind_run, onStore, Effect.within, BlobStore.addRef_run (disk key) hhas]
      cases disk key <;> rfl
    · have hring : ring.refs = store.refs := by rw [refs, hstr]
      rw [hring]
      rfl
    intro other
    have hring : ring.has other = store.has other := by rw [has, hstr]
    rw [hring]
    exact BlobStore.has_of_files rfl other

theorem counted_congr {other : RecordRing} (hhas : ∀ key, other.has key = ring.has key)
    (keys : List BlobKey) : counted disk other keys = counted disk ring keys := by
  induction keys with
  | nil => rfl
  | cons key keys ih => rw [counted, counted, hhas, ih]

theorem takeRefs_run (disk : BlobKey → Answer) (keys : List BlobKey) (ring : RecordRing) :
    Counted disk keys ring (takeRefs disk keys ring).1 (takeRefs disk keys ring).2 := by
  induction keys generalizing ring with
  | nil =>
    constructor
    · rfl
    · rfl
    · constructor
      · intro hflt
        cases hflt.choose_spec
      · intro hfls
        cases hfls.choose_spec.1
    · intro found hfnd
      cases hfnd
      exact ⟨rfl, rfl⟩
  | cons key keys ih =>
    have hrun : takeRefs disk (key :: keys) ring = (takeRef disk key >>= fun missing =>
        takeRefs disk keys >>= fun rest =>
          return (⟨key, recordLenOfBlob ring.records key⟩ :: rest.1, missing ++ rest.2)) ring := rfl
    -- the rest of the keys, in a ring that has the same blobs
    have hltr : ∀ (missing : List BlobKey) (middle : RecordRing),
        middle = { ring with blobs := middle.blobs } →
        (∀ other, middle.has other = ring.has other) →
        ∀ first : List BlobKey, middle.refs = ring.refs.raiseAll first →
        counted disk ring (key :: keys) = first ++ counted disk ring keys →
        (ring.has key = true → disk key = .ok ()) →
        ((key :: keys).filter ring.has = first ++ keys.filter ring.has) →
        takeRef disk key ring = (.ok missing, middle) →
        Counted disk (key :: keys) ring (takeRefs disk (key :: keys) ring).1
          (takeRefs disk (key :: keys) ring).2 := by
      intro missing middle hsame hhas first hfst hcntd hkey hfil htake
      have hrest := ih middle
      have hkeys : counted disk middle keys = counted disk ring keys := counted_congr hhas keys
      have hfls : CountFails disk middle keys ↔ CountFails disk ring (key :: keys) := by
        constructor
        · intro hfail
          obtain ⟨found, hfnd, hsto, hidx⟩ := hfail
          exact ⟨found, mem_cons_of_mem _ hfnd, by rwa [← hhas], hidx⟩
        intro hfail
        obtain ⟨found, hfnd, hsto, hidx⟩ := hfail
        cases mem_cons.mp hfnd with
        | inl hsame =>
          rw [hsame] at hsto hidx
          exact absurd (hkey hsto) hidx
        | inr hfnd => exact ⟨found, hfnd, by rwa [hhas], hidx⟩
      have hrefs : middle.refs.raiseAll (counted disk middle keys) =
          ring.refs.raiseAll (counted disk ring (key :: keys)) := by
        rw [hcntd, hfst, hkeys, Tally.raiseAll, Tally.raiseAll, Tally.raiseAll, foldl_append]
      have hboth : ∀ after : RecordRing, after = { middle with blobs := after.blobs } →
          after = { ring with blobs := after.blobs } := fun after haft =>
        haft.trans (congrArg (fun base : RecordRing => { base with blobs := after.blobs }) hsame)
      rw [hrun, Effect.bind_of_ok htake]
      cases htkn : takeRefs disk keys middle with
      | mk answer after =>
        rw [htkn] at hrest
        cases answer with
        | error fault =>
          rw [Effect.bind_of_error htkn]
          constructor
          · exact hboth after hrest.same
          · exact hrest.refs.trans hrefs
          · rw [← hfls]
            exact ⟨fun _ => hrest.failed.mp ⟨fault, rfl⟩, fun _ => ⟨fault, rfl⟩⟩
          · intro _ hfnd
            cases hfnd
        | ok found =>
          rw [Effect.bind_of_ok htkn]
          constructor
          · exact hboth after hrest.same
          · exact hrest.refs.trans hrefs
          · rw [← hfls]
            constructor
            · intro hflt
              cases hflt.choose_spec
            · intro hfail
              cases (hrest.failed.mpr hfail).choose_spec
          intro whole hwhole
          cases hwhole
          obtain ⟨hdec, hsto⟩ := hrest.declared found rfl
          constructor
          · have hrecs : middle.records = ring.records := by rw [hsame]
            rw [hrecs] at hdec
            exact congrArg (⟨key, recordLenOfBlob ring.records key⟩ :: ·) hdec
          · rw [hcntd, hfil, ← hkeys, hsto]
            exact congrArg (first ++ ·) (filter_congr (fun other _ => hhas other))
    cases hhas : ring.has key with
    | false =>
      apply hltr [key] ring rfl (fun _ => rfl) [] rfl _ _ _ (takeRef_missing hhas)
      · rw [counted, if_neg (Bool.eq_false_iff.mp hhas)]
        rfl
      · intro hoth
        rw [hhas] at hoth
        cases hoth
      · rw [filter_cons, if_neg (Bool.eq_false_iff.mp hhas)]
        rfl
    | true =>
      obtain ⟨middle, htake, hsame, hrefs, hmid⟩ := @takeRef_stored disk ring key hhas
      cases hidx : disk key with
      | ok _ =>
        rw [hidx] at htake
        apply hltr [] middle hsame hmid [key] hrefs _ (fun _ => hidx) _ htake
        · rw [counted, if_pos hhas, hidx]
          rfl
        · rw [filter_cons, if_pos hhas]
          rfl
      | error why =>
        rw [hidx] at htake
        rw [hrun, Effect.bind_of_error htake]
        have hcntd : counted disk ring (key :: keys) = [key] := by
          rw [counted, if_pos hhas, hidx]
        constructor
        · exact hsame
        · rw [hcntd]
          exact hrefs
        · constructor
          · intro _
            refine ⟨key, mem_cons_self, hhas, ?_⟩
            intro hok
            cases hidx.symm.trans hok
          · intro _
            exact ⟨.io why, rfl⟩
        · intro _ hfnd
          cases hfnd

end RecordRing

end Counting

section FreeNames

theorem candidate_inj {stem : String} {left right : ℕ}
    (hsame : candidate stem left = candidate stem right) : left = right := by
  have hnum : ∀ {tried : ℕ}, (stem ++ ".wrz").toList ≠
      (stem ++ "-" ++ Nat.repr (tried + 1) ++ ".wrz").toList := by
    intro tried hchars
    have hlen := congrArg List.length hchars
    simp only [String.toList_append, length_append] at hlen
    have hdash : "-".toList.length = 1 := rfl
    omega
  rw [candidate, candidate] at hsame
  split at hsame
  · next hlt =>
    split at hsame
    · next hrt => rw [hlt, hrt]
    · exact absurd (congrArg String.toList hsame) hnum
  split at hsame
  · exact absurd (congrArg String.toList hsame).symm hnum
  have hchars := congrArg String.toList hsame
  simp only [String.toList_append] at hchars
  have hdig := append_cancel_left (append_cancel_right hchars)
  exact Nat.succ.inj (Nat.repr_injective (String.toList_injective hdig))

theorem exists_of_exists_freeName {dir : BoundedDir} {stem : String} {steps tried : ℕ}
    (htkn : dir.exists (freeName dir stem steps tried) = true) :
    ∀ later ≤ steps, dir.exists (candidate stem (tried + later)) = true := by
  induction steps generalizing tried with
  | zero =>
    intro later hltr
    rw [Nat.le_zero.mp hltr]
    exact htkn
  | succ steps ih =>
    intro later hltr
    rw [freeName] at htkn
    split at htkn
    · next hfst =>
      cases later with
      | zero => exact hfst
      | succ later =>
        have hrest := ih htkn later (Nat.le_of_succ_le_succ hltr)
        rwa [Nat.add_assoc, Nat.add_comm 1] at hrest
    · next hfree => exact absurd htkn hfree

theorem not_exists_fileName (dir : BoundedDir) (opts : SaveOptions) (createdMs : ℕ) :
    dir.exists (fileName dir opts createdMs) = false := by
  by_contra htkn
  have hall := exists_of_exists_freeName (Bool.not_eq_false _ ▸ htkn)
  have hsub : (range (dir.files.length + 1)).map (candidate (stem opts createdMs)) ⊆
      dir.files.map StoredFile.name := by
    intro name hname
    obtain ⟨tried, htried, rfl⟩ := List.mem_map.mp hname
    have hexis := hall tried (Nat.le_of_lt_succ (mem_range.mp htried))
    rw [Nat.zero_add, BoundedDir.exists, Bool.and_eq_true] at hexis
    obtain ⟨file, hfile⟩ := isSome_iff_exists.mp hexis.2
    have hnmd := find?_some hfile
    rw [← of_decide_eq_true hnmd]
    exact List.mem_map_of_mem (mem_of_find?_eq_some hfile)
  have hdist : ((range (dir.files.length + 1)).map (candidate (stem opts createdMs))).Nodup :=
    nodup_range.map (fun _ _ => candidate_inj)
  have hlen := (subperm_of_subset hdist hsub).length_le
  rw [length_map, length_map, length_range] at hlen
  exact Nat.not_succ_le_self _ hlen

end FreeNames

section Outcome

variable (zstd : Zstd) (disk : SaveDisk) (opts : SaveOptions) (now : Instant) (node : Node)

def declared (ring : RecordRing) : List BlobRef :=
  (referencedBlobs ring.records).map (fun key => ⟨key, recordLenOfBlob ring.records key⟩)

def savedFile (ring : RecordRing) : Except Error Bytes := do
  let body ← encodeRecords ring.records
  putFile zstd ring opts now body (declared ring)

def Encodable (ring : RecordRing) : Prop := ∃ body, encodeRecords ring.records = .ok body

/-- The texts of the options fit the header. -/
def Labelled (opts : SaveOptions) : Prop :=
  (utf8 opts.trigger.asStr).length ≤ u16Max ∧ (utf8 opts.label).length ≤ u16Max

def SaveBlocked : Prop :=
  ¬ Encodable node.ring ∨
    RecordRing.CountFails disk.index node.ring (referencedBlobs node.ring.records) ∨
    disk.compress ≠ .ok () ∨ ¬ Labelled opts

def saveCounts : List BlobKey :=
  match encodeRecords node.ring.records with
  | .ok _ => node.ring.counted disk.index (referencedBlobs node.ring.records)
  | .error _ => []

/-- The file of the ring, written and pinned. -/
structure WroteSaved (file : Bytes) (answer : Except Error (String × ℕ)) (after : Node) :
    Prop where
  unplaced : ¬ BoundedDir.Placed disk.write node.dir (fileName node.dir opts (millis now))
      file.length → (∃ fault, answer = .error fault) ∧ ∃ gone,
    gone <+: node.dir.planned (fileName node.dir opts (millis now)) file.length ∧
      after.dir = node.dir.eraseAll gone ∧ (gone = [] ↔
        BoundedDir.Spared disk.write node.dir (fileName node.dir opts (millis now)) file.length)
  placed : BoundedDir.Placed disk.write node.dir (fileName node.dir opts (millis now))
      file.length → after.dir.files = ((node.dir.eraseAll
        (node.dir.planned (fileName node.dir opts (millis now)) file.length)).place
          ⟨fileName node.dir opts (millis now), file, now⟩).files ∧
    ((∃ fault, answer = .error fault) ↔
      disk.write.observe ≠ .ok () ∨ opts.pin = true ∧ disk.pin ≠ .ok ()) ∧
    ∀ found, answer = .ok found → found.1 = fileName node.dir opts (millis now)

structure Saved (answer : Except Error SavedReplay) (after : Node) : Prop where
  same : after.ring = { node.ring with blobs := after.ring.blobs }
  refs : after.ring.refs = node.ring.refs.raiseAll (saveCounts disk node)
  blocked : SaveBlocked disk opts node → (∃ fault, answer = .error fault) ∧ after.dir = node.dir
  written : ¬ SaveBlocked disk opts node → ∃ file, savedFile zstd opts now node.ring = .ok file ∧
    WroteSaved disk opts now node file (answer.map (fun saved => (saved.name, saved.bytes))) after

variable {zstd disk opts now node}

theorem putFile_ok_iff {ring : RecordRing} {body : Bytes} {blobs : List BlobRef} :
    (∃ file, putFile zstd ring opts now body blobs = .ok file) ↔ Labelled opts := by
  rw [putFile, putHeader, Labelled]
  by_cases htrig : (utf8 opts.trigger.asStr).length ≤ u16Max
  · have hput : putStr opts.trigger.asStr = .ok (strBytes opts.trigger.asStr) :=
      if_neg (Nat.not_lt.mpr htrig)
    rw [hput, and_iff_right htrig]
    by_cases hlabel : (utf8 opts.label).length ≤ u16Max
    · have hput : putStr opts.label = .ok (strBytes opts.label) :=
        if_neg (Nat.not_lt.mpr hlabel)
      rw [hput]
      exact ⟨fun _ => hlabel, fun _ => ⟨_, rfl⟩⟩
    have hput : putStr opts.label = .error tooLong := if_pos (Nat.lt_of_not_le hlabel)
    rw [hput]
    constructor
    · intro hfile
      cases hfile.choose_spec
    · intro hoth
      exact absurd hoth hlabel
  have hput : putStr opts.trigger.asStr = .error tooLong := if_pos (Nat.lt_of_not_le htrig)
  rw [hput]
  constructor
  · intro hfile
    cases hfile.choose_spec
  · intro hoth
    exact absurd hoth.1 htrig

theorem Saved.of_blocked {fault : Error} {after : Node} (hblk : SaveBlocked disk opts node)
    (hsame : after.ring = { node.ring with blobs := after.ring.blobs })
    (hrefs : after.ring.refs = node.ring.refs.raiseAll (saveCounts disk node))
    (hdir : after.dir = node.dir) : Saved zstd disk opts now node (.error fault) after where
  same := hsame
  refs := hrefs
  blocked _ := ⟨⟨fault, rfl⟩, hdir⟩
  written hoth := absurd hblk hoth

theorem pinSaved_run (name : String) (hvld : validName name = true) (node : Node)
    (hfile : node.dir.isFile name = true) :
    ∃ answer after, pinSaved disk opts name node = (answer, after) ∧ after.ring = node.ring ∧
      after.dir.files = node.dir.files ∧
      ((∃ fault, answer = .error fault) ↔ opts.pin = true ∧ disk.pin ≠ .ok ()) := by
  rw [pinSaved]
  cases hpin : opts.pin with
  | false =>
    refine ⟨.ok (), node, rfl, rfl, rfl, ?_⟩
    constructor
    · intro hflt
      cases hflt.choose_spec
    · intro hoth
      cases hoth.1
  | true =>
    have hexis : node.dir.exists name = true := by
      rw [BoundedDir.exists, hvld, hfile]
      rfl
    have hrun : Node.onDir (BoundedDir.pin disk.pin name) node =
        (disk.pin.mapError Error.io, { node with dir := (match disk.pin with
          | .ok _ => { node.dir with pins := name :: node.dir.pins }
          | .error _ => node.dir) }) := by
      rw [Node.onDir, Effect.within, show BoundedDir.pin disk.pin name node.dir =
        (if !validName name then _ else if !node.dir.exists name then _ else _ :
          Effect BoundedDir Error Unit) node.dir from rfl, hvld, hexis]
      cases disk.pin <;> rfl
    refine ⟨_, _, hrun, rfl, ?_, ?_⟩
    · cases disk.pin <;> rfl
    rw [and_iff_right rfl]
    cases disk.pin with
    | ok _ =>
      constructor
      · intro hflt
        cases hflt.choose_spec
      · intro hoth
        exact absurd rfl hoth
    | error why => exact ⟨fun _ => nofun, fun _ => ⟨.io why, rfl⟩⟩

theorem writeSaved_blocked {body : Bytes} {blobs : List BlobRef} (middle : Node)
    (hblk : disk.compress ≠ .ok () ∨ ¬ Labelled opts) :
    ∃ fault, writeSaved zstd disk opts now node body blobs middle = (.error fault, middle) := by
  cases hcom : disk.compress with
  | error why =>
    refine ⟨.io why, Effect.bind_of_error ?_⟩
    rw [hcom]
    rfl
  | ok _ =>
    have hlab : ¬ Labelled opts := hblk.resolve_left (fun hoth => hoth hcom)
    have hper : (perform disk.compress : Effect Node Error Unit) middle = (.ok (), middle) := by
      rw [hcom]
      rfl
    cases hfile : putFile zstd node.ring opts now body blobs with
    | error fault =>
      refine ⟨fault, ?_⟩
      rw [writeSaved, Effect.bind_of_ok hper, hfile]
      rfl
    | ok file => exact absurd (putFile_ok_iff.mp ⟨file, hfile⟩) hlab

theorem writeSaved_run {body file : Bytes} {blobs : List BlobRef} {middle : Node}
    (hdir : middle.dir = node.dir) (hcom : disk.compress = .ok ())
    (hfile : putFile zstd node.ring opts now body blobs = .ok file) :
    WroteSaved disk opts now node file (writeSaved zstd disk opts now node body blobs middle).1
        (writeSaved zstd disk opts now node body blobs middle).2 ∧
      (writeSaved zstd disk opts now node body blobs middle).2.ring = middle.ring := by
  have hrun : writeSaved zstd disk opts now node body blobs middle = (do
      Node.onDir (BoundedDir.writeStamped disk.write (fileName node.dir opts (millis now)) file now)
      pinSaved disk opts (fileName node.dir opts (millis now))
      return (fileName node.dir opts (millis now), file.length) :
        Effect Node Error (String × ℕ)) middle := by
    rw [writeSaved, hcom, hfile]
    rfl
  have hwrn := BoundedDir.writeStamped_run disk.write (fileName node.dir opts (millis now)) file
    now node.dir
  rw [hrun]
  generalize hname : fileName node.dir opts (millis now) = name at hwrn
  cases hwr : BoundedDir.writeStamped disk.write name file now node.dir with
  | mk answer left =>
    rw [hwr] at hwrn
    have hon : Node.onDir (BoundedDir.writeStamped disk.write name file now) middle =
        (answer, { middle with dir := left }) := by
      rw [Node.onDir, Effect.within, hdir, hwr]
    cases answer with
    | error fault =>
      rw [Effect.bind_of_error hon]
      refine ⟨?_, rfl⟩
      constructor
      · rw [hname]
        intro hplcd
        exact ⟨⟨fault, rfl⟩, hwrn.unplaced hplcd⟩
      rw [hname]
      intro hplcd
      refine ⟨congrArg BoundedDir.files (hwrn.placed hplcd), ?_, nofun⟩
      constructor
      · intro _
        refine .inl (fun hobs => ?_)
        cases hwrn.succeeded.mpr ⟨hplcd, hobs⟩
      · intro _
        exact ⟨fault, rfl⟩
    | ok _ =>
      obtain ⟨hplcd, hobs⟩ := hwrn.succeeded.mp rfl
      have hlt : left = (node.dir.eraseAll (node.dir.planned name file.length)).place
          ⟨name, file, now⟩ := hwrn.placed hplcd
      have hpres : left.isFile name = true := by
        rw [hlt, BoundedDir.isFile, BoundedDir.file?, BoundedDir.place, find?_append,
          isSome_or, find?_singleton, if_pos (decide_eq_true rfl), isSome_some,
          Bool.or_true]
      obtain ⟨pinned, after, hpin, hring, hfs, hpinn⟩ :=
        @pinSaved_run disk opts name hplcd.valid { middle with dir := left } hpres
      rw [Effect.bind_of_ok hon]
      cases pinned with
      | error fault =>
        rw [Effect.bind_of_error hpin]
        refine ⟨?_, hring⟩
        constructor
        · rw [hname]
          exact fun hoth => absurd hplcd hoth
        rw [hname]
        intro _
        refine ⟨?_, ?_, nofun⟩
        · rw [← hlt]
          exact hfs
        · exact ⟨fun _ => .inr (hpinn.mp ⟨fault, rfl⟩), fun _ => ⟨fault, rfl⟩⟩
      | ok _ =>
        rw [Effect.bind_of_ok hpin]
        refine ⟨?_, hring⟩
        constructor
        · rw [hname]
          exact fun hoth => absurd hplcd hoth
        rw [hname]
        intro _
        refine ⟨?_, ?_, ?_⟩
        · rw [← hlt]
          exact hfs
        · constructor
          · intro hflt
            cases hflt.choose_spec
          · intro hoth
            cases hoth with
            | inl hoth => exact absurd hobs hoth
            | inr hoth => cases (hpinn.mpr hoth).choose_spec
        · intro found hfnd
          cases hfnd
          rfl

theorem save_run (zstd : Zstd) (disk : SaveDisk) (opts : SaveOptions) (now : Instant)
    (node : Node) : Saved zstd disk opts now node (save zstd disk opts now node).1
      (save zstd disk opts now node).2 := by
  have hsave : save zstd disk opts now node = (Effect.lift (encodeRecords node.ring.records) >>=
      fun body => Node.onRing (RecordRing.takeRefs disk.index
        (referencedBlobs node.ring.records)) >>= fun found => do
          let (name, size) ← writeSaved zstd disk opts now node body found.1
          return ⟨name, size, node.ring.records.length, opts.pin, found.2⟩) node := rfl
  rw [hsave]
  cases hencode : encodeRecords node.ring.records with
  | error fault =>
    have hcoun : saveCounts disk node = [] := by rw [saveCounts, hencode]
    apply Saved.of_blocked (.inl _) rfl _ rfl
    · intro henc
      obtain ⟨body, hbody⟩ := henc
      cases hencode.symm.trans hbody
    · rw [hcoun]
      rfl
  | ok body =>
    have hcoun : saveCounts disk node =
        node.ring.counted disk.index (referencedBlobs node.ring.records) := by
      rw [saveCounts, hencode]
    have hcntd := RecordRing.takeRefs_run disk.index (referencedBlobs node.ring.records) node.ring
    change Saved zstd disk opts now node ((Node.onRing _ >>= _ : Effect Node Error SavedReplay) node).1
      ((Node.onRing _ >>= _ : Effect Node Error SavedReplay) node).2
    cases htake : RecordRing.takeRefs disk.index (referencedBlobs node.ring.records) node.ring with
    | mk answer ring =>
      rw [htake] at hcntd
      have hon : Node.onRing (RecordRing.takeRefs disk.index (referencedBlobs node.ring.records))
          node = (answer, { node with ring := ring }) := by
        rw [Node.onRing, Effect.within, htake]
      have hrefs : ring.refs = node.ring.refs.raiseAll (saveCounts disk node) := by
        rw [hcoun]
        exact hcntd.refs
      cases answer with
      | error fault =>
        rw [Effect.bind_of_error hon]
        exact Saved.of_blocked (.inr (.inl (hcntd.failed.mp ⟨fault, rfl⟩))) hcntd.same hrefs rfl
      | ok found =>
        rw [Effect.bind_of_ok hon]
        by_cases hblk : disk.compress ≠ .ok () ∨ ¬ Labelled opts
        · obtain ⟨fault, hwr⟩ := @writeSaved_blocked zstd disk opts now node body found.1
            { node with ring := ring } hblk
          rw [Effect.bind_of_error hwr]
          exact Saved.of_blocked (.inr (.inr hblk)) hcntd.same hrefs rfl
        have hcom : disk.compress = .ok () := by
          by_contra hoth
          exact hblk (.inl hoth)
        have hlab : Labelled opts := by
          by_contra hoth
          exact hblk (.inr hoth)
        have hopen : ¬ SaveBlocked disk opts node := by
          intro hoth
          cases hoth with
          | inl hoth => exact hoth ⟨body, hencode⟩
          | inr hoth =>
            cases hoth with
            | inl hoth => cases (hcntd.failed.mpr hoth).choose_spec
            | inr hoth => exact hblk hoth
        obtain ⟨file, hfile⟩ := (@putFile_ok_iff zstd opts now node.ring body found.1).mpr hlab
        have hdec := (hcntd.declared found rfl).1
        obtain ⟨hwrote, hkept⟩ := @writeSaved_run zstd disk opts now node body file found.1
          { node with ring := ring } rfl hcom hfile
        cases hwr : writeSaved zstd disk opts now node body found.1 { node with ring := ring } with
        | mk answer after =>
          rw [hwr] at hwrote hkept
          have hring : after.ring = ring := hkept
          have hsaved : savedFile zstd opts now node.ring = .ok file := by
            rw [savedFile, hencode, declared, ← hdec]
            exact hfile
          cases answer with
          | error fault =>
            rw [Effect.bind_of_error hwr]
            constructor
            · rw [hring]
              exact hcntd.same
            · rw [hring]
              exact hrefs
            · exact fun hoth => absurd hoth hopen
            · exact fun _ => ⟨file, hsaved, hwrote⟩
          | ok written =>
            rw [Effect.bind_of_ok hwr]
            constructor
            · exact hring ▸ hcntd.same
            · rw [← hrefs, ← hring]
              rfl
            · exact fun hoth => absurd hoth hopen
            · intro _
              exact ⟨file, hsaved, hwrote⟩

end Outcome

end WasmAgent.Bounded
