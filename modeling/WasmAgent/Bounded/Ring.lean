import WasmAgent.Bounded.Blobs

/-!
# The ring of recorded calls

Host calls in memory, bounded by bytes and by age.  A payload above a threshold is stored
as a blob that its record refers to; a record that is dropped gives its references back.
-/

namespace WasmAgent.Bounded

open List WasmAgent.Core

inductive Payload where
  | empty
  | inline (sha256 : Digest) (bytes : Bytes)
  | digest (sha256 : Digest) (len : UInt64)
  | blob (reference : BlobRef)
  deriving DecidableEq

namespace Payload

def blob? : Payload → Option BlobRef
  | .blob reference => some reference
  | _ => none

def accountedLen : Payload → ℕ
  | .empty => 0
  | .inline _ bytes => bytes.length
  | .digest _ _ => 32
  | .blob _ => 32

end Payload

structure Record where
  seq : UInt64
  ts : Instant
  interface : String
  function : String
  args : Payload
  result : Payload
  duration : ℕ
  deriving DecidableEq

def recordOverhead : ℕ := 96

namespace Record

def accountedLen (record : Record) : ℕ :=
  saturating (saturating (saturating (saturating recordOverhead (utf8 record.interface).length)
    (utf8 record.function).length) record.args.accountedLen) record.result.accountedLen

def blobs (record : Record) : List BlobRef := [record.args, record.result].filterMap Payload.blob?

theorem blobs_eq (record : Record) :
    record.blobs = record.args.blob?.toList ++ record.result.blob?.toList := by
  rw [blobs, filterMap_cons, filterMap_cons, filterMap_nil]
  cases record.args.blob? <;> cases record.result.blob? <;> rfl

end Record

structure NewRecord where
  interface : String
  function : String
  args : Bytes
  result : Option Bytes
  duration : ℕ
  ts : Instant

structure RingConfig where
  maxBytes : UInt64
  maxAge : ℕ
  blobThreshold : UInt64
  keepArgs : Bool
  deriving DecidableEq

structure RecordRing where
  cfg : RingConfig
  records : List Record
  bytes : ℕ
  nextSeq : UInt64
  blobs : Option BlobStore

/-- How storing one payload goes: its file, and the index of the counts. -/
structure SpillDisk where
  store : Answer
  index : Answer

/-- How a push's operations on the file system go, and the clock that dates its files. -/
structure PushDisk where
  args : SpillDisk
  result : SpillDisk
  clock : Instant

/-- A name of printable ASCII, not too long. -/
def fieldOk (field : String) : Bool :=
  !field.isEmpty && (utf8 field).length ≤ 128 &&
    (utf8 field).all (fun byte => 0x21 ≤ byte && byte ≤ 0x7e)

namespace RecordRing

def onStore {Value : Type} (store : BlobStore) (effect : Effect BlobStore Error Value) :
    Effect RecordRing Error Value :=
  Effect.within (fun _ => store) (fun store ring => { ring with blobs := some store }) effect

def encode (disk : SpillDisk) (clock : Instant) (bytes : Bytes) (keep : Bool) :
    Effect RecordRing Error Payload := do
  let ring ← Effect.read
  let digest := sha256 bytes
  if !keep then
    return .digest digest (UInt64.ofNat bytes.length)
  else if ring.cfg.blobThreshold.toNat < bytes.length then
    match ring.blobs with
    | some store => onStore store do
        let blob ← BlobStore.put disk.store clock bytes
        let _ ← BlobStore.addRef disk.index blob.key
        return .blob blob
    | none => return .digest digest (UInt64.ofNat bytes.length)
  else
    return .inline digest bytes

/-- Gives a record's references back; whether the index is written is not asked. -/
def releaseAll (references : List BlobRef) (store : BlobStore) : BlobStore :=
  references.foldl (fun store blob => (BlobStore.release (.ok ()) blob.key store).2) store

def dropFront (ring : RecordRing) : RecordRing :=
  match ring.records with
  | [] => ring
  | record :: records =>
      { ring with
        records := records
        bytes := ring.bytes - record.accountedLen
        blobs := ring.blobs.map (releaseAll record.blobs) }

def dropWhile (test : RecordRing → Record → Bool) : ℕ → RecordRing → RecordRing
  | 0, ring => ring
  | steps + 1, ring =>
      match ring.records with
      | [] => ring
      | front :: _ => if test ring front then dropWhile test steps ring.dropFront else ring

def expire (now : Instant) (ring : RecordRing) : RecordRing :=
  dropWhile (fun ring front => ring.cfg.maxAge ≤ since now front.ts) ring.records.length ring

/-- Down to the byte bound, but never the newest record. -/
def shrink (ring : RecordRing) : RecordRing :=
  dropWhile (fun ring _ => ring.cfg.maxBytes.toNat < ring.bytes && 1 < ring.records.length)
    ring.records.length ring

def clear (ring : RecordRing) : RecordRing := dropWhile (fun _ _ => true) ring.records.length ring

/-- `next_seq.saturating_add(1)`. -/
def succ (seq : UInt64) : UInt64 :=
  if seq.toNat = u64Max then seq else seq + 1

def append (record : Record) (ring : RecordRing) : RecordRing :=
  { ring with
    records := ring.records ++ [record]
    bytes := saturating ring.bytes record.accountedLen
    nextSeq := succ ring.nextSeq }

def encodeResult (disk : SpillDisk) (clock : Instant) :
    Option Bytes → Effect RecordRing Error Payload
  | some bytes => encode disk clock bytes true
  | none => return .empty

def push (disk : PushDisk) (call : NewRecord) : Effect RecordRing Error UInt64 := do
  if !fieldOk call.interface then
    Effect.lift (.error (.badField "interface"))
  else if !fieldOk call.function then
    Effect.lift (.error (.badField "function"))
  else
    let ring ← Effect.read
    let args ← encode disk.args disk.clock call.args ring.cfg.keepArgs
    let result ← encodeResult disk.result disk.clock call.result
    Effect.write (append
      ⟨ring.nextSeq, call.ts, call.interface, call.function, args, result, call.duration⟩)
    Effect.write (expire call.ts)
    Effect.write shrink
    return ring.nextSeq

end RecordRing

def referencedBlobs (records : List Record) : List BlobKey :=
  ((records.flatMap Record.blobs).map BlobRef.key).dedup.mergeSort BlobKey.le

section Storing

variable {disk : SpillDisk} {clock : Instant} {bytes : Bytes} {keep : Bool} {ring : RecordRing}

namespace RecordRing

def refs (ring : RecordRing) : Tally BlobKey u32Max :=
  match ring.blobs with
  | some store => store.refs
  | none => Tally.zero

def has (ring : RecordRing) (key : BlobKey) : Bool :=
  match ring.blobs with
  | some store => store.has key
  | none => false

/-- Whether a payload goes to the store. -/
def spills (ring : RecordRing) (bytes : Bytes) (keep : Bool) : Bool :=
  keep && ring.cfg.blobThreshold.toNat < bytes.length && ring.blobs.isSome

/-- Whether a payload that goes to the store cannot be stored, where `also` is stored as well. -/
def Unstored (answer : Answer) (ring : RecordRing) (also : List BlobKey) (bytes : Bytes) : Prop :=
  (ring.has (BlobKey.of bytes) = false ∧ BlobKey.of bytes ∉ also) ∧ answer ≠ .ok ()

instance (answer : Answer) (ring : RecordRing) (also : List BlobKey) (bytes : Bytes) :
    Decidable (Unstored answer ring also bytes) :=
  inferInstanceAs (Decidable (_ ∧ _))

/-- The keys that encoding a payload counts. -/
def takes (disk : SpillDisk) (ring : RecordRing) (also : List BlobKey) (bytes : Bytes)
    (keep : Bool) : List BlobKey :=
  if ring.spills bytes keep ∧ ¬ Unstored disk.store ring also bytes then [BlobKey.of bytes] else []

def EncodeFails (disk : SpillDisk) (ring : RecordRing) (also : List BlobKey) (bytes : Bytes)
    (keep : Bool) : Prop :=
  ring.spills bytes keep ∧ (Unstored disk.store ring also bytes ∨ disk.index ≠ .ok ())

instance (disk : SpillDisk) (ring : RecordRing) (also : List BlobKey) (bytes : Bytes)
    (keep : Bool) : Decidable (EncodeFails disk ring also bytes keep) :=
  inferInstanceAs (Decidable (_ ∧ _))

structure Encoded (fails : Prop) (taken : List BlobKey) (before : RecordRing)
    (answer : Except Error Payload) (after : RecordRing) : Prop where
  same : after = { before with blobs := after.blobs }
  refs : after.refs = before.refs.raiseAll taken
  has : ∀ key, after.has key = (before.has key || decide (key ∈ taken))
  attached : after.blobs.isSome = before.blobs.isSome
  failed : (∃ fault, answer = .error fault) ↔ fails
  payload : ∀ payload, answer = .ok payload → payload.blob?.toList.map BlobRef.key = taken

variable {fails : Prop}

theorem Encoded.of_kept {payload : Payload} (hblob : payload.blob? = none)
    (hfls : ¬ fails) : Encoded fails [] ring (.ok payload) ring where
  same := rfl
  refs := rfl
  has key := by rw [decide_eq_false (not_mem_nil), Bool.or_false]
  attached := rfl
  failed := by
    constructor
    · intro hflt
      cases hflt.choose_spec
    · intro hfail
      exact absurd hfail hfls
  payload := by
    intro _ hpay
    cases hpay
    rw [hblob]
    rfl

theorem Encoded.of_failed {fault : Error} (hfls : fails) :
    Encoded fails [] ring (.error fault) ring where
  same := rfl
  refs := rfl
  has key := by rw [decide_eq_false (not_mem_nil), Bool.or_false]
  attached := rfl
  failed := ⟨fun _ => hfls, fun _ => ⟨fault, rfl⟩⟩
  payload := nofun

theorem Encoded.of_counted {store : BlobStore} (hstr : ring.blobs = some store)
    (hfls : disk.index ≠ .ok () ↔ fails) :
    Encoded fails [BlobKey.of bytes] ring
      ((disk.index.mapError Error.io).map (fun _ =>
        Payload.blob ⟨BlobKey.of bytes, UInt64.ofNat bytes.length⟩))
      { ring with blobs := some { store.stored clock bytes with
          refs := store.refs.raise (BlobKey.of bytes) } } where
  same := rfl
  refs := by
    rw [RecordRing.refs, RecordRing.refs, hstr]
    rfl
  has key := by
    have hfs : BlobStore.has { store.stored clock bytes with
        refs := store.refs.raise (BlobKey.of bytes) } key = (store.stored clock bytes).has key :=
      BlobStore.has_of_files rfl key
    rw [BlobStore.has_stored] at hfs
    have hring : ring.has key = store.has key := by rw [RecordRing.has, hstr]
    rw [hring, decide_eq_decide.mpr mem_singleton]
    exact hfs
  attached := by
    rw [hstr]
    rfl
  failed := by
    rw [← hfls]
    cases disk.index with
    | ok _ =>
      constructor
      · intro hflt
        cases hflt.choose_spec
      · intro hoth
        exact absurd rfl hoth
    | error why => exact ⟨fun _ => nofun, fun _ => ⟨.io why, rfl⟩⟩
  payload := by
    intro payload hpay
    cases hidx : disk.index with
    | ok _ =>
      rw [hidx] at hpay
      cases hpay
      rfl
    | error why =>
      rw [hidx] at hpay
      cases hpay

theorem encode_run (disk : SpillDisk) (clock : Instant) (bytes : Bytes) (keep : Bool)
    (ring : RecordRing) :
    Encoded (EncodeFails disk ring [] bytes keep) (takes disk ring [] bytes keep) ring
      (encode disk clock bytes keep ring).1 (encode disk clock bytes keep ring).2 := by
  change Encoded _ _ ring
    ((if !keep then _ else if ring.cfg.blobThreshold.toNat < bytes.length then _ else _ :
      Effect RecordRing Error Payload) ring).1
    ((if !keep then _ else if ring.cfg.blobThreshold.toNat < bytes.length then _ else _ :
      Effect RecordRing Error Payload) ring).2
  have hkept : ∀ payload : Payload, payload.blob? = none → ring.spills bytes keep = false →
      Encoded (EncodeFails disk ring [] bytes keep) (takes disk ring [] bytes keep) ring
        (.ok payload) ring := by
    intro payload hblob hspil
    have htakes : takes disk ring [] bytes keep = [] :=
      if_neg (fun hboth => Bool.eq_false_iff.mp hspil hboth.1)
    rw [htakes]
    exact Encoded.of_kept hblob (fun hfls => Bool.eq_false_iff.mp hspil hfls.1)
  cases keep with
  | false => exact hkept (.digest (sha256 bytes) (UInt64.ofNat bytes.length)) rfl rfl
  | true =>
    by_cases hlong : ring.cfg.blobThreshold.toNat < bytes.length
    · rw [if_neg Bool.noConfusion, if_pos hlong]
      cases hstr : ring.blobs with
      | none =>
        apply hkept (.digest (sha256 bytes) (UInt64.ofNat bytes.length)) rfl
        rw [spills, hstr]
        exact Bool.and_false _
      | some store =>
        have hspil : ring.spills bytes true = true := by
          rw [spills, hstr, decide_eq_true hlong]
          rfl
        have huns : Unstored disk.store ring [] bytes ↔
            BlobStore.Unstored disk.store store bytes := by
          rw [Unstored, BlobStore.Unstored, RecordRing.has, hstr]
          exact and_congr_left (fun _ => and_iff_left not_mem_nil)
        by_cases hfls : BlobStore.Unstored disk.store store bytes
        · obtain ⟨fault, hput⟩ := BlobStore.put_of_error clock hfls
          have htakes : takes disk ring [] bytes true = [] :=
            if_neg (fun hboth => hboth.2 (huns.mpr hfls))
          have hring : { ring with blobs := some store } = ring := by rw [← hstr]
          rw [htakes]
          change Encoded _ _ ring ((Effect.bind (BlobStore.put disk.store clock bytes) _) store).1
            { ring with blobs := some ((Effect.bind (BlobStore.put disk.store clock bytes) _)
              store).2 }
          rw [Effect.bind, hput]
          rw [hring]
          exact Encoded.of_failed ⟨hspil, .inl (huns.mpr hfls)⟩
        have htakes : takes disk ring [] bytes true = [BlobKey.of bytes] :=
          if_pos ⟨hspil, fun hoth => hfls (huns.mp hoth)⟩
        have hhas : (store.stored clock bytes).has (BlobKey.of bytes) = true := by
          rw [BlobStore.has_stored, decide_eq_true rfl, Bool.or_true]
        rw [htakes]
        have hrun : (do
            let blob ← BlobStore.put disk.store clock bytes
            let _ ← BlobStore.addRef disk.index blob.key
            return Payload.blob blob : Effect BlobStore Error Payload) store =
            ((disk.index.mapError Error.io).map (fun _ =>
              Payload.blob ⟨BlobKey.of bytes, UInt64.ofNat bytes.length⟩),
              { store.stored clock bytes with
                refs := store.refs.raise (BlobKey.of bytes) }) := by
          rw [Effect.bind_of_ok (BlobStore.put_of_ok clock hfls), Effect.bind_run,
            BlobStore.addRef_run disk.index hhas, BlobStore.refs_stored]
          cases disk.index <;> rfl
        change Encoded _ _ ring (Effect.bind _ _ store).1
          { ring with blobs := some (Effect.bind _ _ store).2 }
        change Effect.bind _ _ store = _ at hrun
        rw [hrun]
        apply Encoded.of_counted hstr
        constructor
        · intro hidx
          exact ⟨hspil, .inr hidx⟩
        intro hoth
        cases hoth.2 with
        | inl hunst => exact absurd (huns.mp hunst) hfls
        | inr hidx => exact hidx
    · rw [if_neg Bool.noConfusion, if_neg hlong]
      apply hkept (.inline (sha256 bytes) bytes) rfl
      rw [spills, decide_eq_false hlong]
      rfl

end RecordRing

end Storing

section Dropping

variable {ring : RecordRing}

def references (records : List Record) : List BlobKey :=
  (records.flatMap Record.blobs).map BlobRef.key

theorem references_append (first second : List Record) :
    references (first ++ second) = references first ++ references second := by
  rw [references, flatMap_append, map_append]
  rfl

theorem references_cons (record : Record) (records : List Record) :
    references (record :: records) = record.blobs.map BlobRef.key ++ references records := by
  rw [references, flatMap_cons, map_append]
  rfl

theorem mem_referencedBlobs {records : List Record} {key : BlobKey} :
    key ∈ referencedBlobs records ↔ key ∈ references records := by
  rw [referencedBlobs, mem_mergeSort, mem_dedup]
  rfl

theorem nodup_referencedBlobs (records : List Record) : (referencedBlobs records).Nodup :=
  (mergeSort_perm _ _).nodup_iff.mpr (nodup_dedup _)

namespace RecordRing

theorem refs_releaseAll (blobs : List BlobRef) (store : BlobStore) :
    (releaseAll blobs store).refs = store.refs.lowerAll (blobs.map BlobRef.key) := by
  induction blobs generalizing store with
  | nil => rfl
  | cons blob blobs ih =>
    change (releaseAll blobs (BlobStore.release (.ok ()) blob.key store).2).refs = _
    rw [ih, BlobStore.release_run]
    rfl

theorem lowerAll_zero (keys : List BlobKey) :
    (Tally.zero : Tally BlobKey u32Max).lowerAll keys = Tally.zero := by
  ext key
  rw [Tally.count_lowerAll]
  exact Nat.zero_sub _

theorem records_dropFront {front : Record} {rest : List Record}
    (hrecs : ring.records = front :: rest) : ring.dropFront.records = rest := by
  rw [dropFront, hrecs]

theorem refs_dropFront {front : Record} {rest : List Record}
    (hrecs : ring.records = front :: rest) :
    ring.dropFront.refs = ring.refs.lowerAll (front.blobs.map BlobRef.key) := by
  rw [dropFront, hrecs]
  cases hstr : ring.blobs with
  | none =>
    have hring : ring.refs = Tally.zero := by rw [refs, hstr]
    rw [hring, lowerAll_zero]
    rfl
  | some store =>
    have hring : ring.refs = store.refs := by rw [refs, hstr]
    rw [hring]
    exact refs_releaseAll front.blobs store

theorem has_releaseAll (blobs : List BlobRef) (store : BlobStore) (key : BlobKey) :
    (releaseAll blobs store).has key = store.has key := by
  induction blobs generalizing store with
  | nil => rfl
  | cons blob blobs ih =>
    change (releaseAll blobs (BlobStore.release (.ok ()) blob.key store).2).has key = _
    rw [ih, BlobStore.release_run]
    exact BlobStore.has_of_files rfl key

theorem has_dropFront (ring : RecordRing) (key : BlobKey) :
    ring.dropFront.has key = ring.has key := by
  rw [dropFront]
  cases ring.records with
  | nil => rfl
  | cons front rest =>
    rw [has, has]
    cases ring.blobs with
    | none => rfl
    | some store => exact has_releaseAll front.blobs store key

variable (test : RecordRing → Record → Bool)

theorem has_dropWhile (steps : ℕ) (ring : RecordRing)
    (key : BlobKey) : (dropWhile test steps ring).has key = ring.has key := by
  induction steps generalizing ring with
  | zero => rfl
  | succ steps ih =>
    rw [dropWhile]
    cases ring.records with
    | nil => rfl
    | cons front rest =>
      change (if test ring front then _ else _ : RecordRing).has key = _
      split
      · rw [ih, has_dropFront]
      · rfl

theorem dropWhile_run (steps : ℕ) (ring : RecordRing) :
    ∃ dropped, ring.records = dropped ++ (dropWhile test steps ring).records ∧
      (dropWhile test steps ring).refs = ring.refs.lowerAll (references dropped) := by
  induction steps generalizing ring with
  | zero => exact ⟨[], rfl, rfl⟩
  | succ steps ih =>
    cases hrecs : ring.records with
    | nil =>
      rw [dropWhile, hrecs]
      exact ⟨[], hrecs.symm, rfl⟩
    | cons front rest =>
      rw [dropWhile, hrecs]
      by_cases htest : test ring front
      · obtain ⟨dropped, hrest, hrefs⟩ := ih ring.dropFront
        rw [records_dropFront hrecs] at hrest
        rw [refs_dropFront hrecs] at hrefs
        refine ⟨front :: dropped, ?_, ?_⟩
        · change _ = _ ++ (if test ring front then _ else _ : RecordRing).records
          rw [if_pos htest, cons_append, ← hrest]
        · change (if test ring front then _ else _ : RecordRing).refs = _
          rw [if_pos htest, hrefs, references_cons, Tally.lowerAll, Tally.lowerAll, Tally.lowerAll,
            foldl_append]
      refine ⟨[], ?_, ?_⟩
      · change _ = (if test ring front then _ else _ : RecordRing).records
        rw [if_neg htest, hrecs]
      · change (if test ring front then _ else _ : RecordRing).refs = _
        rw [if_neg htest]
        rfl

end RecordRing

end Dropping

section Pushing

namespace RecordRing

variable {disk : PushDisk} {call : NewRecord} {ring : RecordRing}

def argsTakes (disk : PushDisk) (call : NewRecord) (ring : RecordRing) : List BlobKey :=
  takes disk.args ring [] call.args ring.cfg.keepArgs

def ArgsFail (disk : PushDisk) (call : NewRecord) (ring : RecordRing) : Prop :=
  EncodeFails disk.args ring [] call.args ring.cfg.keepArgs

def resultTakes (disk : PushDisk) (call : NewRecord) (ring : RecordRing) : List BlobKey :=
  match call.result with
  | some bytes => takes disk.result ring (argsTakes disk call ring) bytes true
  | none => []

def ResultFails (disk : PushDisk) (call : NewRecord) (ring : RecordRing) : Prop :=
  ∃ bytes ∈ call.result, EncodeFails disk.result ring (argsTakes disk call ring) bytes true

def Named (call : NewRecord) : Prop := fieldOk call.interface ∧ fieldOk call.function

instance (call : NewRecord) : Decidable (Named call) := inferInstanceAs (Decidable (_ ∧ _))

instance (disk : PushDisk) (call : NewRecord) (ring : RecordRing) :
    Decidable (ArgsFail disk call ring) :=
  inferInstanceAs (Decidable (EncodeFails _ _ _ _ _))

/-- A push is refused, or an operation of the file system on its way fails. -/
def PushFails (disk : PushDisk) (call : NewRecord) (ring : RecordRing) : Prop :=
  ¬ Named call ∨ ArgsFail disk call ring ∨ ResultFails disk call ring

def pushTakes (disk : PushDisk) (call : NewRecord) (ring : RecordRing) : List BlobKey :=
  if Named call then
    argsTakes disk call ring ++
      if ArgsFail disk call ring then [] else resultTakes disk call ring
  else []

variable {before after : RecordRing}

theorem spills_of_same (hcfg : after.cfg = before.cfg)
    (hatt : after.blobs.isSome = before.blobs.isSome) (bytes : Bytes) (keep : Bool) :
    after.spills bytes keep = before.spills bytes keep := by
  rw [spills, spills, hcfg, hatt]

theorem unstored_of_same {taken : List BlobKey}
    (hhas : ∀ key, after.has key = (before.has key || decide (key ∈ taken))) (answer : Answer)
    (bytes : Bytes) : Unstored answer after [] bytes ↔ Unstored answer before taken bytes := by
  rw [Unstored, Unstored, hhas, Bool.or_eq_false_iff, decide_eq_false_iff_not]
  exact and_congr_left (fun _ => and_iff_left not_mem_nil)

theorem encodeResult_run (disk : SpillDisk) (clock : Instant) (result : Option Bytes)
    {taken : List BlobKey} (hcfg : after.cfg = before.cfg)
    (hatt : after.blobs.isSome = before.blobs.isSome)
    (hhas : ∀ key, after.has key = (before.has key || decide (key ∈ taken))) :
    Encoded (∃ bytes ∈ result, EncodeFails disk before taken bytes true)
      (match result with
        | some bytes => takes disk before taken bytes true
        | none => []) after
      (encodeResult disk clock result after).1 (encodeResult disk clock result after).2 := by
  cases result with
  | none =>
    apply Encoded.of_kept rfl
    intro hfls
    cases hfls.choose_spec.1
  | some bytes =>
    have hrun := encode_run disk clock bytes true after
    have htakes : takes disk after [] bytes true = takes disk before taken bytes true := by
      simp only [takes, spills_of_same hcfg hatt, unstored_of_same hhas]
    have hfls : EncodeFails disk after [] bytes true ↔
        ∃ found ∈ some bytes, EncodeFails disk before taken found true := by
      rw [EncodeFails, spills_of_same hcfg hatt, unstored_of_same hhas]
      constructor
      · intro hfail
        exact ⟨bytes, rfl, hfail⟩
      intro hfail
      obtain ⟨found, hfnd, hfail⟩ := hfail
      cases hfnd
      exact hfail
    rw [htakes] at hrun
    exact { hrun with failed := hrun.failed.trans hfls }

structure Pushed (disk : PushDisk) (call : NewRecord) (before : RecordRing)
    (answer : Except Error UInt64) (after : RecordRing) : Prop where
  failed : (∃ fault, answer = .error fault) ↔ PushFails disk call before
  undone : PushFails disk call before → after = { before with blobs := after.blobs } ∧
    after.refs = before.refs.raiseAll (pushTakes disk call before)
  pushed : ¬ PushFails disk call before → ∃ record dropped,
    before.records ++ [record] = dropped ++ after.records ∧
      record.blobs.map BlobRef.key = pushTakes disk call before ∧
      after.refs = (before.refs.raiseAll (pushTakes disk call before)).lowerAll (references dropped)
  has : ∀ key, after.has key = (before.has key || decide (key ∈ pushTakes disk call before))

theorem Pushed.of_failed {fault : Error} (hfls : PushFails disk call ring)
    (hsame : after = { ring with blobs := after.blobs })
    (hrefs : after.refs = ring.refs.raiseAll (pushTakes disk call ring))
    (hhas : ∀ key, after.has key = (ring.has key || decide (key ∈ pushTakes disk call ring))) :
    Pushed disk call ring (.error fault) after where
  failed := ⟨fun _ => hfls, fun _ => ⟨fault, rfl⟩⟩
  has := hhas
  undone _ := ⟨hsame, hrefs⟩
  pushed hoth := absurd hfls hoth

theorem refs_shrink_expire (now : Instant) (record : Record) (ring : RecordRing) :
    ∃ dropped, ring.records ++ [record] =
        dropped ++ (shrink (expire now (append record ring))).records ∧
      (shrink (expire now (append record ring))).refs = ring.refs.lowerAll (references dropped) := by
  obtain ⟨aged, hexpire, hexp⟩ := dropWhile_run
    (fun ring front => ring.cfg.maxAge ≤ since now front.ts) (append record ring).records.length
    (append record ring)
  obtain ⟨heavy, hshr, hshrunk⟩ := dropWhile_run
    (fun ring _ => ring.cfg.maxBytes.toNat < ring.bytes && 1 < ring.records.length)
    (expire now (append record ring)).records.length (expire now (append record ring))
  refine ⟨aged ++ heavy, ?_, ?_⟩
  · calc ring.records ++ [record] = aged ++ (expire now (append record ring)).records := hexpire
      _ = aged ++ (heavy ++ (shrink (expire now (append record ring))).records) :=
        congrArg (aged ++ ·) hshr
      _ = aged ++ heavy ++ (shrink (expire now (append record ring))).records :=
        (append_assoc _ _ _).symm
  calc (shrink (expire now (append record ring))).refs
      = (expire now (append record ring)).refs.lowerAll (references heavy) := hshrunk
    _ = (ring.refs.lowerAll (references aged)).lowerAll (references heavy) :=
      congrArg (Tally.lowerAll (references heavy)) hexp
    _ = ring.refs.lowerAll (references (aged ++ heavy)) := by
      rw [references_append, Tally.lowerAll, Tally.lowerAll, Tally.lowerAll, foldl_append]

theorem push_run (disk : PushDisk) (call : NewRecord) (ring : RecordRing) :
    Pushed disk call ring (push disk call ring).1 (push disk call ring).2 := by
  by_cases hnmd : Named call
  · rw [push, hnmd.1, hnmd.2]
    change Pushed disk call ring
      ((encode disk.args disk.clock call.args ring.cfg.keepArgs >>= _) ring).1
      ((encode disk.args disk.clock call.args ring.cfg.keepArgs >>= _) ring).2
    have hargs := encode_run disk.args disk.clock call.args ring.cfg.keepArgs ring
    have htakes : pushTakes disk call ring = argsTakes disk call ring ++
        if ArgsFail disk call ring then [] else resultTakes disk call ring := if_pos hnmd
    cases henc : encode disk.args disk.clock call.args ring.cfg.keepArgs ring with
    | mk answer middle =>
      rw [henc] at hargs
      cases answer with
      | error fault =>
        have hfls : ArgsFail disk call ring := hargs.failed.mp ⟨fault, rfl⟩
        rw [if_pos hfls, append_nil] at htakes
        rw [Effect.bind_of_error henc]
        rw [← argsTakes, ← htakes] at hargs
        exact Pushed.of_failed (.inr (.inl hfls)) hargs.same hargs.refs hargs.has
      | ok args =>
        have hdone : ¬ ArgsFail disk call ring := by
          intro hfls
          cases (hargs.failed.mpr hfls).choose_spec
        have hmid : middle = { ring with blobs := middle.blobs } := hargs.same
        have hcfg : middle.cfg = ring.cfg := by rw [hmid]
        have hres := encodeResult_run disk.result disk.clock call.result hcfg hargs.attached
          hargs.has
        have hrefs : (middle.refs.raiseAll (resultTakes disk call ring)) =
            ring.refs.raiseAll (pushTakes disk call ring) := by
          rw [htakes, if_neg hdone, hargs.refs, Tally.raiseAll, Tally.raiseAll, Tally.raiseAll,
            foldl_append]
          rfl
        have hboth : ∀ key, (middle.has key || decide (key ∈ resultTakes disk call ring)) =
            (ring.has key || decide (key ∈ pushTakes disk call ring)) := by
          intro key
          rw [htakes, if_neg hdone, hargs.has, Bool.or_assoc, ← Bool.decide_or,
            decide_eq_decide.mpr mem_append.symm]
          rfl
        rw [Effect.bind_of_ok henc]
        cases hencod : encodeResult disk.result disk.clock call.result middle with
        | mk answer stored =>
          rw [hencod] at hres
          have hsto : stored = { middle with blobs := stored.blobs } := hres.same
          have hsame : stored = { ring with blobs := stored.blobs } :=
            hsto.trans (congrArg (fun base : RecordRing =>
              { base with blobs := stored.blobs }) hmid)
          cases answer with
          | error fault =>
            have hfls : ResultFails disk call ring := hres.failed.mp ⟨fault, rfl⟩
            rw [Effect.bind_of_error hencod]
            exact Pushed.of_failed (.inr (.inr hfls)) hsame (hres.refs.trans hrefs)
              (fun key => (hres.has key).trans (hboth key))
          | ok result =>
            have hended : ¬ ResultFails disk call ring := by
              intro hfls
              cases (hres.failed.mpr hfls).choose_spec
            have hsuc : ¬ PushFails disk call ring := by
              intro hfls
              cases hfls with
              | inl hunn => exact hunn hnmd
              | inr hfls => exact hfls.elim hdone hended
            rw [Effect.bind_of_ok hencod]
            constructor
            · constructor
              · intro hflt
                cases hflt.choose_spec
              · intro hfls
                exact absurd hfls hsuc
            · intro hfls
              exact absurd hfls hsuc
            · intro _
              obtain ⟨dropped, hrecs, hlt⟩ := refs_shrink_expire call.ts
                ⟨ring.nextSeq, call.ts, call.interface, call.function, args, result,
                  call.duration⟩ stored
              refine ⟨⟨ring.nextSeq, call.ts, call.interface, call.function, args, result,
                call.duration⟩, dropped, ?_, ?_, ?_⟩
              · have hkept : stored.records = ring.records := by rw [hsame]
                rwa [← hkept]
              · rw [Record.blobs_eq, map_append, hargs.payload args rfl,
                  hres.payload result rfl, htakes, if_neg hdone]
                rfl
              · rw [← hres.refs.trans hrefs]
                exact hlt
            intro key
            refine Eq.trans ?_ ((hres.has key).trans (hboth key))
            change (shrink (expire call.ts (append _ stored))).has key = stored.has key
            rw [shrink, has_dropWhile, expire, has_dropWhile]
            rfl
  · have hfls : PushFails disk call ring := .inl hnmd
    have htakes : pushTakes disk call ring = [] := if_neg hnmd
    have href : ∃ fault, push disk call ring = (.error fault, ring) := by
      by_cases hitf : fieldOk call.interface = true
      · have hfun : fieldOk call.function = false :=
          Bool.eq_false_iff.mpr (fun hfun => hnmd ⟨hitf, hfun⟩)
        refine ⟨.badField "function", ?_⟩
        rw [push, hitf, hfun]
        rfl
      · refine ⟨.badField "interface", ?_⟩
        rw [push, Bool.eq_false_iff.mpr hitf]
        rfl
    obtain ⟨fault, hpush⟩ := href
    rw [hpush]
    apply Pushed.of_failed hfls rfl
    · rw [htakes]
      rfl
    · intro key
      rw [htakes, decide_eq_false not_mem_nil, Bool.or_false]

end RecordRing

end Pushing

end WasmAgent.Bounded
