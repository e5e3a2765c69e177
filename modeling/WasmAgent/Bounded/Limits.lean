import WasmAgent.Bounded.Ring

/-!
# The limits of the ring

What holds of the ring after every push, as long as the records come in an order that lets the
ring drop the aged ones from the front.
-/

namespace WasmAgent.Bounded

open List WasmAgent.Core

namespace RecordRing

/-- `RecordRing::new` and `RecordRing::with_blobs`. -/
def new (cfg : RingConfig) (blobs : Option BlobStore) : RecordRing := ⟨cfg, [], 0, 0, blobs⟩

def total (ring : RecordRing) : ℕ := (ring.records.map Record.accountedLen).sum

/-- The byte total is right and within its bound, and no record is too old beside another. -/
structure Limited (ring : RecordRing) : Prop where
  bytes : ring.bytes = ring.total
  room : ring.bytes ≤ ring.cfg.maxBytes.toNat ∨ ring.records.length ≤ 1
  recent : ∀ newer ∈ ring.records, ∀ older ∈ ring.records, since newer.ts older.ts < ring.cfg.maxAge

structure Within (call : NewRecord) (seq : UInt64) (ring : RecordRing) : Prop
    extends Limited ring where
  newest : ∃ record, ring.records.getLast? = some record ∧ record.seq = seq ∧ record.ts = call.ts

end RecordRing

def NewRecord.weight (call : NewRecord) : ℕ :=
  recordOverhead + (utf8 call.interface).length + (utf8 call.function).length +
    max 32 call.args.length + call.result.elim 0 (max 32 ·.length)

/-- The age bound keeps a record made now; the call is not that old beside a record of the ring; and
the records that it makes too old lie in front of the others. -/
structure Orderly (call : NewRecord) (ring : RecordRing) : Prop where
  age : 0 < ring.cfg.maxAge
  behind : ∀ record ∈ ring.records, since record.ts call.ts < ring.cfg.maxAge
  order : ring.records.Pairwise fun older newer =>
    ring.cfg.maxAge ≤ since call.ts newer.ts → ring.cfg.maxAge ≤ since call.ts older.ts
  fits : ring.bytes + call.weight ≤ u64Max

inductive RingCall where
  | push (disk : PushDisk) (call : NewRecord)
  | expire (now : Instant)
  | clear

namespace RecordRing

def act (ring : RecordRing) : RingCall → RecordRing
  | .push disk call => (push disk call ring).2
  | .expire now => ring.expire now
  | .clear => ring.clear

def OrderlyRun : List RingCall → RecordRing → Prop
  | [], _ => True
  | call :: calls, ring =>
      (∀ disk pushed, call = .push disk pushed → Orderly pushed ring) ∧
        OrderlyRun calls (ring.act call)

section Dropping

variable {ring : RecordRing} {test : RecordRing → Record → Bool} {steps : ℕ}

theorem dropWhile_keeps {kept : RecordRing → Prop}
    (hstep : ∀ ring front rest, ring.records = front :: rest → test ring front = true →
      kept ring → kept ring.dropFront) (hkept : kept ring) :
    kept (dropWhile test steps ring) := by
  induction steps generalizing ring with
  | zero => exact hkept
  | succ steps ih =>
    rw [dropWhile]
    split
    · exact hkept
    rename_i front rest hrecs
    split
    · next htest => exact ih (hstep ring front rest hrecs htest hkept)
    · exact hkept

variable {rest : List Record}

theorem dropWhile_front (hstps : ring.records.length ≤ steps) {front : Record}
    (hfrt : (dropWhile test steps ring).records = front :: rest) :
    test (dropWhile test steps ring) front = false := by
  induction steps generalizing ring with
  | zero =>
    rw [dropWhile, length_eq_zero_iff.mp (Nat.le_zero.mp hstps)] at hfrt
    cases hfrt
  | succ steps ih =>
    rw [dropWhile] at hfrt ⊢
    split at hfrt
    · next hrecs =>
      rw [hrecs] at hfrt
      cases hfrt
    rename_i first others hrecs
    split at hfrt
    · next htest =>
      rw [if_pos htest]
      apply ih _ hfrt
      rw [records_dropFront hrecs]
      rw [hrecs] at hstps
      exact Nat.le_of_succ_le_succ hstps
    rename_i htest
    rw [hrecs] at hfrt
    cases hfrt
    rw [if_neg htest]
    exact Bool.eq_false_iff.mpr htest

theorem bytes_dropFront {front : Record} (hrecs : ring.records = front :: rest)
    (hbs : ring.bytes = ring.total) : ring.dropFront.bytes = ring.dropFront.total := by
  rw [total, hrecs, map_cons, sum_cons] at hbs
  rw [total, dropFront, hrecs]
  exact Nat.sub_eq_of_eq_add' hbs

theorem cfg_dropFront : ring.dropFront.cfg = ring.cfg := by
  rw [dropFront]
  split <;> rfl

theorem Limited.dropWhile (hlmd : Limited ring) : Limited (ring.dropWhile test steps) := by
  apply dropWhile_keeps _ hlmd
  intro ring front rest hrecs _ hlmd
  have hrest := records_dropFront hrecs
  have hmem : ∀ record ∈ rest, record ∈ ring.records := by
    rw [hrecs]
    exact fun record => mem_cons_of_mem front
  constructor
  · exact bytes_dropFront hrecs hlmd.bytes
  · rw [hrest, cfg_dropFront]
    apply hlmd.room.imp
    · have hless : ring.dropFront.bytes ≤ ring.bytes := by
        rw [dropFront, hrecs]
        exact Nat.sub_le _ _
      exact Nat.le_trans hless
    · rw [hrecs]
      exact Nat.le_of_succ_le
  · rw [hrest, cfg_dropFront]
    intro newer hnewer older holder
    exact hlmd.recent newer (hmem newer hnewer) older (hmem older holder)

structure Holds (cfg : RingConfig) (older : List Record) (record : Record) (ring : RecordRing) :
    Prop where
  cfg : ring.cfg = cfg
  bytes : ring.bytes = ring.total
  records : ∃ kept, kept <:+ older ∧ ring.records = kept ++ [record]

theorem Holds.dropFront {cfg : RingConfig} {older : List Record} {record front : Record}
    (hhld : Holds cfg older record ring) (hrecs : ring.records = front :: rest)
    (hoth : rest = [] → front ≠ record) : Holds cfg older record ring.dropFront := by
  obtain ⟨kept, hsuf, hkept⟩ := hhld.records
  refine ⟨cfg_dropFront.trans hhld.cfg, bytes_dropFront hrecs hhld.bytes, ?_⟩
  rw [records_dropFront hrecs]
  rw [hrecs] at hkept
  cases kept with
  | nil =>
    cases hkept
    exact absurd rfl (hoth rfl)
  | cons first kept =>
    cases hkept
    exact ⟨kept, (suffix_cons front kept).trans hsuf, rfl⟩

end Dropping

section Pushing

variable {disk : PushDisk} {call : NewRecord} {ring : RecordRing} {seq : UInt64}
variable {after : RecordRing}

theorem encode_len {disk : SpillDisk} {clock : Instant} {bytes : Bytes} {keep : Bool}
    {payload : Payload} (hok : encode disk clock bytes keep ring = (.ok payload, after)) :
    payload.accountedLen ≤ max 32 bytes.length := by
  obtain ⟨_, _, hread, hok⟩ := Effect.bind_ok hok
  cases hread
  split at hok
  · cases hok
    exact Nat.le_max_left _ _
  split at hok
  · split at hok
    · next store _ =>
      obtain ⟨hok, -⟩ := Prod.mk.inj hok
      obtain ⟨blob, _, -, hok⟩ := Effect.bind_ok (Prod.ext hok rfl)
      obtain ⟨_, _, -, hok⟩ := Effect.bind_ok hok
      cases hok
      exact Nat.le_max_left _ _
    · cases hok
      exact Nat.le_max_left _ _
  · cases hok
    exact Nat.le_max_right _ _

theorem push_ok (hok : push disk call ring = (.ok seq, after)) :
    ∃ record stored, stored = { ring with blobs := stored.blobs } ∧ record.seq = seq ∧
      record.ts = call.ts ∧ record.accountedLen ≤ call.weight ∧
      after = shrink (expire call.ts (append record stored)) := by
  rw [push] at hok
  split at hok
  · cases congrArg Prod.fst hok
  split at hok
  · cases congrArg Prod.fst hok
  obtain ⟨_, _, hread, hok⟩ := Effect.bind_ok hok
  cases hread
  obtain ⟨args, middle, hargs, hok⟩ := Effect.bind_ok hok
  obtain ⟨result, stored, hres, hok⟩ := Effect.bind_ok hok
  have hmid := (encode_run disk.args disk.clock call.args ring.cfg.keepArgs ring).same
  have hnone (key : BlobKey) :
      middle.has key = (middle.has key || decide (key ∈ ([] : List BlobKey))) := by simp
  have hsto := (encodeResult_run disk.result disk.clock call.result rfl rfl hnone).same
  rw [hargs] at hmid
  rw [hres] at hsto
  refine ⟨⟨ring.nextSeq, call.ts, call.interface, call.function, args, result, call.duration⟩,
    stored, ?_, ?_, rfl, ?_, ?_⟩
  · exact hsto.trans (congrArg (fun base : RecordRing =>
      { base with blobs := stored.blobs }) hmid)
  · cases hok
    rfl
  · have hresultLen : result.accountedLen ≤ call.result.elim 0 (max 32 ·.length) := by
      cases hkind : call.result with
      | none =>
        rw [hkind] at hres
        cases hres
        exact Nat.le_refl _
      | some bytes =>
        rw [hkind] at hres
        exact encode_len hres
    have hargsLen := encode_len hargs
    rw [Record.accountedLen, NewRecord.weight]
    simp only [saturating]
    omega
  · cases hok
    rfl

theorem Limited.push (hlmd : Limited ring) (hord : Orderly call ring)
    (hok : RecordRing.push disk call ring = (.ok seq, after)) : Within call seq after := by
  obtain ⟨record, stored, hsto, hseq, hts, hlen, rfl⟩ := push_ok hok
  have hage := hord.age
  have hfits := hord.fits
  have hfre : since call.ts record.ts < ring.cfg.maxAge := by
    rw [hts, since, Int.sub_self]
    exact hage
  have happ : Holds ring.cfg ring.records record (append record stored) := by
    rw [hsto]
    refine ⟨rfl, ?_, ring.records, suffix_rfl, rfl⟩
    have hbs := hlmd.bytes
    simp only [append, total, map_append, sum_append, map_singleton,
      sum_singleton, saturating] at hbs ⊢
    omega
  have hexp : Holds ring.cfg ring.records record (expire call.ts (append record stored)) := by
    apply dropWhile_keeps _ happ
    intro ring' front rest hrecs htest hhld
    apply hhld.dropFront hrecs
    rintro - rfl
    rw [hhld.cfg, decide_eq_true_iff] at htest
    omega
  have hfin : Holds ring.cfg ring.records record
      (shrink (expire call.ts (append record stored))) := by
    apply dropWhile_keeps _ hexp
    intro ring' front rest hrecs htest hhld
    apply hhld.dropFront hrecs
    rintro rfl
    rw [hrecs, Bool.and_eq_true, decide_eq_true_iff, decide_eq_true_iff] at htest
    exact absurd htest.2 (Nat.lt_irrefl _)
  have hyng : ∀ older ∈ (expire call.ts (append record stored)).records,
      since call.ts older.ts < ring.cfg.maxAge := by
    obtain ⟨kept, hsuf, hkept⟩ := hexp.records
    intro older holder
    rw [hkept, mem_append, mem_singleton] at holder
    obtain holder | rfl := holder
    · cases kept with
      | nil => cases holder
      | cons front rest =>
        have hfrt : since call.ts front.ts < ring.cfg.maxAge := by
          have hstays := dropWhile_front (Nat.le_refl _) hkept
          rw [decide_eq_false_iff_not, ← expire, hexp.cfg] at hstays
          exact Nat.lt_of_not_le hstays
        obtain rfl | hrest := mem_cons.mp holder
        · exact hfrt
        · have hpairs := (pairwise_cons.mp (hord.order.sublist hsuf.sublist)).1
          by_contra hold
          exact absurd (hpairs older hrest (Nat.le_of_not_lt hold)) (Nat.not_le_of_lt hfrt)
    · exact hfre
  obtain ⟨kept, hsuf, hkept⟩ := hfin.records
  obtain ⟨_, hdrp, -⟩ := dropWhile_run
    (fun ring _ => ring.cfg.maxBytes.toNat < ring.bytes && 1 < ring.records.length)
    (expire call.ts (append record stored)).records.length (expire call.ts (append record stored))
  have hstill : ∀ older ∈ (shrink (expire call.ts (append record stored))).records,
      since call.ts older.ts < ring.cfg.maxAge := by
    intro older holder
    exact hyng older (hdrp ▸ mem_append_right _ holder)
  refine ⟨⟨hfin.bytes, ?_, ?_⟩, record, ?_, hseq, hts⟩
  · cases hrecs : (shrink (expire call.ts (append record stored))).records with
    | nil => exact Or.inr (Nat.zero_le _)
    | cons front rest =>
      have hstays := dropWhile_front (Nat.le_refl _) hrecs
      rw [Bool.and_eq_false_iff, decide_eq_false_iff_not, decide_eq_false_iff_not, ← shrink,
        hrecs] at hstays
      exact hstays.imp Nat.le_of_not_lt Nat.le_of_not_lt
  · rw [hfin.cfg]
    intro newer hnewer older holder
    rw [hkept, mem_append, mem_singleton] at hnewer
    obtain hnewer | rfl := hnewer
    · have holder' := holder
      rw [hkept, mem_append, mem_singleton] at holder'
      obtain holder' | rfl := holder'
      · exact hlmd.recent newer (hsuf.mem hnewer) older (hsuf.mem holder')
      · rw [hts]
        exact hord.behind newer (hsuf.mem hnewer)
    · rw [hts]
      exact hstill older holder
  · rw [hkept]
    exact getLast?_concat

theorem Limited.act (hlmd : Limited ring) (call : RingCall)
    (hord : ∀ disk pushed, call = .push disk pushed → Orderly pushed ring) :
    Limited (ring.act call) := by
  cases call with
  | push disk pushed =>
    change Limited (RecordRing.push disk pushed ring).2
    cases hpush : RecordRing.push disk pushed ring with
    | mk answer after =>
      cases answer with
      | ok seq => exact (hlmd.push (hord disk pushed rfl) hpush).toLimited
      | error fault =>
        have hrun := push_run disk pushed ring
        rw [hpush] at hrun
        rw [(hrun.undone (hrun.failed.mp ⟨fault, rfl⟩)).1]
        exact { hlmd with }
  | expire | clear => exact hlmd.dropWhile

end Pushing

section Late

def shortConfig : RingConfig := ⟨1000, 10, 1000, true⟩

def soundPush : PushDisk := ⟨⟨.ok (), .ok ()⟩, ⟨.ok (), .ok ()⟩, 0⟩

def callAt (ts : Instant) : NewRecord := ⟨"i", "f", [], none, 0, ts⟩

end Late

end RecordRing

end WasmAgent.Bounded
