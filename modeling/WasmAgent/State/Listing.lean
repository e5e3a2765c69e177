import WasmAgent.State.Batch

/-!
# Change lists on disk

The changes of a step name each key once, none of them reserved, and have sizes the
host allows.  Such a list is read back from what was written down for it, as long as
the whole of it fits the bound of the reader.
-/

namespace WasmAgent.State

open List Option Std WasmAgent.Core

/-- The sizes the host lets a change have. -/
structure Fits (change : Change) : Prop where
  key : change.key.length ≤ maxKeyBytes
  value : ∀ value, change.value = some value → value.length ≤ maxValueBytes

/-- A list that can be written down and read back. -/
structure Listable (changes : List Change) : Prop where
  nodup : (changes.map Core.Change.key).Nodup
  plain : ∀ change ∈ changes, isReserved change.key = false
  fits : ∀ change ∈ changes, Fits change

section Reading

variable {seen : List Bytes} {change : Change} {changes : List Change}

theorem journalTake_reads (bytes : Bytes) : Reads (journalTake bytes.length) bytes bytes :=
  Reader.takeOr_reads bytes

theorem journalArray_reads {bytes : Bytes} {count : ℕ} (hlen : bytes.length = count) :
    Reads (journalArray count) bytes bytes :=
  Reader.array_reads hlen

theorem journalLength_reads {length : ℕ} (hlen : length < 0x100000000) :
    Reads journalLength (littleEndian 4 length) length := by
  have hreads := (journalArray_reads (littleEndian_length 4 length)).map fromLittleEndian
  rwa [fromLittleEndian_littleEndian (show length < 0x100 ^ 4 from hlen)] at hreads

theorem checkJournalKey_ok {key : Bytes} (hkey : key.length ≤ maxKeyBytes)
    (hpln : isReserved key = false) (hnew : key ∉ seen) : checkJournalKey seen key = .ok () := by
  rw [checkJournalKey, if_neg (Nat.not_lt.mpr hkey), hpln, if_neg Bool.false_ne_true, if_neg hnew]

theorem checkJournalValue_ok {value : Bytes} (hval : value.length ≤ maxValueBytes) :
    checkJournalValue value = .ok () := by
  rw [checkJournalValue, if_neg (Nat.not_lt.mpr hval)]

theorem short_of_key {key : Bytes} (hkey : key.length ≤ maxKeyBytes) : key.length < 0x100000000 :=
  Nat.lt_of_le_of_lt hkey (by decide)

theorem short_of_value {value : Bytes} (hval : value.length ≤ maxValueBytes) :
    value.length < 0x100000000 :=
  Nat.lt_of_le_of_lt hval (by decide)

theorem readChange_reads (hfits : Fits change) (hpln : isReserved change.key = false)
    (hnew : change.key ∉ seen) : Reads (readChange seen) (encodeChange change) change := by
  have htag : ∀ tag : UInt8, Reads
      ((fun bytes => UInt8.ofNat (fromLittleEndian bytes)) <$> journalArray 1) [tag] tag := by
    intro tag
    have hreads := (@journalArray_reads [tag] 1 rfl).map
      (fun bytes => UInt8.ofNat (fromLittleEndian bytes))
    have hval : UInt8.ofNat (fromLittleEndian [tag]) = tag := by
      rw [fromLittleEndian, fromLittleEndian, Nat.mul_zero, Nat.add_zero, UInt8.ofNat_toNat]
    rwa [hval] at hreads
  cases change with
  | put key value =>
    have hval : value.length ≤ maxValueBytes := hfits.value value rfl
    apply (htag 1).bind
    apply (journalLength_reads (short_of_key hfits.key)).bind
    apply (journalTake_reads key).bind
    apply (Reads.lift (checkJournalKey_ok hfits.key hpln hnew)).bind
    have hend : Reads (do
        let valueLen ← journalLength
        let value ← journalTake valueLen
        let _ ← (checkJournalValue value : Except (Stop Error) Unit)
        return .put key value : Reading Error Change)
        (littleEndian 4 value.length ++ (value ++ ([] ++ []))) (.put key value) := by
      apply (journalLength_reads (short_of_value hval)).bind
      apply (journalTake_reads value).bind
      apply (Reads.lift (checkJournalValue_ok hval)).bind
      exact Reads.pure _
    rw [append_nil, append_nil] at hend
    exact hend
  | del key =>
    have hreads : Reads (readChange seen)
        ([2] ++ (littleEndian 4 key.length ++ (key ++ ([] ++ [])))) (.del key) := by
      apply (htag 2).bind
      apply (journalLength_reads (short_of_key hfits.key)).bind
      apply (journalTake_reads key).bind
      apply (Reads.lift (checkJournalKey_ok hfits.key hpln hnew)).bind
      exact Reads.pure _
    rw [append_nil, append_nil] at hreads
    exact hreads

theorem readChanges_reads (hlsb : Listable changes) (hnew : ∀ change ∈ changes, change.key ∉ seen) :
    Reads (readChanges changes.length seen) (changes.flatMap encodeChange) changes := by
  induction changes generalizing seen with
  | nil => exact Reads.pure []
  | cons change changes ih =>
    have hhead := hlsb.nodup
    rw [map_cons, nodup_cons] at hhead
    have hrest : Listable changes :=
      ⟨hhead.2, fun other hoth => hlsb.plain other (mem_cons_of_mem _ hoth),
        fun other hoth => hlsb.fits other (mem_cons_of_mem _ hoth)⟩
    have hreads : Reads (readChanges (change :: changes).length seen)
        (encodeChange change ++ (changes.flatMap encodeChange ++ [])) (change :: changes) := by
      apply (readChange_reads (hlsb.fits change mem_cons_self)
        (hlsb.plain change mem_cons_self) (hnew change mem_cons_self)).bind
      apply (ih hrest _).bind
      · exact Reads.pure _
      intro other hoth hseen
      rcases mem_cons.mp hseen with hsame | hbef
      · exact hhead.1 (hsame ▸ List.mem_map_of_mem hoth)
      · exact hnew other (mem_cons_of_mem _ hoth) hbef
    rw [append_nil] at hreads
    rwa [flatMap_cons]

theorem journalFinished_readsLast {Value : Type} (value : Value) :
    ReadsLast (do journalFinished; return value : Reading Error Value) [] value := by
  intro before after _ hpas hend
  have hsame : before = after := Reader.eq_of_rest hpas.buf.symm hpas.rest
  subst hsame
  have hoff : before.offset = before.buf.length := by
    apply Nat.le_antisymm before.inside
    exact drop_eq_nil_iff.mp hend
  have hfin : journalFinished before = .ok ((), before) := by
    change (if before.offset = before.buf.length then _ else _ : Reading Error Unit) before = _
    rw [if_pos hoff]
    rfl
  rw [bind_run, hfin]
  rfl

theorem encodeChanges_length (changes : List Change) :
    (encodeChanges changes).length = 8 + (changes.flatMap encodeChange).length := by
  rw [encodeChanges, length_append, length_append, littleEndian_length]
  rfl

theorem five_le_encodeChange (change : Change) : 5 ≤ (encodeChange change).length := by
  cases change with
  | put key value =>
    simp only [encodeChange, length_cons, length_append, littleEndian_length]
    omega
  | del key =>
    simp only [encodeChange, length_cons, length_append, littleEndian_length]
    omega

theorem length_le_flatMap (changes : List Change) :
    changes.length * 5 ≤ (changes.flatMap encodeChange).length := by
  induction changes with
  | nil => exact Nat.le_refl 0
  | cons change changes ih =>
    have hchg := five_le_encodeChange change
    rw [flatMap_cons, length_append, length_cons]
    omega

/-- A list that fits the bound of the reader is read back. -/
theorem decodeChanges_encodeChanges (hlsb : Listable changes)
    (hshrt : (encodeChanges changes).length ≤ maxJournalBytes) :
    decodeChanges (encodeChanges changes) = .ok changes := by
  have hlen := encodeChanges_length changes
  have hcnt := length_le_flatMap changes
  have hsmall : changes.length < 0x100 ^ 4 := by
    unfold maxJournalBytes at hshrt
    omega
  have hmagic : (encodeChanges changes).take 4 = journalMagic := by
    rw [encodeChanges, append_assoc]
    exact take_left' rfl
  have hfield : ((encodeChanges changes).drop 4).take 4 = littleEndian 4 changes.length := by
    rw [encodeChanges, append_assoc, drop_left' (show journalMagic.length = 4 from rfl)]
    exact take_left' (littleEndian_length 4 _)
  have hbody : ReadsLast (readJournalBody changes.length) (encodeChanges changes) changes := by
    have htake := journalTake_reads (journalMagic ++ littleEndian 4 changes.length)
    rw [length_append, littleEndian_length] at htake
    have hreads : ReadsLast (readJournalBody changes.length)
        ((journalMagic ++ littleEndian 4 changes.length) ++
          (changes.flatMap encodeChange ++ [])) changes := by
      apply htake.bindLast
      apply (readChanges_reads hlsb (fun _ _ => not_mem_nil)).bindLast
      exact journalFinished_readsLast changes
    rwa [append_nil] at hreads
  have hfor : ¬((encodeChanges changes).length < 8 ∨
      (encodeChanges changes).take 4 ≠ journalMagic) := by
    rintro (htiny | hoth)
    · omega
    · exact hoth hmagic
  have hfew : ¬((encodeChanges changes).length - 8) / 5 < changes.length := by
    omega
  rw [decodeChanges, if_neg (Nat.not_lt.mpr hshrt), if_neg hfor, hfield,
    fromLittleEndian_littleEndian hsmall]
  rw [if_neg hfew, hbody.whole (Nat.le_trans hshrt (by decide))]
  rfl

theorem decodeChanges_ok_iff (hlsb : Listable changes) :
    (∃ found, decodeChanges (encodeChanges changes) = .ok found) ↔
      (encodeChanges changes).length ≤ maxJournalBytes := by
  constructor
  · rintro ⟨found, hfnd⟩
    by_contra hlong
    rw [decodeChanges, if_pos (Nat.lt_of_not_le hlong)] at hfnd
    cases hfnd
  · intro hshrt
    exact ⟨changes, decodeChanges_encodeChanges hlsb hshrt⟩

theorem littleEndian_inj {left right : ℕ} (hlt : left < 0x100000000)
    (hrt : right < 0x100000000) (hsame : littleEndian 4 left = littleEndian 4 right) :
    left = right := by
  rw [← fromLittleEndian_littleEndian (show left < 0x100 ^ 4 from hlt), hsame,
    fromLittleEndian_littleEndian (show right < 0x100 ^ 4 from hrt)]

theorem prefixed_inj {left right more other : Bytes} (hlt : left.length < 0x100000000)
    (hrt : right.length < 0x100000000)
    (hsame : littleEndian 4 left.length ++ (left ++ more) =
      littleEndian 4 right.length ++ (right ++ other)) : left = right ∧ more = other := by
  obtain ⟨hlen, hbs⟩ := append_inj hsame (by
    rw [littleEndian_length, littleEndian_length])
  exact append_inj hbs (littleEndian_inj hlt hrt hlen)

theorem encodeChange_inj {first second : Change} {more other : Bytes} (hfst : Fits first)
    (hsnd : Fits second) (hsame : encodeChange first ++ more = encodeChange second ++ other) :
    first = second := by
  cases first with
  | put key value =>
    cases second with
    | put otherKey otherValue =>
      simp only [encodeChange, cons_append, append_assoc, List.cons.injEq, true_and] at hsame
      obtain ⟨hkey, hvalues⟩ := prefixed_inj (short_of_key hfst.key) (short_of_key hsnd.key) hsame
      obtain ⟨hval, -⟩ := prefixed_inj (short_of_value (hfst.value value rfl))
        (short_of_value (hsnd.value otherValue rfl)) hvalues
      rw [show key = otherKey from hkey, hval]
    | del otherKey =>
      rw [encodeChange, encodeChange, cons_append, cons_append, List.cons.injEq] at hsame
      exact absurd hsame.1 (by decide)
  | del key =>
    cases second with
    | put otherKey otherValue =>
      rw [encodeChange, encodeChange, cons_append, cons_append, List.cons.injEq] at hsame
      exact absurd hsame.1 (by decide)
    | del otherKey =>
      simp only [encodeChange, cons_append, append_assoc, List.cons.injEq, true_and] at hsame
      obtain ⟨hkey, -⟩ := prefixed_inj (short_of_key hfst.key) (short_of_key hsnd.key) hsame
      rw [show key = otherKey from hkey]

theorem head_of_encodeChanges {first second : Change} {rest others : List Change}
    (hfst : Listable (first :: rest)) (hsnd : Listable (second :: others))
    (hsame : encodeChanges (first :: rest) = encodeChanges (second :: others)) :
    first = second := by
  rw [encodeChanges, encodeChanges, append_assoc, append_assoc] at hsame
  have hcntd := append_cancel_left hsame
  obtain ⟨-, hbs⟩ := append_inj hcntd (by
    rw [littleEndian_length, littleEndian_length])
  rw [flatMap_cons, flatMap_cons] at hbs
  exact encodeChange_inj (hfst.fits first mem_cons_self) (hsnd.fits second mem_cons_self) hbs

theorem encodeChanges_nil_ne {first : Change} {rest : List Change} :
    encodeChanges [] ≠ encodeChanges (first :: rest) := by
  intro hsame
  have hlen := congrArg List.length hsame
  rw [encodeChanges_length, encodeChanges_length, flatMap_cons, length_append] at hlen
  have hchg := five_le_encodeChange first
  rw [flatMap_nil, length_nil] at hlen
  omega

end Reading

section Applying

variable {batch before after : Batch} {changes : List Change}

theorem Batch.insert_ok {key value : Bytes} (hpln : isReserved key = false)
    (hszd : Sized key value) :
    batch.insert key value = (batch.store key value hszd, .ok (batch.get key)) := by
  have hsize := (checkSize_ok_iff key value).mpr hszd
  rw [Batch.insert, hpln, if_neg Bool.false_ne_true]
  split
  · next fault hflt =>
    rw [hsize] at hflt
    cases hflt
  · rfl

theorem Fits.sized {key value : Bytes} (hfits : Fits (.put key value)) : Sized key value :=
  ⟨hfits.key, hfits.value value rfl⟩

theorem applyToBatch_ok (hpln : ∀ change ∈ changes, isReserved change.key = false)
    (hfits : ∀ change ∈ changes, Fits change) (counts : ChangeCounts) :
    ∃ replayed counted, applyToBatch changes batch counts = .ok (replayed, counted) ∧
      replayed.entries = Core.Change.applyAll changes batch.entries := by
  induction changes generalizing batch counts with
  | nil => exact ⟨batch, counts, rfl, rfl⟩
  | cons change changes ih =>
    have hrest : ∀ (next : Batch) (counts : ChangeCounts),
        ∃ replayed counted, applyToBatch changes next counts = .ok (replayed, counted) ∧
          replayed.entries = Core.Change.applyAll changes next.entries :=
      fun next counts => ih (fun other hoth => hpln other (mem_cons_of_mem _ hoth))
        (fun other hoth => hfits other (mem_cons_of_mem _ hoth)) counts
    have hhead := hfits change mem_cons_self
    have hkey := hpln change mem_cons_self
    cases change with
    | put key value =>
      have hins := @Batch.insert_ok batch key value hkey hhead.sized
      rw [applyToBatch]
      cases hold : batch.get key with
      | none =>
        rw [hins]
        exact hrest (batch.store key value hhead.sized) _
      | some old =>
        dsimp only
        split
        · rw [hins]
          exact hrest (batch.store key value hhead.sized) _
        rename_i hsame
        rw [Decidable.not_not] at hsame
        have hmade : (Core.Change.put key value : Change).apply batch.entries = batch.entries := by
          apply Core.Change.apply_eq_self
          exact hold.trans (congrArg some hsame)
        rw [Core.Change.applyAll_cons, hmade]
        exact hrest batch _
    | del key =>
      rw [applyToBatch]
      cases hold : batch.get key with
      | some old => exact hrest (batch.drop key) _
      | none =>
        have hmade : (Core.Change.del key : Change).apply batch.entries = batch.entries := by
          apply Core.Change.apply_eq_self
          exact hold
        rw [Core.Change.applyAll_cons, hmade]
        exact hrest batch _

/-- What turns one batch into another has sizes the host allows. -/
theorem fits_diff : ∀ change ∈ (diff before after).2, Fits change := by
  intro change hchg
  rcases mem_append.mp hchg with hput | hdel
  · obtain ⟨key, value, rfl, hent, -⟩ := Core.Change.mem_upserts.mp hput
    have hszd := after.sized key value hent
    refine ⟨hszd.1, ?_⟩
    intro found hfnd
    cases hfnd
    exact hszd.2
  obtain ⟨key, rfl, hent, -⟩ := Core.Change.mem_deletions.mp hdel
  obtain ⟨value, hval⟩ := ne_none_iff_exists'.mp hent
  refine ⟨(before.sized key value hval).1, ?_⟩
  intro found hfnd
  cases hfnd

theorem plain_diff (hbef : Plain before.entries) (haft : Plain after.entries) :
    ∀ change ∈ (diff before after).2, isReserved change.key = false := by
  intro change hchg
  rcases mem_append.mp hchg with hput | hdel
  · obtain ⟨key, value, rfl, hent, -⟩ := Core.Change.mem_upserts.mp hput
    exact haft key value hent
  · obtain ⟨key, rfl, hent, -⟩ := Core.Change.mem_deletions.mp hdel
    obtain ⟨value, hval⟩ := ne_none_iff_exists'.mp hent
    exact hbef key value hval

/-- What turns one batch of the component's keys into another can be written down. -/
theorem listable_diff (hbef : Plain before.entries) (haft : Plain after.entries) :
    Listable (diff before after).2 :=
  ⟨Core.Change.difference_keys_nodup, plain_diff hbef haft, fits_diff⟩

theorem applyAll_diff (before after : Batch) :
    Core.Change.applyAll (diff before after).2 before.entries = after.entries :=
  Core.Change.applyAll_difference

theorem validateChanges_ok (hfits : ∀ change ∈ changes, Fits change) :
    validateChanges changes = .ok () := by
  induction changes with
  | nil => rfl
  | cons change changes ih =>
    have hrest := ih (fun other hoth => hfits other (mem_cons_of_mem _ hoth))
    have hhead := hfits change mem_cons_self
    cases change with
    | put key value =>
      rw [validateChanges, (checkSize_ok_iff key value).mpr hhead.sized]
      exact hrest
    | del key =>
      have hkey : key.length ≤ maxKeyBytes := hhead.key
      rw [validateChanges, checkSize, if_neg (Nat.not_lt.mpr hkey)]
      exact hrest

end Applying

end WasmAgent.State
