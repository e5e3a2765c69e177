import WasmAgent.State.Identity
import WasmAgent.State.Listing
import WasmAgent.State.Snapshot

/-!
# Reading a namespace whole

A snapshot reads the store page by page and a dry run key by key.  Both end with
the component's own entries, and both refuse the same namespaces.
-/

namespace WasmAgent.State

open List Std.ExtTreeMap Std WasmAgent.Core

section Pages

variable {store : Namespace} {cursor : Option Bytes} {read left : List (Bytes × Bytes)}

def beyond (cursor : Option Bytes) (entries : List (Bytes × Bytes)) : List (Bytes × Bytes) :=
  entries.filter (fun entry => cursor.all (fun key => (compare key entry.1).isLT))

theorem beyond_getLast? {last : Bytes × Bytes}
    (hsrt : (read ++ left).Pairwise (fun first second => compare first.1 second.1 = .lt))
    (hlast : read.getLast? = some last) : beyond (some last.1) (read ++ left) = left := by
  obtain ⟨front, rfl⟩ := getLast?_eq_some_iff.mp hlast
  rw [pairwise_append] at hsrt
  obtain ⟨hread, -, hbet⟩ := hsrt
  have hleft : ∀ entry ∈ left, (compare last.1 entry.1).isLT = true := by
    intro entry hent
    rw [hbet last (mem_append_right _ mem_cons_self) entry hent]
    rfl
  have hfrt : ∀ entry ∈ front ++ [last], ¬(compare last.1 entry.1).isLT = true := by
    intro entry hent
    rw [Ordering.isLT_iff_eq_lt]
    rcases mem_append.mp hent with hbef | hsame
    · rw [pairwise_append] at hread
      exact OrientedCmp.not_lt_of_lt (hread.2.2 entry hbef last mem_cons_self)
    · rw [mem_singleton.mp hsame]
      intro hlt
      exact OrientedCmp.not_lt_of_lt hlt hlt
  have hnone : beyond (some last.1) (front ++ [last]) = [] := filter_eq_nil_iff.mpr hfrt
  have hall : beyond (some last.1) left = left := filter_eq_self.mpr hleft
  rw [beyond, filter_append]
  change beyond (some last.1) (front ++ [last]) ++ beyond (some last.1) left = left
  rw [hnone, hall, nil_append]

theorem scanPages_beyond {limit pages : ℕ} (hlim : 0 < limit) (hstr : store.toList = read ++ left)
    (hbey : beyond cursor store.toList = left) (hpages : left.length < pages) :
    scanPages store limit pages cursor = left := by
  induction pages generalizing cursor read left with
  | zero => exact absurd hpages (Nat.not_lt_zero _)
  | succ pages ih =>
    have hpage : scanPage store cursor limit = left.take limit := by
      rw [← hbey]
      rfl
    rw [scanPages, hpage]
    split
    · next hnone =>
      rcases take_eq_nil_iff.mp hnone with hzero | hemp
      · exact absurd hzero (Nat.ne_of_gt hlim)
      · exact hemp.symm
    rename_i hsome
    have hspl : store.toList = (read ++ left.take limit) ++ left.drop limit := by
      rw [append_assoc, take_append_drop, hstr]
    have hlast : (read ++ left.take limit).getLast? = (left.take limit).getLast? := by
      rw [getLast?_append]
      cases hend : (left.take limit).getLast? with
      | none => exact absurd (getLast?_eq_none_iff.mp hend) hsome
      | some entry => rfl
    obtain ⟨last, hent⟩ : ∃ last, (left.take limit).getLast? = some last := by
      cases hend : (left.take limit).getLast? with
      | none => exact absurd (getLast?_eq_none_iff.mp hend) hsome
      | some entry => exact ⟨entry, rfl⟩
    rw [hent, Option.map_some, ih hspl, take_append_drop]
    · rw [hspl]
      apply beyond_getLast?
      · rw [← hspl]
        exact ordered_keys_toList
      · rw [hlast, hent]
    have hsome' : left ≠ [] := by
      intro hemp
      rw [hemp, take_nil] at hsome
      exact hsome rfl
    have hpos := length_pos_iff.mpr hsome'
    rw [length_drop]
    omega

theorem scanPages_all {limit : ℕ} (hlim : 0 < limit) (store : Namespace) :
    scanPages store limit (store.size + 1) none = store.toList := by
  apply scanPages_beyond hlim (nil_append _).symm
  · exact filter_eq_self.mpr (fun _ _ => rfl)
  · rw [length_toList]
    exact Nat.lt_succ_self _

theorem scanPages_eq (store : Namespace) :
    scanPages store 512 (store.size + 1) none = store.toList :=
  scanPages_all (by decide) store

end Pages

section Whole

variable {store : Namespace} {entries : List (Bytes × Bytes)} {maxBytes : ℕ}

/-- Bytes of keys plus values: what a budget has to cover. -/
def weight (entries : List (Bytes × Bytes)) : ℕ :=
  (entries.map (fun entry => entry.1.length + entry.2.length)).sum

/-- The entries that are not the engine's own. -/
def plainEntries (entries : List (Bytes × Bytes)) : List (Bytes × Bytes) :=
  entries.filter (fun entry => !isReserved entry.1)

theorem plainEntries_toList (store : Namespace) :
    plainEntries store.toList = store.user.toList := by
  rw [Namespace.user, toList_filter]
  rfl

variable {entry : Bytes × Bytes}

theorem plainEntries_cons_reserved (hrsv : isReserved entry.1 = true) :
    plainEntries (entry :: entries) = plainEntries entries := by
  rw [plainEntries, filter_cons, hrsv]
  rfl

theorem plainEntries_cons_plain (hpln : isReserved entry.1 = false) :
    plainEntries (entry :: entries) = entry :: plainEntries entries := by
  rw [plainEntries, filter_cons, hpln]
  rfl

def AllSized (entries : List (Bytes × Bytes)) : Prop := ∀ entry ∈ entries, Sized entry.1 entry.2

theorem allSized_cons : AllSized (entry :: entries) ↔ Sized entry.1 entry.2 ∧ AllSized entries :=
  forall_mem_cons

theorem weight_cons (entry : Bytes × Bytes) (entries : List (Bytes × Bytes)) :
    weight (entry :: entries) = entry.1.length + entry.2.length + weight entries := by
  rw [weight, map_cons, sum_cons]
  rfl

theorem Payload.entry_ok_iff {payload : Payload} {key value : Bytes}
    (hpln : isReserved key = false) :
    (∃ final, payload.entry key value maxBytes = .ok final) ↔
      Sized key value ∧ payload.bytes + (key.length + value.length) ≤ maxBytes := by
  rw [Payload.entry, hpln, if_neg Bool.false_ne_true]
  cases hsize : checkSize key (some value) with
  | error fault =>
    constructor
    · rintro ⟨final, hfin⟩
      cases hfin
    · rintro ⟨hszd, -⟩
      rw [(checkSize_ok_iff key value).mpr hszd] at hsize
      cases hsize
  | ok _ =>
    have hszd := (checkSize_ok_iff key value).mp hsize
    dsimp only
    split
    · next hfull =>
      constructor
      · rintro ⟨final, hfin⟩
        cases hfin
      · rintro ⟨-, hroom⟩
        exact absurd hfull (Nat.not_lt.mpr hroom)
    · next hroom => exact ⟨fun _ => ⟨hszd, Nat.le_of_not_lt hroom⟩, fun _ => ⟨_, rfl⟩⟩

theorem Payload.bytes_of_entry {payload final : Payload} {key value : Bytes}
    (hfin : payload.entry key value maxBytes = .ok final) :
    final.bytes = payload.bytes + (key.length + value.length) := by
  rw [Payload.entry] at hfin
  split at hfin
  · cases hfin
  split at hfin
  · cases hfin
  dsimp only at hfin
  split at hfin
  · cases hfin
  cases hfin
  rfl

theorem Payload.collect_ok_iff {payload : Payload} (hbs : payload.bytes ≤ maxBytes) :
    (∃ final, Payload.collect maxBytes entries payload = .ok final) ↔
      AllSized (plainEntries entries) ∧
        payload.bytes + weight (plainEntries entries) ≤ maxBytes := by
  induction entries generalizing payload with
  | nil => exact ⟨fun _ => ⟨fun _ hent => absurd hent not_mem_nil, hbs⟩,
      fun _ => ⟨payload, rfl⟩⟩
  | cons entry entries ih =>
    obtain ⟨key, value⟩ := entry
    rw [Payload.collect]
    cases hrsv : isReserved key with
    | true =>
      rw [if_pos rfl, plainEntries_cons_reserved hrsv]
      exact ih hbs
    | false =>
      rw [if_neg Bool.false_ne_true, plainEntries_cons_plain hrsv, allSized_cons, weight_cons]
      cases hnext : payload.entry key value maxBytes with
      | error fault =>
        constructor
        · rintro ⟨final, hfin⟩
          cases hfin
        rintro ⟨⟨hszd, -⟩, hroom⟩
        have hfits : payload.bytes + (key.length + value.length) ≤ maxBytes := by
          dsimp only at hroom
          omega
        obtain ⟨final, hfin⟩ := (Payload.entry_ok_iff hrsv).mpr ⟨hszd, hfits⟩
        rw [hnext] at hfin
        cases hfin
      | ok next =>
        obtain ⟨hszd, hroom⟩ := (Payload.entry_ok_iff hrsv).mp ⟨next, hnext⟩
        have hnextBytes := Payload.bytes_of_entry hnext
        rw [ih (hnextBytes ▸ hroom), hnextBytes, and_assoc, Nat.add_assoc]
        exact ⟨fun hrest => ⟨hszd, hrest⟩, fun hall => hall.2⟩

/-- Every bound of a snapshot is met. -/
structure Holdable (maxBytes : ℕ) (store : Namespace) : Prop where
  sized : AllSized store.user.toList
  room : weight store.user.toList ≤ maxBytes

theorem Head.new_ok_iff {schemaVersion : UInt32} {component build pin : String} {now : UInt64} :
    (∃ head, Head.new schemaVersion component build pin now = .ok head) ↔
      schemaVersion ≠ 0 ∧ ComponentInfo.validate ⟨component, build, pin⟩ = .ok () := by
  rw [Head.new]
  split
  · next hzero =>
    constructor
    · rintro ⟨head, hhead⟩
      cases hhead
    · intro hvld
      exact absurd hzero hvld.1
  rename_i hver
  cases ComponentInfo.validate ⟨component, build, pin⟩ with
  | error fault =>
    constructor
    · rintro ⟨head, hhead⟩
      cases hhead
    · intro hvld
      cases hvld.2
  | ok _ => exact ⟨fun _ => ⟨hver, rfl⟩, fun _ => ⟨_, rfl⟩⟩

variable {now : UInt64}

theorem Head.schemaVersion_of_new {schemaVersion : UInt32} {component build pin : String}
    {head : Head} (hhead : Head.new schemaVersion component build pin now = .ok head) :
    head.schemaVersion = schemaVersion := by
  rw [Head.new] at hhead
  split at hhead
  · cases hhead
  split at hhead
  · cases hhead
  cases hhead
  rfl

variable {crates : Crates}

theorem Snapshot.take_ok_iff {info : Meta} {now : UInt64} :
    (∃ snapshot, Snapshot.take crates info now maxBytes store = .ok snapshot) ↔
      (info.schemaVersion ≠ 0 ∧ info.Valid) ∧ Holdable maxBytes store := by
  have hcoll := fun head : Head =>
    @Payload.collect_ok_iff store.toList maxBytes (Payload.begin crates head) (Nat.zero_le _)
  rw [plainEntries_toList] at hcoll
  rw [Snapshot.take, Meta.Valid, ← @Head.new_ok_iff _ _ _ _ now, scanPages_eq]
  constructor
  · rintro ⟨snapshot, htake⟩
    obtain ⟨head, hhead, htake⟩ := bind_eq_ok.mp htake
    obtain ⟨payload, hpay, -⟩ := bind_eq_ok.mp htake
    obtain ⟨hszd, hroom⟩ := (hcoll head).mp ⟨payload, hpay⟩
    exact ⟨⟨head, hhead⟩, hszd, Nat.le_trans (Nat.le_add_left _ _) hroom⟩
  rintro ⟨⟨head, hhead⟩, hszd, hroom⟩
  have hemp : (Payload.begin crates head).bytes + weight store.user.toList ≤ maxBytes := by
    rwa [show (Payload.begin crates head).bytes = 0 from rfl, Nat.zero_add]
  obtain ⟨payload, hpay⟩ := (hcoll head).mpr ⟨hszd, hemp⟩
  rw [hhead, ok_bind]
  dsimp only
  rw [hpay]
  exact ⟨_, rfl⟩

theorem Snapshot.of_take {info : Meta} {snapshot : Snapshot}
    (htake : Snapshot.take crates info now maxBytes store = .ok snapshot) :
    snapshot.entries = store.user.toList ∧ snapshot.header.schemaVersion = info.schemaVersion := by
  obtain ⟨head, hhead, htake⟩ := bind_eq_ok.mp htake
  rw [scanPages_eq] at htake
  obtain ⟨payload, -, htake⟩ := bind_eq_ok.mp htake
  cases htake
  exact ⟨plainEntries_toList store, Head.schemaVersion_of_new hhead⟩

theorem Batch.insertAll_ok {batch : Batch}
    (hpln : ∀ entry ∈ entries, isReserved entry.1 = false) (hszd : AllSized entries) :
    ∃ filled, Batch.insertAll entries batch = .ok filled ∧
      filled.entries = Core.Change.applyAll
        (entries.map (fun entry => .put entry.1 entry.2)) batch.entries := by
  induction entries generalizing batch with
  | nil => exact ⟨batch, rfl, rfl⟩
  | cons entry entries ih =>
    obtain ⟨key, value⟩ := entry
    obtain ⟨hhead, hrest⟩ := allSized_cons.mp hszd
    rw [forall_mem_cons] at hpln
    rw [Batch.insertAll, Batch.insert_ok hpln.1 hhead]
    exact ih hpln.2 hrest

theorem Batch.fromEntries_ok (hszd : AllSized store.user.toList) :
    ∃ filled, Batch.fromEntries store.user.toList = .ok filled ∧ filled.entries = store.user := by
  have hpln : ∀ entry ∈ store.user.toList, isReserved entry.1 = false := by
    intro entry hent
    exact store.plain_user entry.1 entry.2 (mem_toList_iff_getElem?_eq_some.mp hent)
  obtain ⟨filled, hfil, hents⟩ := @Batch.insertAll_ok _ Batch.new hpln hszd
  refine ⟨filled, hfil, ?_⟩
  rw [hents]
  exact Core.Change.applyAll_puts store.user

theorem Batch.loadFrom_ok_iff {batch : Batch} {total : ℕ} (htotal : total ≤ maxBytes) :
    (∃ loaded, Batch.loadFrom maxBytes entries total batch = .ok loaded) ↔
      AllSized (plainEntries entries) ∧ total + weight (plainEntries entries) ≤ maxBytes := by
  induction entries generalizing batch total with
  | nil => exact ⟨fun _ => ⟨fun _ hent => absurd hent not_mem_nil, htotal⟩,
      fun _ => ⟨batch, rfl⟩⟩
  | cons entry entries ih =>
    obtain ⟨key, value⟩ := entry
    rw [Batch.loadFrom]
    cases hrsv : isReserved key with
    | true =>
      rw [if_pos rfl, plainEntries_cons_reserved hrsv]
      exact ih htotal
    | false =>
      rw [if_neg Bool.false_ne_true, plainEntries_cons_plain hrsv, allSized_cons,
        weight_cons, ← Nat.add_assoc, ← Nat.add_assoc]
      split
      · next hfull =>
        constructor
        · rintro ⟨loaded, hload⟩
          cases hload
        · rintro ⟨-, hroom⟩
          exact absurd hfull (Nat.not_lt.mpr (Nat.le_trans (Nat.le_add_right _ _) hroom))
      rename_i hroom
      by_cases hszd : Sized key value
      · rw [Batch.insert_ok hrsv hszd]
        rw [ih (Nat.le_of_not_lt hroom), and_assoc]
        exact ⟨fun hrest => ⟨hszd, hrest⟩, fun hall => hall.2⟩
      constructor
      · rintro ⟨loaded, hload⟩
        rw [Batch.insert, hrsv, if_neg Bool.false_ne_true] at hload
        split at hload
        · next heq =>
          split at heq
          · cases heq
          · next hsize => exact absurd ((checkSize_ok_iff key value).mp hsize) hszd
        · cases hload
      · rintro ⟨⟨hoth, -⟩, -⟩
        exact absurd hoth hszd

theorem Batch.entries_of_loadFrom {batch loaded : Batch} {total : ℕ}
    (hload : Batch.loadFrom maxBytes entries total batch = .ok loaded) :
    loaded.entries = Core.Change.applyAll
      ((plainEntries entries).map (fun entry => .put entry.1 entry.2)) batch.entries := by
  induction entries generalizing batch total with
  | nil =>
    cases hload
    rfl
  | cons entry entries ih =>
    obtain ⟨key, value⟩ := entry
    rw [Batch.loadFrom] at hload
    cases hrsv : isReserved key with
    | true =>
      rw [if_pos hrsv] at hload
      rw [plainEntries_cons_reserved hrsv]
      exact ih hload
    | false =>
      rw [if_neg (Bool.eq_false_iff.mp hrsv)] at hload
      split at hload
      · cases hload
      rw [Batch.insert, hrsv, if_neg Bool.false_ne_true] at hload
      split at hload
      · next heq =>
        split at heq
        · cases heq
        · cases heq
          rw [plainEntries_cons_plain hrsv]
          exact ih hload
      · cases hload

theorem Batch.load_ok_iff :
    (∃ loaded, Batch.load maxBytes store = .ok loaded) ↔ Holdable maxBytes store := by
  rw [Batch.load, Batch.loadFrom_ok_iff (Nat.zero_le _), plainEntries_toList, Nat.zero_add]
  exact ⟨fun hboth => ⟨hboth.1, hboth.2⟩, fun hhol => ⟨hhol.sized, hhol.room⟩⟩

theorem Batch.entries_of_load {loaded : Batch} (hload : Batch.load maxBytes store = .ok loaded) :
    loaded.entries = store.user := by
  rw [Batch.entries_of_loadFrom hload, plainEntries_toList]
  exact Core.Change.applyAll_puts store.user

theorem Snapshot.batch_of_take {info : Meta}
    {snapshot : Snapshot} (htake : Snapshot.take crates info now maxBytes store = .ok snapshot) :
    ∃ batch, snapshot.batch = .ok batch ∧ batch.entries = store.user := by
  have hhol := (Snapshot.take_ok_iff.mp ⟨snapshot, htake⟩).2
  rw [Snapshot.batch, (Snapshot.of_take htake).1]
  exact Batch.fromEntries_ok hhol.sized

end Whole

end WasmAgent.State
