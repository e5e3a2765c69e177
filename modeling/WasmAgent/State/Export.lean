import WasmAgent.State.Imports

/-!
# What an export leaves to an import

An export bounds the keys and the values it writes; a reader bounds the payload as a
whole.  What is exported under a bound is read under that bound exactly when the
framing fits as well, and then the imported namespace is the exported one.
-/

namespace WasmAgent.State

open List Std.ExtTreeMap Std WasmAgent.Core

structure ExportOptions where
  level : Int32
  page : ℕ
  maxBytes : UInt64

def Payload.finish (crates : Crates) (payload : Payload) : Bytes :=
  payload.hashed ++ footerTag ++ littleEndian 8 payload.entries ++ littleEndian 8 payload.bytes ++
    crates.sha256 payload.hashed

/-- `export`: the header it returns, and the file it writes. -/
def exportSnapshot (archive : Archive) (options : ExportOptions) (info : Meta) (now : UInt64)
    (store : Namespace) : Except Error (SnapshotHeader × Bytes) := do
  let head ← Head.new info.schemaVersion info.component info.componentVersion
    info.lastMigratedBy now
  let entries := scanPages store (max options.page 1) (store.size + 1) none
  let payload ← Payload.collect options.maxBytes.toNat entries (Payload.begin archive.toCrates head)
  return ({
    format := snapshotFormat
    schemaVersion := head.schemaVersion
    component := head.component
    componentVersion := head.componentVersion
    componentSha256 := head.componentSha256
    createdAtMs := head.createdAtMs
    entries := payload.entries
    bytes := payload.bytes
    sha256 := hex (archive.sha256 payload.hashed) },
    snapshotMagic ++ archive.compress options.level (payload.finish archive.toCrates))

/-- `verify`. -/
def verifySnapshot (crates : Crates) (maxBytes : ℕ) (input : Bytes) :
    Except Error SnapshotHeader := do
  let snapshot ← readSnapshot crates maxBytes input
  return snapshot.header

section Framing

variable {entries : List (Bytes × Bytes)} {maxBytes : ℕ} {key value : Bytes}

def printEntry (entry : Bytes × Bytes) : Bytes :=
  littleEndian 4 entry.1.length ++ entry.1 ++ littleEndian 4 entry.2.length ++ entry.2

theorem printEntries_length (entries : List (Bytes × Bytes)) :
    (entries.flatMap printEntry).length = weight entries + 8 * entries.length := by
  induction entries with
  | nil => rfl
  | cons entry entries ih =>
    rw [flatMap_cons, length_append, ih, weight_cons, printEntry]
    simp only [length_append, littleEndian_length, length_cons]
    omega

/-- What a payload that went well holds. -/
structure Collected (payload final : Payload) (entries : List (Bytes × Bytes)) : Prop where
  hashed : final.hashed = payload.hashed ++ entries.flatMap printEntry
  count : final.entries = payload.entries + entries.length
  bytes : final.bytes = payload.bytes + weight entries

theorem Payload.of_entry {payload final : Payload}
    (hfin : payload.entry key value maxBytes = .ok final) :
    Collected payload final [(key, value)] := by
  have hbs := Payload.bytes_of_entry hfin
  rw [Payload.entry] at hfin
  split at hfin
  · cases hfin
  split at hfin
  · cases hfin
  dsimp only at hfin
  split at hfin
  · cases hfin
  cases hfin
  constructor
  · simp [printEntry, flatMap_nil]
  · rfl
  · exact hbs

theorem Payload.of_collect {payload final : Payload}
    (hfin : Payload.collect maxBytes entries payload = .ok final) :
    Collected payload final (plainEntries entries) := by
  induction entries generalizing payload with
  | nil =>
    cases hfin
    exact ⟨(append_nil _).symm, rfl, rfl⟩
  | cons entry entries ih =>
    obtain ⟨key, value⟩ := entry
    rw [Payload.collect] at hfin
    cases hrsv : isReserved key with
    | true =>
      rw [if_pos hrsv] at hfin
      rw [plainEntries_cons_reserved hrsv]
      exact ih hfin
    | false =>
      rw [if_neg (Bool.eq_false_iff.mp hrsv)] at hfin
      split at hfin
      · cases hfin
      next next hnext =>
      obtain ⟨hhas, hcnt, hbs⟩ := ih hfin
      obtain ⟨hfst, hone, hadded⟩ := Payload.of_entry hnext
      rw [plainEntries_cons_plain hrsv]
      constructor
      · rw [hhas, hfst, flatMap_cons, flatMap_cons, flatMap_nil, append_nil, append_assoc]
      · rw [hcnt, hone, length_cons]
        exact Nat.add_right_comm payload.entries 1 _
      · rw [hbs, hadded, weight_cons, weight_cons]
        exact Nat.add_assoc _ _ _

end Framing

section Reading

theorem streamTake_reads (bytes : Bytes) : Reads (streamTake bytes.length) bytes bytes :=
  Reader.takeOr_reads bytes

theorem streamLength_reads {count : ℕ} (hcnt : count < 0x100 ^ 4) :
    Reads streamLength (littleEndian 4 count) count := by
  have hlen := littleEndian_length 4 count
  have hread := streamTake_reads (littleEndian 4 count)
  apply hread.bindNil
  rw [Reader.array_ok hlen]
  change Reads (pure (fromLittleEndian (littleEndian 4 count))) [] count
  rw [fromLittleEndian_littleEndian hcnt]
  exact Reads.pure count

theorem readEntry_reads {key value : Bytes} (hpln : isReserved key = false)
    (hszd : Sized key value) : Reads readEntry (printEntry (key, value)) (key, value) := by
  have hkey : key.length < 0x100 ^ 4 := Nat.lt_of_le_of_lt hszd.1 (by decide)
  have hval : value.length < 0x100 ^ 4 := Nat.lt_of_le_of_lt hszd.2 (by decide)
  rw [readEntry, printEntry, append_assoc, append_assoc]
  apply (streamLength_reads hkey).bind
  apply (streamTake_reads key).bind
  apply (streamLength_reads hval).bind
  apply (streamTake_reads value).bindNil
  rw [hpln, if_neg Bool.false_ne_true, (checkSize_ok_iff key value).mpr hszd]
  exact Reads.pure (key, value)

theorem offset_lt_iff (reader : Reader) : reader.offset < reader.buf.length ↔ reader.rest ≠ [] := by
  rw [Reader.rest, ne_eq, drop_eq_nil_iff, Nat.not_le]

theorem printEntry_ne_nil (entry : Bytes × Bytes) (rest : Bytes) : printEntry entry ++ rest ≠ [] := by
  intro hnone
  have hlen := congrArg length hnone
  simp only [printEntry, length_append, littleEndian_length, length_nil] at hlen
  omega

theorem readEntries_reads {entries : List (Bytes × Bytes)} {steps : ℕ}
    (hpln : ∀ entry ∈ entries, isReserved entry.1 = false) (hszd : AllSized entries)
    (hstps : entries.length ≤ steps) :
    ReadsLast (readEntries steps) (entries.flatMap printEntry) entries := by
  induction steps generalizing entries with
  | zero =>
    intro before after hshrt hpas _
    rw [length_eq_zero_iff.mp (Nat.le_zero.mp hstps)] at hpas ⊢
    exact Reads.pure [] before after hshrt hpas
  | succ steps ih =>
    intro before after hshrt hpas hend
    cases entries with
    | nil =>
      have hnone : before.rest = [] := hpas.rest.trans hend
      change (if before.offset < before.buf.length then _ else _ : Reading Error _) before = _
      rw [if_neg (fun hmore => (offset_lt_iff before).mp hmore hnone)]
      exact Reads.pure [] before after hshrt hpas
    | cons entry entries =>
      obtain ⟨key, value⟩ := entry
      obtain ⟨hfst, hrest⟩ := allSized_cons.mp hszd
      rw [forall_mem_cons] at hpln
      have hmore : before.rest ≠ [] := by
        rw [hpas.rest, flatMap_cons, append_assoc]
        exact printEntry_ne_nil _ _
      have htail : ReadsLast (do
          let entries ← readEntries steps
          return (key, value) :: entries) (entries.flatMap printEntry) ((key, value) :: entries) := by
        intro middle after hshrt hpas hend
        rw [bind_run, ih hpln.2 hrest (Nat.le_of_succ_le_succ hstps) middle after hshrt hpas hend]
        rfl
      change (if before.offset < before.buf.length then _ else _ : Reading Error _) before = _
      rw [if_pos ((offset_lt_iff before).mpr hmore)]
      exact (readEntry_reads hpln.1 hfst).bindLast htail before after hshrt hpas hend

theorem readBody_reads {entries : List (Bytes × Bytes)} {head : Bytes}
    (hpln : ∀ entry ∈ entries, isReserved entry.1 = false) (hszd : AllSized entries)
    (hshrt : (head ++ entries.flatMap printEntry).length ≤ usizeMax) :
    readWhole (readBody head.length) (head ++ entries.flatMap printEntry) = .ok entries := by
  apply ReadsLast.whole _ hshrt
  intro before after hbuf hpas hend
  have hstps : entries.length ≤ before.buf.length := by
    have hlen := congrArg length hpas.rest
    rw [length_append, length_append, printEntries_length, Reader.rest, length_drop] at hlen
    omega
  obtain ⟨middle, hhead, hbody⟩ := hpas.split
  rw [readBody, bind_run, streamTake_reads head before middle hbuf hhead]
  have hread := readEntries_reads hpln hszd hstps middle after (hhead.buf ▸ hbuf) hbody hend
  rw [← hhead.buf] at hread
  exact hread

end Reading

section Whole

variable {archive : Archive} {head : Head} {payload : Payload} {entries : List (Bytes × Bytes)}
  {maxBytes : ℕ} {level : Int32}

/-- A head that passes the checks of a reader. -/
structure Head.Valid (head : Head) : Prop where
  format : head.format = snapshotFormat
  identity : ComponentInfo.validate ⟨head.component, head.componentVersion, head.componentSha256⟩ =
    .ok ()
  version : head.schemaVersion ≠ 0

def Payload.readAs (crates : Crates) (payload : Payload) (head : Head)
    (entries : List (Bytes × Bytes)) : ReadSnapshot where
  head := head
  entries := entries
  header := ⟨head.format, head.schemaVersion, head.component, head.componentVersion,
    head.componentSha256, head.createdAtMs, payload.entries, payload.bytes,
    hex (crates.sha256 payload.hashed)⟩

theorem finish_length :
    (payload.finish archive.toCrates).length = payload.hashed.length + footerLen := by
  have htag : footerTag.length = 4 := by decide
  rw [Payload.finish, footerLen]
  simp only [length_append, littleEndian_length, archive.sha256_length, htag]

theorem finish_take :
    (payload.finish archive.toCrates).take payload.hashed.length = payload.hashed := by
  rw [Payload.finish, append_assoc, append_assoc, append_assoc, take_left]

theorem finish_drop : let footer := (payload.finish archive.toCrates).drop payload.hashed.length
    footer.take 4 = footerTag ∧ (footer.drop 4).take 8 = littleEndian 8 payload.entries ∧
      (footer.drop 12).take 8 = littleEndian 8 payload.bytes ∧
      footer.drop 20 = archive.sha256 payload.hashed := by
  have htag : footerTag.length = 4 := by decide
  have hcnt := littleEndian_length 8 payload.entries
  have hbs := littleEndian_length 8 payload.bytes
  rw [Payload.finish, append_assoc, append_assoc, append_assoc, drop_left]
  have hfst : (footerTag ++ (littleEndian 8 payload.entries ++ (littleEndian 8 payload.bytes ++
      archive.sha256 payload.hashed))).drop 4 = _ := drop_left' htag
  refine ⟨take_left' htag, ?_, ?_, ?_⟩
  · rw [hfst]
    exact take_left' hcnt
  · rw [← drop_drop (i := 8) (j := 4), hfst, drop_left' hcnt]
    exact take_left' hbs
  · rw [← drop_drop (i := 16) (j := 4), hfst, ← drop_drop (i := 8) (j := 8), drop_left' hcnt]
    exact drop_left' hbs

theorem readSnapshot_finish (hvld : head.Valid)
    (hclt : Collected (Payload.begin archive.toCrates head) payload entries)
    (hpln : ∀ entry ∈ entries, isReserved entry.1 = false) (hszd : AllSized entries)
    (hjson : (archive.printHead head).length < 0x100 ^ 4)
    (hfits : (payload.finish archive.toCrates).length ≤ maxBytes) (hmax : maxBytes ≤ usizeMax) :
    readSnapshot archive.toCrates maxBytes
        (snapshotMagic ++ archive.compress level (payload.finish archive.toCrates)) =
      .ok (payload.readAs archive.toCrates head entries) := by
  have hmagic : snapshotMagic.length = 8 := by decide
  have hlen := @finish_length archive payload
  obtain ⟨htag, hcnt, hbs, hdig⟩ := @finish_drop archive payload
  have hfoot : (payload.finish archive.toCrates).length - footerLen = payload.hashed.length := by
    omega
  have hhas : payload.hashed = (littleEndian 4 (archive.printHead head).length ++
      archive.printHead head) ++ entries.flatMap printEntry := hclt.hashed
  have hfram : (littleEndian 4 (archive.printHead head).length ++
      archive.printHead head).length = 4 + (archive.printHead head).length := by
    rw [length_append, littleEndian_length]
  have hsize : payload.hashed.length = 4 + (archive.printHead head).length +
      (weight entries + 8 * entries.length) := by
    rw [hhas, length_append, hfram, printEntries_length]
  have hhead : (payload.finish archive.toCrates).take (4 + (archive.printHead head).length) =
      littleEndian 4 (archive.printHead head).length ++ archive.printHead head := by
    rw [Payload.finish, hhas]
    simp only [append_assoc]
    exact take_left' hfram
  have hfour : (payload.finish archive.toCrates).take 4 =
      littleEndian 4 (archive.printHead head).length := by
    have hshor := congrArg (take 4) hhead
    rwa [take_take, Nat.min_eq_left (Nat.le_add_right _ _),
      take_left' (littleEndian_length _ _)] at hshor
  have hbody : readWhole (readBody (4 + (archive.printHead head).length)) payload.hashed =
      .ok entries := by
    rw [hhas, ← hfram]
    apply readBody_reads hpln hszd
    rw [length_append, hfram, printEntries_length]
    omega
  have hents : payload.entries = entries.length := hclt.count.trans (Nat.zero_add _)
  have hweig : payload.bytes = weight entries := hclt.bytes.trans (Nat.zero_add _)
  have hfooterEntries : fromLittleEndian (littleEndian 8 payload.entries) = payload.entries :=
    fromLittleEndian_littleEndian (by rw [usizeMax] at hmax; omega)
  have hfooterBytes : fromLittleEndian (littleEndian 8 payload.bytes) = payload.bytes :=
    fromLittleEndian_littleEndian (by rw [usizeMax] at hmax; omega)
  rw [readSnapshot]
  refine (pass_guard (by rw [length_append, hmagic]; omega)).trans ?_
  refine (pass_guard (fun hoth => hoth (take_left' hmagic))).trans ?_
  rw [drop_left' hmagic, archive.decompress_compress, take_of_length_le (by omega)]
  refine (mapped_bind _ _ _).trans ?_
  refine (pass_guard (Nat.not_lt.mpr hfits)).trans ?_
  refine (pass_guard (by omega)).trans ?_
  dsimp only
  rw [hfoot, hfour, fromLittleEndian_littleEndian hjson, hhead, finish_take]
  refine (pass_guard (by omega)).trans ?_
  rw [drop_left' (littleEndian_length _ _), archive.parse_printHead]
  refine (mapped_bind _ _ _).trans ?_
  refine (pass_guard (not_not_intro hvld.format)).trans ?_
  rw [hvld.identity]
  refine (ok_bind _ _).trans ?_
  refine (pass_guard hvld.version).trans ?_
  rw [hbody, htag, hcnt, hbs, hdig, hfooterEntries, hfooterBytes]
  refine (mapped_bind _ _ _).trans ?_
  refine (pass_guard (not_not_intro rfl)).trans ?_
  refine (pass_guard (not_not_intro rfl)).trans ?_
  exact pass_guard (not_or_intro (not_not_intro hents) (not_not_intro hweig))

end Whole

def Meta.head (info : Meta) (now : UInt64) : Head :=
  ⟨snapshotFormat, info.schemaVersion, info.component, info.componentVersion,
    info.lastMigratedBy, now⟩

structure Framed (archive : Archive) (info : Meta) (now : UInt64) (store : Namespace)
    (maxBytes : ℕ) : Prop where
  head : (archive.printHead (info.head now)).length < 0x100000000
  whole : 4 + (archive.printHead (info.head now)).length +
    (weight store.user.toList + 8 * store.user.toList.length) + footerLen ≤ maxBytes

/-- A file is accepted under a bound, and an empty namespace it is imported into is as
good as the one it was made from: its metadata says the same of the component, and a
snapshot of it is the same snapshot. -/
structure RoundTrips (archive : Archive) (maxBytes : ℕ) (info : Meta) (store : Namespace)
    (header : SnapshotHeader) (file : Bytes) : Prop where
  verified : verifySnapshot archive.toCrates maxBytes file = .ok header
  imported : ∀ (importing : ImportOptions) (later : UInt64), importing.maxBytes = maxBytes →
    importing.accept header = .ok () →
    Program.result kv (importSnapshot archive.toCrates importing later file) ∅ = .ok header
  restored : ∀ (importing : ImportOptions) (later : UInt64), importing.maxBytes = maxBytes →
    importing.accept header = .ok () →
    ∃ found : Meta,
      Meta.read (Program.final kv (importSnapshot archive.toCrates importing later file) ∅) =
          .ok (some found) ∧
        (found.schemaVersion = info.schemaVersion ∧ found.component = info.component ∧
          found.componentVersion = info.componentVersion ∧
          found.lastMigratedBy = info.lastMigratedBy) ∧
        ∀ retaken : UInt64, ∃ snapshot,
          Snapshot.take archive.toCrates info retaken maxBytes store = .ok snapshot ∧
            Snapshot.take archive.toCrates found retaken maxBytes
                (Program.final kv (importSnapshot archive.toCrates importing later file) ∅) =
              .ok snapshot

section RoundTrip

variable {archive : Archive} {options : ExportOptions} {info : Meta} {now : UInt64}
  {store : Namespace} {header : SnapshotHeader} {file : Bytes}

/-- What an export that went well wrote. -/
structure Exported (archive : Archive) (options : ExportOptions) (info : Meta) (now : UInt64)
    (store : Namespace) (header : SnapshotHeader) (file : Bytes) (payload : Payload) : Prop where
  valid : (info.head now).Valid
  collected : Collected (Payload.begin archive.toCrates (info.head now)) payload store.user.toList
  holdable : Holdable options.maxBytes.toNat store
  header : header = (payload.readAs archive.toCrates (info.head now) store.user.toList).header
  file : file = snapshotMagic ++ archive.compress options.level (payload.finish archive.toCrates)

theorem Head.of_new {head : Head} (hhead : Head.new info.schemaVersion info.component
    info.componentVersion info.lastMigratedBy now = .ok head) :
    head = info.head now ∧ head.Valid := by
  have hnew := Head.new_ok_iff.mp ⟨head, hhead⟩
  rw [Head.new] at hhead
  split at hhead
  · cases hhead
  split at hhead
  · cases hhead
  cases hhead
  exact ⟨rfl, rfl, hnew.2, hnew.1⟩

theorem of_exportSnapshot
    (hexp : exportSnapshot archive options info now store = .ok (header, file)) :
    ∃ payload, Exported archive options info now store header file payload := by
  obtain ⟨head, hhead, hexp⟩ := bind_eq_ok.mp hexp
  rw [scanPages_all (Nat.lt_of_lt_of_le Nat.zero_lt_one (Nat.le_max_right _ _))] at hexp
  obtain ⟨payload, hpay, hexp⟩ := bind_eq_ok.mp hexp
  obtain ⟨rfl, hvld⟩ := Head.of_new hhead
  cases hexp
  have hclt := Payload.of_collect hpay
  obtain ⟨hszd, hroom⟩ := (Payload.collect_ok_iff (Nat.zero_le _)).mp ⟨payload, hpay⟩
  rw [plainEntries_toList] at hclt hszd hroom
  exact ⟨payload, hvld, hclt, ⟨hszd, Nat.le_trans (Nat.le_add_left _ _) hroom⟩, rfl, rfl⟩

variable {payload : Payload} (hexpo : Exported archive options info now store header file payload)
include hexpo

theorem Exported.length :
    (payload.finish archive.toCrates).length = 4 + (archive.printHead (info.head now)).length +
      (weight store.user.toList + 8 * store.user.toList.length) + footerLen := by
  rw [finish_length, hexpo.collected.hashed, length_append, printEntries_length, Payload.begin]
  rw [length_append, littleEndian_length]

omit hexpo in
theorem Namespace.plain_toList (store : Namespace) :
    ∀ entry ∈ store.user.toList, isReserved entry.1 = false := by
  intro entry hent
  exact store.plain_user entry.1 entry.2 (mem_toList_iff_getElem?_eq_some.mp hent)

omit hexpo in
theorem Payload.collect_plainEntries {maxBytes : ℕ} (entries : List (Bytes × Bytes))
    (payload : Payload) :
    Payload.collect maxBytes entries payload =
      Payload.collect maxBytes (plainEntries entries) payload := by
  induction entries generalizing payload with
  | nil => rfl
  | cons entry entries ih =>
    obtain ⟨key, value⟩ := entry
    cases hrsv : isReserved key with
    | true =>
      rw [plainEntries_cons_reserved hrsv, Payload.collect, if_pos hrsv]
      exact ih payload
    | false =>
      rw [plainEntries_cons_plain hrsv, Payload.collect, Payload.collect, hrsv]
      cases payload.entry key value maxBytes with
      | error fault => rfl
      | ok next => exact ih next

omit hexpo in
theorem Snapshot.take_congr {crates : Crates} {other : Namespace} {found : Meta}
    {retaken : UInt64} {maxBytes : ℕ} (huser : other.user = store.user)
    (hsame : found.head retaken = info.head retaken) :
    Snapshot.take crates found retaken maxBytes other =
      Snapshot.take crates info retaken maxBytes store := by
  simp only [Meta.head, Head.mk.injEq] at hsame
  obtain ⟨-, hver, hcomp, hbuild, hpin, -⟩ := hsame
  have hents : plainEntries other.toList = plainEntries store.toList := by
    rw [plainEntries_toList, plainEntries_toList, huser]
  rw [Snapshot.take, Snapshot.take, hver, hcomp, hbuild, hpin]
  apply bind_congr
  intro head
  dsimp only
  rw [scanPages_eq, scanPages_eq, Payload.collect_plainEntries other.toList,
    Payload.collect_plainEntries store.toList, hents]
  apply bind_congr
  intro payload
  rw [show other.toList.filter _ = _ from hents]
  rfl

omit hexpo in
theorem Exported.framed {snapshot : ReadSnapshot}
    (hexpo : Exported archive options info now store header file payload)
    (hread : readSnapshot archive.toCrates options.maxBytes.toNat file = .ok snapshot) :
    Framed archive info now store options.maxBytes.toNat := by
  have hmagic : snapshotMagic.length = 8 := by decide
  have hlen := hexpo.length
  rw [readSnapshot, hexpo.file] at hread
  obtain ⟨-, hread⟩ := of_guard hread
  obtain ⟨-, hread⟩ := of_guard hread
  rw [drop_left' hmagic, archive.decompress_compress] at hread
  obtain ⟨content, hcont, hread⟩ := bind_eq_ok.mp hread
  cases of_mapError hcont
  obtain ⟨hroom, hread⟩ := of_guard hread
  rw [length_take] at hroom
  have hwhole : (payload.finish archive.toCrates).length ≤ options.maxBytes.toNat := by omega
  rw [take_of_length_le (Nat.le_succ_of_le hwhole)] at hread
  obtain ⟨-, hread⟩ := of_guard hread
  obtain ⟨-, hread⟩ := of_guard hread
  obtain ⟨head, hhead, -⟩ := bind_eq_ok.mp hread
  refine ⟨?_, hlen ▸ hwhole⟩
  by_contra hlong
  have hhas := hexpo.collected.hashed
  have hbegin : (Payload.begin archive.toCrates (info.head now)).hashed =
      littleEndian 4 (archive.printHead (info.head now)).length ++
        archive.printHead (info.head now) := rfl
  have hfile : payload.finish archive.toCrates =
      littleEndian 4 (archive.printHead (info.head now)).length ++
        (archive.printHead (info.head now) ++
          (payload.finish archive.toCrates).drop
            (4 + (archive.printHead (info.head now)).length)) := by
    rw [← append_assoc, ← hbegin]
    conv_lhs => rw [← take_append_drop (4 + (archive.printHead (info.head now)).length)
      (payload.finish archive.toCrates)]
    congr 1
    rw [Payload.finish, hhas]
    simp only [append_assoc]
    apply take_left'
    rw [hbegin, length_append, littleEndian_length]
  have hwidth : fromLittleEndian ((payload.finish archive.toCrates).take 4) <
      (archive.printHead (info.head now)).length := by
    rw [hfile, take_left' (littleEndian_length _ _), fromLittleEndian_littleEndian_mod]
    exact Nat.lt_of_lt_of_le (Nat.mod_lt _ (by decide)) (Nat.le_of_not_lt hlong)
  have hshor : ((payload.finish archive.toCrates).take
      (4 + fromLittleEndian ((payload.finish archive.toCrates).take 4))).drop 4 =
        (archive.printHead (info.head now)).take
          (fromLittleEndian ((payload.finish archive.toCrates).take 4)) := by
    conv_lhs => rw [hfile]
    rw [take_append, littleEndian_length, Nat.add_sub_cancel_left,
      take_of_length_le (by rw [littleEndian_length]; exact Nat.le_add_right _ _),
      drop_left' (littleEndian_length _ _), take_append_of_le_length]
    · rw [← hfile]
    · rw [← hfile]
      exact Nat.le_of_lt hwidth
  obtain ⟨why, hwhy⟩ := archive.parse_cut (info.head now) _ hwidth
  have hpar := of_mapError hhead
  rw [hshor, hwhy] at hpar
  cases hpar

theorem Exported.read (hfram : Framed archive info now store options.maxBytes.toNat) :
    readSnapshot archive.toCrates options.maxBytes.toNat file =
      .ok (payload.readAs archive.toCrates (info.head now) store.user.toList) := by
  rw [hexpo.file]
  apply readSnapshot_finish hexpo.valid hexpo.collected store.plain_toList
    hexpo.holdable.sized hfram.head
  · rw [hexpo.length]
    exact hfram.whole
  · exact Nat.le_of_lt_succ options.maxBytes.toNat_lt

omit hexpo in
theorem ReadSnapshot.user_writes {snapshot : ReadSnapshot} {later : UInt64}
    (hents : snapshot.entries = store.user.toList) :
    Namespace.user (Core.Change.applyAll (snapshot.writes later) ∅) = store.user := by
  rw [ReadSnapshot.writes, Core.Change.applyAll_append, hents, Core.Change.applyAll_puts]
  apply ExtTreeMap.ext_getElem?
  intro key
  rw [Namespace.getElem?_user]
  cases hrsv : isReserved key with
  | true =>
    rw [if_pos rfl, Namespace.getElem?_user, if_pos hrsv]
  | false =>
    rw [if_neg Bool.false_ne_true]
    apply Core.Change.getElem?_applyAll_other
    intro hmeta
    have hall : ∀ own ∈ metaKeys, isReserved own = true := by decide
    rw [hall key hmeta] at hrsv
    cases hrsv

theorem Exported.roundTrips (hfram : Framed archive info now store options.maxBytes.toNat) :
    RoundTrips archive options.maxBytes.toNat info store header file := by
  have hread := hexpo.read hfram
  have hhead := hexpo.header
  have hemp : userKeys ∅ = [] := by
    rw [userKeys, toList_eq_nil_iff.mpr rfl]
    rfl
  constructor
  · rw [verifySnapshot, hread, hhead]
    rfl
  · intro importing later hbound haccd
    rw [← hbound] at hread
    rw [hhead] at haccd ⊢
    exact importSnapshot_result hread haccd (.inl hemp)
  intro importing later hbound haccd
  rw [← hbound] at hread
  rw [hhead] at haccd
  have hvld : Meta.Valid ((payload.readAs archive.toCrates (info.head now)
      store.user.toList).meta later) := hexpo.valid.identity
  rw [importSnapshot_fresh hread haccd]
  refine ⟨(payload.readAs archive.toCrates (info.head now) store.user.toList).meta later, ?_,
    ⟨rfl, rfl, rfl, rfl⟩, ?_⟩
  · rw [ReadSnapshot.writes, Core.Change.applyAll_append]
    exact Meta.read_written hvld later _
  intro retaken
  have htkn : ∃ snapshot, Snapshot.take archive.toCrates info retaken
      options.maxBytes.toNat store = .ok snapshot :=
    Snapshot.take_ok_iff.mpr ⟨⟨hexpo.valid.version, hexpo.valid.identity⟩, hexpo.holdable⟩
  obtain ⟨snapshot, hsnap⟩ := htkn
  refine ⟨snapshot, hsnap, ?_⟩
  rw [← hsnap]
  exact Snapshot.take_congr (ReadSnapshot.user_writes rfl) rfl

omit hexpo

theorem export_reads_back_iff
    (hexport : exportSnapshot archive options info now store = .ok (header, file)) :
    RoundTrips archive options.maxBytes.toNat info store header file ↔
      Framed archive info now store options.maxBytes.toNat := by
  obtain ⟨payload, hexported⟩ := of_exportSnapshot hexport
  constructor
  · intro htrips
    obtain ⟨snapshot, hread, -⟩ := bind_eq_ok.mp htrips.verified
    exact hexported.framed hread
  · intro hframed
    exact hexported.roundTrips hframed

end RoundTrip

namespace Notes

def exporting (maxBytes : UInt64) : ExportOptions := ⟨3, 1, maxBytes⟩

end Notes

/-- Two notes, with room for the framing. -/
theorem export_reads_back_notes :
    ∃ header file, exportSnapshot Records.archive (Notes.exporting 0x1000) (Notes.named 1) 5
        Notes.notes = .ok (header, file) ∧
      (RoundTrips Records.archive 0x1000 (Notes.named 1) Notes.notes header file ↔
        Framed Records.archive (Notes.named 1) 5 Notes.notes 0x1000) := by
  have hexport : ∃ exported, exportSnapshot Records.archive (Notes.exporting 0x1000)
      (Notes.named 1) 5 Notes.notes = .ok exported := by
    apply ok_of_isSome
    decide +kernel
  obtain ⟨⟨header, file⟩, hfile⟩ := hexport
  exact ⟨header, file, hfile, export_reads_back_iff hfile⟩

/-- Two notes of four bytes in all are exported under a bound of four bytes, and the
reader of the same bound refuses the file. -/
theorem export_outgrows_reader :
    ∃ header file, exportSnapshot Records.archive (Notes.exporting 4) (Notes.named 1) 5
        Notes.notes = .ok (header, file) ∧
      verifySnapshot Records.crates 4 file = .error (.limit "snapshot payload" 4 5) := by
  have hexport : ((exportSnapshot Records.archive (Notes.exporting 4) (Notes.named 1) 5
      Notes.notes).toOption.any (fun exported => decide (verifySnapshot Records.crates 4 exported.2 =
        .error (.limit "snapshot payload" 4 5)))) = true := by
    decide +kernel
  cases houtcome : exportSnapshot Records.archive (Notes.exporting 4) (Notes.named 1) 5
      Notes.notes with
  | error fault =>
    rw [houtcome] at hexport
    cases hexport
  | ok exported =>
    rw [houtcome] at hexport
    exact ⟨exported.1, exported.2, rfl, of_decide_eq_true hexport⟩

end WasmAgent.State
