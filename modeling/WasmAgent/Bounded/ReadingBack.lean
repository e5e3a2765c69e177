import WasmAgent.Bounded.RoundTrips

/-!
# What a replay file gives back

A saved ring is read back as it was, up to the units of its times, and a file is read only
if its body is as many records as its header says.
-/

namespace WasmAgent.Bounded

open List WasmAgent.Core

variable {replay : Replay}

section Opening

variable {zstd : Zstd} {allocates : ℕ → Bool} {bytes body : Bytes} {header : ReplayHeader}

def Opened (zstd : Zstd) (bytes : Bytes) (header : ReplayHeader) (body : Bytes) : Prop :=
  ∃ start, parseHeader bytes = .ok (header, start) ∧
    ReplayReader.openBody zstd header (bytes.drop start) = .ok body

theorem openBody_sober (compressed : Bytes) :
    ReplayReader.openBody zstd header compressed ≠ .error .panic := by
  intro hpan
  rw [ReplayReader.openBody] at hpan
  split at hpan
  · cases hpan
  split at hpan
  · cases hpan
  · split at hpan
    · cases hpan
    · split at hpan <;> cases hpan

theorem openBody_fits {compressed : Bytes}
    (hopen : ReplayReader.openBody zstd header compressed = .ok body) : body.length ≤ usizeMax := by
  rw [ReplayReader.openBody] at hopen
  split at hopen
  · cases hopen
  split at hopen
  · cases hopen
  rename_i whole hwhole
  split at hopen
  · cases hopen
  split at hopen
  · cases hopen
  · cases hopen
    exact zstd.decompress_fits hwhole

theorem openBody_compress (hbody : body.length ≤ usizeMax)
    (hlen : header.bodyLen.toNat = body.length) (hdig : header.bodySha256 = sha256 body) :
    ReplayReader.openBody zstd header (zstd.compress body) = .ok body := by
  have hframe : (zstd.compress body).isEmpty = false :=
    isEmpty_eq_false_iff.mpr (zstd.compress_ne_nil body)
  rw [ReplayReader.openBody, hframe, zstd.decompress_compress body hbody]
  change (if body.length ≠ header.bodyLen.toNat then _ else
    if sha256 body ≠ header.bodySha256 then _ else _ : Except (Stop Error) Bytes) = _
  rw [if_neg (not_not.mpr hlen.symm), if_neg (not_not.mpr hdig.symm)]

theorem fromBytes_eq (zstd : Zstd) (bytes : Bytes) :
    ReplayReader.fromBytes zstd bytes = parseHeader bytes >>= fun found =>
      (ReplayReader.openBody zstd found.1 (bytes.drop found.2)).map
        (fun body => ⟨found.1, body, 0, 0, false⟩) := by
  rw [ReplayReader.fromBytes]
  cases hpar : parseHeader bytes with
  | error stop => rfl
  | ok found =>
    have hins := (parseHeader_inside hpar).1
    change (Reader.slice bytes found.2 bytes.length >>= _) = Except.map _ _
    rw [slice_rest hins]
    change (ReplayReader.openBody zstd found.1 (bytes.drop found.2) >>= _) = _
    cases ReplayReader.openBody zstd found.1 (bytes.drop found.2) <;> rfl

theorem fromBytes_sober (zstd : Zstd) (bytes : Bytes) :
    ReplayReader.fromBytes zstd bytes ≠ .error .panic := by
  intro hpan
  rw [fromBytes_eq] at hpan
  cases hpar : parseHeader bytes with
  | error stop =>
    rw [hpar] at hpan
    cases hpan
    exact parseHeader_sober bytes hpar
  | ok found =>
    rw [hpar] at hpan
    change Except.map _ (ReplayReader.openBody zstd found.1 (bytes.drop found.2)) = _ at hpan
    cases hopen : ReplayReader.openBody zstd found.1 (bytes.drop found.2) with
    | ok body =>
      rw [hopen] at hpan
      cases hpan
    | error stop =>
      rw [hopen] at hpan
      cases hpan
      exact openBody_sober _ hopen

theorem fromBytes_ok_iff {reader : ReplayReader} :
    ReplayReader.fromBytes zstd bytes = .ok reader ↔
      ∃ header body, Opened zstd bytes header body ∧ reader = ⟨header, body, 0, 0, false⟩ := by
  rw [fromBytes_eq]
  constructor
  · intro hok
    cases hpar : parseHeader bytes with
    | error stop =>
      rw [hpar] at hok
      cases hok
    | ok found =>
      rw [hpar] at hok
      change Except.map _ (ReplayReader.openBody zstd found.1 (bytes.drop found.2)) = _ at hok
      cases hopen : ReplayReader.openBody zstd found.1 (bytes.drop found.2) with
      | error stop =>
        rw [hopen] at hok
        cases hok
      | ok body =>
        rw [hopen] at hok
        cases hok
        exact ⟨found.1, body, ⟨found.2, hpar, hopen⟩, rfl⟩
  intro hopd
  obtain ⟨header, body, ⟨start, hpar, hopen⟩, rfl⟩ := hopd
  rw [hpar]
  change Except.map _ (ReplayReader.openBody zstd header (bytes.drop start)) = _
  rw [hopen]
  rfl

theorem Opened.unique {other : ReplayHeader} {otherBody : Bytes}
    (hfst : Opened zstd bytes header body) (hsnd : Opened zstd bytes other otherBody) :
    header = other ∧ body = otherBody := by
  obtain ⟨start, hpar, hopen⟩ := hfst
  obtain ⟨otherStart, hotherParse, hotherOpen⟩ := hsnd
  rw [hpar] at hotherParse
  cases hotherParse
  rw [hopen] at hotherOpen
  cases hotherOpen
  exact ⟨rfl, rfl⟩

theorem Opened.fits (hopd : Opened zstd bytes header body) : body.length ≤ usizeMax := by
  obtain ⟨start, -, hopen⟩ := hopd
  exact openBody_fits hopen

/-- A reader that has just opened a file. -/
theorem underway_new (header : ReplayHeader) (body : Bytes) :
    Underway header.records.toNat ⟨header, body, 0, 0, false⟩ where
  open_ := rfl
  inside := Nat.zero_le _
  left := Nat.zero_add _

theorem readAll_ok_iff : Replay.readAll zstd bytes = .ok replay ↔
    ∃ body, Opened zstd bytes replay.header body ∧
      ReplayReader.collect replay.header.records.toNat ⟨replay.header, body, 0, 0, false⟩ =
        .ok replay.records := by
  rw [Replay.readAll]
  constructor
  · intro hok
    cases hfrom : ReplayReader.fromBytes zstd bytes with
    | error stop =>
      rw [hfrom] at hok
      cases hok
    | ok reader =>
      rw [hfrom] at hok
      obtain ⟨header, body, hopd, rfl⟩ := fromBytes_ok_iff.mp hfrom
      change (ReplayReader.collect header.records.toNat _ >>= _) = _ at hok
      cases hcoll : ReplayReader.collect header.records.toNat ⟨header, body, 0, 0, false⟩ with
      | error stop =>
        rw [hcoll] at hok
        cases hok
      | ok records =>
        rw [hcoll] at hok
        cases hok
        exact ⟨body, hopd, hcoll⟩
  intro hopd
  obtain ⟨body, hopd, hcoll⟩ := hopd
  rw [fromBytes_ok_iff.mpr ⟨replay.header, body, hopd, rfl⟩]
  change (ReplayReader.collect replay.header.records.toNat _ >>= _) = _
  rw [hcoll]
  rfl

theorem load_eq (hopd : Opened zstd bytes header body)
    (hroom : allocates header.records.toNat = true) :
    Replay.load zstd allocates bytes = Replay.readAll zstd bytes := by
  rw [Replay.load, Replay.readAll, fromBytes_ok_iff.mpr ⟨header, body, hopd, rfl⟩]
  change (Replay.reserve allocates header.records.toNat >>= _) = _
  rw [Replay.reserve, if_pos hroom]
  rfl

theorem load_no_room (hopd : Opened zstd bytes header body)
    (hroom : allocates header.records.toNat = false) :
    Replay.load zstd allocates bytes = .error .panic := by
  rw [Replay.load, fromBytes_ok_iff.mpr ⟨header, body, hopd, rfl⟩]
  change (Replay.reserve allocates header.records.toNat >>= _) = _
  rw [Replay.reserve, if_neg (Bool.eq_false_iff.mp hroom)]
  rfl

theorem load_closed (hclos : ∀ header body, ¬ Opened zstd bytes header body) :
    ∃ fault, Replay.load zstd allocates bytes = .error (.error fault) ∧
      Replay.readAll zstd bytes = .error (.error fault) := by
  rw [Replay.load, Replay.readAll]
  cases hfrom : ReplayReader.fromBytes zstd bytes with
  | ok reader =>
    obtain ⟨header, body, hopd, -⟩ := fromBytes_ok_iff.mp hfrom
    exact absurd hopd (hclos header body)
  | error stop =>
    cases stop with
    | panic => exact absurd hfrom (fromBytes_sober zstd bytes)
    | error fault => exact ⟨fault, rfl, rfl⟩

end Opening

section Exactness

variable {zstd : Zstd} {allocates : ℕ → Bool} {bytes : Bytes}

/-- The body begins with as many records as the header says, and goes on after the last. -/
def Overlong (zstd : Zstd) (bytes : Bytes) : Prop :=
  ∃ (header : ReplayHeader) (body : Bytes) (records : List Record) (rest : Bytes),
    Opened zstd bytes header body ∧ records.length = header.records.toNat ∧
    (∀ record ∈ records, record.Stored) ∧ body = records.flatMap Record.bytes ++ rest ∧ rest ≠ []

def Roomy (zstd : Zstd) (allocates : ℕ → Bool) (bytes : Bytes) : Prop :=
  ∀ header body, Opened zstd bytes header body → allocates header.records.toNat = true

/-- A file is read, by either way, only if its body is its records and nothing else, and no
file makes a reader panic. -/
structure ReadExactly (zstd : Zstd) (allocates : ℕ → Bool) (bytes : Bytes) : Prop where
  whole : ∀ replay, Replay.readAll zstd bytes = .ok replay ∨
      Replay.load zstd allocates bytes = .ok replay →
    replay.records.length = replay.header.records.toNat ∧ ∃ body,
      Opened zstd bytes replay.header body ∧ encodeRecords replay.records = .ok body
  streaming : Replay.readAll zstd bytes ≠ .error .panic
  loading : Replay.load zstd allocates bytes ≠ .error .panic

theorem readAll_sober (zstd : Zstd) (bytes : Bytes) :
    Replay.readAll zstd bytes ≠ .error .panic := by
  intro hpan
  rw [Replay.readAll] at hpan
  cases hfrom : ReplayReader.fromBytes zstd bytes with
  | error stop =>
    rw [hfrom] at hpan
    cases hpan
    exact fromBytes_sober zstd bytes hfrom
  | ok reader =>
    rw [hfrom] at hpan
    obtain ⟨header, body, -, rfl⟩ := fromBytes_ok_iff.mp hfrom
    change (ReplayReader.collect header.records.toNat _ >>= _) = _ at hpan
    cases hcoll : ReplayReader.collect header.records.toNat ⟨header, body, 0, 0, false⟩ with
    | ok records =>
      rw [hcoll] at hpan
      cases hpan
    | error stop =>
      rw [hcoll] at hpan
      cases hpan
      exact collect_sober (underway_new header body) hcoll

theorem readAll_of_load (hload : Replay.load zstd allocates bytes = .ok replay) :
    Replay.readAll zstd bytes = .ok replay := by
  by_cases hopd : ∃ header body, Opened zstd bytes header body
  · obtain ⟨header, body, hopd⟩ := hopd
    cases hroom : allocates header.records.toNat with
    | true => rwa [← load_eq hopd hroom]
    | false =>
      rw [load_no_room hopd hroom] at hload
      cases hload
  obtain ⟨fault, hfls, -⟩ := @load_closed zstd allocates bytes
    (fun header body hoth => hopd ⟨header, body, hoth⟩)
  rw [hfls] at hload
  cases hload

theorem encoded_of_readAll (hexact : ¬ Overlong zstd bytes)
    (hread : Replay.readAll zstd bytes = .ok replay) :
    replay.records.length = replay.header.records.toNat ∧ ∃ body,
      Opened zstd bytes replay.header body ∧ encodeRecords replay.records = .ok body := by
  obtain ⟨body, hopd, hcoll⟩ := readAll_ok_iff.mp hread
  obtain ⟨hlen, hsto, rest, hrest⟩ := drop_of_collect (underway_new replay.header body) hcoll
  have hnone : rest = [] := by
    by_contra hmore
    exact hexact ⟨replay.header, body, replay.records, rest, hopd, hlen, hsto, hrest, hmore⟩
  refine ⟨hlen, body, hopd, encodeRecords_ok_iff.mpr ⟨?_, ?_⟩⟩
  · intro record hrec
    exact ⟨(hsto record hrec).interface, (hsto record hrec).function⟩
  · change body = _ at hrest
    rw [hrest, hnone, append_nil]

theorem not_readExactly_of_overlong (hover : Overlong zstd bytes) :
    ¬ ReadExactly zstd allocates bytes := by
  intro hexact
  obtain ⟨header, body, records, rest, hopd, hlen, hsto, hbody, hrest⟩ := hover
  have hund : Underway records.length ⟨header, body, 0, 0, false⟩ := by
    rw [hlen]
    exact underway_new header body
  have hcoll := collect_of_drop hund hopd.fits hsto hbody
  rw [hlen] at hcoll
  have hread : Replay.readAll zstd bytes = .ok ⟨header, records⟩ :=
    readAll_ok_iff.mpr ⟨body, hopd, hcoll⟩
  obtain ⟨-, other, hoth, henc⟩ := hexact.whole _ (Or.inl hread)
  obtain ⟨-, rfl⟩ := hopd.unique hoth
  obtain ⟨-, hwhole⟩ := encodeRecords_ok_iff.mp henc
  rw [hwhole] at hbody
  exact hrest (self_eq_append_right.mp hbody)

theorem readExactly_iff (zstd : Zstd) (allocates : ℕ → Bool) (bytes : Bytes) :
    ReadExactly zstd allocates bytes ↔ ¬ Overlong zstd bytes ∧ Roomy zstd allocates bytes := by
  constructor
  · intro hexact
    refine ⟨fun hover => not_readExactly_of_overlong hover hexact, ?_⟩
    intro header body hopd
    by_contra hroom
    exact hexact.loading (load_no_room hopd (Bool.not_eq_true _ ▸ hroom))
  intro hcon
  obtain ⟨hexact, hroom⟩ := hcon
  constructor
  · intro replay hread
    cases hread with
    | inl hread => exact encoded_of_readAll hexact hread
    | inr hload => exact encoded_of_readAll hexact (readAll_of_load hload)
  · exact readAll_sober zstd bytes
  intro hpan
  by_cases hopd : ∃ header body, Opened zstd bytes header body
  · obtain ⟨header, body, hopd⟩ := hopd
    rw [load_eq hopd (hroom header body hopd)] at hpan
    exact readAll_sober zstd bytes hpan
  obtain ⟨fault, hfls, -⟩ := @load_closed zstd allocates bytes
    (fun header body hoth => hopd ⟨header, body, hoth⟩)
  rw [hfls] at hpan
  cases hpan

end Exactness

section Recording

variable {record : Record}

/-- A time that is a number of milliseconds of 64 bits. -/
def Dated (ts : Instant) : Prop := 0 ≤ ts.tdiv 1000000 ∧ ts.tdiv 1000000 ≤ u64Max

theorem millis_of_dated {ts : Instant} (hdated : Dated ts) :
    (millis ts : Int) = ts.tdiv 1000000 := by
  obtain ⟨hlow, hhigh⟩ := hdated
  rw [u64Max] at hhigh
  rw [millis, since, u64Max]
  cases Int.le_total 0 ts with
  | inl hsign =>
    have hquot : ts.tdiv 1000000 = ts / 1000000 := Int.tdiv_eq_ediv_of_nonneg hsign
    omega
  | inr hsign =>
    have hflip : (-ts).tdiv 1000000 = -ts / 1000000 :=
      Int.tdiv_eq_ediv_of_nonneg (Int.neg_nonneg_of_nonpos hsign)
    have hquot : ts.tdiv 1000000 = -(-ts / 1000000) := by
      rw [← hflip, Int.neg_tdiv, Int.neg_neg]
    omega

theorem millis_truncated {ts : Instant} (hdated : Dated ts) :
    millis (ts.tdiv 1000000 * 1000000) = millis ts := by
  have hmil := millis_of_dated hdated
  have hbound : millis ts ≤ u64Max := Nat.min_le_right _ _
  rw [← hmil, millis, since]
  omega

theorem durationMicros_truncated (duration : ℕ) :
    durationMicros (durationMicros duration * 1000) = durationMicros duration := by
  rw [durationMicros, Nat.mul_div_cancel _ (by decide)]
  exact Nat.min_eq_left (Nat.min_le_right _ _)

theorem bytes_truncated (hdated : Dated record.ts) : record.truncated.bytes = record.bytes := by
  rw [Record.bytes, Record.truncated, millis_truncated hdated, durationMicros_truncated]
  rfl

/-- What comes back is as the file holds it. -/
theorem truncated_stored_iff : record.truncated.Stored ↔ Dated record.ts ∧
    (utf8 record.interface).length ≤ u16Max ∧ (utf8 record.function).length ≤ u16Max ∧
    record.args.Stored ∧ record.result.Stored := by
  constructor
  · intro hsto
    obtain ⟨ms, hms⟩ := hsto.ts
    have hbound := ms.toNat_lt
    have hwhole : record.ts.tdiv 1000000 * 1000000 = ms.toNat * 1000000 := hms
    refine ⟨⟨?_, ?_⟩, hsto.interface, hsto.function, hsto.args, hsto.result⟩
    · omega
    · rw [u64Max]
      omega
  intro hsto
  obtain ⟨hdated, hitf, hfun, hargs, hres⟩ := hsto
  have hmil := millis_of_dated hdated
  have hbound : millis record.ts < 0x10000000000000000 := Nat.lt_succ_of_le (Nat.min_le_right _ _)
  have hmic : durationMicros record.duration < 0x100000000 :=
    Nat.lt_succ_of_le (Nat.min_le_right _ _)
  refine ⟨⟨UInt64.ofNat (millis record.ts), ?_⟩, ⟨UInt32.ofNat (durationMicros record.duration), ?_⟩,
    hitf, hfun, hargs, hres⟩
  · change record.ts.tdiv 1000000 * 1000000 = fromMillis _
    rw [fromMillis, UInt64.toNat_ofNat_of_lt' hbound, hmil]
  · change durationMicros record.duration * 1000 = _
    rw [UInt32.toNat_ofNat_of_lt' hmic]

/-- A ring whose records the format can hold. -/
structure Recordable (allocates : ℕ → Bool) (ring : RecordRing) : Prop where
  room : allocates ring.records.length = true
  dated : ∀ record ∈ ring.records, Dated record.ts
  proper : ∀ record ∈ ring.records, record.args.Stored ∧ record.result.Stored
  table : (referencedBlobs ring.records).length ≤ u32Max
  fits : (ring.records.flatMap Record.bytes).length ≤ usizeMax

def LoadsBack (zstd : Zstd) (allocates : ℕ → Bool) (file : Bytes) (ring : RecordRing) : Prop :=
  ∃ replay, Replay.load zstd allocates file = .ok replay ∧
    replay.records = ring.records.map Record.truncated ∧ replay.verify = .ok ()

end Recording

section Verifying

theorem forM_ok_iff {Item : Type} {check : Item → Except Error Unit} {items : List Item} :
    items.forM check = .ok () ↔ ∀ item ∈ items, check item = .ok () := by
  induction items with
  | nil => exact ⟨fun _ => nofun, fun _ => rfl⟩
  | cons item items ih =>
    rw [forall_mem_cons]
    change (check item >>= fun _ => items.forM check) = _ ↔ _
    cases hchk : check item with
    | error fault =>
      constructor
      · intro hok
        cases hok
      · intro hok
        cases hok.1
    | ok _ =>
      change items.forM check = .ok () ↔ _
      rw [ih]
      exact (and_iff_right rfl).symm

theorem verify_ok_iff : replay.verify = .ok () ↔
    replay.records.length = replay.header.records.toNat ∧
      ∀ key ∈ references replay.records, key ∈ replay.header.blobs.map BlobRef.key := by
  have hblob : ∀ (record : Record) (blob : BlobRef),
      (if replay.header.blobs.any (fun declared => declared.key = blob.key) then
        (.ok () : Except Error Unit)
      else .error (.corrupt
        s!"seq {record.seq} references blob {blob.key.short} the header does not declare")) =
          .ok () ↔ blob.key ∈ replay.header.blobs.map BlobRef.key := by
    intro record blob
    have hany : replay.header.blobs.any (fun declared => declared.key = blob.key) = true ↔
        blob.key ∈ replay.header.blobs.map BlobRef.key := by
      simp
    rw [← hany]
    split
    · next hfnd => exact ⟨fun _ => hfnd, fun _ => rfl⟩
    · next hmis => exact ⟨nofun, fun hfnd => absurd hfnd hmis⟩
  rw [Replay.verify]
  split
  · next hlen => exact ⟨nofun, fun hoth => absurd hoth.1 hlen⟩
  rename_i hlen
  rw [not_not] at hlen
  rw [and_iff_right hlen, forM_ok_iff]
  simp only [forM_ok_iff, hblob, references, mem_map, mem_flatMap]
  constructor
  · rintro hall _ ⟨blob, ⟨record, hrec, hblob⟩, rfl⟩
    exact hall record hrec blob hblob
  · intro hall record hrec blob hblob
    exact hall blob.key ⟨blob, ⟨record, hrec, hblob⟩, rfl⟩

theorem references_truncated (records : List Record) :
    references (records.map Record.truncated) = references records := by
  rw [references, flatMap_map]
  rfl

end Verifying

section Saves

variable {zstd : Zstd} {allocates : ℕ → Bool} {disk : SaveDisk} {opts : SaveOptions}
variable {now : Instant} {node left : Node} {saved : SavedReplay} {file : Bytes}

theorem read_of_save (hsave : save zstd disk opts now node = (.ok saved, left)) :
    ∃ file, savedFile zstd opts now node.ring = .ok file ∧ left.dir.read saved.name = .ok file := by
  have hrun := save_run zstd disk opts now node
  rw [hsave] at hrun
  have hopen : ¬ SaveBlocked disk opts node := by
    intro hblk
    cases (hrun.blocked hblk).1.choose_spec
  obtain ⟨file, hfile, hwrote⟩ := hrun.written hopen
  have hplcd : BoundedDir.Placed disk.write node.dir (fileName node.dir opts (millis now))
      file.length := by
    by_contra hoth
    cases (hwrote.unplaced hoth).1.choose_spec
  obtain ⟨hfs, -, hname⟩ := hwrote.placed hplcd
  have hsame : saved.name = fileName node.dir opts (millis now) := hname _ rfl
  refine ⟨file, hfile, ?_⟩
  have hnone : ∀ (name : String) (files : List StoredFile),
      (files.filter (fun file => file.name ≠ name)).find? (fun file => file.name = name) = none := by
    intro name files
    apply find?_eq_none.mpr
    intro other hoth
    rw [decide_eq_true_iff]
    exact of_decide_eq_true (mem_filter.mp hoth).2
  have hfnd : left.dir.file? saved.name = some ⟨saved.name, file, now⟩ := by
    rw [BoundedDir.file?, hfs, hsame, BoundedDir.place, find?_append, hnone,
      find?_singleton, if_pos (decide_eq_true rfl)]
    rfl
  have hvld : validName saved.name = true := by
    rw [hsame]
    exact hplcd.valid
  rw [BoundedDir.read, hvld, hfnd]
  rfl

variable (hfile : savedFile zstd opts now node.ring = .ok file)
include hfile

theorem savedFile_ok :
    ∃ header, putHeader node.ring.cfg node.ring.records (millis now)
        (node.ring.records.flatMap Record.bytes) opts.trigger opts.label (declared node.ring) =
          .ok header ∧
      file = header ++ zstd.compress (node.ring.records.flatMap Record.bytes) ∧
      ∀ record ∈ node.ring.records, (utf8 record.interface).length ≤ u16Max ∧
        (utf8 record.function).length ≤ u16Max := by
  rw [savedFile] at hfile
  cases henc : encodeRecords node.ring.records with
  | error fault =>
    rw [henc] at hfile
    cases hfile
  | ok body =>
    obtain ⟨hnames, rfl⟩ := encodeRecords_ok_iff.mp henc
    rw [henc] at hfile
    change putFile zstd node.ring opts now _ (declared node.ring) = _ at hfile
    rw [putFile] at hfile
    cases hhead : putHeader node.ring.cfg node.ring.records (millis now)
        (node.ring.records.flatMap Record.bytes) opts.trigger opts.label (declared node.ring) with
    | error fault =>
      rw [hhead] at hfile
      cases hfile
    | ok header =>
      rw [hhead] at hfile
      cases hfile
      exact ⟨header, rfl, rfl, hnames⟩

omit hfile in
theorem length_le_bytes (records : List Record) :
    records.length ≤ (records.flatMap Record.bytes).length := by
  induction records with
  | nil => exact Nat.le_refl _
  | cons record records ih =>
    rw [flatMap_cons, length_append, length_cons, Record.bytes, length_append, littleEndian_length]
    omega

theorem opened_saved (hfits : file.length ≤ usizeMax)
    (hbody : (node.ring.records.flatMap Record.bytes).length ≤ usizeMax)
    (htable : (referencedBlobs node.ring.records).length ≤ u32Max) :
    Opened zstd file (headerOf node.ring.cfg node.ring.records (millis now)
      (node.ring.records.flatMap Record.bytes) opts.trigger opts.label (declared node.ring))
      (node.ring.records.flatMap Record.bytes) := by
  obtain ⟨header, hhead, rfl, -⟩ := savedFile_ok hfile
  have hblobs : (declared node.ring).length ≤ u32Max := by
    rwa [declared, length_map]
  have hrecs := Nat.le_trans (length_le_bytes node.ring.records) hbody
  refine ⟨header.length, parseHeader_of_put _ hhead (Nat.min_le_right _ _) hrecs hbody hblobs
    hfits, ?_⟩
  rw [drop_left]
  exact openBody_compress hbody (UInt64.toNat_ofNat_of_lt' (Nat.lt_succ_of_le hbody)) rfl

theorem loadsBack_of_recordable
    (hfits : file.length ≤ usizeMax) (hring : Recordable allocates node.ring) :
    LoadsBack zstd allocates file node.ring := by
  have hopd := opened_saved hfile hfits hring.fits hring.table
  obtain ⟨-, -, -, hnames⟩ := savedFile_ok hfile
  have hcnt : (UInt64.ofNat node.ring.records.length).toNat = node.ring.records.length :=
    UInt64.toNat_ofNat_of_lt' (Nat.lt_succ_of_le
      (Nat.le_trans (length_le_bytes node.ring.records) hring.fits))
  have hsto : ∀ record ∈ node.ring.records.map Record.truncated, record.Stored := by
    intro _ hmap
    obtain ⟨record, hrec, rfl⟩ := mem_map.mp hmap
    exact truncated_stored_iff.mpr ⟨hring.dated record hrec, (hnames record hrec).1,
      (hnames record hrec).2, hring.proper record hrec⟩
  have hbs : (node.ring.records.map Record.truncated).flatMap Record.bytes =
      node.ring.records.flatMap Record.bytes := by
    rw [flatMap_map]
    exact flatMap_congr (fun record hrec => bytes_truncated (hring.dated record hrec))
  generalize hhead : headerOf node.ring.cfg node.ring.records (millis now)
    (node.ring.records.flatMap Record.bytes) opts.trigger opts.label (declared node.ring) = header
      at hopd
  have hrecs : header.records.toNat = (node.ring.records.map Record.truncated).length := by
    rw [length_map, ← hcnt, ← hhead]
    rfl
  have hund := underway_new header (node.ring.records.flatMap Record.bytes)
  rw [hrecs] at hund
  have hcoll := @collect_of_drop [] _ _ hund hring.fits hsto (by
    rw [append_nil, hbs]
    rfl)
  have hroom : allocates header.records.toNat = true := by
    rw [hrecs, length_map]
    exact hring.room
  refine ⟨⟨header, node.ring.records.map Record.truncated⟩, ?_, rfl, ?_⟩
  · rw [load_eq hopd hroom]
    apply readAll_ok_iff.mpr
    refine ⟨_, hopd, ?_⟩
    rw [hrecs]
    exact hcoll
  apply verify_ok_iff.mpr
  refine ⟨hrecs.symm, ?_⟩
  intro key hkey
  rw [references_truncated, ← mem_referencedBlobs] at hkey
  rw [← hhead]
  change key ∈ (declared node.ring).map BlobRef.key
  rw [declared, map_map]
  exact mem_map.mpr ⟨key, hkey, rfl⟩

omit hfile

theorem recordable_of_loadsBack (hback : LoadsBack zstd allocates file node.ring) :
    Recordable allocates node.ring := by
  obtain ⟨replay, hload, hrecs, hver⟩ := hback
  obtain ⟨body, hopd, hcoll⟩ := readAll_ok_iff.mp (readAll_of_load hload)
  obtain ⟨hlen, hsto, rest, hrest⟩ := drop_of_collect (underway_new replay.header body) hcoll
  rw [hrecs, length_map] at hlen
  have htrun : ∀ record ∈ node.ring.records, record.truncated.Stored := by
    intro record hrec
    apply hsto
    rw [hrecs]
    exact mem_map_of_mem hrec
  have hdated : ∀ record ∈ node.ring.records, Dated record.ts := fun record hrec =>
    (truncated_stored_iff.mp (htrun record hrec)).1
  have hbs : replay.records.flatMap Record.bytes = node.ring.records.flatMap Record.bytes := by
    rw [hrecs, flatMap_map]
    exact flatMap_congr (fun record hrec => bytes_truncated (hdated record hrec))
  constructor
  · cases hroom : allocates replay.header.records.toNat with
    | true => rw [hlen, hroom]
    | false =>
      rw [load_no_room hopd hroom] at hload
      cases hload
  · exact hdated
  · intro record hrec
    exact (truncated_stored_iff.mp (htrun record hrec)).2.2.2
  · obtain ⟨start, hpar, -⟩ := hopd
    have hsub : referencedBlobs node.ring.records ⊆ replay.header.blobs.map BlobRef.key := by
      intro key hkey
      apply (verify_ok_iff.mp hver).2
      rw [hrecs, references_truncated]
      exact mem_referencedBlobs.mp hkey
    have hcnt := (subperm_of_subset (nodup_referencedBlobs _) hsub).length_le
    rw [length_map] at hcnt
    exact Nat.le_trans hcnt (parseHeader_inside hpar).2
  have hfits := hopd.fits
  change body = _ at hrest
  rw [hrest, hbs, length_append] at hfits
  exact Nat.le_trans (Nat.le_add_right _ _) hfits

/-- A saved ring comes back exactly if the format can hold its records, and a file is read
exactly, and never with a panic, if it does not go on after its last record and there is room
for as many records as it says. -/
theorem replay_files_exact_iff (zstd : Zstd) (allocates : ℕ → Bool) :
    (∀ disk opts now node saved left, save zstd disk opts now node = (.ok saved, left) →
      ∃ file, left.dir.read saved.name = .ok file ∧ (file.length ≤ usizeMax →
        (LoadsBack zstd allocates file node.ring ↔ Recordable allocates node.ring))) ∧
      ∀ bytes, ReadExactly zstd allocates bytes ↔
        ¬ Overlong zstd bytes ∧ Roomy zstd allocates bytes := by
  constructor
  · intro disk opts now node saved left hsave
    obtain ⟨file, hfile, hread⟩ := read_of_save hsave
    refine ⟨file, hread, fun hfits => ?_⟩
    exact ⟨recordable_of_loadsBack, loadsBack_of_recordable hfile hfits⟩
  · exact readExactly_iff zstd allocates

def overlongFile : Bytes :=
  match putHeader ⟨0, 0, 0, true⟩ [] 0 [7] .manual "" [] with
  | .ok header => header ++ Zstd.rawFrames.compress [7]
  | .error _ => []

/-- A byte after the last record goes unnoticed. -/
theorem trailing_byte_is_accepted : ¬ ReadExactly Zstd.rawFrames (fun _ => true) overlongFile := by
  apply not_readExactly_of_overlong
  refine ⟨headerOf ⟨0, 0, 0, true⟩ [] 0 [7] .manual "" [], [7], [], [7], ?_, rfl, nofun, rfl, nofun⟩
  rw [overlongFile]
  cases hheader : putHeader ⟨0, 0, 0, true⟩ [] 0 [7] .manual "" [] with
  | error fault =>
    have hshort : (utf8 Trigger.manual.asStr).length ≤ u16Max := by decide
    have hempty : (utf8 "").length ≤ u16Max := by decide
    rw [putHeader, putStr_of_short hshort, putStr_of_short hempty] at hheader
    cases hheader
  | ok header =>
    refine ⟨header.length, parseHeader_of_put _ hheader (by decide) (by decide) (by decide)
      (by decide) ?_, ?_⟩
    · obtain ⟨-, -, rfl⟩ := putHeader_ok hheader
      simp only [length_append, littleEndian_length, (sha256 [7]).property]
      decide
    · change ReplayReader.openBody _ _ ((header ++ Zstd.rawFrames.compress [7]).drop _) = _
      rw [drop_left]
      exact openBody_compress (by decide) rfl rfl

end Saves

end WasmAgent.Bounded
