import WasmAgent.Core.JsonText
import WasmAgent.Core.Sha256
import WasmAgent.State.Crates

/-!
# The crates at work

Journals and snapshot heads as the compact JSON of `serde_json`, fields in the order
of their structures, SHA-256 digests, and `zstd` frames of raw blocks: crates that
the engine's runs can be evaluated with.
-/

namespace WasmAgent.State

open List WasmAgent.Core

namespace Records

section Numbers

def fitsU32 (value : ℕ) : Bool := value < 0x100000000

def fitsU64 (value : ℕ) : Bool := value < 0x10000000000000000

def printU32 (value : UInt32) : List Char := printNumber value.toNat

def scanU32 : Scan UInt32 := UInt32.ofNat <$> scanNumber fitsU32

def printU64 (value : UInt64) : List Char := printNumber value.toNat

def scanU64 : Scan UInt64 := UInt64.ofNat <$> scanNumber fitsU64

theorem scans_u32 (value : UInt32) : Scans scanU32 (printU32 value) value := by
  have hscans := (@scans_number fitsU32 _ (decide_eq_true value.toNat_lt)).map UInt32.ofNat
  rwa [UInt32.ofNat_toNat] at hscans

theorem scans_u64 (value : UInt64) : Scans scanU64 (printU64 value) value := by
  have hscans := (@scans_number fitsU64 _ (decide_eq_true value.toNat_lt)).map UInt64.ofNat
  rwa [UInt64.ofNat_toNat] at hscans

end Numbers

def printDirection : Direction → List Char
  | .up => printString "up"
  | .down => printString "down"

def scanDirection : Scan Direction := do
  let text ← scanString
  if text = "up" then return .up
  else if text = "down" then return .down
  else fun _ => none

def printPendingStep (pending : PendingStep) : List Char :=
  printField '{' "from" (printU32 pending.fromVersion) <|
  printField ',' "to" (printU32 pending.toVersion) <|
  printField ',' "name" (printString pending.name) <|
  printField ',' "direction" (printDirection pending.direction) <|
  printField ',' "applied" (printNumber pending.applied) ['}']

def scanPendingStep : Scan PendingStep := do
  let fromVersion ← scanField '{' "from" scanU32
  let toVersion ← scanField ',' "to" scanU32
  let name ← scanField ',' "name" scanString
  let direction ← scanField ',' "direction" scanDirection
  let applied ← scanField ',' "applied" (scanNumber (fun _ => true))
  scanClose ⟨fromVersion, toVersion, name, direction, applied⟩

/-- An option is its value, or `null`. -/
def printOption : Option PendingStep → List Char
  | some pending => printPendingStep pending
  | none => ['n', 'u', 'l', 'l']

def scanOption : Scan (Option PendingStep) :=
  Scan.orElse ['n', 'u', 'l', 'l'] (return none) (some <$> scanPendingStep)

def printJournal (journal : Journal) : List Char :=
  printField '{' "from" (printU32 journal.fromVersion) <|
  printField ',' "target" (printU32 journal.target) <|
  printField ',' "done_upto" (printU32 journal.doneUpto) <|
  printField ',' "started_at_ms" (printU64 journal.startedAtMs) <|
  printField ',' "attempts" (printU32 journal.attempts) <|
  printField ',' "component" (printString journal.component) <|
  printField ',' "pending_step" (printOption journal.pendingStep) ['}']

def scanJournal : Scan Journal := do
  let fromVersion ← scanField '{' "from" scanU32
  let target ← scanField ',' "target" scanU32
  let doneUpto ← scanField ',' "done_upto" scanU32
  let startedAtMs ← scanField ',' "started_at_ms" scanU64
  let attempts ← scanField ',' "attempts" scanU32
  let component ← scanField ',' "component" scanString
  let pendingStep ← scanField ',' "pending_step" scanOption
  scanClose ⟨fromVersion, target, doneUpto, startedAtMs, attempts, component, pendingStep⟩

def printHead (head : Head) : List Char :=
  printField '{' "format" (printU32 head.format) <|
  printField ',' "schema_version" (printU32 head.schemaVersion) <|
  printField ',' "component" (printString head.component) <|
  printField ',' "component_version" (printString head.componentVersion) <|
  printField ',' "component_sha256" (printString head.componentSha256) <|
  printField ',' "created_at_ms" (printU64 head.createdAtMs) ['}']

def scanHead : Scan Head := do
  let format ← scanField '{' "format" scanU32
  let schemaVersion ← scanField ',' "schema_version" scanU32
  let component ← scanField ',' "component" scanString
  let componentVersion ← scanField ',' "component_version" scanString
  let componentSha256 ← scanField ',' "component_sha256" scanString
  let createdAtMs ← scanField ',' "created_at_ms" scanU64
  scanClose ⟨format, schemaVersion, component, componentVersion, componentSha256, createdAtMs⟩

section RoundTrips

theorem scans_direction (direction : Direction) :
    Scans scanDirection (printDirection direction) direction := by
  intro rest hends
  cases direction with
  | up => exact Scan.bind_of (scans_string "up" rest hends)
  | down => exact Scan.bind_of (scans_string "down" rest hends)

theorem scans_pendingStep (pending : PendingStep) :
    Scans scanPendingStep (printPendingStep pending) pending := by
  apply Scans.field (scans_u32 _) _ (starts_field rfl _)
  apply Scans.field (scans_u32 _) _ (starts_field rfl _)
  apply Scans.field (scans_string _) _ (starts_field rfl _)
  apply Scans.field (scans_direction _) _ (starts_field rfl _)
  apply Scans.field (scans_number rfl) _ starts_close
  exact scans_close

theorem scans_option (pending : Option PendingStep) :
    Scans scanOption (printOption pending) pending := by
  intro rest hends
  cases pending with
  | none => exact Scan.orElse_append ['n', 'u', 'l', 'l'] rest _ _
  | some pending =>
    refine (Scan.orElse_other (by decide) _ _ _ _).trans ?_
    exact (scans_pendingStep pending).map some rest hends

theorem scans_journal (journal : Journal) : Scans scanJournal (printJournal journal) journal := by
  apply Scans.field (scans_u32 _) _ (starts_field rfl _)
  apply Scans.field (scans_u32 _) _ (starts_field rfl _)
  apply Scans.field (scans_u32 _) _ (starts_field rfl _)
  apply Scans.field (scans_u64 _) _ (starts_field rfl _)
  apply Scans.field (scans_u32 _) _ (starts_field rfl _)
  apply Scans.field (scans_string _) _ (starts_field rfl _)
  apply Scans.field (scans_option _) _ starts_close
  exact scans_close

theorem scans_head (head : Head) : Scans scanHead (printHead head) head := by
  apply Scans.field (scans_u32 _) _ (starts_field rfl _)
  apply Scans.field (scans_u32 _) _ (starts_field rfl _)
  apply Scans.field (scans_string _) _ (starts_field rfl _)
  apply Scans.field (scans_string _) _ (starts_field rfl _)
  apply Scans.field (scans_string _) _ (starts_field rfl _)
  apply Scans.field (scans_u64 _) _ starts_close
  exact scans_close

theorem breaks_string (text : String) : Breaks scanString (printString text) :=
  (stalls_string text).breaks

theorem breaks_u32 (value : UInt32) : Breaks scanU32 (printU32 value) :=
  (breaks_number fitsU32 value.toNat).map UInt32.ofNat

theorem breaks_u64 (value : UInt64) : Breaks scanU64 (printU64 value) :=
  (breaks_number fitsU64 value.toNat).map UInt64.ofNat

theorem stalls_head (head : Head) : Stalls scanHead (printHead head) := by
  apply Stalls.field (scans_u32 _) (breaks_u32 _) (starts_field rfl _) (fun _ => scanField_nil)
  apply Stalls.field (scans_u32 _) (breaks_u32 _) (starts_field rfl _) (fun _ => scanField_nil)
  apply Stalls.field (scans_string _) (breaks_string _) (starts_field rfl _)
    (fun _ => scanField_nil)
  apply Stalls.field (scans_string _) (breaks_string _) (starts_field rfl _)
    (fun _ => scanField_nil)
  apply Stalls.field (scans_string _) (breaks_string _) (starts_field rfl _)
    (fun _ => scanField_nil)
  apply Stalls.field (scans_u64 _) (breaks_u64 _) starts_close (fun _ => rfl)
  exact stalls_close

end RoundTrips

def parse {Value : Type} (scan : Scan Value) (bytes : Bytes) : Except String Value :=
  match String.fromUTF8? ⟨bytes.toArray⟩ with
  | none => .error "invalid unicode code point"
  | some text =>
      match scan.whole text.toList with
      | some value => .ok value
      | none => .error "expected value"

/-- As `parse`, and quicker to evaluate: plain bytes are not decoded. -/
def plainParse {Value : Type} (scan : Scan Value) (bytes : Bytes) : Except String Value :=
  if bytes.all (·.toNat < 128) then
    match scan.whole (bytes.map fun byte => Char.ofNat byte.toNat) with
    | some value => .ok value
    | none => .error "expected value"
  else parse scan bytes

theorem utf8_plain {bytes : Bytes} (hpln : bytes.all (·.toNat < 128) = true) :
    utf8 (String.ofList (bytes.map fun byte => Char.ofNat byte.toNat)) = bytes := by
  rw [utf8_ofList, flatMap_map]
  induction bytes with
  | nil => rfl
  | cons byte rest ih =>
    rw [all_cons, Bool.and_eq_true, decide_eq_true_eq] at hpln
    have hone : String.utf8EncodeChar (Char.ofNat byte.toNat) = [byte] := by
      rw [Char.ofNat, dif_pos (.inl (by omega))]
      refine (if_pos (show byte.toNat ≤ 127 by omega)).trans ?_
      exact congrArg (fun code => [code]) UInt8.ofNat_toNat
    rw [flatMap_cons, ih hpln.2, hone]
    rfl

variable {Value : Type}

theorem parse_plain (scan : Scan Value) : parse scan = plainParse scan := by
  funext bytes
  rw [plainParse]
  split
  · next hpln =>
    have htext := fromUTF8_utf8 (String.ofList (bytes.map fun byte => Char.ofNat byte.toNat))
    rw [utf8_plain hpln] at htext
    simp [parse, htext]
  · rfl

theorem parse_of_reads {scan : Scan Value} {text : List Char} {value : Value}
    (hscans : Scans scan text value) : parse scan (utf8 (String.ofList text)) = .ok value := by
  rw [parse, fromUTF8_utf8]
  dsimp only
  rw [String.toList_ofList, hscans.whole]

theorem parse_of_stalls {scan : Scan Value} {text : List Char}
    (hstal : Stalls scan text) {count : ℕ} (hcount : count < (utf8 (String.ofList text)).length) :
    ∃ why, parse scan ((utf8 (String.ofList text)).take count) = .error why := by
  rw [parse]
  split
  · exact ⟨_, rfl⟩
  rename_i shorter hshor
  have hbs := utf8_of_fromUTF8 hshor
  have hbeg : utf8 shorter <+: utf8 (String.ofList text) := by
    rw [hbs]
    exact take_prefix count _
  obtain ⟨rest, htext⟩ := utf8_begins hbeg
  have hchars : text = shorter.toList ++ rest.toList := by
    rw [← String.toList_append, ← htext, String.toList_ofList]
  have hcut : shorter.toList = text.take shorter.toList.length := by
    conv_rhs => rw [hchars]
    rw [take_left]
  have hshrt : shorter.toList.length < text.length := by
    rw [hchars, length_append]
    have hrest : rest.toList ≠ [] := by
      intro hnone
      have hsame : shorter = String.ofList text := by
        rw [hchars, hnone, append_nil, String.ofList_toList]
      have hlen := congrArg length hbs
      rw [hsame, length_take] at hlen
      omega
    have hpos := length_pos_iff.mpr hrest
    omega
  rw [hcut, hstal.whole hshrt]
  exact ⟨_, rfl⟩

section Frames

def frameMagic : Bytes := [0x28, 0xb5, 0x2f, 0xfd]

def rawBlocks : ℕ → Bytes → Except String Bytes
  | 0, _ => .error "incomplete frame"
  | steps + 1, bytes =>
      let head := fromLittleEndian (bytes.take 3)
      let size := head / 8
      if bytes.length < 3 + size then .error "incomplete frame"
      else if head / 2 % 4 ≠ 0 then .error "only raw blocks are read"
      else if head % 2 = 1 then .ok ((bytes.drop 3).take size)
      else (rawBlocks steps (bytes.drop (3 + size))).map ((bytes.drop 3).take size ++ ·)

def decompress (input : Bytes) (limit : ℕ) : Except String Bytes :=
  if input.take 4 ≠ frameMagic then .error "zstd: unknown frame descriptor"
  else if (input.drop 4).head? ≠ some 0 then .error "zstd: only plain frames are read"
  else ((rawBlocks input.length (input.drop 6)).mapError ("snapshot body: " ++ ·)).map
    (List.take limit)

/-- What a raw block holds at most. -/
def blockSize : ℕ := 0x400

def printBlocks : ℕ → Bytes → Bytes
  | 0, bytes => littleEndian 3 (bytes.length * 8 + 1) ++ bytes
  | steps + 1, bytes =>
      if bytes.length ≤ blockSize then
        littleEndian 3 (bytes.length * 8 + 1) ++ bytes
      else
        littleEndian 3 (blockSize * 8) ++ bytes.take blockSize ++
          printBlocks steps (bytes.drop blockSize)

def compress (_level : Int32) (bytes : Bytes) : Bytes :=
  frameMagic ++ [0, 0] ++ printBlocks bytes.length bytes

theorem rawBlocks_last {bytes : Bytes} (hshrt : bytes.length ≤ blockSize) (steps : ℕ) :
    rawBlocks (steps + 1) (littleEndian 3 (bytes.length * 8 + 1) ++ bytes) = .ok bytes := by
  have hhead : (littleEndian 3 (bytes.length * 8 + 1) ++ bytes).take 3 =
      littleEndian 3 (bytes.length * 8 + 1) := take_left' (littleEndian_length _ _)
  have hrest : (littleEndian 3 (bytes.length * 8 + 1) ++ bytes).drop 3 = bytes :=
    drop_left' (littleEndian_length _ _)
  rw [blockSize] at hshrt
  have hval : fromLittleEndian (littleEndian 3 (bytes.length * 8 + 1)) = bytes.length * 8 + 1 :=
    fromLittleEndian_littleEndian
      (Nat.lt_of_le_of_lt (show bytes.length * 8 + 1 ≤ 0x2001 by omega) (by decide))
  have hsize : (bytes.length * 8 + 1) / 8 = bytes.length := by omega
  rw [rawBlocks, hhead, hval, hrest, hsize]
  rw [length_append, littleEndian_length, if_neg (Nat.lt_irrefl _), if_neg (by omega),
    if_pos (by omega), take_length]

theorem rawBlocks_more {block rest : Bytes} (hblc : block.length = blockSize) (steps : ℕ) :
    rawBlocks (steps + 1) (littleEndian 3 (blockSize * 8) ++ block ++ rest) =
      (rawBlocks steps rest).map (block ++ ·) := by
  have hhead : (littleEndian 3 (blockSize * 8) ++ block ++ rest).take 3 =
      littleEndian 3 (blockSize * 8) := by
    exact take_left' (littleEndian_length _ _)
  have haft : (littleEndian 3 (blockSize * 8) ++ block ++ rest).drop 3 = block ++ rest := by
    exact drop_left' (littleEndian_length _ _)
  have hnext : (littleEndian 3 (blockSize * 8) ++ block ++ rest).drop (3 + blockSize) = rest := by
    rw [← drop_drop, haft]
    exact drop_left' hblc
  have hval : fromLittleEndian (littleEndian 3 (blockSize * 8)) = blockSize * 8 := by decide
  have hsize : blockSize * 8 / 8 = blockSize := by decide
  rw [rawBlocks, hhead, hval, hsize, haft, hnext]
  rw [length_append, length_append, littleEndian_length, hblc,
    if_neg (by omega), if_neg (by decide), if_neg (by decide), take_left' hblc]

theorem rawBlocks_printBlocks {count steps : ℕ} {bytes : Bytes} (hcount : bytes.length ≤ count)
    (hstps : (printBlocks count bytes).length ≤ steps) :
    rawBlocks steps (printBlocks count bytes) = .ok bytes := by
  induction count generalizing steps bytes with
  | zero =>
    rw [printBlocks, length_append, littleEndian_length] at hstps
    obtain ⟨steps, rfl⟩ := Nat.exists_eq_add_of_le' (show 1 ≤ steps by omega)
    exact rawBlocks_last (Nat.le_trans hcount (Nat.zero_le _)) steps
  | succ count ih =>
    rw [printBlocks] at hstps ⊢
    split at hstps
    · next hshrt =>
      rw [length_append, littleEndian_length] at hstps
      obtain ⟨steps, rfl⟩ := Nat.exists_eq_add_of_le' (show 1 ≤ steps by omega)
      rw [if_pos hshrt]
      exact rawBlocks_last hshrt steps
    rename_i hlong
    rw [length_append, length_append, littleEndian_length] at hstps
    obtain ⟨steps, rfl⟩ := Nat.exists_eq_add_of_le' (show 1 ≤ steps by omega)
    have hblc : (bytes.take blockSize).length = blockSize := by
      rw [length_take]
      omega
    have hlt : (bytes.drop blockSize).length ≤ count := by
      rw [length_drop]
      rw [blockSize] at hlong ⊢
      omega
    rw [if_neg hlong, rawBlocks_more hblc, ih hlt (by omega)]
    exact congrArg Except.ok (take_append_drop blockSize bytes)

theorem decompress_compress (level : Int32) (bytes : Bytes) (limit : ℕ) :
    decompress (compress level bytes) limit = .ok (bytes.take limit) := by
  have hlen : (printBlocks bytes.length bytes).length ≤ (compress level bytes).length := by
    rw [compress, length_append]
    omega
  rw [decompress, if_neg (fun hoth => hoth rfl), if_neg (fun hoth => hoth rfl)]
  change ((rawBlocks _ (printBlocks bytes.length bytes)).mapError _).map _ = _
  rw [rawBlocks_printBlocks (Nat.le_refl _) hlen]
  rfl

end Frames

/-- The crates, as far as they are written out here. -/
def crates : Crates where
  printJournal := fun journal => utf8 (String.ofList (printJournal journal))
  parseJournal := parse scanJournal
  printHead := fun head => utf8 (String.ofList (printHead head))
  parseHead := parse scanHead
  sha256 := Sha256.digest
  decompress := decompress
  parse_printJournal := fun journal => parse_of_reads (scans_journal journal)

/-- The crates of an export, as far as they are written out here. -/
def archive : Archive where
  toCrates := crates
  compress := compress
  parse_printHead := fun head => parse_of_reads (scans_head head)
  parse_cut := fun head _ hcount => parse_of_stalls (stalls_head head) hcount
  sha256_length := Sha256.digest_length
  decompress_compress := decompress_compress

/-- The same crates, quicker to evaluate. -/
def plainArchive : Archive where
  printJournal journal := (printJournal journal).flatMap String.utf8EncodeChar
  parseJournal := plainParse scanJournal
  printHead head := (printHead head).flatMap String.utf8EncodeChar
  parseHead := plainParse scanHead
  sha256 := Sha256.digest
  decompress := decompress
  parse_printJournal := by simpa only [parse_plain, crates, utf8_ofList] using crates.parse_printJournal
  compress := compress
  parse_printHead := by simpa only [parse_plain, archive, crates, utf8_ofList] using archive.parse_printHead
  parse_cut := by simpa only [parse_plain, archive, crates, utf8_ofList] using archive.parse_cut
  sha256_length := Sha256.digest_length
  decompress_compress := decompress_compress

theorem archive_plain : archive = plainArchive := by
  simp only [archive, crates, plainArchive, parse_plain, utf8_ofList]

theorem crates_plain : crates = plainArchive.toCrates := congrArg Archive.toCrates archive_plain

end Records

end WasmAgent.State
