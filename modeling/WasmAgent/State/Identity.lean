import WasmAgent.State.Meta

/-!
# What the meta keys say

A namespace is named when its meta keys hold texts that can be read back.  Which
build last wrote it may change at any write; its schema version changes at one.
-/

namespace WasmAgent.State

open List Std WasmAgent.Core

/-- The keys that a reader of the metadata asks for. -/
def identityKeys : List Bytes :=
  [Key.schemaVersion, Key.component, Key.componentVersion, Key.lastMigratedBy, Key.createdAt,
    Key.lastMigratedAt]

def SaysVersion (version : UInt32) (text : String) : Prop :=
  ∃ value, parseU64 text = some value ∧ Meta.narrow value = .ok version

def SaysOwner (component text : String) : Prop := text = component ∧ ident text = true

def SaysNumber (text : String) : Prop := ∃ value, parseU64 text = some value

structure Named (store : Namespace) (version : UInt32) (component : String) : Prop where
  schema : ∃ text, Meta.text store Key.schemaVersion = .ok text ∧ SaysVersion version text
  owner : ∃ text, Meta.text store Key.component = .ok text ∧ SaysOwner component text
  build : ∃ text, Meta.text store Key.componentVersion = .ok text ∧ isSemver text = true
  pin : ∃ text, Meta.text store Key.lastMigratedBy = .ok text ∧ isSha256 text = true
  created : ∃ text, Meta.text store Key.createdAt = .ok text ∧ SaysNumber text
  migrated : ∃ text, Meta.text store Key.lastMigratedAt = .ok text ∧ SaysNumber text

/-- A text that keeps the metadata readable when it is written under a key. -/
structure Wanted (version : UInt32) (component : String) (key : Bytes) (text : String) : Prop where
  schema : key = Key.schemaVersion → SaysVersion version text
  owner : key = Key.component → SaysOwner component text
  build : key = Key.componentVersion → isSemver text = true
  pin : key = Key.lastMigratedBy → isSha256 text = true
  created : key = Key.createdAt → SaysNumber text
  migrated : key = Key.lastMigratedAt → SaysNumber text

variable {key : Bytes}

namespace Meta

theorem text_congr {store other : Namespace} {key : Bytes}
    (hsame : store.get key = other.get key) : text store key = text other key := by
  rw [text, text, hsame]

theorem number_ok_iff {store : Namespace} {value : UInt64} :
    number store key = .ok value ↔ ∃ raw, text store key = .ok raw ∧ parseU64 raw = some value := by
  rw [number]
  cases htext : text store key with
  | error fault =>
    constructor
    · intro hok
      cases hok
    · rintro ⟨raw, hraw, -⟩
      cases hraw
  | ok raw =>
    rw [ok_bind]
    cases hval : parseU64 raw with
    | none =>
      constructor
      · intro hok
        cases hok
      rintro ⟨other, hoth, hpar⟩
      cases hoth
      rw [hval] at hpar
      cases hpar
    | some found =>
      constructor
      · intro hok
        cases hok
        exact ⟨raw, rfl, hval⟩
      rintro ⟨other, hoth, hpar⟩
      cases hoth
      rw [hval] at hpar
      cases hpar
      rfl

theorem get_of_text {store : Namespace} {content : String} (htext : text store key = .ok content) :
    store.get key ≠ none := by
  intro hnone
  rw [text, hnone] at htext
  cases htext

end Meta

structure Says (store : Namespace) (found : Meta) : Prop where
  schema : ∃ schema, Meta.number store Key.schemaVersion = .ok schema ∧
    Meta.narrow schema = .ok found.schemaVersion
  component : Meta.text store Key.component = .ok found.component
  build : Meta.text store Key.componentVersion = .ok found.componentVersion
  pin : Meta.text store Key.lastMigratedBy = .ok found.lastMigratedBy
  created : Meta.number store Key.createdAt = .ok found.createdAtMs
  migrated : Meta.number store Key.lastMigratedAt = .ok found.lastMigratedAtMs

/-- Metadata that passes the checks of an identity. -/
def Meta.Valid (info : Meta) : Prop :=
  ComponentInfo.validate ⟨info.component, info.componentVersion, info.lastMigratedBy⟩ = .ok ()

theorem ComponentInfo.validate_ok_iff {info : ComponentInfo} :
    info.validate = .ok () ↔
      ident info.id = true ∧ isSemver info.version = true ∧ isSha256 info.sha256 = true := by
  constructor
  · intro hvld
    unfold ComponentInfo.validate at hvld
    split at hvld
    · cases hvld
    next hident =>
    split at hvld
    · cases hvld
    next hsem =>
    split at hvld
    · cases hvld
    next hdig =>
    exact ⟨by simpa using hident, by simpa using hsem, by simpa using hdig⟩
  · intro hall
    rw [ComponentInfo.validate, hall.1, hall.2.1, hall.2.2]
    rfl

theorem Meta.read_some_iff {store : Namespace} {found : Meta} :
    read store = .ok (some found) ↔ Says store found ∧ found.Valid := by
  constructor
  · intro hread
    have hsch : store.get Key.schemaVersion ≠ none := by
      intro hnone
      rw [read, if_pos hnone] at hread
      split at hread <;> cases hread
    rw [read, if_neg hsch] at hread
    obtain ⟨schema, hsch, hread⟩ := bind_eq_ok.mp hread
    obtain ⟨version, hver, hread⟩ := bind_eq_ok.mp hread
    obtain ⟨component, hcomp, hread⟩ := bind_eq_ok.mp hread
    obtain ⟨build, hbuild, hread⟩ := bind_eq_ok.mp hread
    obtain ⟨pin, hpin, hread⟩ := bind_eq_ok.mp hread
    obtain ⟨created, hcre, hread⟩ := bind_eq_ok.mp hread
    obtain ⟨migrated, hmig, hread⟩ := bind_eq_ok.mp hread
    split at hread
    · cases hread
    next hpln =>
    split at hread
    · cases hread
    next hsem =>
    cases hread
    rw [Bool.or_eq_true, not_or] at hpln
    exact ⟨⟨⟨schema, hsch, hver⟩, hcomp, hbuild, hpin, hcre, hmig⟩,
      ComponentInfo.validate_ok_iff.mpr
        ⟨by simpa using hpln.1, by simpa using hsem, by simpa using hpln.2⟩⟩
  rintro ⟨htold, hvld⟩
  obtain ⟨hident, hsem, hdig⟩ := ComponentInfo.validate_ok_iff.mp hvld
  obtain ⟨schema, hsch, hver⟩ := htold.schema
  obtain ⟨raw, hraw, -⟩ := number_ok_iff.mp hsch
  rw [read, if_neg (get_of_text hraw), hsch, ok_bind, hver, ok_bind, htold.component, ok_bind,
    htold.build, ok_bind, htold.pin, ok_bind, htold.created, ok_bind, htold.migrated, ok_bind,
    hident, hdig, hsem]
  rfl

theorem Meta.of_read {store : Namespace} {found : Meta} (hread : read store = .ok (some found)) :
    Named store found.schemaVersion found.component ∧ found.Valid := by
  obtain ⟨htold, hvld⟩ := read_some_iff.mp hread
  obtain ⟨hident, hsem, hdig⟩ := ComponentInfo.validate_ok_iff.mp hvld
  obtain ⟨schema, hsch, hver⟩ := htold.schema
  obtain ⟨text, htext, hval⟩ := number_ok_iff.mp hsch
  obtain ⟨created, hcreated, hcre⟩ := number_ok_iff.mp htold.created
  obtain ⟨migrated, hmigrated, hmig⟩ := number_ok_iff.mp htold.migrated
  exact ⟨⟨⟨text, htext, schema, hval, hver⟩, ⟨_, htold.component, rfl, hident⟩,
    ⟨_, htold.build, hsem⟩, ⟨_, htold.pin, hdig⟩, ⟨created, hcreated, _, hcre⟩,
    ⟨migrated, hmigrated, _, hmig⟩⟩, hvld⟩

variable {change : Change}

namespace Named

variable {store : Namespace} {version : UInt32} {component : String}

theorem read (hnmd : Named store version component) :
    ∃ found, Meta.read store = .ok (some found) ∧ found.schemaVersion = version ∧
      found.component = component := by
  obtain ⟨schemaText, hschemaText, schema, hschemaValue, hver⟩ := hnmd.schema
  obtain ⟨owner, hown, rfl, hident⟩ := hnmd.owner
  obtain ⟨build, hbuild, hsem⟩ := hnmd.build
  obtain ⟨pin, hpin, hdig⟩ := hnmd.pin
  obtain ⟨createdText, hcreatedText, created, hcre⟩ := hnmd.created
  obtain ⟨migratedText, hmigratedText, migrated, hmig⟩ := hnmd.migrated
  refine ⟨⟨version, owner, build, pin, created, migrated⟩, ?_, rfl, rfl⟩
  apply Meta.read_some_iff.mpr
  apply And.intro _ (ComponentInfo.validate_ok_iff.mpr ⟨hident, hsem, hdig⟩)
  exact ⟨⟨schema, Meta.number_ok_iff.mpr ⟨schemaText, hschemaText, hschemaValue⟩, hver⟩, hown,
    hbuild, hpin, Meta.number_ok_iff.mpr ⟨createdText, hcreatedText, hcre⟩,
    Meta.number_ok_iff.mpr ⟨migratedText, hmigratedText, hmig⟩⟩

theorem of_read_eq {found : Meta} (hnmd : Named store version component)
    (hread : Meta.read store = .ok (some found)) :
    found.schemaVersion = version ∧ found.component = component := by
  obtain ⟨other, hoth, hver, hcomp⟩ := hnmd.read
  rw [hread] at hoth
  cases hoth
  exact ⟨hver, hcomp⟩

theorem text_apply_other {wanted : String → Prop} (hkey : change.key ≠ key)
    (htext : ∃ text, Meta.text store key = .ok text ∧ wanted text) :
    ∃ text, Meta.text (change.apply store) key = .ok text ∧ wanted text := by
  rwa [@Meta.text_congr _ store]
  rw [Namespace.get_apply, if_neg hkey]

theorem text_put {other : Bytes} {content : String} {wanted : String → Prop}
    (hcont : key = other → wanted content)
    (htext : ∃ text, Meta.text store other = .ok text ∧ wanted text) :
    ∃ text, Meta.text ((Core.Change.put key (utf8 content) : Change).apply store) other =
      .ok text ∧ wanted text := by
  by_cases hkey : key = other
  · refine ⟨content, text_of_get ?_, hcont hkey⟩
    exact (Namespace.get_apply _ store other).trans (if_pos hkey)
  · exact text_apply_other hkey htext

theorem frame (hnmd : Named store version component) (hoth : change.key ∉ identityKeys) :
    Named (change.apply store) version component := by
  have hkey : ∀ key ∈ identityKeys, change.key ≠ key := by
    intro key hmem hsame
    exact hoth (hsame ▸ hmem)
  exact ⟨text_apply_other (hkey _ (by decide)) hnmd.schema,
    text_apply_other (hkey _ (by decide)) hnmd.owner,
    text_apply_other (hkey _ (by decide)) hnmd.build,
    text_apply_other (hkey _ (by decide)) hnmd.pin,
    text_apply_other (hkey _ (by decide)) hnmd.created,
    text_apply_other (hkey _ (by decide)) hnmd.migrated⟩

theorem put {text : String} (hnmd : Named store version component)
    (hwan : Wanted version component key text) :
    Named ((Core.Change.put key (utf8 text) : Change).apply store) version component :=
  ⟨text_put hwan.schema hnmd.schema, text_put hwan.owner hnmd.owner,
    text_put hwan.build hnmd.build, text_put hwan.pin hnmd.pin,
    text_put hwan.created hnmd.created, text_put hwan.migrated hnmd.migrated⟩

end Named

section Writes

variable {store : Namespace} {version toVersion : UInt32} {component : String}

theorem saysNumber_toString (value : UInt64) : SaysNumber (toString value.toNat) :=
  ⟨value, parseU64_toString value⟩

theorem saysVersion_toString (version : UInt32) : SaysVersion version (toString version.toNat) := by
  refine ⟨version.toUInt64, ?_, ?_⟩
  · rw [← parseU64_toString, UInt32.toNat_toUInt64]
  · rw [Meta.narrow, UInt32.toNat_toUInt64, if_pos version.toNat_lt, UInt32.ofNat_toNat]

theorem schema_of_get (hget : store.get Key.schemaVersion = some (decimal version.toNat)) :
    ∃ schema, Meta.number store Key.schemaVersion = .ok schema ∧
      Meta.narrow schema = .ok version := by
  obtain ⟨schema, hval, hver⟩ := saysVersion_toString version
  exact ⟨schema, Meta.number_ok_iff.mpr ⟨_, text_of_get hget, hval⟩, hver⟩

theorem Named.commit (hnmd : Named store version component) :
    Named ((Core.Change.put Key.schemaVersion (decimal toVersion.toNat) :
      Change).apply store) toVersion component where
  schema := ⟨toString toVersion.toNat,
    text_of_get ((Namespace.get_apply _ store _).trans (if_pos rfl)),
    saysVersion_toString toVersion⟩
  owner := Named.text_apply_other (show Key.schemaVersion ≠ _ by decide) hnmd.owner
  build := Named.text_apply_other (show Key.schemaVersion ≠ _ by decide) hnmd.build
  pin := Named.text_apply_other (show Key.schemaVersion ≠ _ by decide) hnmd.pin
  created := Named.text_apply_other (show Key.schemaVersion ≠ _ by decide) hnmd.created
  migrated := Named.text_apply_other (show Key.schemaVersion ≠ _ by decide) hnmd.migrated

/-- A write that keeps the metadata readable, and is none of the migration's own. -/
def Refreshes (version : UInt32) (component : String) (change : Change) : Prop :=
  ∃ key text, change = Core.Change.put key (utf8 text) ∧ isReserved key = true ∧
    key ≠ Key.journal ∧ key ≠ Key.pending ∧ Wanted version component key text

theorem Meta.refreshes_of_mem_writes {info : Meta} {now : UInt64} (hvld : info.Valid)
    (hchg : change ∈ info.writes now) : Refreshes info.schemaVersion info.component change := by
  obtain ⟨hident, hsem, hdig⟩ := ComponentInfo.validate_ok_iff.mp hvld
  have hlist : ∀ key text, (change = Core.Change.put key (utf8 text) ∧
      key ∈ Key.updatedAt :: identityKeys ∧
      Wanted info.schemaVersion info.component key text) →
      Refreshes info.schemaVersion info.component change := by
    rintro key text ⟨rfl, hkey, hwan⟩
    have hown : ∀ own ∈ Key.updatedAt :: identityKeys,
        isReserved own = true ∧ own ≠ Key.journal ∧ own ≠ Key.pending := by
      decide
    obtain ⟨hrsv, hjrn, hpnd⟩ := hown key hkey
    exact ⟨key, text, rfl, hrsv, hjrn, hpnd, hwan⟩
  unfold Meta.writes at hchg
  simp only [mem_cons, not_mem_nil, or_false] at hchg
  rcases hchg with rfl | rfl | rfl | rfl | rfl | rfl | rfl
  all_goals
    apply hlist _ _ ⟨rfl, by decide, _⟩
    constructor
    all_goals
      intro hkey
      first
      | exact absurd hkey (by decide)
      | exact saysVersion_toString _
      | exact ⟨rfl, hident⟩
      | exact hsem
      | exact hdig
      | exact saysNumber_toString _

theorem Meta.read_written {info : Meta} (hvld : info.Valid) (now : UInt64) (store : Namespace) :
    Meta.read (Core.Change.applyAll (info.writes now) store) = .ok (some info) := by
  have hndp : ((info.writes now).map Core.Change.key).Nodup := by
    change [Key.schemaVersion, Key.component, Key.componentVersion, Key.lastMigratedBy,
      Key.lastMigratedAt, Key.createdAt, Key.updatedAt].Nodup
    decide
  have hget : ∀ change ∈ info.writes now,
      Namespace.get (Core.Change.applyAll (info.writes now) store) change.key = change.value :=
    fun change hchg => Core.Change.getElem?_applyAll_mem hndp hchg
  generalize Core.Change.applyAll (info.writes now) store = after at hget ⊢
  simp only [Meta.writes, forall_mem_cons] at hget
  obtain ⟨hsch, hown, hbuild, hpin, hmig, hcre, -⟩ := hget
  exact Meta.read_some_iff.mpr ⟨⟨schema_of_get hsch, text_of_get hown, text_of_get hbuild,
    text_of_get hpin, number_of_get hcre, number_of_get hmig⟩, hvld⟩

theorem Named.refreshed (hnmd : Named store version component)
    (hrfr : Refreshes version component change) : Named (change.apply store) version component := by
  obtain ⟨key, text, rfl, -, -, -, hwan⟩ := hrfr
  exact hnmd.put hwan

end Writes

end WasmAgent.State
