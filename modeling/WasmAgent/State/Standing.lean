import WasmAgent.State.Identity
import WasmAgent.State.Listing
import WasmAgent.State.Migrate

/-!
# Where a migration stands

Between any two writes of a migration its namespace is at rest at one version, has a
journaled step under way, or has committed one whose journal is still there.  The
store is followed together with what it was when its schema version was last written.
-/

namespace WasmAgent.State

open List Std WasmAgent.Core

/-- A store, and what it was when its schema version was last written. -/
structure Tracked where
  store : Namespace
  landed : Namespace

def tracked : Machine Query Change Tracked where
  answer := fun question state => question state.store
  apply := fun change state =>
    ⟨change.apply state.store,
      if change.key = Key.schemaVersion then change.apply state.store else state.landed⟩

@[simp]
theorem tracked_store (change : Change) (state : Tracked) :
    (tracked.apply change state).store = change.apply state.store := by
  rfl

theorem tracked_landed_other {change : Change} (state : Tracked)
    (hoth : change.key ≠ Key.schemaVersion) : (tracked.apply change state).landed = state.landed :=
  if_neg hoth

theorem tracked_landed_schema {change : Change} (state : Tracked)
    (hsch : change.key = Key.schemaVersion) :
    (tracked.apply change state).landed = change.apply state.store :=
  if_pos hsch

/-- Following the landings changes nothing else. -/
theorem tracked_projects : Program.Projects tracked kv Tracked.store :=
  ⟨fun _ _ => rfl, fun _ _ => rfl⟩

/-- What a group of runs agrees on: the crates, the owner, and what may be said of the
data at each version, of every step that is journaled, and of what it makes of its data. -/
structure Terms where
  crates : Crates
  component : String
  good : UInt32 → Table → Prop
  named : PendingStep → Prop
  made : PendingStep → Table → Table → Prop

def Adjacent (pending : PendingStep) : Prop :=
  pending.fromVersion.toNat + 1 = pending.toVersion.toNat ∨
    pending.toVersion.toNat + 1 = pending.fromVersion.toNat

theorem Adjacent.ne {pending : PendingStep} (hadj : Adjacent pending) :
    pending.fromVersion ≠ pending.toVersion := by
  intro hsame
  rw [Adjacent, hsame] at hadj
  omega

structure Written (crates : Crates) (store : Namespace) (pending : PendingStep)
    (changes : List Change) : Prop where
  journal : ∃ journal, store.get Key.journal = some (crates.printJournal journal) ∧
    journal.pendingStep = some pending
  list : store.get Key.pending = some (encodeChanges changes)
  listable : Listable changes

structure Agreed (terms : Terms) (pending : PendingStep) : Prop where
  adjacent : Adjacent pending
  named : ∀ applied, terms.named { pending with applied := applied }

structure Lands (terms : Terms) (state : Tracked) (version : UInt32) : Prop where
  store : Named state.store version terms.component
  landed : Named state.landed version terms.component
  good : terms.good version state.landed.user

/-- At rest: the data is what it was when the version was written, and no step is journaled. -/
structure Idle (terms : Terms) (state : Tracked) (version : UInt32) : Prop where
  lands : Lands terms state version
  user : state.store.user = state.landed.user
  journal : state.store.get Key.journal = none

/-- A journaled step, with `done` of its changes made and no more than those known to be. -/
structure Underway (terms : Terms) (state : Tracked) (version : UInt32) (pending : PendingStep)
    (changes : List Change) (done : ℕ) : Prop where
  lands : Lands terms state version
  written : Written terms.crates state.store pending changes
  agreed : Agreed terms pending
  starts : pending.fromVersion = version
  applied : pending.applied ≤ done
  inside : done ≤ changes.length
  user : state.store.user = Core.Change.applyAll (changes.take done) state.landed.user
  alters : ∀ change ∈ changes, change.Alters state.landed.user
  good : terms.good pending.toVersion (Core.Change.applyAll changes state.landed.user)
  made : ∀ applied, terms.made { pending with applied := applied } state.landed.user
    (Core.Change.applyAll changes state.landed.user)

structure Committed (terms : Terms) (state : Tracked) (version : UInt32) (pending : PendingStep)
    (changes : List Change) : Prop where
  lands : Lands terms state version
  written : Written terms.crates state.store pending changes
  agreed : Agreed terms pending
  ends : pending.toVersion = version
  user : state.store.user = state.landed.user

inductive Stands (terms : Terms) (state : Tracked) (version : UInt32) : Prop where
  | idle (hidle : Idle terms state version)
  | underway (pending : PendingStep) (changes : List Change) (done : ℕ)
      (hunderway : Underway terms state version pending changes done)
  | committed (pending : PendingStep) (changes : List Change)
      (hcommitted : Committed terms state version pending changes)

def Standing (terms : Terms) (state : Tracked) : Prop := ∃ version, Stands terms state version

/-- At rest, and no list is left over either. -/
structure Rests (terms : Terms) (state : Tracked) (version : UInt32) : Prop where
  idle : Idle terms state version
  pending : state.store.get Key.pending = none

section Frames

variable {terms : Terms} {state : Tracked} {version : UInt32} {pending : PendingStep}
  {changes : List Change} {change : Change} {done : ℕ}

variable {key : Bytes}

theorem not_mem_identityKeys (hpln : isReserved key = false) : key ∉ identityKeys := by
  have hrsv : ∀ own ∈ identityKeys, isReserved own = true := by
    decide
  intro hkey
  rw [hrsv key hkey] at hpln
  cases hpln

theorem ne_of_plain {own : Bytes} (hpln : isReserved key = false)
    (hrsv : isReserved own = true) : key ≠ own := by
  intro hsame
  rw [hsame, hrsv] at hpln
  cases hpln

theorem Lands.other (hlands : Lands terms state version) (hoth : change.key ≠ Key.schemaVersion)
    (hnmd : Named (change.apply state.store) version terms.component) :
    Lands terms (tracked.apply change state) version := by
  refine ⟨hnmd, ?_, ?_⟩
  · rw [tracked_landed_other state hoth]
    exact hlands.landed
  · rw [tracked_landed_other state hoth]
    exact hlands.good

theorem Lands.frame (hlands : Lands terms state version) (hoth : change.key ∉ identityKeys) :
    Lands terms (tracked.apply change state) version := by
  apply hlands.other _ (hlands.store.frame hoth)
  intro hsch
  exact hoth (by rw [hsch]; exact mem_cons_self)

theorem get_apply_other (hoth : change.key ≠ key) :
    (tracked.apply change state).store.get key = state.store.get key := by
  rw [tracked_store, Namespace.get_apply, if_neg hoth]

theorem get_put_other {other value : Bytes} (hoth : key ≠ other) :
    (tracked.apply (.put key value) state).store.get other = state.store.get other :=
  get_apply_other hoth

theorem get_put_self (key value : Bytes) :
    (tracked.apply (.put key value) state).store.get key = some value := by
  rw [tracked_store, Namespace.get_apply]
  exact if_pos rfl

theorem landed_put_other {value : Bytes} (hoth : key ≠ Key.schemaVersion) :
    (tracked.apply (.put key value) state).landed = state.landed :=
  tracked_landed_other state hoth

theorem user_put_reserved {value : Bytes} (hrsv : isReserved key = true) :
    (tracked.apply (.put key value) state).store.user = state.store.user :=
  Namespace.user_apply_reserved _ hrsv

theorem Written.frame (hwrn : Written terms.crates state.store pending changes)
    (hjrn : change.key ≠ Key.journal) (hpnd : change.key ≠ Key.pending) :
    Written terms.crates (tracked.apply change state).store pending changes := by
  obtain ⟨journal, hget, hstep⟩ := hwrn.journal
  refine ⟨⟨journal, ?_, hstep⟩, ?_, hwrn.listable⟩
  · rw [get_apply_other hjrn, hget]
  · rw [get_apply_other hpnd, hwrn.list]

theorem Idle.frame (hidle : Idle terms state version) (hrsv : isReserved change.key = true)
    (hoth : change.key ∉ identityKeys) (hjrn : change.key = Key.journal → change.value = none) :
    Idle terms (tracked.apply change state) version := by
  have hland : (tracked.apply change state).landed = state.landed := by
    apply tracked_landed_other
    intro hsch
    exact hoth (by rw [hsch]; exact mem_cons_self)
  refine ⟨hidle.lands.frame hoth, ?_, ?_⟩
  · rw [tracked_store, Namespace.user_apply_reserved _ hrsv, hland]
    exact hidle.user
  rw [tracked_store, Namespace.get_apply]
  split
  · next hkey => exact hjrn hkey
  · exact hidle.journal

variable (hcom : Committed terms state version pending changes)
include hcom

theorem Committed.frame (hrsv : isReserved change.key = true) (hoth : change.key ∉ identityKeys)
    (hjrn : change.key ≠ Key.journal) (hpnd : change.key ≠ Key.pending) :
    Committed terms (tracked.apply change state) version pending changes := by
  have hland : (tracked.apply change state).landed = state.landed := by
    apply tracked_landed_other
    intro hsch
    exact hoth (by rw [hsch]; exact mem_cons_self)
  refine ⟨hcom.lands.frame hoth, hcom.written.frame hjrn hpnd, hcom.agreed, hcom.ends, ?_⟩
  rw [tracked_store, Namespace.user_apply_reserved _ hrsv, hland]
  exact hcom.user

theorem Committed.clear : Idle terms (tracked.apply (.del Key.journal) state) version := by
  refine ⟨hcom.lands.frame (by decide), ?_, ?_⟩
  · rw [tracked_store, Namespace.user_apply_reserved _ (by decide),
      tracked_landed_other _ (by decide)]
    exact hcom.user
  · rw [tracked_store, Namespace.get_apply]
    exact if_pos rfl

end Frames

section Records

variable {crates : Crates} {store : Namespace} {pending : PendingStep} {changes : List Change}

theorem readJournal_none (hjrn : store.get Key.journal = none) :
    readJournal crates store = .ok none := by
  rw [readJournal, hjrn]

theorem Written.of_readJournal {found : Option Journal}
    (hwrn : Written crates store pending changes) (hread : readJournal crates store = .ok found) :
    ∃ journal, found = some journal ∧ journal.pendingStep = some pending := by
  obtain ⟨journal, hget, hstep⟩ := hwrn.journal
  rw [readJournal, hget] at hread
  dsimp only at hread
  split at hread
  · cases hread
  · rw [crates.parse_printJournal journal] at hread
    cases hread
    exact ⟨journal, rfl, hstep⟩

theorem Written.of_pendingChanges {missing : String} {found : List Change}
    (hwrn : Written crates store pending changes)
    (hread : Migrator.pendingChanges missing store = .ok found) : found = changes := by
  rw [Migrator.pendingChanges, hwrn.list] at hread
  change decodeChanges (encodeChanges changes) = .ok found at hread
  have hshrt := (decodeChanges_ok_iff hwrn.listable).mp ⟨found, hread⟩
  rw [decodeChanges_encodeChanges hwrn.listable hshrt] at hread
  cases hread
  rfl

end Records

end WasmAgent.State
