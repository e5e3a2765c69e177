import WasmAgent.Whatsapp.Exact

/-!
# The index as records by name

What the index is for: one record for each chat and id, and the mutations that wait for a
record.  Writing, editing, deleting and attaching text do the same to the index as to the
records, as long as no record is put over one with other keys.
-/

namespace WasmAgent.Whatsapp

open List Function Std WasmAgent.Core

structure Shelf where
  records : Name → Option Record
  pending : Key → Option Pending

namespace Shelf

def empty : Shelf := ⟨fun _ => none, fun _ => none⟩

def store (record : Record) (shelf : Shelf) : Shelf :=
  { shelf with records := Function.update shelf.records record.name (some record) }

def wait (chat id : String) (pending : Pending) (shelf : Shelf) : Shelf :=
  { shelf with pending := Function.update shelf.pending (keyPending chat id) (some pending) }

def putMessage (record : Record) (shelf : Shelf) : Shelf :=
  let key := keyPending record.chat record.id
  store (Index.settled (shelf.pending key) record)
    { shelf with pending := Function.update shelf.pending key none }

def applyEdit (event : Record) (shelf : Shelf) : Shelf :=
  if event.target.isEmpty then shelf
  else
    match shelf.records (event.chat, event.target) with
    | some target =>
        if target.deleted then shelf else shelf.store (Index.editedBy event target)
    | none =>
        shelf.wait event.chat event.target
          ⟨"edit", event.text, event.quoted, event.mentions, event.ts⟩

def applyDelete (event : Record) (shelf : Shelf) : Shelf :=
  if event.target.isEmpty then shelf
  else
    match shelf.records (event.chat, event.target) with
    | some target => shelf.store (redact event.ts target)
    | none => shelf.wait event.chat event.target ⟨"delete", "", "", [], 0⟩

def put (record : Record) (shelf : Shelf) : Shelf :=
  if record.kind = "reaction" then shelf.store record
  else if record.kind = "edit" then (shelf.store record).applyEdit record
  else if record.kind = "delete" then (shelf.store record).applyDelete record
  else shelf.putMessage record

def attachText (chat id text : String) (source : Index.Source) (shelf : Shelf) : Shelf :=
  match shelf.records (chat, id) with
  | none => shelf
  | some record =>
      if record.deleted || text.isEmpty then shelf
      else shelf.store (Index.attached text source record)

end Shelf

section Simulation

variable {tables : Unicode} {shelf : Shelf} {index : Index} {record : Record}

/-- The index shows the shelf, and no mutation waits for a message that is there. -/
structure Keeps (tables : Unicode) (shelf : Shelf) (index : Index) : Prop where
  represents : Represents tables shelf.records index
  pending : ∀ key, index.pending[key]? = shelf.pending key
  settled : ∀ name stored, shelf.records name = some stored → stored.isEvent = false →
    shelf.pending (keyPending stored.chat stored.id) = none

theorem keeps_empty (tables : Unicode) : Keeps tables Shelf.empty Index.empty where
  represents := represents_empty tables
  pending := fun _ => ExtTreeMap.getElem?_empty
  settled := by
    intro _ _ hsto
    cases hsto

structure Record.Covers (tables : Unicode) (record old : Record) : Prop where
  keys : old.SameKeys record
  tokens : ∀ token ∈ old.tokens tables, token ∈ record.tokens tables

variable {old : Record}

theorem Record.SameKeys.tokenKey (hsame : old.SameKeys record) (token : Key) :
    keyWord token old.ts old.id old.chat = keyWord token record.ts record.id record.chat := by
  obtain ⟨hchat, hid⟩ := Prod.mk.inj hsame.name
  rw [keyWord, keyWord, inv, inv, hsame.ts, hchat, hid]

theorem Record.Covers.tokenKeys (hcov : record.Covers tables old) (key : Key)
    (hkey : key ∈ Index.tokenKeys tables old) : key ∈ Index.tokenKeys tables record := by
  obtain ⟨token, htoken, rfl⟩ := mem_map.mp hkey
  exact mem_map.mpr ⟨token, hcov.tokens token htoken, (hcov.keys.tokenKey token).symm⟩

variable {records : Name → Option Record}

theorem Represents.cover (hrep : Represents tables records index) (hpln : record.Plain)
    (hcov : ∀ old, records record.name = some old → record.Covers tables old) :
    Represents tables (update records record.name (some record)) (index.write tables record) := by
  apply hrep.write hpln (fun old hold => (hcov old hold).keys) []
  · intro key hkey
    exact absurd hkey not_mem_nil
  · intro old hold key hkey
    exact Or.inr ((hcov old hold).tokenKeys key hkey)

theorem Represents.rewrite
    (hrep : Represents tables records index) (hold : records old.name = some old)
    (hsame : old.SameKeys record) (hread : record.readable = true) :
    Represents tables (update records record.name (some record))
      ((index.dropTokens tables old).write tables record) := by
  obtain ⟨hchat, hid⟩ := Prod.mk.inj hsame.name
  have holdPlain := hrep.plain _ _ hold
  have hpln : record.Plain := ⟨hchat ▸ holdPlain.chat, hid ▸ holdPlain.id, hread⟩
  rw [hsame.name] at hold
  apply hrep.write hpln _ (Index.tokenKeys tables old)
  · intro key hkey
    exact ⟨old, hold, hkey⟩
  · intro stored hsto key hkey
    rw [hold] at hsto
    cases hsto
    exact Or.inl hkey
  intro stored hsto
  rw [hold] at hsto
  cases hsto
  exact hsame

theorem redact_sameKeys (eventTs : Int64) (target : Record) :
    target.SameKeys (redact eventTs target) :=
  ⟨rfl, rfl, rfl, rfl⟩

theorem editedBy_sameKeys (event target : Record) : target.SameKeys (Index.editedBy event target) :=
  ⟨rfl, rfl, rfl, rfl⟩

theorem attached_sameKeys (text : String) (source : Index.Source) (target : Record) :
    target.SameKeys (Index.attached text source target) := by
  cases source <;> exact ⟨rfl, rfl, rfl, rfl⟩

/-- A record that may be put: it can be found by its keys, and what is there under its name has
no other keys. -/
structure Fits (tables : Unicode) (index : Index) (record : Record) : Prop where
  plain : record.Plain
  covers : ∀ old, index.load record.chat record.id = some old → record.Covers tables old

variable (hks : Keeps tables shelf index)
include hks

theorem Keeps.load (chat id : String) : index.load chat id = shelf.records (chat, id) :=
  hks.represents.load chat id

omit hks in
theorem Keeps.store {after : Index} (hks : Keeps tables shelf index)
    (hrep : Represents tables (shelf.store record).records after)
    (hpnd : ∀ key : Key, after.pending[key]? = index.pending[key]?)
    (hsetd : record.isEvent = false → shelf.pending (keyPending record.chat record.id) = none) :
    Keeps tables (shelf.store record) after where
  represents := hrep
  pending := by
    intro key
    rw [hpnd]
    exact hks.pending key
  settled := by
    intro name stored hsto hmsg
    change update shelf.records record.name (some record) name = some stored at hsto
    rw [update_apply] at hsto
    split at hsto
    · cases hsto
      exact hsetd hmsg
    · exact hks.settled name stored hsto hmsg

theorem Keeps.wait {chat id : String} (pending : Pending) (habs : shelf.records (chat, id) = none) :
    Keeps tables (shelf.wait chat id pending) (index.setPending chat id pending) where
  represents := { hks.represents with }
  pending := by
    intro key
    change (index.pending.insert (keyPending chat id) pending)[key]? =
      update shelf.pending (keyPending chat id) (some pending) key
    rw [lookup_insert, update_apply, hks.pending]
  settled := by
    intro name stored hsto hmsg
    change shelf.records name = some stored at hsto
    change update shelf.pending (keyPending chat id) (some pending)
      (keyPending stored.chat stored.id) = none
    rw [update_of_ne]
    · exact hks.settled name stored hsto hmsg
    intro hkey
    obtain ⟨hname, hpln⟩ := hks.represents.owner hsto
    obtain ⟨hchat, hid⟩ := joined_inj hpln.chat hpln.id hkey.symm
    rw [String.toList_inj] at hchat hid
    rw [hchat, hid] at habs
    change shelf.records stored.name = none at habs
    rw [hname, hsto] at habs
    cases habs

theorem Keeps.rewrite (reactions : ExtTreeMap Key Reaction)
    (hold : shelf.records old.name = some old) (hsame : old.SameKeys record)
    (hread : record.readable = true) :
    Keeps tables (shelf.store record)
      ((({ index with reactions := reactions } : Index).dropTokens tables old).write tables
        record) := by
  have hshown : Represents tables shelf.records { index with reactions := reactions } :=
    { hks.represents with }
  have hrew := hshown.rewrite hold hsame hread
  apply hks.store hrew (fun _ => rfl)
  intro hmsg
  obtain ⟨hchat, hid⟩ := Prod.mk.inj hsame.name
  rw [← hchat, ← hid]
  apply hks.settled old.name old hold
  rw [Record.isEvent, hsame.kind]
  exact hmsg

theorem Keeps.applyEdit (event : Record) :
    Keeps tables (shelf.applyEdit event) (index.applyEdit tables event) := by
  rw [Shelf.applyEdit, Index.applyEdit, hks.load]
  split
  · exact hks
  cases htgt : shelf.records (event.chat, event.target) with
  | none => exact hks.wait _ htgt
  | some target =>
    dsimp only
    split
    · exact hks
    obtain ⟨hname, hpln⟩ := hks.represents.owner htgt
    rw [← hname] at htgt
    exact hks.rewrite index.reactions htgt (editedBy_sameKeys event target) hpln.readable

theorem Keeps.applyDelete (event : Record) :
    Keeps tables (shelf.applyDelete event) (index.applyDelete tables event) := by
  rw [Shelf.applyDelete, Index.applyDelete, hks.load]
  split
  · exact hks
  cases htgt : shelf.records (event.chat, event.target) with
  | none => exact hks.wait _ htgt
  | some target =>
    rw [← (hks.represents.owner htgt).1] at htgt
    have hread : (redact event.ts target).readable = true := rfl
    exact hks.rewrite
      (eraseAll (scanUnder (reactionPrefix event.chat event.target) 64 index.reactions)
        index.reactions) htgt (redact_sameKeys event.ts target) hread

theorem Keeps.attachText (chat id text : String) (source : Index.Source) :
    Keeps tables (shelf.attachText chat id text source)
      (index.attachText tables chat id text source).2 := by
  rw [Shelf.attachText, Index.attachText, hks.load]
  cases hrec : shelf.records (chat, id) with
  | none => exact hks
  | some record =>
    dsimp only
    split
    · exact hks
    obtain ⟨hname, hpln⟩ := hks.represents.owner hrec
    rw [← hname] at hrec
    apply hks.rewrite index.reactions hrec (attached_sameKeys text source record)
    cases source <;> exact hpln.readable

theorem Keeps.settled_covers (hfits : Fits tables index record) (hmsg : record.isEvent = false)
    (old : Record) (hold : shelf.records record.name = some old) :
    (Index.settled (shelf.pending (keyPending record.chat record.id)) record).Covers tables old := by
  have hcov := hfits.covers old ((hks.load record.chat record.id).trans hold)
  have hsame := hcov.keys
  obtain ⟨hchat, hid⟩ := Prod.mk.inj hsame.name
  have hpnd := hks.settled _ old hold (by
    rw [Record.isEvent, hsame.kind]
    exact hmsg)
  rw [hchat, hid] at hpnd
  rw [hpnd]
  exact hcov

omit hks in
theorem settled_name (pending : Option Pending) (record : Record) :
    (Index.settled pending record).name = record.name := by
  cases pending with
  | none => rfl
  | some pending =>
    rw [Index.settled]
    split
    · split <;> rfl
    · split <;> rfl

omit hks in
theorem settled_readable (pending : Option Pending) (hread : record.readable = true) :
    (Index.settled pending record).readable = true := by
  cases pending with
  | none => exact hread
  | some pending =>
    rw [Index.settled]
    split
    · split <;> exact hread
    · split
      · rfl
      · exact hread

theorem Keeps.unwait (key : Key) :
    Keeps tables { shelf with pending := update shelf.pending key none }
      { index with pending := index.pending.erase key } where
  represents := { hks.represents with }
  pending := by
    intro other
    change (index.pending.erase key)[other]? = update shelf.pending key none other
    rw [lookup_erase, update_apply, hks.pending]
  settled := by
    intro name stored hsto hmsg
    change update shelf.pending key none (keyPending stored.chat stored.id) = none
    rw [update_apply]
    split
    · rfl
    · exact hks.settled name stored hsto hmsg

omit hks in
theorem putMessage_eq (tables : Unicode) {pending : Option Pending}
    (hpnd : index.pending[keyPending record.chat record.id]? = pending) :
    index.putMessage tables record =
      ({ index with pending := index.pending.erase (keyPending record.chat record.id) } : Index
        ).write tables (Index.settled pending record) := by
  rw [Index.putMessage, hpnd]
  cases pending with
  | some pending => rfl
  | none =>
    have hsame : index.pending.erase (keyPending record.chat record.id) = index.pending := by
      apply ExtTreeMap.ext_getElem?
      intro other
      rw [lookup_erase]
      split
      · next hoth => rw [hoth, hpnd]
      · rfl
    rw [hsame]

variable (hfits : Fits tables index record)
include hfits

theorem Keeps.putMessage (hmsg : record.isEvent = false) :
    Keeps tables (shelf.putMessage record) (index.putMessage tables record) := by
  have hcov := hks.settled_covers hfits hmsg
  let key := keyPending record.chat record.id
  let written := Index.settled (shelf.pending key) record
  have hname : written.name = record.name := settled_name _ record
  obtain ⟨hchat, hid⟩ := Prod.mk.inj hname
  have hunw := hks.unwait key
  have hidx := putMessage_eq tables (hks.pending key)
  rw [Shelf.putMessage, hidx]
  apply hunw.store
  · have hpln : written.Plain :=
      ⟨hchat ▸ hfits.plain.chat, hid ▸ hfits.plain.id, settled_readable _ hfits.plain.readable⟩
    apply hunw.represents.cover hpln
    intro old hold
    rw [hname] at hold
    exact hcov old hold
  · intro other
    rfl
  intro _
  change update shelf.pending key none (keyPending written.chat written.id) = none
  rw [hchat, hid]
  exact update_self _ _ _

theorem Keeps.event (hev : record.isEvent = true) :
    Keeps tables (shelf.store record) (index.write tables record) := by
  apply hks.store
  · apply hks.represents.cover hfits.plain
    intro old hold
    exact hfits.covers old ((hks.load record.chat record.id).trans hold)
  · intro key
    rfl
  · intro hmsg
    rw [hev] at hmsg
    cases hmsg

omit hfits in
theorem Keeps.reactions (reactions : ExtTreeMap Key Reaction) :
    Keeps tables shelf { index with reactions := reactions } where
  represents := { hks.represents with }
  pending := hks.pending
  settled := hks.settled

theorem Keeps.putReaction (hev : record.isEvent = true) :
    Keeps tables (shelf.store record) (index.putReaction tables record) := by
  have hwrn := hks.event hfits hev
  rw [Index.putReaction]
  dsimp only
  split
  · exact hwrn
  · split
    · exact hwrn.reactions _
    · exact hwrn.reactions _

theorem Keeps.put : Keeps tables (shelf.put record) (index.put tables record) := by
  rw [Shelf.put, Index.put]
  split
  · next hkind =>
    apply hks.putReaction hfits
    rw [Record.isEvent, hkind]
    rfl
  rename_i hreac
  split
  · next hkind =>
    apply (hks.event hfits _).applyEdit
    rw [Record.isEvent, hkind]
    rfl
  rename_i hedit
  split
  · next hkind =>
    apply (hks.event hfits _).applyDelete
    rw [Record.isEvent, hkind]
    rfl
  rename_i hdel
  apply hks.putMessage hfits
  rw [Record.isEvent, beq_false_of_ne hreac, beq_false_of_ne hedit, beq_false_of_ne hdel]
  rfl

end Simulation

end WasmAgent.Whatsapp
