import WasmAgent.Whatsapp.Runs

/-!
# Words and the operations that gave them

What the records say is traced to the operations that said it, and to those that took it back.
-/

namespace WasmAgent.Whatsapp

open List Function Std WasmAgent.Core

/-- Everything in words that a record carries. -/
def Record.parts (record : Record) : List String :=
  [record.text, record.transcript, record.ocr] ++
    record.media.toList.flatMap (fun media => [media.filename, media.mime]) ++
    record.place.toList.flatMap (fun place => [place.name, place.address]) ++
    record.poll.toList.flatMap (fun poll => poll.name :: poll.options) ++
    record.contacts.map Contact.name

def Record.Wordless (record : Record) : Prop := ∀ part ∈ record.parts, part = ""

def Record.Bare (record : Record) : Prop := redact record.eventTs record = record

/-- A delete of the message.  One without a target names no message. -/
def Op.Revokes (chat id : String) : Op → Prop
  | put record => record.kind = "delete" ∧ record.chat = chat ∧ record.target = id ∧ id ≠ ""
  | _ => False

def Deleted (ops : List Op) (chat id : String) : Prop := ∃ op ∈ ops, op.Revokes chat id

def TakenBack (ops : List Op) (record : Record) : Prop :=
  (record.isEvent = false ∧ Deleted ops record.chat record.id) ∨
    (record.kind = "edit" ∧ Deleted ops record.chat record.target)

def Explained (ops past : List Op) (name : Name) (part : String) : Prop :=
  (∃ record, Op.put record ∈ ops ∧ ¬ TakenBack past record ∧ record.chat = name.1 ∧
    ((record.id = name.2 ∧ part ∈ record.parts) ∨
      (record.kind = "edit" ∧ record.target = name.2 ∧ part = record.text))) ∨
    ∃ text source, Op.attach name.1 name.2 text source ∈ ops ∧
      part = String.ofList (text.toList.take maxText)

def Awaited (ops past : List Op) (key : Key) (text : String) : Prop :=
  ∃ edit, Op.put edit ∈ ops ∧ edit.kind = "edit" ∧ ¬ TakenBack past edit ∧
    key = keyPending edit.chat edit.target ∧ text = edit.text

section Words

variable {record : Record} {part : String}

theorem text_mem_parts (record : Record) : record.text ∈ record.parts := by
  simp [Record.parts, mem_append]

theorem Record.Bare.wordless (hbare : record.Bare) : record.Wordless := by
  intro part hpart
  rw [← hbare] at hpart
  simpa [Record.parts, redact] using hpart

theorem Record.Bare.deleted (hbare : record.Bare) : record.deleted = true := by
  rw [← hbare]
  rfl

theorem redact_bare (eventTs : Int64) (record : Record) : (redact eventTs record).Bare := rfl

theorem editedBy_parts {event target : Record}
    (hpart : part ∈ (Index.editedBy event target).parts) :
    part = event.text ∨ part ∈ target.parts := by
  simp only [Record.parts, Index.editedBy, mem_append, mem_cons] at hpart ⊢
  tauto

theorem attached_parts {text : String} {source : Index.Source} {target : Record}
    (hpart : part ∈ (Index.attached text source target).parts) :
    part = String.ofList (text.toList.take maxText) ∨ part ∈ target.parts := by
  cases source with
  | transcript =>
    simp only [Record.parts, Index.attached, mem_append, mem_cons] at hpart ⊢
    tauto
  | ocr =>
    simp only [Record.parts, Index.attached, mem_append, mem_cons] at hpart ⊢
    tauto

theorem settled_parts {pending : Option Pending}
    (hpart : part ∈ (Index.settled pending record).parts) (hne : part ≠ "") :
    part ∈ record.parts ∨ ∃ waiting, pending = some waiting ∧ part = waiting.text := by
  cases pending with
  | none => exact .inl hpart
  | some waiting =>
    rw [Index.settled] at hpart
    split at hpart
    · split at hpart
      · exact .inl hpart
      · simp only [Record.parts, mem_append, mem_cons] at hpart ⊢
        have hsame : some waiting = some waiting := rfl
        tauto
    · split at hpart
      · exact absurd ((redact_bare waiting.ts record).wordless part hpart) hne
      · exact .inl hpart

theorem joined_left_inj {left right first second : Key} (hlt : '/' ∉ left)
    (hfst : '/' ∉ first) (hsame : joined left right = joined first second) :
    left = first ∧ right = second := by
  rw [joined, joined] at hsame
  have hspl := congrArg (splitOn '/') hsame
  rw [splitOn_append_cons_self_of_not_mem hlt, splitOn_append_cons_self_of_not_mem hfst] at hspl
  obtain ⟨rfl, _⟩ := cons.inj hspl
  exact ⟨rfl, (cons.inj (append_cancel_left hsame)).2⟩

theorem keyPending_inj {chat id other target : String} (hchat : '/' ∉ chat.toList)
    (hoth : '/' ∉ other.toList) (hsame : keyPending chat id = keyPending other target) :
    chat = other ∧ id = target := by
  obtain ⟨hchats, hids⟩ := joined_left_inj hchat hoth hsame
  exact ⟨String.toList_inj.mp hchats, String.toList_inj.mp hids⟩

end Words

section History

variable {ops past : List Op} {op : Op} {chat id : String} {name : Name} {part : String}
  {record : Record}

theorem deleted_concat :
    Deleted (past ++ [op]) chat id ↔ Deleted past chat id ∨ op.Revokes chat id := by
  simp [Deleted, mem_append]

theorem Explained.concat (hexp : Explained ops past name part) :
    Explained (ops ++ [op]) past name part := by
  rcases hexp with ⟨record, hput, hrest⟩ | ⟨text, source, hatt, hpart⟩
  · exact .inl ⟨record, mem_append_left _ hput, hrest⟩
  · exact .inr ⟨text, source, mem_append_left _ hatt, hpart⟩

theorem Awaited.concat {key : Key} {text : String} (hawait : Awaited ops past key text) :
    Awaited (ops ++ [op]) past key text := by
  obtain ⟨edit, hput, hrest⟩ := hawait
  exact ⟨edit, mem_append_left _ hput, hrest⟩

theorem deleted_quiet (hquiet : ∀ chat id, ¬ op.Revokes chat id) :
    Deleted (past ++ [op]) = Deleted past := by
  funext chat id
  rw [deleted_concat, or_iff_left (hquiet chat id)]

end History

/-! ## The shelf -/

/-- The shelf after the operations `ops`, as far as the deletes in `past` are done. -/
structure Settles (ops past : List Op) (shelf : Shelf) : Prop where
  plain : ∀ record, Op.put record ∈ ops → '/' ∉ record.chat.toList
  earlier : ∀ op ∈ past, op ∈ ops
  bare : ∀ name record, shelf.records name = some record → record.isEvent = false →
    Deleted past name.1 name.2 → record.Bare
  waits : ∀ chat id, Deleted past chat id → shelf.records (chat, id) = none →
    ∃ pending, shelf.pending (keyPending chat id) = some pending ∧ pending.op = "delete"
  records : ∀ name record, shelf.records name = some record → ∀ part ∈ record.parts, part ≠ "" →
    Explained ops past name part
  pending : ∀ key pending, shelf.pending key = some pending → pending.text ≠ "" →
    Awaited ops past key pending.text

theorem settles_empty : Settles [] [] Shelf.empty where
  plain := fun _ hput => absurd hput not_mem_nil
  earlier := fun _ hop => hop
  bare := by
    intro _ _ hrec
    cases hrec
  waits := by
    rintro _ _ ⟨_, hop, _⟩
    exact absurd hop not_mem_nil
  records := by
    intro _ _ hrec
    cases hrec
  pending := by
    intro _ _ hpnd
    cases hpnd

section Settling

variable {ops past : List Op} {op : Op} {shelf : Shelf} {record : Record} {chat id : String}
variable (hsets : Settles ops past shelf)
include hsets

theorem Settles.plain_of_deleted (hdel : Deleted past chat id) : '/' ∉ chat.toList := by
  obtain ⟨op, hop, hrvk⟩ := hdel
  cases op with
  | put record =>
    obtain ⟨_, rfl, _⟩ := hrvk
    exact hsets.plain record (hsets.earlier _ hop)
  | attach | prune | repair => exact hrvk.elim

theorem Settles.concat (hpln : ∀ record, op = Op.put record → '/' ∉ record.chat.toList) :
    Settles (ops ++ [op]) past shelf where
  plain := by
    intro record hput
    rcases mem_append.mp hput with hbef | hnow
    · exact hsets.plain record hbef
    · exact hpln record (mem_singleton.mp hnow).symm
  earlier := fun other hoth => mem_append_left _ (hsets.earlier other hoth)
  bare := hsets.bare
  waits := hsets.waits
  records := fun name record hrec part hpart hne =>
    (hsets.records name record hrec part hpart hne).concat
  pending := fun key pending hpnd hne =>
    (hsets.pending key pending hpnd hne).concat

theorem Settles.quiet (hop : op ∈ ops)
    (hquiet : ∀ chat id, ¬ op.Revokes chat id) : Settles ops (past ++ [op]) shelf := by
  have hdel := @deleted_quiet past op hquiet
  have htkn : TakenBack (past ++ [op]) = TakenBack past := by
    funext record
    rw [TakenBack, TakenBack, hdel]
  have hexp : Explained ops (past ++ [op]) = Explained ops past := by
    funext name part
    rw [Explained, Explained, htkn]
  have hawait : Awaited ops (past ++ [op]) = Awaited ops past := by
    funext key text
    rw [Awaited, Awaited, htkn]
  constructor
  · exact hsets.plain
  · intro other hoth
    rcases mem_append.mp hoth with hbef | hnow
    · exact hsets.earlier other hbef
    · exact (mem_singleton.mp hnow) ▸ hop
  · rw [hdel]
    exact hsets.bare
  · rw [hdel]
    exact hsets.waits
  · rw [hexp]
    exact hsets.records
  · rw [hawait]
    exact hsets.pending

theorem Settles.store
    (hbare : record.isEvent = false → Deleted past record.chat record.id → record.Bare)
    (hwords : ∀ part ∈ record.parts, part ≠ "" → Explained ops past record.name part) :
    Settles ops past (shelf.store record) where
  plain := hsets.plain
  earlier := hsets.earlier
  bare := by
    intro name stored hsto
    change update shelf.records record.name (some record) name = some stored at hsto
    rw [update_apply] at hsto
    split at hsto
    · next hname =>
      cases hsto
      rw [hname]
      exact hbare
    · exact hsets.bare name stored hsto
  waits := by
    intro chat id hdel hnone
    change update shelf.records record.name (some record) (chat, id) = none at hnone
    rw [update_apply] at hnone
    split at hnone
    · cases hnone
    · exact hsets.waits chat id hdel hnone
  records := by
    intro name stored hsto
    change update shelf.records record.name (some record) name = some stored at hsto
    rw [update_apply] at hsto
    split at hsto
    · next hname =>
      cases hsto
      rw [hname]
      exact hwords
    · exact hsets.records name stored hsto
  pending := hsets.pending

theorem Settles.wait {pending : Pending}
    (hchat : '/' ∉ chat.toList) (hdelete : Deleted past chat id → pending.op = "delete")
    (htext : pending.text ≠ "" → Awaited ops past (keyPending chat id) pending.text) :
    Settles ops past (shelf.wait chat id pending) where
  plain := hsets.plain
  earlier := hsets.earlier
  bare := hsets.bare
  waits := by
    intro other target hdel hnone
    change ∃ waiting, update shelf.pending (keyPending chat id) (some pending)
      (keyPending other target) = some waiting ∧ waiting.op = "delete"
    rw [update_apply]
    split
    · next hkey =>
      obtain ⟨rfl, rfl⟩ := keyPending_inj (hsets.plain_of_deleted hdel) hchat hkey
      exact ⟨pending, rfl, hdelete hdel⟩
    · exact hsets.waits other target hdel hnone
  records := hsets.records
  pending := by
    intro key waiting hwtg
    change update shelf.pending (keyPending chat id) (some pending) key = some waiting at hwtg
    rw [update_apply] at hwtg
    split at hwtg
    · next hkey =>
      cases hwtg
      rw [hkey]
      exact htext
    · exact hsets.pending key waiting hwtg

theorem Settles.land {key : Key}
    (hkey : key = keyPending record.chat record.id) (hchat : '/' ∉ record.chat.toList)
    (hbare : record.isEvent = false → Deleted past record.chat record.id → record.Bare)
    (hwords : ∀ part ∈ record.parts, part ≠ "" → Explained ops past record.name part) :
    Settles ops past (Shelf.store record
      { shelf with pending := update shelf.pending key none }) := by
  subst hkey
  obtain ⟨hpln, hearl, hbares, hwts, hrecs, hpnd⟩ := hsets.store hbare hwords
  constructor
  · exact hpln
  · exact hearl
  · exact hbares
  · intro chat id hdel hnone
    obtain ⟨waiting, hwtg, hop⟩ := hwts chat id hdel hnone
    refine ⟨waiting, ?_, hop⟩
    change update shelf.pending (keyPending record.chat record.id) none
      (keyPending chat id) = some waiting
    rw [update_of_ne]
    · exact hwtg
    intro hkey
    obtain ⟨rfl, rfl⟩ := keyPending_inj (hsets.plain_of_deleted hdel) hchat hkey
    change update shelf.records record.name (some record) record.name = none at hnone
    rw [update_self] at hnone
    cases hnone
  · exact hrecs
  intro key waiting hwtg
  change update shelf.pending (keyPending record.chat record.id) none key = some waiting at hwtg
  rw [update_apply] at hwtg
  split at hwtg
  · cases hwtg
  · exact hpnd key waiting hwtg

omit hsets in
theorem not_takenBack_of_message (hmsg : record.isEvent = false)
    (hkept : ¬ Deleted past record.chat record.id) : ¬ TakenBack past record := by
  rintro (⟨_, hdel⟩ | ⟨hkind, _⟩)
  · exact hkept hdel
  · rw [Record.isEvent, hkind] at hmsg
    cases hmsg

omit hsets in
theorem not_takenBack_of_edit (hkind : record.kind = "edit")
    (hkept : ¬ Deleted past record.chat record.target) : ¬ TakenBack past record := by
  rintro (⟨hmsg, _⟩ | ⟨_, hdel⟩)
  · rw [Record.isEvent, hkind] at hmsg
    cases hmsg
  · exact hkept hdel

omit hsets in
theorem explained_own (hput : Op.put record ∈ ops) (hkept : ¬ TakenBack past record)
    {part : String} (hpart : part ∈ record.parts) : Explained ops past record.name part :=
  .inl ⟨record, hput, hkept, rfl, .inl ⟨rfl, hpart⟩⟩

theorem Settles.row (hput : Op.put record ∈ ops)
    (hev : record.isEvent = true) (hwor : TakenBack past record → record.Wordless) :
    Settles ops past (shelf.store record) := by
  apply hsets.store
  · intro hmsg
    rw [hev] at hmsg
    cases hmsg
  intro part hpart hne
  apply explained_own hput _ hpart
  intro htkn
  exact hne (hwor htkn part hpart)

variable {tables : Unicode} {index : Index}
variable (hks : Keeps tables shelf index) (hput : Op.put record ∈ ops)
include hks hput

theorem Settles.applyEdit (hkind : record.kind = "edit")
    (hheeds : Deleted past record.chat record.target →
      record.Wordless ∧ shelf.records (record.chat, record.target) ≠ none) :
    Settles ops past (shelf.applyEdit record) := by
  rw [Shelf.applyEdit]
  split
  · exact hsets
  cases htgt : shelf.records (record.chat, record.target) with
  | none =>
    have hkept : ¬ Deleted past record.chat record.target :=
      fun hdel => (hheeds hdel).2 htgt
    apply hsets.wait (hsets.plain record hput)
    · intro hdel
      exact absurd hdel hkept
    · intro _
      exact ⟨record, hput, hkind, not_takenBack_of_edit hkind hkept, rfl, rfl⟩
  | some target =>
    dsimp only
    split
    · exact hsets
    rename_i hlive
    have hname := (hks.represents.owner htgt).1
    have heditedName : (Index.editedBy record target).name = (record.chat, record.target) := hname
    apply hsets.store
    · intro hmsg hdel
      obtain ⟨hchat, hid⟩ := Prod.mk.inj heditedName
      rw [hchat, hid] at hdel
      exact absurd (hsets.bare _ target htgt hmsg hdel).deleted hlive
    intro part hpart hne
    rw [heditedName]
    rcases editedBy_parts hpart with htext | hbef
    · have hkept : ¬ Deleted past record.chat record.target := by
        intro hdel
        exact hne (htext.trans ((hheeds hdel).1 _ (text_mem_parts record)))
      exact .inl ⟨record, hput, not_takenBack_of_edit hkind hkept, rfl,
        .inr ⟨hkind, rfl, htext⟩⟩
    · exact hsets.records _ target htgt part hbef hne

omit hks in
theorem Settles.revoked
    (hwor : ∀ edit, Op.put edit ∈ ops → edit.kind = "edit" → edit.chat = record.chat →
      edit.target = record.target → edit.Wordless)
    (hbare : ∀ target, shelf.records (record.chat, record.target) = some target → target.Bare)
    (hwts : shelf.records (record.chat, record.target) = none →
      ∃ pending, shelf.pending (keyPending record.chat record.target) = some pending ∧
        pending.op = "delete") :
    Settles ops (past ++ [Op.put record]) shelf := by
  have hdel : ∀ chat id, Deleted (past ++ [Op.put record]) chat id →
      Deleted past chat id ∨ record.chat = chat ∧ record.target = id := by
    intro chat id hnow
    exact (deleted_concat.mp hnow).imp_right fun hrvk => ⟨hrvk.2.1, hrvk.2.2.1⟩
  -- What is newly taken back is the message itself, and edits without words.
  have htkn : ∀ other, Op.put other ∈ ops → ¬ TakenBack past other →
      TakenBack (past ++ [Op.put record]) other →
      (other.kind ≠ "edit" ∧ other.name = (record.chat, record.target)) ∨ other.Wordless := by
    rintro other hoth hkept (⟨hmsg, hnow⟩ | ⟨hkind, hnow⟩)
    · rcases hdel _ _ hnow with hbef | ⟨hchat, hid⟩
      · exact absurd (.inl ⟨hmsg, hbef⟩) hkept
      · refine .inl ⟨?_, Prod.ext hchat.symm hid.symm⟩
        intro hkind
        rw [Record.isEvent, hkind] at hmsg
        cases hmsg
    · rcases hdel _ _ hnow with hbef | ⟨hchat, hid⟩
      · exact absurd (.inr ⟨hkind, hbef⟩) hkept
      · exact .inr (hwor other hoth hkind hchat.symm hid.symm)
  constructor
  · exact hsets.plain
  · intro other hoth
    rcases mem_append.mp hoth with hbef | hnow
    · exact hsets.earlier other hbef
    · exact (mem_singleton.mp hnow) ▸ hput
  · rintro ⟨chat, id⟩ stored hsto hmsg hnow
    rcases hdel _ _ hnow with hbef | ⟨rfl, rfl⟩
    · exact hsets.bare _ stored hsto hmsg hbef
    · exact hbare stored hsto
  · intro chat id hnow hnone
    rcases hdel _ _ hnow with hbef | ⟨rfl, rfl⟩
    · exact hsets.waits chat id hbef hnone
    · exact hwts hnone
  · intro name stored hsto part hpart hne
    rcases hsets.records name stored hsto part hpart hne with
      ⟨other, hoth, hkept, hchat, hwhy⟩ | hatt
    · refine .inl ⟨other, hoth, ?_, hchat, hwhy⟩
      intro hnow
      rcases htkn other hoth hkept hnow with ⟨hkind, hname⟩ | hemp
      · rcases hwhy with ⟨hid, _⟩ | ⟨hedit, _⟩
        · have hsame : name = (record.chat, record.target) := by
            rw [← hname]
            exact Prod.ext hchat.symm hid.symm
          rw [hsame] at hsto
          exact hne ((hbare stored hsto).wordless part hpart)
        · exact hkind hedit
      · rcases hwhy with ⟨_, hmem⟩ | ⟨_, _, htext⟩
        · exact hne (hemp part hmem)
        · exact hne (htext.trans (hemp _ (text_mem_parts other)))
    · exact .inr hatt
  intro key waiting hwtg hne
  obtain ⟨edit, hedit, hkind, hkept, hkey, htext⟩ := hsets.pending key waiting hwtg hne
  refine ⟨edit, hedit, hkind, ?_, hkey, htext⟩
  intro hnow
  rcases htkn edit hedit hkept hnow with ⟨hoth, _⟩ | hemp
  · exact hoth hkind
  · exact hne (htext.trans (hemp _ (text_mem_parts edit)))

theorem Settles.applyDelete (hword : record.target ≠ "" → ∀ edit, Op.put edit ∈ ops →
      edit.kind = "edit" → edit.chat = record.chat → edit.target = record.target → edit.Wordless) :
    Settles ops (past ++ [Op.put record]) (shelf.applyDelete record) := by
  rw [Shelf.applyDelete]
  split
  · next hemp =>
    apply hsets.quiet hput
    rintro chat id ⟨_, _, rfl, hne⟩
    exact hne (String.isEmpty_iff.mp hemp)
  rename_i hne
  have hwords := hword (fun hemp => hne (String.isEmpty_iff.mpr hemp))
  cases htgt : shelf.records (record.chat, record.target) with
  | none =>
    have hwtg : Settles ops past (shelf.wait record.chat record.target ⟨"delete", "", "", [], 0⟩) :=
      hsets.wait (hsets.plain record hput) (fun _ => rfl) (fun htext => absurd rfl htext)
    apply hwtg.revoked hput hwords
    · intro target hsto
      change shelf.records (record.chat, record.target) = some target at hsto
      rw [htgt] at hsto
      cases hsto
    · intro _
      exact ⟨_, update_self _ _ _, rfl⟩
  | some target =>
    have hname : (redact record.ts target).name = (record.chat, record.target) :=
      (hks.represents.owner htgt).1
    have hsto : Settles ops past (shelf.store (redact record.ts target)) := by
      apply hsets.store
      · intro _ _
        exact redact_bare record.ts target
      · intro part hpart hwor
        exact absurd ((redact_bare record.ts target).wordless part hpart) hwor
    have hfnd : (shelf.store (redact record.ts target)).records (record.chat, record.target) =
        some (redact record.ts target) := by
      rw [← hname]
      exact update_self _ _ _
    apply hsto.revoked hput hwords
    · intro stored hsame
      rw [hfnd] at hsame
      cases hsame
      exact redact_bare record.ts target
    · intro hnone
      rw [hfnd] at hnone
      cases hnone

theorem Settles.putMessage (hmsg : record.isEvent = false) (hfits : Fits tables index record)
    (hheeds : Deleted past record.chat record.id → shelf.records record.name ≠ none → record.Bare) :
    Settles ops past (shelf.putMessage record) := by
  have hchat := hsets.plain record hput
  obtain ⟨hsameChat, hsameId⟩ := Prod.mk.inj
    (settled_name (shelf.pending (keyPending record.chat record.id)) record)
  have hbare : Deleted past record.chat record.id →
      (Index.settled (shelf.pending (keyPending record.chat record.id)) record).Bare := by
    intro hdel
    cases hsto : shelf.records record.name with
    | none =>
      obtain ⟨waiting, hwtg, hop⟩ := hsets.waits _ _ hdel hsto
      rw [hwtg, Index.settled, if_neg (by rw [hop]; decide), if_pos hop]
      exact redact_bare waiting.ts record
    | some old =>
      have hbare := hheeds hdel (by rw [hsto]; exact Option.some_ne_none old)
      have hsame := (hfits.covers old ((hks.load record.chat record.id).trans hsto)).keys
      have hnone := hks.settled _ old hsto (by
        rw [Record.isEvent, hsame.kind]
        exact hmsg)
      obtain ⟨holdChat, holdId⟩ := Prod.mk.inj hsame.name
      rw [holdChat, holdId] at hnone
      rw [hnone]
      exact hbare
  apply hsets.land
  · rw [hsameChat, hsameId]
  · rw [hsameChat]
    exact hchat
  · intro _ hdel
    rw [hsameChat, hsameId] at hdel
    exact hbare hdel
  intro part hpart hne
  rw [settled_name]
  have hkept : ¬ Deleted past record.chat record.id :=
    fun hdel => hne ((hbare hdel).wordless part hpart)
  rcases settled_parts hpart hne with hown | ⟨waiting, hwtg, rfl⟩
  · exact explained_own hput (not_takenBack_of_message hmsg hkept) hown
  obtain ⟨edit, hedit, hkind, hlive, hkey, htext⟩ := hsets.pending _ waiting hwtg hne
  obtain ⟨hsame, htgt⟩ := keyPending_inj hchat (hsets.plain edit hedit) hkey
  exact .inl ⟨edit, hedit, hlive, hsame.symm, .inr ⟨hkind, htgt.symm, htext⟩⟩

omit hput

theorem Settles.attachText
    {text : String} {source : Index.Source} (hatt : Op.attach chat id text source ∈ ops) :
    Settles ops past (shelf.attachText chat id text source) := by
  rw [Shelf.attachText]
  cases hrec : shelf.records (chat, id) with
  | none => exact hsets
  | some record =>
    dsimp only
    split
    · exact hsets
    rename_i href
    have hname : (Index.attached text source record).name = (chat, id) := by
      rw [← (attached_sameKeys text source record).name]
      exact (hks.represents.owner hrec).1
    have hkind : (Index.attached text source record).isEvent = record.isEvent := by
      rw [Record.isEvent, ← (attached_sameKeys text source record).kind]
      rfl
    apply hsets.store
    · intro hmsg hdel
      obtain ⟨hchat, hid⟩ := Prod.mk.inj hname
      rw [hchat, hid] at hdel
      rw [hkind] at hmsg
      have hgone := (hsets.bare _ record hrec hmsg hdel).deleted
      rw [hgone] at href
      exact absurd rfl href
    intro part hpart hne
    rw [hname]
    rcases attached_parts hpart with htext | hbef
    · exact .inr ⟨text, source, hatt, htext⟩
    · exact hsets.records _ record hrec part hbef hne

end Settling

end WasmAgent.Whatsapp
