import WasmAgent.Whatsapp.Words

/-!
# Messages that were taken back

A deleted message keeps none of its text, and no word of the index is one that was taken back: as
long as no edit with words is of a message that is deleted, no edit without words finds the
message missing, and a message that is stored is not put again with its text.
-/

namespace WasmAgent.Whatsapp

open List Function Std WasmAgent.Core

/-- Nothing in the index carries words that were taken back. -/
structure Forgotten (tables : Unicode) (ops : List Op) (index : Index) : Prop where
  bare : ∀ record, index.Stores record → record.isEvent = false →
    Deleted ops record.chat record.id → record.Bare
  records : ∀ record, index.Stores record → ∀ part ∈ record.parts, part ≠ "" →
    Explained ops ops record.name part
  pending : ∀ (key : Key) (pending : Pending), index.pending[key]? = some pending →
    pending.text ≠ "" → Awaited ops ops key pending.text
  tokens : ∀ key : Key, key ∈ index.tokens → ∃ record, index.Stores record ∧
    ∃ token ∈ record.tokens tables, key = keyWord token record.ts record.id record.chat

structure Heeds (past : List Op) (index : Index) (record : Record) : Prop where
  /-- An edit of a deleted message has no words, and finds the message. -/
  edit : record.kind = "edit" → Deleted past record.chat record.target →
    record.Wordless ∧ index.load record.chat record.target ≠ none
  /-- A message is not deleted after an edit with words. -/
  delete : record.kind = "delete" → record.target ≠ "" → ∀ edit, Op.put edit ∈ past →
    edit.kind = "edit" → edit.chat = record.chat → edit.target = record.target → edit.Wordless
  /-- A deleted message is put again only as the revoke left it. -/
  message : record.isEvent = false → Deleted past record.chat record.id →
    index.load record.chat record.id ≠ none → record.Bare

def Op.Heeds (tables : Unicode) (past : List Op) : Op → Prop
  | put record => Whatsapp.Fits tables (runAll tables past) record ∧
      Whatsapp.Heeds past (runAll tables past) record
  | attach _ _ _ _ => True
  | _ => False

section Runs

variable {tables : Unicode} {ops : List Op} {op : Op} {shelf : Shelf} {index : Index}
  {record : Record}

theorem quiet_of_kind (hkind : record.kind ≠ "delete") (chat id : String) :
    ¬ (Op.put record).Revokes chat id :=
  fun hrvk => hkind hrvk.1

theorem Settles.put (hsets : Settles ops ops shelf) (hks : Keeps tables shelf index)
    (hfits : Fits tables index record) (hheeds : Heeds ops index record) :
    Settles (ops ++ [Op.put record]) (ops ++ [Op.put record]) (shelf.put record) := by
  have hput : Op.put record ∈ ops ++ [Op.put record] := mem_append_right _ (mem_singleton_self _)
  have hnow : Settles (ops ++ [Op.put record]) ops shelf := by
    apply hsets.concat
    intro other hoth
    cases hoth
    exact hfits.plain.chat
  rw [Shelf.put]
  split
  · next hkind =>
    have hkept : ¬ TakenBack ops record := by
      rintro (⟨hmsg, _⟩ | ⟨hedit, _⟩)
      · rw [Record.isEvent, hkind] at hmsg
        cases hmsg
      · rw [hkind] at hedit
        exact absurd hedit (by decide)
    have hrow := hnow.row hput (by rw [Record.isEvent, hkind]; rfl) (fun h => absurd h hkept)
    exact hrow.quiet hput (quiet_of_kind (by rw [hkind]; decide))
  split
  · next hkind =>
    have hev : record.isEvent = true := by
      rw [Record.isEvent, hkind]
      rfl
    have hrow : Settles (ops ++ [Op.put record]) ops (shelf.store record) := by
      apply hnow.row hput hev
      rintro (⟨hmsg, _⟩ | ⟨_, hdel⟩)
      · rw [hev] at hmsg
        cases hmsg
      · exact (hheeds.edit hkind hdel).1
    have hedited := hrow.applyEdit (hks.event hfits hev) hput hkind (by
      intro hdel
      obtain ⟨hwor, hfnd⟩ := hheeds.edit hkind hdel
      refine ⟨hwor, ?_⟩
      rw [hks.load] at hfnd
      change update shelf.records record.name (some record) (record.chat, record.target) ≠ none
      rw [update_apply]
      split
      · exact Option.some_ne_none record
      · exact hfnd)
    exact hedited.quiet hput (quiet_of_kind (by rw [hkind]; decide))
  split
  · next hkind =>
    have hev : record.isEvent = true := by
      rw [Record.isEvent, hkind]
      rfl
    have hrow : Settles (ops ++ [Op.put record]) ops (shelf.store record) := by
      apply hnow.row hput hev
      rintro (⟨hmsg, _⟩ | ⟨hedit, _⟩)
      · rw [hev] at hmsg
        cases hmsg
      · rw [hkind] at hedit
        exact absurd hedit (by decide)
    apply hrow.applyDelete (hks.event hfits hev) hput
    intro htgt edit hedit hkindEdit
    rcases mem_append.mp hedit with hbef | hself
    · exact hheeds.delete hkind htgt edit hbef hkindEdit
    · cases mem_singleton.mp hself
      rw [hkind] at hkindEdit
      exact absurd hkindEdit (by decide)
  · next hreac hedit hdelete =>
    have hmsg : record.isEvent = false := by
      rw [Record.isEvent, beq_false_of_ne hreac, beq_false_of_ne hedit, beq_false_of_ne hdelete]
      rfl
    have hland := hnow.putMessage hks hput hmsg hfits (by
      intro hdel hfnd
      apply hheeds.message hmsg hdel
      rw [hks.load]
      exact hfnd)
    exact hland.quiet hput (quiet_of_kind hdelete)

theorem Settles.step (hsets : Settles ops ops shelf)
    (hks : Keeps tables shelf (runAll tables ops)) (hheeds : op.Heeds tables ops) :
    ∃ shelf', Keeps tables shelf' (runAll tables (ops ++ [op])) ∧
      Settles (ops ++ [op]) (ops ++ [op]) shelf' := by
  rw [runAll_concat]
  cases op with
  | put record => exact ⟨_, hks.put hheeds.1, hsets.put hks hheeds.1 hheeds.2⟩
  | attach chat id text source =>
    have hatt : Op.attach chat id text source ∈ ops ++ [Op.attach chat id text source] :=
      mem_append_right _ (mem_singleton_self _)
    have hnow : Settles (ops ++ [Op.attach chat id text source]) ops shelf := by
      apply hsets.concat
      intro other hoth
      cases hoth
    have hattac := hnow.attachText hks hatt
    exact ⟨_, hks.attachText chat id text source, hattac.quiet hatt (fun _ _ hrvk => hrvk)⟩
  | prune | repair => exact hheeds.elim

def AllHeed (tables : Unicode) : List Op → Prop :=
  Throughout (fun before op => op.Heeds tables before)

theorem settles_of_run (hheed : AllHeed tables ops) :
    ∃ shelf, Keeps tables shelf (runAll tables ops) ∧ Settles ops ops shelf := by
  induction ops using reverseRecOn with
  | nil => exact ⟨_, keeps_empty tables, settles_empty⟩
  | append_singleton ops op ih =>
    obtain ⟨shelf, hks, hsets⟩ := ih hheed.init
    exact hsets.step hks hheed.last

/-- After every run whose operations heed what was taken back, nothing that was taken back is
in the index. -/
theorem forgotten_of_run (hheed : AllHeed tables ops) :
    Forgotten tables ops (runAll tables ops) := by
  obtain ⟨shelf, hkeeps, hsettles⟩ := settles_of_run hheed
  constructor
  · intro record hstores hmessage hdeleted
    exact hsettles.bare _ record (hkeeps.stores_iff.mp hstores) hmessage hdeleted
  · intro record hstores
    exact hsettles.records _ record (hkeeps.stores_iff.mp hstores)
  · intro key pending hpending
    rw [hkeeps.pending] at hpending
    exact hsettles.pending key pending hpending
  · intro key hkey
    exact (hkeeps.exact.tokens key).mp hkey

def revoke : Record :=
  { chat := "ana", id := "r", sender := "ana", kind := "delete", ts := 2000, target := "a" }

def edit : Record :=
  { chat := "ana", id := "e", sender := "ana", kind := "edit", ts := 90000001, target := "b",
    text := "de nada" }

def exchanged : List Op :=
  [.put revoke, .put firstMessage, .put revoke, .attach "ana" "a" "segredo" .ocr,
    .put secondMessage, .put edit]

theorem heeds_message {past : List Op} (hmsg : record.isEvent = false)
    (hload : index.load record.chat record.id = none) : Heeds past index record where
  edit := by
    intro hkind
    rw [Record.isEvent, hkind] at hmsg
    cases hmsg
  delete := by
    intro hkind
    rw [Record.isEvent, hkind] at hmsg
    cases hmsg
  message := fun _ _ hfnd => absurd hload hfnd

theorem heeds_delete {past : List Op} (hkind : record.kind = "delete")
    (hedits : ∀ edit, Op.put edit ∈ past → edit.kind ≠ "edit") : Heeds past index record where
  edit := by
    intro hedit
    rw [hkind] at hedit
    exact absurd hedit (by decide)
  delete := fun _ _ edit hput hedit => absurd hedit (hedits edit hput)
  message := by
    intro hmsg
    rw [Record.isEvent, hkind] at hmsg
    cases hmsg

theorem allHeed_exchanged : AllHeed asciiTables exchanged := by
  have hplainRevoke : revoke.Plain := ⟨by decide +kernel, by decide +kernel, rfl⟩
  have hplainEdit : edit.Plain := ⟨by decide +kernel, by decide +kernel, rfl⟩
  have hplainFirst : firstMessage.Plain := ⟨by decide +kernel, by decide +kernel, rfl⟩
  have hplainSecond : secondMessage.Plain := ⟨by decide +kernel, by decide +kernel, rfl⟩
  have hone : AllHeed asciiTables [.put revoke] :=
    (throughout_nil _).concat ⟨fits_of_load hplainRevoke (by decide +kernel),
      heeds_delete rfl fun _ hput => absurd hput not_mem_nil⟩
  have htwo : AllHeed asciiTables [.put revoke, .put firstMessage] :=
    hone.concat ⟨fits_of_load hplainFirst (by decide +kernel),
      heeds_message rfl (by decide +kernel)⟩
  have hthree : AllHeed asciiTables [.put revoke, .put firstMessage, .put revoke] := by
    apply htwo.concat
    refine ⟨fits_of_load hplainRevoke (by decide +kernel), heeds_delete rfl ?_⟩
    intro other hput
    simp only [mem_cons, Op.put.injEq, not_mem_nil, or_false] at hput
    rcases hput with rfl | rfl <;> decide
  have hfour : AllHeed asciiTables
      [.put revoke, .put firstMessage, .put revoke, .attach "ana" "a" "segredo" .ocr] :=
    hthree.concat trivial
  have hfive : AllHeed asciiTables
      [.put revoke, .put firstMessage, .put revoke, .attach "ana" "a" "segredo" .ocr,
        .put secondMessage] :=
    hfour.concat ⟨fits_of_load hplainSecond (by decide +kernel),
      heeds_message rfl (by decide +kernel)⟩
  apply hfive.concat
  refine ⟨fits_of_load hplainEdit (by decide +kernel), ?_, ?_, ?_⟩
  · rintro _ ⟨op, hop, hrvk⟩
    simp only [mem_cons, not_mem_nil, or_false] at hop
    rcases hop with rfl | rfl | rfl | rfl | rfl
    · exact absurd hrvk.2.2.1 (by decide)
    · exact absurd hrvk.1 (by decide)
    · exact absurd hrvk.2.2.1 (by decide)
    · exact hrvk.elim
    · exact absurd hrvk.1 (by decide)
  · intro hkind
    exact absurd hkind (by decide)
  · intro hmsg
    exact absurd hmsg (by decide)

theorem forgotten_exchanged : Forgotten asciiTables exchanged (runAll asciiTables exchanged) :=
  forgotten_of_run allHeed_exchanged

/-- A message that is delivered again after its revoke has its text again. -/
theorem redelivered_after_revoke :
    ¬ Forgotten asciiTables [.put firstMessage, .put revoke, .put firstMessage]
      (runAll asciiTables [.put firstMessage, .put revoke, .put firstMessage]) := by
  intro hforgotten
  have hbare := hforgotten.bare firstMessage
    ⟨keyMessage "ana" (inv 1000) "a", by decide +kernel⟩ rfl
    ⟨.put revoke, mem_cons_of_mem _ mem_cons_self, rfl, rfl, rfl, by decide⟩
  exact Bool.false_ne_true hbare.deleted

end Runs

end WasmAgent.Whatsapp
