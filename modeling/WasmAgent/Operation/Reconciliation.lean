import WasmAgent.Core.Maps
import WasmAgent.Core.Survival
import WasmAgent.Operation.Index

/-!
# Reconciled operations

A reconciliation hides an operation from the listing as long as it is of the state that the
index holds.  Nothing but a newer record of the operation changes that.
-/

namespace WasmAgent.Operation

open List Option Std.ExtTreeMap Std WasmAgent.Core

def Write.recorded : Write → Option String
  | .record _ state => (state.field "operation_id").asStr
  | _ => none

variable {after : Index}

section Frames

variable {serde : Serde} {world : World} {id : String}

structure Stays (id : String) (before after : Index) : Prop where
  row : ∀ row : Row, before.operations[id]? = some row → after.operations[id]? = some row
  reconciliation : ∀ reconciliation : Reconciliation,
    before.reconciliations[id]? = some reconciliation →
      after.reconciliations[id]? = some reconciliation

theorem Stays.refl (index : Index) : Stays id index index :=
  ⟨fun _ hrow => hrow, fun _ hrec => hrec⟩

theorem Stays.trans {first second third : Index} (hfst : Stays id first second)
    (hsnd : Stays id second third) : Stays id first third :=
  ⟨fun row hrow => hsnd.row row (hfst.row row hrow),
    fun found hfnd => hsnd.reconciliation found (hfst.reconciliation found hfnd)⟩

theorem Stays.frame {before changed : Index} (hstays : Stays id before after)
    (hoper : changed.operations = after.operations)
    (hrecon : changed.reconciliations = after.reconciliations) : Stays id before changed := by
  apply Stays.mk
  · rw [hoper]
    exact hstays.row
  · rw [hrecon]
    exact hstays.reconciliation

theorem getElem?_insertIfNew_of_some {Value : Type} {table : ExtTreeMap String Value}
    {value : Value} (hval : table[id]? = some value) (key : String) (other : Value) :
    (table.insertIfNew key other)[id]? = some value := by
  rw [getElem?_insertIfNew, if_neg, hval]
  intro hnew
  rw [Std.compare_eq_iff_eq.mp hnew.1] at hnew
  apply hnew.2
  exact mem_iff_isSome_getElem?.mpr (isSome_iff_exists.mpr ⟨value, hval⟩)

theorem getElem?_foldl_keepRow {operations : ExtTreeMap String Row} {row : Row}
    (hrow : operations[id]? = some row) (rows : List (String × Row)) :
    (rows.foldl Index.keepRow operations)[id]? = some row := by
  induction rows generalizing operations with
  | nil => exact hrow
  | cons first rest ih => exact ih (getElem?_insertIfNew_of_some hrow first.1 first.2)

open Session

theorem moves_note (action key evidence : String) (answer : Except String Unit) :
    Moves (Stays id) (Session.write answer (Index.note action key evidence)) :=
  Moves.write answer fun _ _ hstays => hstays.frame rfl rfl

theorem moves_record {state : Json} (hoth : (state.field "operation_id").asStr ≠ some id) :
    Moves (Stays id) (Index.record serde world state) := by
  rw [Index.record]
  cases hid : (state.field "operation_id").asStr with
  | none => exact Moves.lift _
  | some other =>
    apply Moves.execute
    intro origin index hstays
    refine ⟨?_, hstays.reconciliation⟩
    intro row hrow
    dsimp only
    rw [getElem?_insert_of_ne]
    · exact hstays.row row hrow
    · intro hsame
      rw [hsame] at hid
      exact hoth hid

theorem moves_importStates (evidence : String) :
    Moves (Stays id) (Index.importStates serde world evidence) := by
  rw [Index.importStates]
  split
  · exact Moves.lift _
  apply Moves.bind (Moves.start _)
  intro _
  apply Moves.bind (Moves.lift _)
  intro rows
  apply Moves.bind
  · apply Moves.write
    intro origin index hstays
    refine ⟨?_, hstays.reconciliation⟩
    intro row hrow
    exact getElem?_foldl_keepRow (hstays.row row hrow) rows
  intro _
  apply Moves.bind (Moves.write _ fun _ _ hstays => hstays.frame rfl rfl)
  intro _
  apply Moves.bind (moves_note _ _ _ _)
  intro _
  exact Moves.bind (Moves.commit _) fun _ => Moves.done _

variable (args : Json)

theorem moves_adjudicateLegacy : Moves (Stays id) (Index.adjudicateLegacy serde world args) := by
  rw [Index.adjudicateLegacy]
  apply Moves.bind (Moves.lift _)
  intro receipt
  apply Moves.bind (Moves.lift _)
  intro found
  apply Moves.bind (Moves.start _)
  intro _
  apply Moves.bind (Moves.lift _)
  intro _
  apply Moves.bind Moves.tables
  intro index
  apply Moves.bind (Moves.lift _)
  intro row
  split
  · exact Moves.lift _
  split
  · apply Moves.bind (Moves.lift _)
    intro bundle
    split
    · exact Moves.lift _
    · exact Moves.lift _
  apply Moves.bind (Moves.lift _)
  intro _
  apply Moves.bind (Moves.write _ fun _ _ hstays => hstays.frame rfl rfl)
  intro _
  apply Moves.bind (moves_note _ _ _ _)
  intro _
  exact Moves.bind (Moves.commit _) fun _ => Moves.done _

theorem moves_quarantineRetire : Moves (Stays id) (Index.quarantineRetire serde world args) := by
  rw [Index.quarantineRetire]
  apply Moves.bind (Moves.lift _)
  intro receipt
  apply Moves.bind (Moves.lift _)
  intro found
  apply Moves.bind (Moves.lift _)
  intro _
  apply Moves.bind (Moves.start _)
  intro _
  apply Moves.bind (Moves.lift _)
  intro _
  apply Moves.bind Moves.tables
  intro index
  apply Moves.bind (Moves.lift _)
  intro row
  apply Moves.bind (Moves.lift _)
  intro state
  split
  · exact Moves.lift _
  split
  · apply Moves.bind (Moves.lift _)
    intro old
    split
    · exact Moves.lift _
    · exact Moves.done _
  apply Moves.bind (Moves.lift _)
  intro _
  apply Moves.bind (Moves.write _ fun _ _ hstays => hstays.frame rfl rfl)
  intro _
  apply Moves.bind (moves_note _ _ _ _)
  intro _
  exact Moves.bind (Moves.commit _) fun _ => Moves.done _

theorem moves_reconcile : Moves (Stays id) (Index.reconcile serde world args) := by
  rw [Index.reconcile]
  apply Moves.bind (Moves.lift _)
  intro settled
  apply Moves.bind (Moves.start _)
  intro _
  apply Moves.bind (Moves.lift _)
  intro again
  split
  · exact Moves.lift _
  apply Moves.bind (Moves.lift _)
  intro _
  apply Moves.bind Moves.tables
  intro index
  split
  · exact Moves.lift _
  apply Moves.bind
  · apply Moves.write
    intro origin index hstays
    refine ⟨hstays.row, ?_⟩
    intro found hfnd
    exact getElem?_insertIfNew_of_some (hstays.reconciliation found hfnd) _ _
  intro _
  apply Moves.bind (moves_note _ _ _ _)
  intro _
  exact Moves.bind (Moves.commit _) fun _ => Moves.done _

theorem Stays.step {write : Write} (hoth : write.recorded ≠ some id) (index : Index) :
    Stays id index (index.step serde write) := by
  cases write with
  | record world state => exact (moves_record hoth).run index (Stays.refl index)
  | importStates world evidence => exact (moves_importStates evidence).run index (Stays.refl index)
  | adjudicateLegacy world args => exact (moves_adjudicateLegacy args).run index (Stays.refl index)
  | quarantineRetire world args => exact (moves_quarantineRetire args).run index (Stays.refl index)
  | reconcile world args => exact (moves_reconcile args).run index (Stays.refl index)

theorem Stays.run {writes : List Write} (hoths : ∀ write ∈ writes, write.recorded ≠ some id)
    (index : Index) : Stays id index (index.run serde writes) := by
  rw [Index.run]
  apply foldlRecOn (motive := fun reached => Stays id index reached)
  · exact Stays.refl index
  · intro reached hrch write hwr
    exact hrch.trans (Stays.step (hoths write hwr) reached)

end Frames

section Reconciling

open Session

variable {serde : Serde} {world : World} {args : Json} {index : Index} {id : String}

/-- A refused reconciliation commits nothing. -/
theorem undone_reconcile : Undone (Index.reconcile serde world args) := by
  rw [Index.reconcile]
  apply Undone.bind (Quiet.lift _)
  intro settled
  apply Undone.bind (Quiet.start _)
  intro _
  apply Undone.bind (Quiet.lift _)
  intro again
  split
  · exact (Quiet.lift _).undone
  apply Undone.bind (Quiet.lift _)
  intro _
  apply Undone.bind Quiet.tables
  intro index
  split
  · exact (Quiet.lift _).undone
  apply Undone.bind (Quiet.write _ _)
  intro _
  apply Undone.bind (Quiet.write _ _)
  intro _
  exact Undone.last (Undone.commit _) fun _ => settled.id

theorem reconcile_ok (hok : (Index.reconcile serde world args).run index = (.ok id, after)) :
    ∃ settled, Index.settle serde world args = .ok settled ∧ settled.id = id ∧
      id ∈ index.operations ∧ after.operations = index.operations ∧
      after.reconciliations = index.reconciliations.insertIfNew id
        ⟨serde.print settled.current, serde.print args⟩ := by
  have hans := congrArg Prod.fst hok
  have haft := congrArg Prod.snd hok
  rw [Session.run] at hans haft
  dsimp only at hans haft
  have hses : Index.reconcile serde world args ⟨index, none⟩ =
      (.ok id, (Index.reconcile serde world args ⟨index, none⟩).2) := Prod.ext hans rfl
  rw [← haft]
  generalize (Index.reconcile serde world args ⟨index, none⟩).2 = reached at hses ⊢
  rw [Index.reconcile] at hses
  obtain ⟨settled, _, hlift, hses⟩ := bind_ok hses
  obtain ⟨hset, rfl⟩ := lift_ok hlift
  obtain ⟨_, _, hsta, hses⟩ := bind_ok hses
  cases start_ok hsta
  obtain ⟨again, _, hagain, hses⟩ := bind_ok hses
  obtain ⟨-, rfl⟩ := lift_ok hagain
  split at hses
  · cases (lift_ok hses).1
  obtain ⟨_, _, hsel, hses⟩ := bind_ok hses
  obtain ⟨-, rfl⟩ := lift_ok hsel
  obtain ⟨seen, _, htbl, hses⟩ := bind_ok hses
  obtain ⟨rfl, rfl⟩ := tables_ok htbl
  split at hses
  · cases (lift_ok hses).1
  rename_i hctn
  obtain ⟨_, _, hins, hses⟩ := bind_ok hses
  cases write_ok hins
  obtain ⟨_, _, hnote, hses⟩ := bind_ok hses
  cases write_ok hnote
  obtain ⟨_, _, hcom, hses⟩ := bind_ok hses
  cases commit_ok hcom
  cases hses
  rw [Bool.not_eq_true', Bool.not_eq_false] at hctn
  exact ⟨settled, hset, rfl, hctn, rfl, rfl⟩

end Reconciling

section Listings

variable {serde : Serde} {world : World} {index : Index} {id : String} {listed : Index.Listed}

theorem listRow_operations {progress reached : Index.Listed.Progress} {entry : String × Row}
    (hok : Index.listRow serde world index progress entry = .ok reached)
    (hlst : listed ∈ reached.operations) : listed ∈ progress.operations ∨ listed.id = entry.1 := by
  rw [Index.listRow] at hok
  obtain ⟨quarantined, -, hok⟩ := bind_eq_ok.mp hok
  split at hok
  · cases hok
    exact .inl hlst
  obtain ⟨state, -, hok⟩ := bind_eq_ok.mp hok
  obtain ⟨originals, -, hok⟩ := bind_eq_ok.mp hok
  cases hok
  rw [mem_append, mem_singleton] at hlst
  exact hlst.imp_right fun heq => congrArg Index.Listed.id heq

theorem foldlM_listRow {rows : List (String × Row)} {progress reached : Index.Listed.Progress}
    (hok : rows.foldlM (Index.listRow serde world index) progress = .ok reached)
    (hlst : listed ∈ reached.operations) :
    listed ∈ progress.operations ∨ ∃ entry ∈ rows, listed.id = entry.1 := by
  induction rows generalizing progress with
  | nil =>
    cases hok
    exact .inl hlst
  | cons first rest ih =>
    rw [foldlM_cons] at hok
    obtain ⟨middle, hfst, hrest⟩ := bind_eq_ok.mp hok
    rcases ih hrest with hmid | ⟨entry, hent, heq⟩
    · rcases listRow_operations hfst hmid with hbef | heq
      · exact .inl hbef
      · exact .inr ⟨first, mem_cons_self, heq⟩
    · exact .inr ⟨entry, mem_cons_of_mem _ hent, heq⟩

theorem selects_of_relevant {cwd after : String} {limit : ℕ} {listing : Index.Listing}
    (hok : Index.relevant serde world index cwd after limit = .ok listing)
    (hlst : listed ∈ listing.operations) :
    ∃ row, index.operations[listed.id]? = some row ∧
      index.selects (pathKey world cwd) after (listed.id, row) = true := by
  rw [Index.relevant] at hok
  split at hok
  · cases hok
  obtain ⟨-, -, hok⟩ := bind_eq_ok.mp hok
  split at hok
  · cases hok
  obtain ⟨-, -, hok⟩ := bind_eq_ok.mp hok
  obtain ⟨progress, hprog, hok⟩ := bind_eq_ok.mp hok
  cases hok
  rcases foldlM_listRow hprog (mem_of_mem_take hlst) with hnone | ⟨entry, hent, heq⟩
  · cases hnone
  obtain ⟨hmem, hsel⟩ := List.mem_filter.mp (mem_of_mem_take hent)
  refine ⟨entry.2, ?_, ?_⟩
  · rw [heq]
    exact mem_toList_iff_getElem?_eq_some.mp hmem
  · rw [heq]
    exact hsel

end Listings

section Sticking

variable {serde : Serde} {world : World} {args : Json} {index : Index} {id : String}

def Agrees (serde : Serde) (world : World) (args : Json) (index : Index) : Prop :=
  ∀ settled row, Index.settle serde world args = .ok settled →
    index.operations[settled.id]? = some row → row.blocked = true →
      (index.reconciliations[settled.id]?).elim (serde.print settled.current) (·.expected) =
        row.state

theorem not_blank_of_required {name text : String}
    (hreq : Index.required args name = .ok text) : isBlank text = false := by
  rw [Index.required, Index.orError] at hreq
  cases hfil : (args.field name).asStr.filter fun text => !isBlank text with
  | none =>
    rw [hfil] at hreq
    cases hreq
  | some found =>
    rw [hfil] at hreq
    cases hreq
    have hblank := (filter_eq_some_iff.mp hfil).2
    rwa [Bool.not_eq_true'] at hblank

theorem pos_of_not_blank {text : String} (hblank : isBlank text = false) : "" < text := by
  rw [isBlank] at hblank
  change [] < text.toList
  cases hchars : text.toList with
  | nil =>
    rw [hchars] at hblank
    cases hblank
  | cons first rest => exact nil_lt_cons first rest

theorem id_pos {settled : Index.Settled} (hset : Index.settle serde world args = .ok settled) :
    "" < settled.id := by
  rw [Index.settle] at hset
  obtain ⟨name, hname, hset⟩ := bind_eq_ok.mp hset
  obtain ⟨_, -, hset⟩ := bind_eq_ok.mp hset
  obtain ⟨expected, -, hset⟩ := bind_eq_ok.mp hset
  obtain ⟨_, -, hset⟩ := bind_eq_ok.mp hset
  obtain ⟨_, -, hset⟩ := bind_eq_ok.mp hset
  obtain ⟨_, -, hset⟩ := bind_eq_ok.mp hset
  obtain ⟨raw, -, hset⟩ := bind_eq_ok.mp hset
  obtain ⟨current, -, hset⟩ := bind_eq_ok.mp hset
  split at hset
  · cases hset
  obtain ⟨boot, -, hset⟩ := bind_eq_ok.mp hset
  obtain ⟨owner, -, hset⟩ := bind_eq_ok.mp hset
  split at hset
  · cases hset
  obtain ⟨_, -, hset⟩ := bind_eq_ok.mp hset
  obtain ⟨_, -, hset⟩ := bind_eq_ok.mp hset
  cases hset
  exact pos_of_not_blank (not_blank_of_required hname)

theorem isReconciled_iff {settled : Index.Settled} {row : Row}
    (hrecon : after.reconciliations = index.reconciliations.insertIfNew id
      ⟨serde.print settled.current, serde.print args⟩) :
    after.isReconciled id row = true ↔
      (index.reconciliations[id]?).elim (serde.print settled.current) (·.expected) = row.state := by
  rw [Index.isReconciled, hrecon, getElem?_insertIfNew]
  cases hfnd : index.reconciliations[id]? with
  | none =>
    have hnew : id ∉ index.reconciliations := by
      rw [mem_iff_isSome_getElem?, hfnd]
      exact Bool.false_ne_true
    rw [if_pos ⟨Std.ReflCmp.compare_self, hnew⟩]
    exact decide_eq_true_iff
  | some reconciliation =>
    have hold : id ∈ index.reconciliations := by
      rw [mem_iff_isSome_getElem?, hfnd]
      rfl
    rw [if_neg fun hnew => hnew.2 hold]
    exact decide_eq_true_iff

variable (hok : (Index.reconcile serde world args).run index = (.ok id, after))
include hok

theorem hidden_of_agrees (hagr : Agrees serde world args index) {writes : List Write}
    (hoths : ∀ write ∈ writes, write.recorded ≠ some id) {look : World} {cwd cursor : String}
    {limit : ℕ} {listing : Index.Listing}
    (hlis : Index.relevant serde look (after.run serde writes) cwd cursor limit = .ok listing) :
    ∀ listed ∈ listing.operations, listed.id ≠ id := by
  intro listed hlst heq
  obtain ⟨settled, hset, rfl, hmem, hoper, hrecon⟩ := reconcile_ok hok
  obtain ⟨row, hrow⟩ := Option.isSome_iff_exists.mp (ExtTreeMap.mem_iff_isSome_getElem?.mp hmem)
  obtain ⟨found, hfnd, hsel⟩ := selects_of_relevant hlis hlst
  have hstays := @Stays.run serde settled.id writes hoths after
  have hsame : found = row := by
    rw [heq] at hfnd
    rw [← hoper] at hrow
    exact Option.some.inj (hfnd.symm.trans (hstays.row row hrow))
  rw [heq, hsame, Index.selects] at hsel
  simp only [Bool.and_eq_true, Bool.not_eq_true'] at hsel
  obtain ⟨⟨⟨hblk, -⟩, -⟩, hunr⟩ := hsel
  have hhid := (isReconciled_iff hrecon).mpr (hagr settled row hset hrow hblk)
  have hkept : (after.run serde writes).isReconciled settled.id row = true := by
    rw [Index.isReconciled, Option.any_eq_true] at hhid ⊢
    obtain ⟨reconciliation, hrec, hexpt⟩ := hhid
    exact ⟨reconciliation, hstays.reconciliation reconciliation hrec, hexpt⟩
  rw [hkept] at hunr
  cases hunr

theorem selects_of_not_agrees (hagr : ¬ Agrees serde world args index) :
    ∃ row, after.operations[id]? = some row ∧ after.selects "*" "" (id, row) = true := by
  obtain ⟨settled, hset, rfl, hmem, hoper, hrecon⟩ := reconcile_ok hok
  rw [Agrees] at hagr
  push Not at hagr
  obtain ⟨other, row, hoth, hrow, hblk, hexpt⟩ := hagr
  cases hset.symm.trans hoth
  have hunr : after.isReconciled settled.id row = false := by
    rw [← Bool.not_eq_true, isReconciled_iff hrecon]
    exact hexpt
  refine ⟨row, hoper ▸ hrow, ?_⟩
  rw [Index.selects, hblk, hunr]
  simp only [decide_true, Bool.true_or, Bool.and_true, Bool.true_and, Bool.not_false,
    decide_eq_true_iff]
  exact id_pos hset

omit hok

/-- A reconciliation that succeeds keeps the operation out of every listing, until a newer record
of it, when it agrees with the index; when it does not, the next listing's query selects the
operation.  One that is refused leaves the index. -/
theorem reconcile_sticks (serde : Serde) (world : World) (args : Json) (index after : Index) :
    (∀ id : String, (Index.reconcile serde world args).run index = (.ok id, after) →
      (Agrees serde world args index →
        ∀ writes : List Write, (∀ write ∈ writes, write.recorded ≠ some id) →
          ∀ look cwd cursor limit listing,
            Index.relevant serde look (after.run serde writes) cwd cursor limit = .ok listing →
            ∀ listed ∈ listing.operations, listed.id ≠ id) ∧
      (¬ Agrees serde world args index →
        ∃ row, after.operations[id]? = some row ∧ after.selects "*" "" (id, row) = true)) ∧
    ∀ fault : String, (Index.reconcile serde world args).run index = (.error fault, after) →
      after = index := by
  apply And.intro
  · intro id hok
    apply And.intro
    · intro hagrees writes hothers look cwd cursor limit listing hlisting
      exact hidden_of_agrees hok hagrees hothers hlisting
    · exact selects_of_not_agrees hok
  intro fault hfault
  have hleft := undone_reconcile.run (congrArg Prod.fst hfault)
  rw [hfault] at hleft
  exact hleft

end Sticking

section Disk

/-- The state on disk of an operation that was admitted. -/
def accepted : Json :=
  .object [("effective_cwd", .string "/work"), ("operation_id", .string "op-1"),
    ("owner_boot", .string "boot-1"), ("settled", .bool false)]

/-- The state that is recorded when the disk does not take it. -/
def unsaved : Json :=
  .object [("effective_cwd", .string "/work"), ("operation_id", .string "op-1"),
    ("owner_boot", .string "boot-1"), ("persistence_error", .string "disk full"),
    ("settled", .bool true)]

def asks : Json :=
  .object [("drain_evidence", .string "exited"), ("effect_evidence", .string "none"),
    ("evidence", .string "inspected"), ("expected_state", accepted), ("id", .string "op-1"),
    ("owner_boot", .string "boot-1")]

def texts : Serde where
  parse bytes := Index.orError ([accepted, unsaved, .array []].find? fun value =>
    utf8 (String.ofList (value.text fun _ => [])) = bytes) "expected value"
  print value := String.ofList (value.text fun _ => [])

def disk : World where
  fold := id
  database _ := .ok ()
  entries := .ok []
  state _ := .ok (utf8 (texts.print accepted))
  again _ := .ok (utf8 (texts.print accepted))
  lease _ := .free
  legacy _ := .error "legacy_original_state_moved"
  risk _ := .error "quarantine_operation_state_moved"
  owner _ _ := .ok ()

/-- The outcome was recorded in the index and not on disk: the reconciliation succeeds, and the
operation is listed. -/
theorem unsaved_state_is_listed :
    let index := Index.anew.run texts [.record disk accepted, .record disk unsaved]
    let after := ((Index.reconcile texts disk asks).run index).2
    ((Index.reconcile texts disk asks).run index).1 = .ok "op-1" ∧
      (Index.relevant texts disk after "/work" "" 1).map
        (fun listing => listing.operations.map (·.id)) = .ok ["op-1"] := by
  decide +kernel

def admitted : Index := Index.anew.run texts [.record disk accepted]

theorem admitted_agrees : Agrees texts disk asks admitted := by
  intro settled row hset hrow _
  have hid : (Index.settle texts disk asks).map (·.id) = .ok "op-1" := by decide +kernel
  have htext : (Index.settle texts disk asks).map (fun settled => texts.print settled.current) =
      .ok (texts.print accepted) := by decide +kernel
  have hnone : admitted.reconciliations["op-1"]? = none := by decide +kernel
  have hst : (admitted.operations["op-1"]?).map (·.state) = some (texts.print accepted) := by
    decide +kernel
  rw [hset] at hid htext
  have hsame : settled.id = "op-1" := Except.ok.inj hid
  rw [hsame] at hrow ⊢
  rw [hrow] at hst
  rw [hnone, elim_none]
  exact (Except.ok.inj htext).trans (Option.some.inj hst).symm

/-- An operation that was listed is not listed any more. -/
theorem reconcile_sticks_admitted :
    (Index.relevant texts disk admitted "/work" "" 1).map
        (fun listing => listing.operations.map (·.id)) = .ok ["op-1"] ∧
      ∀ listing, Index.relevant texts disk
          (((Index.reconcile texts disk asks).run admitted).2.run texts []) "/work" "" 1 =
            .ok listing →
        ∀ listed ∈ listing.operations, listed.id ≠ "op-1" :=
  ⟨by decide +kernel, fun listing hlisting =>
    ((reconcile_sticks texts disk asks admitted
      ((Index.reconcile texts disk asks).run admitted).2).1 "op-1"
        (Prod.ext (by decide +kernel) rfl)).1 admitted_agrees [] (nofun) disk "/work" "" 1 listing
          hlisting⟩

end Disk

end WasmAgent.Operation
