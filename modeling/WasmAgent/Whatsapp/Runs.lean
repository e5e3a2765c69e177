import WasmAgent.Whatsapp.Pruning

/-!
# Runs over the index

The index holds one record for each chat and id, and the keys of the records and no others, as
long as no record is put over one with other keys and a record's names do not contain the
separator.  A pass of retention then removes what it counts, and all that is stale once it
reports no more work.
-/

namespace WasmAgent.Whatsapp

open List Option Std.ExtTreeMap Std WasmAgent.Core

inductive Op where
  | put (record : Record)
  | attach (chat id text : String) (source : Index.Source)
  | prune (now : Int64) (days : UInt32) (budget : ℕ)
  | repair (budget : ℕ)

def Op.run (tables : Unicode) : Op → Index → Index
  | put record, index => index.put tables record
  | attach chat id text source, index => (index.attachText tables chat id text source).2
  | prune now days budget, index => (index.prune tables now days budget).2
  | repair budget, index => (index.repair budget).2

def Index.Stores (record : Record) (index : Index) : Prop :=
  ∃ key : Key, index.messages[key]? = some record

def Op.Fits (tables : Unicode) (index : Index) : Op → Prop
  | put record => Whatsapp.Fits tables index record
  | prune now days _ => ∀ record, index.Stores record →
      record.ts.toInt < Index.cutoff now days → 0 < Index.cutoff now days
  | _ => True

def runAll (tables : Unicode) (ops : List Op) : Index :=
  ops.foldl (fun index op => op.run tables index) Index.empty

/-- What holds of each operation and those before it. -/
def Throughout (allowed : List Op → Op → Prop) (ops : List Op) : Prop :=
  ∀ before op rest, ops = before ++ op :: rest → allowed before op

/-- Each operation fits the index that it is done to. -/
def AllFit (tables : Unicode) : List Op → Prop :=
  Throughout (fun before op => op.Fits tables (runAll tables before))

structure Exact (tables : Unicode) (index : Index) : Prop where
  own : ∀ (key : Key) (record : Record), index.messages[key]? = some record →
    key = keyMessage record.chat (inv record.ts) record.id
  one : ∀ left right, index.Stores left → index.Stores right → left.name = right.name → left = right
  ids : ∀ (key value : Key), index.ids[key]? = some value ↔
    ∃ record, index.Stores record ∧ key = keyId record.chat record.id ∧ value = inv record.ts
  ages : ∀ (key : Key) (value : String), index.ages[key]? = some value ↔
    ∃ record, index.Stores record ∧ key = keyAge record.ts record.chat record.id ∧
      value = sourceWord record
  senders : ∀ key : Key, key ∈ index.senders ↔
    ∃ record, index.Stores record ∧
      key = keyWord record.sender.toList record.ts record.id record.chat
  kinds : ∀ key : Key, key ∈ index.kinds ↔
    ∃ record, index.Stores record ∧ key = keyWord record.kind.toList record.ts record.id record.chat
  tokens : ∀ key : Key, key ∈ index.tokens ↔
    ∃ record, index.Stores record ∧
      ∃ token ∈ record.tokens tables, key = keyWord token record.ts record.id record.chat

structure Gone (tables : Unicode) (record : Record) (index : Index) : Prop where
  message : keyMessage record.chat (inv record.ts) record.id ∉ index.messages
  id : keyId record.chat record.id ∉ index.ids
  age : keyAge record.ts record.chat record.id ∉ index.ages
  sender : keyWord record.sender.toList record.ts record.id record.chat ∉ index.senders
  kind : keyWord record.kind.toList record.ts record.id record.chat ∉ index.kinds
  tokens : ∀ token ∈ record.tokens tables,
    keyWord token record.ts record.id record.chat ∉ index.tokens

/-- What a pass of retention leaves: the records that it counts were stale and are gone with all
their keys, the others are there, and none of them is stale where no more work is reported. -/
def Clears (tables : Unicode) (cutoff : Int) (index : Index) (result : Index.Pruned × Index) :
    Prop :=
  ∃ removed : List Record, removed.Nodup ∧ removed.length = result.1.records ∧
    (∀ record ∈ removed, index.Stores record ∧ record.ts.toInt < cutoff ∧
      Gone tables record result.2) ∧
    (∀ record, result.2.Stores record ↔ index.Stores record ∧ record ∉ removed) ∧
    (result.1.more = false → ∀ record, result.2.Stores record → cutoff ≤ record.ts.toInt)

section Exactness

variable {tables : Unicode} {shelf : Shelf} {index : Index} {record : Record}
variable (hks : Keeps tables shelf index)
include hks

theorem Keeps.stores_iff : index.Stores record ↔ shelf.records record.name = some record := by
  constructor
  · rintro ⟨key, hkey⟩
    obtain ⟨stored, hsto, _, hsame⟩ := family_sound hks.represents.messages hkey
    change record = stored at hsame
    rw [hsame, (hks.represents.owner hsto).1]
    exact hsto
  · intro hrec
    exact ⟨_, family_found hks.represents.messages
      (hks.represents.owns fun _ => messageFamily_owns) hrec (mem_singleton_self _)⟩

section Family

variable {Value : Type} {keysOf : Record → List Key} {valueOf : Record → Value}
  {owner : Key → Name} {table : ExtTreeMap Key Value} {key : Key}

variable (hshows : (family keysOf valueOf owner).Shows shelf.records (fun key => table[key]?))
variable (howns : ∀ record : Record, record.Plain → (family keysOf valueOf owner).Owns record.name record)
include hshows howns

theorem Keeps.entry_iff {value : Value} :
    table[key]? = some value ↔
      ∃ record, index.Stores record ∧ key ∈ keysOf record ∧ value = valueOf record := by
  constructor
  · intro hval
    obtain ⟨record, hrec, hkey, hsame⟩ := family_sound hshows hval
    refine ⟨record, hks.stores_iff.mpr ?_, hkey, hsame⟩
    rw [(hks.represents.owner hrec).1]
    exact hrec
  · rintro ⟨record, hstor, hkey, rfl⟩
    exact family_found hshows (hks.represents.owns howns) (hks.stores_iff.mp hstor) hkey

theorem Keeps.mem_iff : key ∈ table ↔ ∃ record, index.Stores record ∧ key ∈ keysOf record := by
  rw [mem_iff_isSome_getElem?, isSome_iff_exists]
  constructor
  · rintro ⟨value, hval⟩
    obtain ⟨record, hstor, hkey, _⟩ := (hks.entry_iff hshows howns).mp hval
    exact ⟨record, hstor, hkey⟩
  · rintro ⟨record, hstor, hkey⟩
    exact ⟨_, (hks.entry_iff hshows howns).mpr ⟨record, hstor, hkey, rfl⟩⟩

omit howns hks in
theorem notMem_of_absent (howns : (family keysOf valueOf owner).Owns record.name record)
    (habs : shelf.records record.name = none) (hkey : key ∈ keysOf record) : key ∉ table := by
  have hown := howns key (entry_ne_none.mpr hkey)
  have hnone := hshows key
  dsimp only at hnone
  rw [hown, habs, bind_none] at hnone
  rw [mem_iff_isSome_getElem?, hnone]
  exact Bool.false_ne_true

end Family

theorem Keeps.exact : Exact tables index where
  own := by
    intro key record hkey
    obtain ⟨stored, _, hmem, hsame⟩ := family_sound hks.represents.messages hkey
    cases hsame
    exact mem_singleton.mp hmem
  one := by
    intro left right hlt hrt hname
    rw [hks.stores_iff] at hlt hrt
    rw [hname, hrt] at hlt
    exact (Option.some.inj hlt).symm
  ids := by
    intro key value
    simpa only [mem_singleton] using hks.entry_iff hks.represents.ids (fun _ => idFamily_owns)
  ages := by
    intro key value
    simpa only [mem_singleton] using hks.entry_iff hks.represents.ages (fun _ => ageFamily_owns)
  senders := by
    intro key
    simpa only [map_cons, map_nil, mem_singleton] using
      hks.mem_iff hks.represents.senders (fun _ => senderFamily_owns)
  kinds := by
    intro key
    simpa only [map_cons, map_nil, mem_singleton] using
      hks.mem_iff hks.represents.kinds (fun _ => kindFamily_owns)
  tokens := by
    intro key
    simpa only [List.mem_map, eq_comm] using
      hks.mem_iff hks.represents.tokens (fun _ => tokenFamily_owns tables)

theorem Keeps.gone (hpln : record.Plain)
    (habs : shelf.records record.name = none) : Gone tables record index where
  message := notMem_of_absent hks.represents.messages (messageFamily_owns hpln) habs
    (mem_singleton_self _)
  id := notMem_of_absent hks.represents.ids (idFamily_owns hpln) habs (mem_singleton_self _)
  age := notMem_of_absent hks.represents.ages (ageFamily_owns hpln) habs (mem_singleton_self _)
  sender := notMem_of_absent hks.represents.senders (senderFamily_owns hpln) habs
    (mem_singleton_self _)
  kind := notMem_of_absent hks.represents.kinds (kindFamily_owns hpln) habs (mem_singleton_self _)
  tokens := by
    intro token htoken
    exact notMem_of_absent hks.represents.tokens (tokenFamily_owns tables hpln) habs
      (List.mem_map_of_mem htoken)

theorem Keeps.clears {now : Int64} {days : UInt32}
    (budget : ℕ) (hfits : (Op.prune now days budget).Fits tables index) :
    Clears tables (Index.cutoff now days) index (index.prune tables now days budget) := by
  obtain ⟨removed, hrmd, hint⟩ := prune_removed hks now days budget
  have hpln : ∀ record ∈ removed, record.Plain :=
    fun record hrec => (hks.represents.owner (hrmd.stored record hrec)).2
  have hndp : removed.Nodup := Pairwise.of_map Record.name
    (fun _ _ hne hsame => hne (congrArg Record.name hsame)) hrmd.names
  refine ⟨removed, hndp, ?_, ?_, ?_, ?_⟩
  · rw [hrmd.counted]
    exact (Nat.zero_add _).symm
  · intro record hrec
    refine ⟨hks.stores_iff.mpr (hrmd.stored record hrec), ?_, ?_⟩
    · have hstl := hrmd.stale record hrec
      omega
    · apply hrmd.keeps.gone (hpln record hrec)
      rw [Shelf.dropAll_records, if_pos (List.mem_map_of_mem hrec)]
  · intro record
    rw [hrmd.keeps.stores_iff, hks.stores_iff]
    constructor
    · intro hrec
      obtain ⟨hkept, hsto⟩ := records_of_dropAll hrec
      exact ⟨hsto, fun hmem => hkept (List.mem_map_of_mem hmem)⟩
    rintro ⟨hsto, hkept⟩
    rw [Shelf.dropAll_records, if_neg, hsto]
    intro hmem
    obtain ⟨other, hoth, hname⟩ := List.mem_map.mp hmem
    have hsame := hrmd.stored other hoth
    rw [hname, hsto] at hsame
    cases hsame
    exact hkept hoth
  intro hmore record hstor
  have hrec := hrmd.keeps.stores_iff.mp hstor
  have hins := hint hmore record.name record hrec
  by_contra hstl
  have hpos := hfits record (hks.stores_iff.mpr (records_of_dropAll hrec).2) (Int.not_le.mp hstl)
  omega

variable (budget : ℕ)

theorem Keeps.repairEntry (hstor : index.Stores record) :
    Index.repairEntry budget (0, index) record = .ok (0, index) := by
  have hsto := hks.stores_iff.mp hstor
  have hpres : index.ages[keyAge record.ts record.chat record.id]?.isNone = false := by
    rw [isNone_eq_false_iff]
    exact mem_iff_isSome_getElem?.mp (hks.ageKey_mem hsto)
  rw [Index.repairEntry, if_pos (hks.represents.owner hsto).2.readable]
  rw [hpres]
  rfl

theorem Keeps.repairEntries
    {records : List Record} (hrecs : ∀ record ∈ records, index.Stores record) :
    records.foldlM (Index.repairEntry budget) (0, index) = .ok (0, index) := by
  induction records with
  | nil => rfl
  | cons record records ih =>
    rw [foldlM_cons, hks.repairEntry budget (hrecs record mem_cons_self)]
    exact ih (fun other hoth => hrecs other (mem_cons_of_mem record hoth))

theorem Keeps.repairPages (budget pages : ℕ)
    (cursor : Option Key) : Index.repairPages budget pages cursor (0, index) = (0, index) := by
  induction pages generalizing cursor with
  | zero => rfl
  | succ pages ih =>
    have hscd : ∀ record ∈ (scan cursor Index.page index.messages).map Prod.snd,
        index.Stores record := by
      intro record hrec
      obtain ⟨⟨key, stored⟩, hent, rfl⟩ := List.mem_map.mp hrec
      have hmem := List.mem_of_mem_filter (mem_of_mem_take hent)
      exact ⟨key, mem_toList_iff_getElem?_eq_some.mp hmem⟩
    rw [Index.repairPages]
    dsimp only
    rw [hks.repairEntries budget hscd]
    split
    · rfl
    split
    · rfl
    · split
      · rfl
      · exact ih _

theorem Keeps.repair : index.repair budget = (0, index) := hks.repairPages budget _ none

end Exactness

section Runs

variable {tables : Unicode} {ops : List Op} {op : Op}

section Throughout

variable {allowed : List Op → Op → Prop}

theorem throughout_nil (allowed : List Op → Op → Prop) : Throughout allowed [] := by
  intro before op rest hops
  exact absurd hops (append_ne_nil_of_right_ne_nil before (cons_ne_nil op rest)).symm

theorem Throughout.init {rest : List Op} (hall : Throughout allowed (ops ++ rest)) :
    Throughout allowed ops := by
  intro before other later hops
  apply hall before other (later ++ rest)
  rw [hops, append_assoc, cons_append]

theorem Throughout.last (hall : Throughout allowed (ops ++ [op])) : allowed ops op :=
  hall ops op [] rfl

theorem Throughout.concat (hall : Throughout allowed ops) (hop : allowed ops op) :
    Throughout allowed (ops ++ [op]) := by
  intro before other rest hops
  rcases eq_nil_or_concat rest with rfl | ⟨middle, last, rfl⟩
  · obtain ⟨rfl, hlast⟩ := append_inj' hops rfl
    cases hlast
    exact hop
  · rw [concat_eq_append, ← cons_append, ← append_assoc] at hops
    exact hall before other middle (append_inj' hops rfl).1

end Throughout

theorem runAll_concat (tables : Unicode) (ops : List Op) (op : Op) :
    runAll tables (ops ++ [op]) = op.run tables (runAll tables ops) := by
  rw [runAll, foldl_append]
  rfl

theorem Keeps.step {shelf : Shelf} {index : Index} (hks : Keeps tables shelf index)
    (hfits : op.Fits tables index) : ∃ shelf', Keeps tables shelf' (op.run tables index) := by
  cases op with
  | put record => exact ⟨_, hks.put hfits⟩
  | attach chat id text source => exact ⟨_, hks.attachText chat id text source⟩
  | prune now days budget =>
    obtain ⟨removed, hrmd, _⟩ := prune_removed hks now days budget
    exact ⟨_, hrmd.keeps⟩
  | repair budget =>
    refine ⟨shelf, ?_⟩
    rw [Op.run, hks.repair]
    exact hks

theorem keeps_of_run (hfit : AllFit tables ops) : ∃ shelf, Keeps tables shelf (runAll tables ops) := by
  induction ops using reverseRecOn with
  | nil => exact ⟨_, keeps_empty tables⟩
  | append_singleton ops op ih =>
    obtain ⟨shelf, hks⟩ := ih hfit.init
    rw [runAll_concat]
    exact hks.step hfit.last

/-- The keys are those of the records after every run whose operations fit, and each pass of
retention on the way clears what is stale. -/
theorem exact_of_run (hfit : AllFit tables ops) :
    Exact tables (runAll tables ops) ∧
      ∀ before now days budget rest, ops = before ++ Op.prune now days budget :: rest →
        Clears tables (Index.cutoff now days) (runAll tables before)
          ((runAll tables before).prune tables now days budget) := by
  constructor
  · obtain ⟨shelf, hkeeps⟩ := keeps_of_run hfit
    exact hkeeps.exact
  intro before now days budget rest hops
  have hprune := hfit before _ rest hops
  rw [hops] at hfit
  obtain ⟨shelf, hkeeps⟩ := keeps_of_run hfit.init
  exact hkeeps.clears budget hprune

theorem fits_of_load {index : Index} {record : Record} (hpln : record.Plain)
    (hload : ∀ old ∈ index.load record.chat record.id, old = record) :
    Fits tables index record where
  plain := hpln
  covers := by
    intro old hold
    rw [hload old hold]
    exact ⟨⟨rfl, rfl, rfl, rfl⟩, fun _ htoken => htoken⟩

def firstMessage : Record :=
  { chat := "ana", id := "a", sender := "ana", kind := "text", ts := 1000, text := "segue o boleto" }

def secondMessage : Record :=
  { chat := "ana", id := "b", sender := "ana", kind := "text", ts := 90000000, text := "obrigada" }

def deliveries : List Op :=
  [.put firstMessage, .put secondMessage, .put firstMessage, .prune 90000000 1 10]

theorem allFit_deliveries : AllFit asciiTables deliveries := by
  have hfst : firstMessage.Plain := ⟨by decide +kernel, by decide +kernel, rfl⟩
  have hsnd : secondMessage.Plain := ⟨by decide +kernel, by decide +kernel, rfl⟩
  have hone : AllFit asciiTables [.put firstMessage] :=
    (throughout_nil _).concat (fits_of_load hfst (by decide +kernel))
  have htwo : AllFit asciiTables [.put firstMessage, .put secondMessage] :=
    hone.concat (fits_of_load hsnd (by decide +kernel))
  have hthree : AllFit asciiTables [.put firstMessage, .put secondMessage, .put firstMessage] :=
    htwo.concat (fits_of_load hfst (by decide +kernel))
  apply hthree.concat
  intro record _ _
  decide +kernel

theorem exact_deliveries :
    Exact asciiTables (runAll asciiTables deliveries) ∧
      Clears asciiTables (Index.cutoff 90000000 1)
        (runAll asciiTables [.put firstMessage, .put secondMessage, .put firstMessage])
        ((runAll asciiTables [.put firstMessage, .put secondMessage, .put firstMessage]).prune
          asciiTables 90000000 1 10) :=
  have hexact := exact_of_run allFit_deliveries
  ⟨hexact.1, hexact.2 _ 90000000 1 10 [] rfl⟩

/-- After a run whose operations fit, a repair finds nothing to do. -/
theorem repair_idle_of_run (hfit : AllFit tables ops) (budget : ℕ) :
    (runAll tables ops).repair budget = (0, runAll tables ops) := by
  obtain ⟨shelf, hks⟩ := keeps_of_run hfit
  exact hks.repair budget

theorem repair_idle_deliveries :
    (runAll asciiTables deliveries).repair 9 = (0, runAll asciiTables deliveries) :=
  repair_idle_of_run allFit_deliveries 9

/-- A message delivered again with another time has two thread records. -/
theorem redelivered_twice_stored :
    ¬ Exact asciiTables
      (runAll asciiTables [.put firstMessage, .put { firstMessage with ts := 2000 }]) := by
  intro hexact
  have hsame := hexact.one firstMessage { firstMessage with ts := 2000 }
    ⟨keyMessage "ana" (inv 1000) "a", by decide +kernel⟩
    ⟨keyMessage "ana" (inv 2000) "a", by decide +kernel⟩ rfl
  exact absurd hsame (by decide +kernel)

end Runs

end WasmAgent.Whatsapp
