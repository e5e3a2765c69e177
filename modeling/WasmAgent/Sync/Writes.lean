import Mathlib.Logic.Function.Basic
import WasmAgent.Sync.Tables

/-!
# Writes that are journalled

How memories are stored, corrected and forgotten on a node, and which entries all nodes together
can have journalled.
-/

namespace WasmAgent.Sync

open List Function

section Memories

-- The SHA-256 of a text, and the id of this node.
variable (digest : String → String) (origin : String)

def isUserScope (scope : String) : Bool := scope.startsWith "user:"

/-- The id of the live memory with this text in this scope. -/
def Tables.holding (tables : Tables) (scope contentSha256 : String) : Option String :=
  (tables.memories.toList.find? (fun (_, row) =>
    row.deletedAt.isNone && row.scope = scope && row.contentSha256 = contentSha256)).map Prod.fst

/-- `M.remember` with an id: the text of a memory is replaced. -/
def correct (content scope : String) (tags : List String) (id : String) (now : ℕ)
    (tables : Tables) : Except String (String × Tables × List Entry) :=
  if id = "" then .error "memory_id_required"
  else match tables.memories[id]? with
    | none => .error "memory_not_found"
    | some row =>
        if row.deletedAt.isSome || isUserScope scope && row.scope ≠ scope then
          .error "memory_not_found"
        else if row.content = content && row.tags = tags then .ok (id, tables, [])
        else if tables.taken id row.scope (digest content) then
          .error "UNIQUE constraint failed: memories.scope, memories.content_sha256"
        else .ok (id,
          tables.setMemory id { row with
            content := content
            tags := tags
            contentSha256 := digest content
            updatedAt := now },
          [⟨origin, .memory id
            ⟨row.scope, content, tags, "user", row.createdAt, now, digest content⟩⟩])

/-- `M.remember`, with what is journalled; `fresh` is the id of a new memory. -/
def remember (content : String) (scope : Option String) (tags : List String) (id : Option String)
    (fresh : String) (now : ℕ) (tables : Tables) : Except String (String × Tables × List Entry) :=
  let scope := scope.getD "global"
  if content = "" then .error "memory_empty"
  else if 8000 < content.utf8ByteSize then .error "memory_too_large"
  else match id with
    | some id => correct digest origin content scope tags id now tables
    | none =>
        match tables.holding scope (digest content) with
        | some held => .ok (held, tables, [])
        | none =>
            if isUserScope scope && 500 ≤ tables.memories.toList.countP (fun (_, row) =>
                row.scope = scope && row.deletedAt.isNone) then .error "memory_scope_full"
            else .ok (fresh,
              tables.setMemory fresh
                ⟨scope, content, tags, "user", "", now, now, none, digest content⟩,
              [⟨origin, .memory fresh ⟨scope, content, tags, "user", now, now, digest content⟩⟩])

/-- `M.forget`. -/
def forget (id : String) (now : ℕ) (tables : Tables) : Bool × Tables × List Entry :=
  match tables.memories[id]? with
  | none => (false, tables, [])
  | some row =>
      if row.deletedAt.isNone then
        (true, tables.deleteMemory id now now, [⟨origin, .forgotten id now now⟩])
      else (false, tables, [])

end Memories

def Change.memoryId : Change → Option String
  | .memory id _ => some id
  | .forgotten id _ _ => some id
  | _ => none

structure Network (Node : Type) where
  tables : Node → Tables
  journal : List Entry

variable {Node : Type}

def Network.write [DecidableEq Node] (network : Network Node) (node : Node)
    (written : Tables × List Entry) : Network Node :=
  ⟨Function.update network.tables node written.1, network.journal ++ written.2⟩

/-- What nodes can do to each other's tables and journals.  Turns, runs and sessions are written
with whatever columns; a memory is stored under an id that was not given before. -/
inductive Network.Reaches [DecidableEq Node] (digest : String → String) (name : Node → String) :
    Network Node → Prop where
  | start : Reaches digest name ⟨fun _ => Tables.empty, []⟩
  | remember {network : Network Node} (node : Node) {content : String} {scope : Option String}
      {tags : List String} {id : Option String} {fresh : String} {now : ℕ} {result : String}
      {written : Tables × List Entry} (hbefore : Reaches digest name network)
      (hfresh : ∀ entry ∈ network.journal, entry.change.memoryId ≠ some fresh)
      (hresult : remember digest (name node) content scope tags id fresh now
        (network.tables node) = .ok (result, written)) :
      Reaches digest name (network.write node written)
  | forget {network : Network Node} (node : Node) (id : String) (now : ℕ)
      (hbefore : Reaches digest name network) :
      Reaches digest name (network.write node (forget (name node) id now (network.tables node)).2)
  | record {network : Network Node} (node : Node) (change : Change) (after : Tables)
      (hbefore : Reaches digest name network) (hother : change.memoryId = none)
      (hmemories : after.memories = (network.tables node).memories) :
      Reaches digest name (network.write node (after, [⟨name node, change⟩]))
  | receive {network : Network Node} (node : Node) {entry : Entry} (clock : ℕ)
      (hbefore : Reaches digest name network) (hentry : entry ∈ network.journal) :
      Reaches digest name (network.write node ((network.tables node).deliver (entry, clock), []))

def Produced (digest : String → String) (entries : List Entry) : Prop :=
  ∃ (Node : Type) (_ : DecidableEq Node) (name : Node → String) (network : Network Node),
    network.Reaches digest name ∧ ∀ entry ∈ entries, entry ∈ network.journal

def Says (entries : List Entry) (change : Change) : Prop :=
  ∃ origin, (⟨origin, change⟩ : Entry) ∈ entries

structure Regular (digest : String → String) (entries : List Entry) : Prop where
  digests : ∀ id payload, Says entries (.memory id payload) →
    payload.contentSha256 = digest payload.content
  scopes : ∀ id payload payload', Says entries (.memory id payload) →
    Says entries (.memory id payload') → payload.scope = payload'.scope

section Journals

variable {digest : String → String} {entries more : List Entry} {change : Change}

theorem says_append : Says (entries ++ more) change ↔ Says entries change ∨ Says more change := by
  simp only [Says, mem_append, exists_or]

theorem not_says_nil : ¬ Says [] change := by
  rintro ⟨origin, hmem⟩
  exact absurd hmem not_mem_nil

theorem says_singleton {entry : Entry} : Says [entry] change ↔ entry.change = change := by
  constructor
  · rintro ⟨origin, hmem⟩
    rw [← mem_singleton.mp hmem]
  · rintro rfl
    exact ⟨entry.origin, mem_singleton_self entry⟩

theorem Says.mono (hsaid : Says entries change) (hmore : ∀ entry ∈ entries, entry ∈ more) :
    Says more change := by
  obtain ⟨origin, hmem⟩ := hsaid
  exact ⟨origin, hmore _ hmem⟩

theorem Regular.mono (hreg : Regular digest more) (hmore : ∀ entry ∈ entries, entry ∈ more) :
    Regular digest entries where
  digests id payload hsaid := hreg.digests id payload (hsaid.mono hmore)
  scopes id payload payload' hsaid hsaid' :=
    hreg.scopes id payload payload' (hsaid.mono hmore) (hsaid'.mono hmore)

def Tables.Scoped (entries : List Entry) (tables : Tables) : Prop :=
  ∀ (id : String) (row : Memory), tables.memories[id]? = some row →
    ∃ payload, Says entries (.memory id payload) ∧ row.scope = payload.scope

variable {tables : Tables}

theorem Tables.Scoped.setMemory {id : String} {row : Memory} (hscp : tables.Scoped entries)
    (hrow : ∃ payload, Says entries (.memory id payload) ∧ row.scope = payload.scope) :
    (tables.setMemory id row).Scoped entries := by
  intro other found hfnd
  rw [Tables.setMemory_memories] at hfnd
  split at hfnd
  case isTrue hsame =>
    obtain rfl := Option.some.inj hfnd
    exact hsame ▸ hrow
  case isFalse => exact hscp other found hfnd

theorem Tables.Scoped.mono (hscp : tables.Scoped entries)
    (hmore : ∀ entry ∈ entries, entry ∈ more) : tables.Scoped more := by
  intro id row hrow
  obtain ⟨payload, hsaid, hscope⟩ := hscp id row hrow
  exact ⟨payload, hsaid.mono hmore, hscope⟩

theorem Tables.Scoped.of_memories {after : Tables} (hscp : tables.Scoped entries)
    (hmem : after.memories = tables.memories) : after.Scoped entries := by
  intro id row hrow
  rw [hmem] at hrow
  exact hscp id row hrow

theorem Tables.Scoped.deliver {tables : Tables} {entry : Entry} {clock : ℕ}
    (hscp : tables.Scoped entries) (hentry : entry ∈ entries) :
    (tables.deliver (entry, clock)).Scoped entries := by
  have hrest := tables.deliver_rest clock entry
  obtain ⟨origin, change⟩ := entry
  cases change with
  | message | session | run => exact hscp.of_memories hrest.1
  | forgotten id deletedAt updatedAt =>
    intro other found hfnd
    rw [Tables.deliver_forgotten] at hfnd
    split at hfnd
    case isTrue hsame =>
      subst hsame
      obtain ⟨row, hrow, rfl⟩ := Option.map_eq_some_iff.mp hfnd
      obtain ⟨payload, hsaid, hscope⟩ := hscp id row hrow
      refine ⟨payload, hsaid, ?_⟩
      rw [Memory.deleted, apply_ite Memory.scope, hscope, ite_self]
    case isFalse => exact hscp other found hfnd
  | memory id payload =>
    rw [Tables.deliver_memory_eq]
    split
    · split
      · exact hscp
      · exact hscp.setMemory ⟨payload, ⟨origin, hentry⟩, rfl⟩
    rename_i row hrow
    split
    · exact hscp
    · split
      · exact hscp
      · exact hscp.setMemory (hscp id row hrow)

theorem regular_append (hreg : Regular digest entries) {id : String} {payload : MemoryPayload}
    (origin : String) (hdig : payload.contentSha256 = digest payload.content)
    (hscope : ∀ payload', Says entries (.memory id payload') → payload.scope = payload'.scope) :
    Regular digest (entries ++ [⟨origin, .memory id payload⟩]) := by
  constructor
  · intro other found hsaid
    rcases says_append.mp hsaid with hold | hnew
    · exact hreg.digests other found hold
    · obtain ⟨rfl, rfl⟩ := Change.memory.inj (says_singleton.mp hnew)
      exact hdig
  intro other found found' hsaid hsaid'
  rcases says_append.mp hsaid with hold | hnew
  · rcases says_append.mp hsaid' with hold' | hnew'
    · exact hreg.scopes other found found' hold hold'
    · obtain ⟨rfl, rfl⟩ := Change.memory.inj (says_singleton.mp hnew')
      exact (hscope found hold).symm
  obtain ⟨rfl, rfl⟩ := Change.memory.inj (says_singleton.mp hnew)
  rcases says_append.mp hsaid' with hold' | hnew'
  · exact hscope found' hold'
  · obtain ⟨_, rfl⟩ := Change.memory.inj (says_singleton.mp hnew')
    rfl

theorem regular_append_other (hreg : Regular digest entries) {entry : Entry}
    (hother : ∀ id payload, entry.change ≠ .memory id payload) :
    Regular digest (entries ++ [entry]) := by
  have hold {id : String} {payload : MemoryPayload}
      (hsaid : Says (entries ++ [entry]) (.memory id payload)) :
      Says entries (.memory id payload) := by
    rcases says_append.mp hsaid with hold | hnew
    · exact hold
    · exact absurd (says_singleton.mp hnew) (hother id payload)
  constructor
  · exact fun id payload hsaid => hreg.digests id payload (hold hsaid)
  · exact fun id payload payload' hsaid hsaid' =>
      hreg.scopes id payload payload' (hold hsaid) (hold hsaid')

inductive Writes (digest : String → String) (origin : String) (fresh : Option String)
    (tables : Tables) :
    Tables × List Entry → Prop where
  | nothing : Writes digest origin fresh tables (tables, [])
  | stored {id : String} {row : Memory} {payload : MemoryPayload}
      (hscope : row.scope = payload.scope)
      (hdigest : payload.contentSha256 = digest payload.content)
      (hid : some id = fresh ∨
        ∃ found, tables.memories[id]? = some found ∧ found.scope = payload.scope) :
      Writes digest origin fresh tables (tables.setMemory id row, [⟨origin, .memory id payload⟩])
  | deleted {id : String} (now : ℕ) :
      Writes digest origin fresh tables
        (tables.deleteMemory id now now, [⟨origin, .forgotten id now now⟩])

variable {written : Tables × List Entry}

theorem remember_writes {origin content : String} {scope : Option String} {tags : List String}
    {id : Option String} {fresh : String} {now : ℕ} {result : String}
    (hres : remember digest origin content scope tags id fresh now tables =
      .ok (result, written)) : Writes digest origin (some fresh) tables written := by
  unfold remember at hres
  dsimp only at hres
  split at hres
  · exact nomatch hres
  split at hres
  · exact nomatch hres
  split at hres
  · unfold correct at hres
    split at hres
    · exact nomatch hres
    split at hres
    · exact nomatch hres
    rename_i row hrow
    split at hres
    · exact nomatch hres
    split at hres
    · obtain ⟨_, rfl⟩ := Prod.mk.inj (Except.ok.inj hres)
      exact .nothing
    split at hres
    · exact nomatch hres
    · obtain ⟨_, rfl⟩ := Prod.mk.inj (Except.ok.inj hres)
      exact .stored rfl rfl (.inr ⟨row, hrow, rfl⟩)
  split at hres
  · obtain ⟨_, rfl⟩ := Prod.mk.inj (Except.ok.inj hres)
    exact .nothing
  split at hres
  · exact nomatch hres
  · obtain ⟨_, rfl⟩ := Prod.mk.inj (Except.ok.inj hres)
    exact .stored rfl rfl (.inl rfl)

theorem forget_writes (origin id : String) (now : ℕ) (tables : Tables) :
    Writes digest origin none tables (forget origin id now tables).2 := by
  unfold forget
  split
  · exact .nothing
  · split
    · exact .deleted now
    · exact .nothing

theorem Writes.keeps {origin : String} {fresh : Option String}
    (hwrs : Writes digest origin fresh tables written) (hreg : Regular digest entries)
    (hscp : tables.Scoped entries)
    (hfresh : ∀ id payload, some id = fresh → ¬ Says entries (.memory id payload)) :
    Regular digest (entries ++ written.2) ∧ written.1.Scoped (entries ++ written.2) := by
  have hmore : ∀ entry ∈ entries, entry ∈ entries ++ written.2 :=
    fun entry hentry => mem_append_left _ hentry
  cases hwrs with
  | nothing =>
    rw [append_nil]
    exact ⟨hreg, hscp⟩
  | @stored id row payload hscope hdig hid =>
    apply And.intro
    · apply regular_append hreg origin hdig
      intro payload' hsaid
      rcases hid with rfl | ⟨found, hfnd, hsame⟩
      · exact absurd hsaid (hfresh id payload' rfl)
      · obtain ⟨stored, hsto, hfrom⟩ := hscp id found hfnd
        rw [← hsame, hfrom]
        exact hreg.scopes id stored payload' hsto hsaid
    · apply (hscp.mono hmore).setMemory
      exact ⟨payload, says_append.mpr (.inr (says_singleton.mpr rfl)), hscope⟩
  | @deleted id now =>
    apply And.intro
    · exact regular_append_other hreg nofun
    have hentry : (⟨origin, .forgotten id now now⟩ : Entry) ∈
        entries ++ [⟨origin, .forgotten id now now⟩] :=
      mem_append_right _ (mem_singleton_self _)
    exact @Tables.Scoped.deliver _ _ _ 0 (hscp.mono hmore) hentry

variable {Node : Type} [DecidableEq Node] {name : Node → String} {network : Network Node}

theorem Network.scoped_write {node : Node}
    (hscp : ∀ node, (network.tables node).Scoped network.journal)
    (hwrn : written.1.Scoped (network.journal ++ written.2)) :
    ∀ other, ((network.write node written).tables other).Scoped
      (network.write node written).journal := by
  intro other
  change (update network.tables node written.1 other).Scoped _
  by_cases hsame : other = node
  · rw [hsame, update_self]
    exact hwrn
  · rw [update_of_ne hsame]
    exact (hscp other).mono fun entry hentry => mem_append_left _ hentry

theorem Network.Reaches.regular (hrchs : network.Reaches digest name) :
    Regular digest network.journal ∧ ∀ node, (network.tables node).Scoped network.journal := by
  induction hrchs with
  | start =>
    refine ⟨⟨fun _ _ hsaid => absurd hsaid not_says_nil,
      fun _ _ _ hsaid => absurd hsaid not_says_nil⟩, ?_⟩
    intro node id row hrow
    rw [show (Tables.empty.memories)[id]? = none from Std.ExtTreeMap.getElem?_empty] at hrow
    exact nomatch hrow
  | remember node hbef hfresh hres ih =>
    obtain ⟨hreg, hscp⟩ := (remember_writes hres).keeps ih.1 (ih.2 node) (by
      rintro id payload hid ⟨origin, hmem⟩
      exact hfresh _ hmem hid)
    exact ⟨hreg, Network.scoped_write ih.2 hscp⟩
  | forget node id now hbef ih =>
    obtain ⟨hreg, hscp⟩ := (forget_writes (name node) id now _).keeps ih.1 (ih.2 node) nofun
    exact ⟨hreg, Network.scoped_write ih.2 hscp⟩
  | record node change after hbef hother hmemor ih =>
    refine ⟨regular_append_other ih.1 ?_, Network.scoped_write ih.2 ?_⟩
    · rintro id payload rfl
      exact nomatch hother
    · exact ((ih.2 node).of_memories hmemor).mono fun entry hentry =>
        mem_append_left _ hentry
  | receive node clock hbef hentry ih =>
    refine ⟨by simpa [Network.write] using ih.1, Network.scoped_write ih.2 ?_⟩
    rw [append_nil]
    exact (ih.2 node).deliver hentry

theorem Produced.regular (hprod : Produced digest entries) : Regular digest entries := by
  obtain ⟨Node, _, name, network, hrchs, hmem⟩ := hprod
  exact hrchs.regular.1.mono hmem

end Journals

end WasmAgent.Sync
