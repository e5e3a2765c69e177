import WasmAgent.Sync.Writes

/-!
# The search rows of memories

`memories_fts` beside the memories, along the writes of one node and the entries that it takes.
-/

namespace WasmAgent.Sync

open List Std

structure SearchRow where
  content : String
  tags : String
  memoryId : String
  deriving DecidableEq

def Memory.searchRow (id : String) (row : Memory) : SearchRow :=
  ⟨row.content, " ".intercalate row.tags, id⟩

def Tables.live (tables : Tables) (id : String) : Option Memory :=
  (tables.memories[id]?).filter (·.deletedAt.isNone)

inductive Deed where
  | remember (content : String) (scope : Option String) (tags : List String) (id : Option String)
      (fresh : String) (now : ℕ)
  | forget (id : String) (now : ℕ)
  | apply (entry : Entry) (clock : ℕ)

structure Indexed where
  tables : Tables
  search : List SearchRow

namespace Indexed

def without (indexed : Indexed) (id : String) : List SearchRow :=
  indexed.search.filter (·.memoryId ≠ id)

-- The SHA-256 of a text, and the id of this node.
variable (digest : String → String) (origin : String)

/-- A deed in its transaction: one that raises, as an `INSERT` under a known id, leaves nothing. -/
def step (indexed : Indexed) : Deed → Indexed
  | .remember content scope tags id fresh now =>
      match remember digest origin content scope tags id fresh now indexed.tables with
      | .error _ | .ok (_, _, []) => indexed
      | .ok (stored, after, _ :: _) =>
          let written := [⟨content, " ".intercalate tags, stored⟩]
          if id.isSome then ⟨after, indexed.without stored ++ written⟩
          else if indexed.tables.memories[fresh]?.isSome then indexed
          else ⟨after, indexed.search ++ written⟩
  | .forget id now =>
      match forget origin id now indexed.tables with
      | (true, after, _) => ⟨after, indexed.without id⟩
      | (false, _) => indexed
  | .apply entry clock =>
      match indexed.tables.applyEntry clock entry with
      | .error _ => indexed
      | .ok after =>
          match entry.change with
          | .forgotten id _ _ => ⟨after, indexed.without id⟩
          | .memory id _ =>
              ⟨after, indexed.without id ++ ((after.live id).map (·.searchRow id)).toList⟩
          | _ => ⟨after, indexed.search⟩

def run (deeds : List Deed) : Indexed := deeds.foldl (step digest origin) ⟨Tables.empty, []⟩

/-- An entry gave the memory a digest that is not that of its text. -/
def Forged (deeds : List Deed) (id : String) : Prop :=
  ∃ source payload clock, .apply ⟨source, .memory id payload⟩ clock ∈ deeds ∧
    payload.contentSha256 ≠ digest payload.content

/-- One search row for each live memory, which says what it says; and the digests. -/
structure Kept (forged : String → Prop) (indexed : Indexed) : Prop where
  exact : ∀ id, indexed.search.filter (·.memoryId = id) =
    ((indexed.tables.live id).map (·.searchRow id)).toList
  unique : ∀ (id other : String) (row found : Memory), indexed.tables.live id = some row →
    indexed.tables.live other = some found → row.scope = found.scope →
      row.contentSha256 = found.contentSha256 → id = other
  digests : ∀ (id : String) (row : Memory), indexed.tables.memories[id]? = some row → ¬ forged id →
    row.contentSha256 = digest row.content

variable {digest origin} {forged : String → Prop} {indexed : Indexed} {after : Tables}
variable {id : String} {row : Memory}

theorem live_eq {tables : Tables} :
    tables.live id = some row ↔ tables.memories[id]? = some row ∧ row.deletedAt = none := by
  simp [Tables.live, Option.filter_eq_some_iff]

variable (hkept : Kept digest forged indexed)
include hkept

theorem Kept.without_eq (hnone : indexed.tables.live id = none) :
    indexed.without id = indexed.search := by
  have hno := hkept.exact id
  rw [hnone, Option.map_none, Option.toList_none, filter_eq_nil_iff] at hno
  exact filter_eq_self.mpr fun found hfnd => by simpa using hno found hfnd

/-- A row is written, and its search rows anew. -/
theorem Kept.put (row : Memory) (hrows : ∀ other : String, after.memories[other]? =
      if id = other then some row else indexed.tables.memories[other]?)
    (hdig : ¬ forged id → row.contentSha256 = digest row.content)
    (huniq : row.deletedAt = none → indexed.tables.taken id row.scope row.contentSha256 = false) :
    Kept digest forged
      ⟨after, indexed.without id ++ ((after.live id).map (·.searchRow id)).toList⟩ := by
  have hself : after.memories[id]? = some row := (hrows id).trans (if_pos rfl)
  have hother {other : String} (hne : id ≠ other) : after.live other = indexed.tables.live other := by
    rw [Tables.live, hrows, if_neg hne, Tables.live]
  have hapart {other : String} {new found : Memory} (hne : id ≠ other)
      (hnew : after.live id = some new) (hfnd : after.live other = some found)
      (hscp : new.scope = found.scope) (hsha : new.contentSha256 = found.contentSha256) : False := by
    obtain ⟨hat, hlive⟩ := live_eq.mp hnew
    obtain rfl := Option.some.inj (hself.symm.trans hat)
    obtain ⟨hheld, hstands⟩ := live_eq.mp (hother hne ▸ hfnd)
    exact absurd (Tables.taken_iff.mpr ⟨other, found, hheld, hne.symm, hstands, hscp.symm,
      hsha.symm⟩) (Bool.eq_false_iff.mp (huniq hlive))
  constructor
  · intro other
    rw [filter_append, without, filter_filter]
    by_cases hsame : id = other
    · subst hsame
      cases after.live id <;> simp [Memory.searchRow]
    rw [hother hsame, ← hkept.exact other]
    have htail : (((after.live id).map (·.searchRow id)).toList).filter
        (·.memoryId = other) = [] := by
      cases after.live id <;> simp [Memory.searchRow, hsame]
    rw [htail, append_nil]
    refine filter_congr fun found _ => ?_
    by_cases hfnd : found.memoryId = other <;> simp [hfnd, Ne.symm hsame]
  · intro left right first second hfst hsnd hscp hsha
    by_cases hleft : id = left <;> by_cases hright : id = right
    · exact hleft.symm.trans hright
    · subst hleft
      exact (hapart hright hfst hsnd hscp hsha).elim
    · subst hright
      exact (hapart hleft hsnd hfst hscp.symm hsha.symm).elim
    · exact hkept.unique left right first second (hother hleft ▸ hfst) (hother hright ▸ hsnd) hscp
        hsha
  intro other found hfnd hhonest
  rw [hrows] at hfnd
  split at hfnd
  · rename_i hsame
    obtain rfl := Option.some.inj hfnd
    exact hdig (hsame ▸ hhonest)
  · exact hkept.digests other found hfnd hhonest

theorem Kept.of_memories (hmem : after.memories = indexed.tables.memories) :
    Kept digest forged ⟨after, indexed.search⟩ := by
  have hlive : after.live = indexed.tables.live := by
    funext id
    rw [Tables.live, hmem, Tables.live]
  constructor
  · exact hlive ▸ hkept.exact
  · exact hlive ▸ hkept.unique
  · exact hmem ▸ hkept.digests

theorem Kept.delete (id : String) (deletedAt updatedAt : ℕ) :
    Kept digest forged
      ⟨indexed.tables.deleteMemory id deletedAt updatedAt, indexed.without id⟩ := by
  rw [Tables.deleteMemory]
  cases hrow : indexed.tables.memories[id]? with
  | none =>
    rw [hkept.without_eq (by rw [Tables.live, hrow]; rfl)]
    exact hkept
  | some row =>
    have hgone : (row.deleted deletedAt updatedAt).deletedAt ≠ none := by
      rw [Memory.deleted]
      split
      · exact Option.some_ne_none _
      · rename_i hlive
        exact mt Option.isNone_iff_eq_none.mpr hlive
    have hput := hkept.put (row.deleted deletedAt updatedAt)
      (fun other => Tables.setMemory_memories _ id other _) (fun hhonest => by
        rw [Memory.deleted, apply_ite Memory.contentSha256, apply_ite Memory.content, ite_self,
          ite_self]
        exact hkept.digests id row hrow hhonest)
      (absurd · hgone)
    have hnone : (indexed.tables.setMemory id (row.deleted deletedAt updatedAt)).live id = none :=
      Option.eq_none_iff_forall_ne_some.mpr fun found hfnd => by
        obtain ⟨hat, hlive⟩ := live_eq.mp hfnd
        rw [Tables.setMemory_memories, if_pos rfl] at hat
        exact hgone (Option.some.inj hat ▸ hlive)
    rwa [hnone, Option.map_none, Option.toList_none, append_nil] at hput

omit hkept in
theorem remember_puts {content stored fresh : String} {scope given : Option String}
    {tags : List String} {now : ℕ} {tables : Tables} {entry : Entry} {entries : List Entry}
    (hres : remember digest origin content scope tags given fresh now tables =
      .ok (stored, after, entry :: entries)) :
    ∃ row, after = tables.setMemory stored row ∧ row.searchRow stored =
        ⟨content, " ".intercalate tags, stored⟩ ∧ row.deletedAt = none ∧
      row.contentSha256 = digest row.content ∧
        tables.taken stored row.scope row.contentSha256 = false ∧ (given = none → stored = fresh) := by
  unfold remember at hres
  dsimp only at hres
  split at hres
  · exact nomatch hres
  split at hres
  · exact nomatch hres
  split at hres
  · unfold correct at hres
    split at hres
    · exact nomatch hres
    split at hres
    · exact nomatch hres
    rename_i row hrow
    split at hres
    · exact nomatch hres
    rename_i hfound
    split at hres
    · exact nomatch hres
    split at hres
    · exact nomatch hres
    rename_i htkn
    cases hres
    exact ⟨_, rfl, rfl, by simp at hfound; exact hfound.1, rfl, Bool.eq_false_iff.mpr htkn, nofun⟩
  split at hres
  · exact nomatch hres
  rename_i hnone
  split at hres
  · exact nomatch hres
  cases hres
  refine ⟨_, rfl, rfl, rfl, rfl, Bool.eq_false_iff.mpr fun htkn => ?_, fun _ => rfl⟩
  obtain ⟨other, row, hrow, -, hlive, hscp, hsha⟩ := Tables.taken_iff.mp htkn
  refine absurd hnone (Option.ne_none_iff_isSome.mpr ?_)
  rw [Tables.holding, Option.isSome_map, find?_isSome]
  exact ⟨(other, row), ExtTreeMap.mem_toList_iff_getElem?_eq_some.mpr hrow, by
    simp [hlive, hscp, hsha]⟩

/-- What one deed keeps. -/
theorem Kept.step {deed : Deed}
    (hforged : ∀ id source payload clock, deed = .apply ⟨source, .memory id payload⟩ clock →
      payload.contentSha256 ≠ digest payload.content → forged id) :
    Kept digest forged (indexed.step digest origin deed) := by
  cases deed with
  | remember content scope tags given fresh now =>
    rw [Indexed.step]
    split
    · exact hkept
    · exact hkept
    rename_i stored after entry entries hres
    obtain ⟨row, rfl, hsays, hlive, hsha, htkn, hfresh⟩ := remember_puts hres
    have hput := hkept.put row (fun other => Tables.setMemory_memories _ stored other _)
      (fun _ => hsha) fun _ => htkn
    rw [live_eq.mpr ⟨by rw [Tables.setMemory_memories, if_pos rfl], hlive⟩, Option.map_some,
      hsays] at hput
    cases given with
    | some id => exact hput
    | none =>
      dsimp only
      rw [if_neg (by simp)]
      split
      · exact hkept
      · rename_i hnew
        rwa [hkept.without_eq (by
          rw [hfresh rfl, Tables.live, Option.not_isSome_iff_eq_none.mp hnew]; rfl)] at hput
  | forget id now =>
    rw [Indexed.step, Sync.forget]
    cases indexed.tables.memories[id]? with
    | none => exact hkept
    | some row =>
      dsimp only
      cases row.deletedAt.isNone with
      | true => exact hkept.delete id now now
      | false => exact hkept
  | apply entry clock =>
    have hrest := indexed.tables.deliver_rest clock entry
    obtain ⟨source, change⟩ := entry
    cases change with
    | message | run => exact hkept.of_memories rfl
    | session id payload => exact hkept.of_memories hrest.1
    | forgotten id deletedAt updatedAt => exact hkept.delete id deletedAt updatedAt
    | memory id payload =>
      have hdig : ¬ forged id → payload.contentSha256 = digest payload.content := fun hhonest =>
        by_contra fun hbad => hhonest (hforged id source payload clock rfl hbad)
      simp only [Indexed.step, Tables.applyEntry, Tables.putMemory]
      cases hrow : indexed.tables.memories[id]? with
      | none =>
        dsimp only
        cases htkn : indexed.tables.taken id payload.scope payload.contentSha256 with
        | true => exact hkept
        | false =>
          exact hkept.put payload.row (fun other => Tables.setMemory_memories _ id other _)
            hdig fun _ => htkn
      | some row =>
        dsimp only
        split
        · exact hkept
        rename_i after hput
        split at hput
        · cases hput
          refine hkept.put row (fun other => ?_) (hkept.digests id row hrow) fun hlive => ?_
          · split
            · rename_i hsame
              exact hsame ▸ hrow
            · rfl
          refine Bool.eq_false_iff.mpr fun htkn => ?_
          obtain ⟨other, found, hfnd, hne, hstands, hscp, hsha⟩ := Tables.taken_iff.mp htkn
          exact hne (hkept.unique other id found row (live_eq.mpr ⟨hfnd, hstands⟩)
            (live_eq.mpr ⟨hrow, hlive⟩) hscp hsha)
        split at hput
        · cases hput
        rename_i htkn
        cases hput
        refine hkept.put _ (fun other => Tables.setMemory_memories _ id other _) hdig
          fun hlive => Bool.eq_false_iff.mpr fun hheld => htkn ?_
        exact Bool.and_eq_true_iff.mpr ⟨Option.isNone_iff_eq_none.mpr hlive, hheld⟩

omit hkept

/-- Every run keeps the search rows, and no text twice but where an entry forged a digest. -/
theorem run_kept (digest : String → String) (origin : String) (deeds : List Deed) :
    (∀ id, (run digest origin deeds).search.filter (·.memoryId = id) =
      (((run digest origin deeds).tables.live id).map (·.searchRow id)).toList) ∧
    ∀ (id other : String) (row found : Memory),
      (run digest origin deeds).tables.live id = some row →
      (run digest origin deeds).tables.live other = some found →
      ¬ Forged digest deeds id → ¬ Forged digest deeds other →
      row.scope = found.scope → row.content = found.content → id = other := by
  have hkept : Kept digest (Forged digest deeds) (run digest origin deeds) := by
    refine foldlRecOn (motive := Kept digest (Forged digest deeds)) deeds _ ?_ ?_
    · constructor
      · exact fun _ => rfl
      · exact nofun
      · exact nofun
    · intro indexed hkept deed hdeed
      refine hkept.step fun id source payload clock hsame hbad => ?_
      exact ⟨source, payload, clock, hsame ▸ hdeed, hbad⟩
  refine ⟨hkept.exact, fun id other row found hrow hfnd hid hother hscp hsame => ?_⟩
  refine hkept.unique id other row found hrow hfnd hscp ?_
  rw [hkept.digests id row (live_eq.mp hrow).1 hid, hsame,
    hkept.digests other found (live_eq.mp hfnd).1 hother]

/-- The same text is remembered twice when an entry without a digest came between. -/
theorem remembered_twice :
    let digest := fun _ => "ca978112ca1bbdcafac231b39a23dc4da786eff8147c4e72b9807785afee48bb"
    let deeds := [Deed.remember "a" none [] none "m1" 1,
      .apply ⟨"o", .memory "m1" ⟨"global", "a", [], "user", 1, 2, ""⟩⟩ 2,
      .remember "a" none [] none "m2" 3]
    ["m1", "m2"].map (fun id => ((run digest "n" deeds).tables.live id).map fun row =>
      (row.scope, row.content)) = [some ("global", "a"), some ("global", "a")] := by
  decide +kernel

end Indexed

end WasmAgent.Sync
