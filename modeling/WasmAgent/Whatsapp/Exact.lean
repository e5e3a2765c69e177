import WasmAgent.Core.Maps
import WasmAgent.Core.SecondaryIndex
import WasmAgent.Whatsapp.Index

/-!
# The keys of the index and its records

Each of six key families is a table of its own that shows the records: it holds the keys that
writing the records would create, and no others.
-/

namespace WasmAgent.Whatsapp

open List Option Std.ExtTreeMap Function Std WasmAgent.Core

section Parts

variable {first second rest : Key}

/-- What follows the last `/`. -/
def lastPart (key : Key) : Key := (key.reverse.takeWhile (fun char => char ≠ '/')).reverse

/-- What stands before the last `/`. -/
def front (key : Key) : Key := (key.reverse.dropWhile (fun char => char ≠ '/')).tail.reverse

theorem joined_assoc (first second rest : Key) :
    joined first (joined second rest) = joined (joined first second) rest := by
  rw [joined, joined, joined, joined, append_assoc, cons_append]

theorem reverse_joined (first rest : Key) :
    (joined first rest).reverse = rest.reverse ++ '/' :: first.reverse := by
  rw [joined, reverse_append, reverse_cons, append_assoc, singleton_append]

theorem lastPart_joined (hrest : '/' ∉ rest) : lastPart (joined first rest) = rest := by
  have hall : ∀ char ∈ rest.reverse, decide (char ≠ '/') = true := by
    intro char hchar
    rw [decide_eq_true_iff]
    rintro rfl
    exact hrest (mem_reverse.mp hchar)
  rw [lastPart, reverse_joined, takeWhile_append_of_pos hall, takeWhile_cons_of_neg,
    append_nil, reverse_reverse]
  decide

theorem front_joined (hrest : '/' ∉ rest) : front (joined first rest) = first := by
  have hall : ∀ char ∈ rest.reverse, decide (char ≠ '/') = true := by
    intro char hchar
    rw [decide_eq_true_iff]
    rintro rfl
    exact hrest (mem_reverse.mp hchar)
  rw [front, reverse_joined, dropWhile_append_of_pos hall, dropWhile_cons_of_neg,
    tail_cons, reverse_reverse]
  decide

theorem joined_inj {left right : Key} (hfst : '/' ∉ first) (hsnd : '/' ∉ second)
    (hsame : joined left right = joined first second) : left = first ∧ right = second := by
  rw [joined, joined] at hsame
  rcases append_eq_append_iff.mp hsame with ⟨extra, hlt, hrt⟩ | ⟨extra, hlt, hrt⟩
  · cases extra with
    | nil =>
      rw [append_nil] at hlt
      exact ⟨hlt.symm, (List.cons.inj hrt).2⟩
    | cons char extra =>
      obtain ⟨rfl, _⟩ := List.cons.inj hrt
      exact absurd (hlt ▸ mem_append_right left mem_cons_self) hfst
  cases extra with
  | nil =>
    rw [append_nil] at hlt
    exact ⟨hlt, (List.cons.inj hrt).2.symm⟩
  | cons char extra =>
    obtain ⟨_, hrest⟩ := List.cons.inj hrt
    exact absurd (hrest ▸ mem_append_right extra mem_cons_self) hsnd

theorem length_hex (width value : ℕ) : (hex width value).length = width := by
  induction width generalizing value with
  | zero => rfl
  | succ width ih => rw [hex, length_append, ih, length_singleton]

theorem slash_notMem_hex (width value : ℕ) : '/' ∉ hex width value := by
  have hdigit : ∀ value < 16, digit value ≠ '/' := by
    decide
  induction width generalizing value with
  | zero => exact not_mem_nil
  | succ width ih =>
    rw [hex, mem_append, mem_singleton]
    rintro (hfrt | hlast)
    · exact ih _ hfrt
    · exact hdigit _ (Nat.mod_lt value (by decide)) hlast.symm

theorem slash_notMem_inv (ts : Int64) : '/' ∉ inv ts := slash_notMem_hex 16 _

theorem slash_notMem_age (ts : Int64) : '/' ∉ age ts := slash_notMem_hex 16 _

end Parts

/-! ## Families -/

/-- A chat and a message id. -/
abbrev Name := String × String

def Record.name (record : Record) : Name := (record.chat, record.id)

/-- Neither the chat nor the id has the separator in it, and the record can be read back. -/
structure Record.Plain (record : Record) : Prop where
  chat : '/' ∉ record.chat.toList
  id : '/' ∉ record.id.toList
  readable : record.readable = true

instance : LawfulBEq Key := inferInstanceAs (LawfulBEq (List Char))

def family {Value : Type} (keysOf : Record → List Key) (valueOf : Record → Value)
    (owner : Key → Name) : Indexing Key Name Record Value where
  entry := fun record key => if key ∈ keysOf record then some (valueOf record) else none
  owner := owner

def messageFamily : Indexing Key Name Record Record :=
  family (fun record => [keyMessage record.chat (inv record.ts) record.id]) id
    (fun key => (String.ofList (front (front key)), String.ofList (lastPart key)))

def idFamily : Indexing Key Name Record Key :=
  family (fun record => [keyId record.chat record.id]) (fun record => inv record.ts)
    (fun key => (String.ofList (front key), String.ofList (lastPart key)))

def ageFamily : Indexing Key Name Record String :=
  family (fun record => [keyAge record.ts record.chat record.id]) sourceWord
    (fun key => (String.ofList (lastPart (front key)), String.ofList (lastPart key)))

def wordFamily (wordsOf : Record → List Key) : Indexing Key Name Record Unit :=
  family (fun record => (wordsOf record).map
      (fun word => keyWord word record.ts record.id record.chat)) (fun _ => ())
    (fun key => (String.ofList (lastPart key), String.ofList (lastPart (front key))))

def senderFamily : Indexing Key Name Record Unit :=
  wordFamily (fun record => [record.sender.toList])

def kindFamily : Indexing Key Name Record Unit := wordFamily (fun record => [record.kind.toList])

def tokenFamily (tables : Unicode) : Indexing Key Name Record Unit :=
  wordFamily (fun record => record.tokens tables)

section Owners

variable {Value : Type} {record : Record} {name : Name}

theorem family_owns {keysOf : Record → List Key} {valueOf : Record → Value} {owner : Key → Name}
    (hname : ∀ key ∈ keysOf record, owner key = name) :
    (family keysOf valueOf owner).Owns name record := by
  intro key hent
  apply hname
  by_contra hkey
  exact hent (if_neg hkey)

variable (hpln : record.Plain)
include hpln

theorem messageFamily_owns : messageFamily.Owns record.name record := by
  apply family_owns
  intro key hkey
  rw [mem_singleton.mp hkey, keyMessage, joined_assoc, front_joined hpln.id,
    lastPart_joined hpln.id, front_joined (slash_notMem_inv _), String.ofList_toList,
    String.ofList_toList]
  rfl

theorem idFamily_owns : idFamily.Owns record.name record := by
  apply family_owns
  intro key hkey
  rw [mem_singleton.mp hkey, keyId, front_joined hpln.id, lastPart_joined hpln.id,
    String.ofList_toList, String.ofList_toList]
  rfl

theorem ageFamily_owns : ageFamily.Owns record.name record := by
  apply family_owns
  intro key hkey
  rw [mem_singleton.mp hkey, keyAge, joined_assoc, front_joined hpln.id,
    lastPart_joined hpln.id, lastPart_joined hpln.chat, String.ofList_toList,
    String.ofList_toList]
  rfl

omit hpln in
theorem wordFamily_owns (wordsOf : Record → List Key) (hpln : record.Plain) :
    (wordFamily wordsOf).Owns record.name record := by
  apply family_owns
  intro key hkey
  obtain ⟨word, _, rfl⟩ := List.mem_map.mp hkey
  rw [keyWord, joined_assoc, joined_assoc, front_joined hpln.chat, lastPart_joined hpln.chat,
    lastPart_joined hpln.id, String.ofList_toList, String.ofList_toList]
  rfl

theorem senderFamily_owns : senderFamily.Owns record.name record := wordFamily_owns _ hpln

theorem kindFamily_owns : kindFamily.Owns record.name record := wordFamily_owns _ hpln

omit hpln

theorem tokenFamily_owns (tables : Unicode) (hpln : record.Plain) :
    (tokenFamily tables).Owns record.name record :=
  wordFamily_owns _ hpln

end Owners

section Lookups

variable {Value : Type} {table : ExtTreeMap Key Value} {key other : Key}

theorem lookup_insert (value : Value) :
    (table.insert key value)[other]? = if other = key then some value else table[other]? := by
  split
  · next hsame => rw [hsame, getElem?_insert_self]
  · next hoth => exact getElem?_insert_of_ne (Ne.symm hoth)

theorem lookup_erase : (table.erase key)[other]? = if other = key then none else table[other]? := by
  split
  · next hsame => rw [hsame, getElem?_erase_self]
  · next hoth => exact getElem?_erase_of_ne (Ne.symm hoth)

theorem lookup_eraseAll (keys : List Key) :
    (eraseAll keys table)[other]? = if other ∈ keys then none else table[other]? :=
  getElem?_foldl_erase keys

theorem lookup_insertAll (keys : List Key) (table : ExtTreeMap Key Unit) :
    (insertAll keys table)[other]? = if other ∈ keys then some () else table[other]? := by
  induction keys generalizing table with
  | nil => rfl
  | cons key keys ih =>
    rw [insertAll, foldl_cons]
    change (insertAll keys (table.insert key ()))[other]? = _
    rw [ih, lookup_insert]
    by_cases hrest : other ∈ keys
    · rw [if_pos hrest, if_pos (mem_cons_of_mem key hrest)]
    · rw [if_neg hrest]
      simp [hrest]

end Lookups

/-! ## The whole index -/

structure Represents (tables : Unicode) (records : Name → Option Record) (index : Index) : Prop where
  named : ∀ (name : Name) (record : Record), records name = some record → record.name = name
  plain : ∀ (name : Name) (record : Record), records name = some record → record.Plain
  messages : messageFamily.Shows records (fun key => index.messages[key]?)
  ids : idFamily.Shows records (fun key => index.ids[key]?)
  ages : ageFamily.Shows records (fun key => index.ages[key]?)
  senders : senderFamily.Shows records (fun key => index.senders[key]?)
  kinds : kindFamily.Shows records (fun key => index.kinds[key]?)
  tokens : (tokenFamily tables).Shows records (fun key => index.tokens[key]?)

structure Record.SameKeys (old record : Record) : Prop where
  name : old.name = record.name
  ts : old.ts.toInt.toNat = record.ts.toInt.toNat
  sender : old.sender = record.sender
  kind : old.kind = record.kind

section Represented

variable {tables : Unicode} {records : Name → Option Record} {index : Index} {record : Record}

theorem shows_empty {Value : Type} (indexing : Indexing Key Name Record Value) :
    indexing.Shows (fun _ => none) (fun key => (∅ : ExtTreeMap Key Value)[key]?) := by
  intro key
  exact getElem?_empty

theorem represents_empty (tables : Unicode) : Represents tables (fun _ => none) Index.empty where
  named := by
    intro _ _ hrec
    cases hrec
  plain := by
    intro _ _ hrec
    cases hrec
  messages := shows_empty _
  ids := shows_empty _
  ages := shows_empty _
  senders := shows_empty _
  kinds := shows_empty _
  tokens := shows_empty _

variable (hrep : Represents tables records index)
include hrep

theorem Represents.owner {name : Name}
    (hrec : records name = some record) : record.name = name ∧ record.Plain :=
  ⟨hrep.named name record hrec, hrep.plain name record hrec⟩

theorem Represents.load (chat id : String) : index.load chat id = records (chat, id) := by
  rw [Index.load]
  cases hinv : index.ids[keyId chat id]? with
  | none =>
    cases hrec : records (chat, id) with
    | none => rfl
    | some record =>
      obtain ⟨hname, hpln⟩ := hrep.owner hrec
      cases hname
      have hfnd := hrep.ids.complete
        (fun name record hrec => by
          obtain ⟨rfl, hpln⟩ := hrep.owner hrec
          exact idFamily_owns hpln) hrec (if_pos (mem_singleton_self _))
      rw [hinv] at hfnd
      cases hfnd
  | some inverted =>
    obtain ⟨record, hrec, hent⟩ := hrep.ids.sound hinv
    obtain ⟨hname, hpln⟩ := hrep.owner hrec
    have hkey : keyId chat id = keyId record.chat record.id := by
      by_contra hoth
      rw [idFamily, family] at hent
      dsimp only at hent
      rw [if_neg (fun hmem => hoth (mem_singleton.mp hmem))] at hent
      cases hent
    obtain ⟨hchat, hid⟩ := joined_inj hpln.chat hpln.id hkey
    rw [String.toList_inj] at hchat hid
    have hinver : inverted = inv record.ts := by
      rw [idFamily, family] at hent
      dsimp only at hent
      rw [if_pos (mem_singleton.mpr hkey)] at hent
      exact (Option.some.inj hent).symm
    have hname' : records (chat, id) = some record := by
      rw [hchat, hid, ← hrec, ← hname]
      rfl
    have hsto := hrep.messages.complete
      (fun name record hrec => by
        obtain ⟨rfl, hpln⟩ := hrep.owner hrec
        exact messageFamily_owns hpln) hrec (if_pos (mem_singleton_self _))
    have hne : (inv record.ts).isEmpty = false := by
      rw [List.isEmpty_eq_false_iff, ← length_pos_iff, inv, length_hex]
      exact Nat.succ_pos 15
    rw [hname', hinver, hchat, hid]
    dsimp only
    rw [hne, if_neg Bool.false_ne_true, hsto]
    exact if_pos hpln.readable

theorem Represents.owns {Value : Type} {indexing : Indexing Key Name Record Value}
    (howns : ∀ record : Record, record.Plain → indexing.Owns record.name record) (name : Name)
    (record : Record) (hrec : records name = some record) : indexing.Owns name record := by
  obtain ⟨rfl, hpln⟩ := hrep.owner hrec
  exact howns record hpln

omit hrep

section Family

variable {Value : Type} {keysOf : Record → List Key} {valueOf : Record → Value}
  {owner : Key → Name} {table after : Key → Option Value}

theorem entry_ne_none {key : Key} :
    (family keysOf valueOf owner).entry record key ≠ none ↔ key ∈ keysOf record := by
  change (if key ∈ keysOf record then some (valueOf record) else none) ≠ none ↔ _
  by_cases hkey : key ∈ keysOf record
  · rw [if_pos hkey]
    exact iff_of_true (by nofun) hkey
  · rw [if_neg hkey]
    exact iff_of_false (fun hne => hne rfl) hkey

variable (hshows : (family keysOf valueOf owner).Shows records table)
include hshows

theorem family_found (howns : ∀ name record, records name = some record →
      (family keysOf valueOf owner).Owns name record) {name : Name} {key : Key}
    (hrec : records name = some record) (hkey : key ∈ keysOf record) :
    table key = some (valueOf record) :=
  hshows.complete howns hrec (if_pos hkey)

theorem family_sound {key : Key} {value : Value} (hval : table key = some value) :
    ∃ record, records (owner key) = some record ∧ key ∈ keysOf record ∧ value = valueOf record := by
  obtain ⟨record, hrec, hent⟩ := hshows.sound hval
  change (if key ∈ keysOf record then some (valueOf record) else none) = some value at hent
  split at hent
  · next hkey => exact ⟨record, hrec, hkey, (Option.some.inj hent).symm⟩
  · cases hent

omit hshows in
theorem family_write (gone : List Key)
    (hshows : (family keysOf valueOf owner).Shows records table)
    (howns : (family keysOf valueOf owner).Owns record.name record)
    (hold : ∀ old, records record.name = some old →
      (family keysOf valueOf owner).Owns record.name old)
    (hgone : ∀ key ∈ gone, ∃ old, records record.name = some old ∧ key ∈ keysOf old)
    (hcov : ∀ old, records record.name = some old → ∀ key ∈ keysOf old,
      key ∈ gone ∨ key ∈ keysOf record)
    (haft : ∀ key, after key = if key ∈ keysOf record then some (valueOf record)
      else if key ∈ gone then none else table key) :
    (family keysOf valueOf owner).Shows (update records record.name (some record)) after := by
  have hwrn := @Indexing.Shows.write _ _ _ _ _ records table record.name hshows _ record
    (fun key => key ∈ gone) _ howns hold
    (by
      intro key hkey
      obtain ⟨old, hrec, hmem⟩ := hgone key hkey
      exact ⟨old, hrec, entry_ne_none.mpr hmem⟩)
    (by
      intro old hrec key hent
      exact (hcov old hrec key (entry_ne_none.mp hent)).imp_right entry_ne_none.mpr)
  have hsame : after = fun key => ((family keysOf valueOf owner).entry record key).or
      (if key ∈ gone then none else table key) := by
    funext key
    rw [haft]
    change _ = (if key ∈ keysOf record then some (valueOf record) else none).or _
    split
    · rfl
    · rfl
  rw [hsame]
  exact hwrn

theorem family_remove (hrec : records record.name = some record)
    (howns : (family keysOf valueOf owner).Owns record.name record)
    (haft : ∀ key, after key = if key ∈ keysOf record then none else table key) :
    (family keysOf valueOf owner).Shows (update records record.name none) after := by
  have hrmd := hshows.remove hrec howns
  have hsame : after = fun key =>
      if ((family keysOf valueOf owner).entry record key).isSome then none else table key := by
    funext key
    rw [haft]
    change _ = if (if key ∈ keysOf record then some (valueOf record) else none).isSome = true
      then none else table key
    by_cases hkey : key ∈ keysOf record
    · rw [if_pos hkey, if_pos hkey, isSome_some, if_pos rfl]
    · rw [if_neg hkey, if_neg hkey, isSome_none, if_neg Bool.false_ne_true]
  rw [hsame]
  exact hrmd

end Family

section Single

variable {Value : Type} {keyOf : Record → Key} {valueOf : Record → Value} {owner : Key → Name}
  {table : ExtTreeMap Key Value}

variable (hshows : (family (fun record => [keyOf record]) valueOf owner).Shows records (fun key => table[key]?))
include hshows

theorem single_write
    (howns : (family (fun record => [keyOf record]) valueOf owner).Owns record.name record)
    (hold : ∀ old, records record.name = some old →
      (family (fun record => [keyOf record]) valueOf owner).Owns record.name old)
    (hsame : ∀ old, records record.name = some old → keyOf old = keyOf record) :
    (family (fun record => [keyOf record]) valueOf owner).Shows
      (update records record.name (some record))
      (fun key => (table.insert (keyOf record) (valueOf record))[key]?) := by
  apply family_write [] hshows howns hold
  · intro key hkey
    exact absurd hkey not_mem_nil
  · intro old hrec key hkey
    rw [mem_singleton.mp hkey, hsame old hrec]
    exact Or.inr (mem_singleton_self _)
  · intro key
    rw [lookup_insert, if_neg not_mem_nil]
    simp

theorem single_remove (hrec : records record.name = some record)
    (howns : (family (fun record => [keyOf record]) valueOf owner).Owns record.name record) :
    (family (fun record => [keyOf record]) valueOf owner).Shows
      (update records record.name none)
      (fun key => (table.erase (keyOf record))[key]?) := by
  apply family_remove hshows hrec howns
  intro key
  rw [lookup_erase]
  simp

end Single

structure SameFamilies (old record : Record) : Prop where
  message : keyMessage old.chat (inv old.ts) old.id = keyMessage record.chat (inv record.ts) record.id
  id : keyId old.chat old.id = keyId record.chat record.id
  age : keyAge old.ts old.chat old.id = keyAge record.ts record.chat record.id
  sender : keyWord old.sender.toList old.ts old.id old.chat =
    keyWord record.sender.toList record.ts record.id record.chat
  kind : keyWord old.kind.toList old.ts old.id old.chat =
    keyWord record.kind.toList record.ts record.id record.chat

theorem Record.SameKeys.families {old : Record} (hsame : old.SameKeys record) :
    SameFamilies old record := by
  obtain ⟨hname, hts, hsen, hkind⟩ := hsame
  obtain ⟨hchat, hid⟩ := Prod.mk.inj hname
  have hinv : inv old.ts = inv record.ts := by rw [inv, inv, hts]
  have hage : age old.ts = age record.ts := by rw [age, age, hts]
  constructor
  · rw [hchat, hid, hinv]
  · rw [hchat, hid]
  · rw [keyAge, keyAge, hage, hchat, hid]
  · rw [keyWord, keyWord, hinv, hchat, hid, hsen]
  · rw [keyWord, keyWord, hinv, hchat, hid, hkind]

variable (hrep : Represents tables records index)
include hrep

theorem Represents.write (hpln : record.Plain)
    (hold : ∀ old, records record.name = some old → old.SameKeys record) (gone : List Key)
    (hgone : ∀ key ∈ gone, ∃ old, records record.name = some old ∧ key ∈ Index.tokenKeys tables old)
    (hcov : ∀ old, records record.name = some old → ∀ key ∈ Index.tokenKeys tables old,
      key ∈ gone ∨ key ∈ Index.tokenKeys tables record) :
    Represents tables (update records record.name (some record))
      (({ index with tokens := eraseAll gone index.tokens } : Index).write tables record) := by
  have hown : ∀ old, records record.name = some old → old.name = record.name ∧ old.Plain :=
    fun old hrec => hrep.owner hrec
  have hsame : ∀ old, records record.name = some old → SameFamilies old record :=
    fun old hrec => (hold old hrec).families
  have howned : ∀ {Value : Type} {indexing : Indexing Key Name Record Value},
      (∀ record : Record, record.Plain → indexing.Owns record.name record) →
      ∀ old, records record.name = some old → indexing.Owns record.name old := by
    intro Value indexing howns old hrec
    obtain ⟨hname, holdPlain⟩ := hown old hrec
    exact hname ▸ howns old holdPlain
  constructor
  · intro name stored hsto
    rw [update_apply] at hsto
    split at hsto
    · next hhere =>
      cases hsto
      exact hhere.symm
    · exact hrep.named name stored hsto
  · intro name stored hsto
    rw [update_apply] at hsto
    split at hsto
    · cases hsto
      exact hpln
    · exact hrep.plain name stored hsto
  · exact single_write hrep.messages (messageFamily_owns hpln)
      (howned fun _ => messageFamily_owns) (fun old hrec => (hsame old hrec).message)
  · exact single_write hrep.ids (idFamily_owns hpln)
      (howned fun _ => idFamily_owns) (fun old hrec => (hsame old hrec).id)
  · exact single_write hrep.ages (ageFamily_owns hpln)
      (howned fun _ => ageFamily_owns) (fun old hrec => (hsame old hrec).age)
  · exact single_write hrep.senders (senderFamily_owns hpln)
      (howned fun _ => senderFamily_owns) (fun old hrec => (hsame old hrec).sender)
  · exact single_write hrep.kinds (kindFamily_owns hpln)
      (howned fun _ => kindFamily_owns) (fun old hrec => (hsame old hrec).kind)
  apply family_write gone hrep.tokens (tokenFamily_owns tables hpln)
    (howned fun _ => tokenFamily_owns tables) hgone hcov
  intro key
  change (insertAll (Index.tokenKeys tables record) (eraseAll gone index.tokens))[key]? = _
  rw [lookup_insertAll, lookup_eraseAll]
  rfl

theorem Represents.remove (hrec : records record.name = some record) :
    Represents tables (update records record.name none) (index.remove tables record) := by
  have hpln := hrep.plain _ _ hrec
  constructor
  · intro name stored hsto
    rw [update_apply] at hsto
    split at hsto
    · cases hsto
    · exact hrep.named name stored hsto
  · intro name stored hsto
    rw [update_apply] at hsto
    split at hsto
    · cases hsto
    · exact hrep.plain name stored hsto
  · exact single_remove hrep.messages hrec (messageFamily_owns hpln)
  · exact single_remove hrep.ids hrec (idFamily_owns hpln)
  · exact single_remove hrep.ages hrec (ageFamily_owns hpln)
  · exact single_remove hrep.senders hrec (senderFamily_owns hpln)
  · exact single_remove hrep.kinds hrec (kindFamily_owns hpln)
  apply family_remove hrep.tokens hrec (tokenFamily_owns tables hpln)
  intro key
  change (eraseAll (Index.tokenKeys tables record) index.tokens)[key]? = _
  rw [lookup_eraseAll]
  rfl

end Represented

end WasmAgent.Whatsapp
