import Mathlib.Data.Finset.Max
import WasmAgent.Sync.Writes

/-!
# Convergence of replicas

Two replicas apply the same entries, each in an order of its own and as often as it happens.
-/

namespace WasmAgent.Sync

open List Option

@[ext]
structure View where
  memories : String → Option (String × List String)
  messages : String → Option Message
  sessions : String → Option Session
  runs : String → Option Run

def Memory.live (row : Memory) : Option (String × List String) :=
  if row.deletedAt.isNone then some (row.content, row.tags) else none

def Tables.view (tables : Tables) : View where
  memories id := tables.memories[id]?.bind Memory.live
  messages id := tables.messages[id]?
  sessions id := tables.sessions[id]?.map (·.session)
  runs id := tables.runs[id]?

/-- The column `changed_at`. -/
def Tables.stamps (tables : Tables) (id : String) : Option ℕ :=
  tables.sessions[id]?.map (·.changedAt)

/-- These entries and no others are applied, each at least once. -/
def Applies (entries : List Entry) (deliveries : List (Entry × ℕ)) : Prop :=
  ∀ entry, (∃ clock, (entry, clock) ∈ deliveries) ↔ entry ∈ entries

def Converges (entries : List Entry) : Prop :=
  ∀ first second, Applies entries first → Applies entries second →
    (Tables.empty.deliverAll first).view = (Tables.empty.deliverAll second).view

/-- The replicas agree on the stamps of the sessions as well. -/
def ConvergesStamped (entries : List Entry) : Prop :=
  ∀ first second, Applies entries first → Applies entries second →
    (Tables.empty.deliverAll first).view = (Tables.empty.deliverAll second).view ∧
      (Tables.empty.deliverAll first).stamps = (Tables.empty.deliverAll second).stamps

def Newest (entries : List Entry) (id : String) (payload : MemoryPayload) : Prop :=
  Says entries (.memory id payload) ∧
    ∀ other, Says entries (.memory id other) → other.updatedAt ≤ payload.updatedAt

/-- Entries that replicas cannot disagree about. -/
structure Agreeing (entries : List Entry) : Prop where
  kept : ∀ id payload deletedAt updatedAt, Says entries (.memory id payload) →
    ¬ Says entries (.forgotten id deletedAt updatedAt)
  newest : ∀ id payload payload', Newest entries id payload → Newest entries id payload' →
    payload.content = payload'.content ∧ payload.tags = payload'.tags
  apart : ∀ id id' payload payload', id ≠ id' → Newest entries id payload →
    Says entries (.memory id' payload') →
      ¬ (payload'.scope = payload.scope ∧ payload'.contentSha256 = payload.contentSha256)
  messages : ∀ id payload payload', Says entries (.message id payload) →
    Says entries (.message id payload') → payload = payload'
  sessions : ∀ id payload payload', Says entries (.session id payload) →
    Says entries (.session id payload') → payload.session.carried = payload'.session.carried
  runs : ∀ id payload payload', Says entries (.run id payload) →
    Says entries (.run id payload') → payload.received = payload'.received

variable {deliveries : List (Entry × ℕ)}

section Registers

structure Register (Value : Type) where
  read : Tables → Option Value
  writes : Change → Option Value
  step : ∀ tables entry clock, read (tables.deliver (entry, clock)) = read tables ∨
    read (tables.deliver (entry, clock)) = writes entry.change
  fills : ∀ tables entry clock, (writes entry.change).isSome ∨ (read tables).isSome →
    (read (tables.deliver (entry, clock))).isSome

variable {Value : Type} (register : Register Value) {entries : List Entry}

theorem Register.written {tables : Tables} {value : Value}
    (hread : register.read (tables.deliverAll deliveries) = some value) :
    register.read tables = some value ∨
      ∃ delivery ∈ deliveries, register.writes delivery.1.change = some value := by
  induction deliveries generalizing tables with
  | nil => exact .inl hread
  | cons delivery deliveries ih =>
    rcases ih hread with hnow | ⟨later, hmem, hwrs⟩
    · rcases register.step tables delivery.1 delivery.2 with hsame | hnew
      · exact .inl (hsame ▸ hnow)
      · exact .inr ⟨delivery, mem_cons_self, hnew ▸ hnow⟩
    · exact .inr ⟨later, mem_cons_of_mem _ hmem, hwrs⟩

theorem Register.filled {tables : Tables}
    (hsome : (register.read tables).isSome ∨
      ∃ delivery ∈ deliveries, (register.writes delivery.1.change).isSome) :
    (register.read (tables.deliverAll deliveries)).isSome := by
  induction deliveries generalizing tables with
  | nil =>
    rcases hsome with hnow | ⟨delivery, hmem, _⟩
    · exact hnow
    · exact absurd hmem not_mem_nil
  | cons delivery deliveries ih =>
    apply ih
    rcases hsome with hnow | ⟨later, hmem, hwrs⟩
    · exact .inl (register.fills tables delivery.1 delivery.2 (.inr hnow))
    · rcases mem_cons.mp hmem with rfl | hrest
      · exact .inl (register.fills tables later.1 later.2 (.inl hwrs))
      · exact .inr ⟨later, hrest, hwrs⟩

theorem Register.settled (hemp : register.read Tables.empty = none)
    (hagree : ∀ entry ∈ entries, ∀ other ∈ entries, ∀ value value',
      register.writes entry.change = some value → register.writes other.change = some value' →
        value = value')
    {first second : List (Entry × ℕ)} (hfst : Applies entries first)
    (hsnd : Applies entries second) :
    register.read (Tables.empty.deliverAll first) =
      register.read (Tables.empty.deliverAll second) := by
  have hcard {deliveries : List (Entry × ℕ)} {value : Value} (hapl : Applies entries deliveries)
      (hread : register.read (Tables.empty.deliverAll deliveries) = some value) :
      ∃ entry ∈ entries, register.writes entry.change = some value := by
    rcases register.written hread with hnow | ⟨⟨entry, clock⟩, hmem, hwrs⟩
    · exact nomatch hemp.symm.trans hnow
    · exact ⟨entry, (hapl entry).mp ⟨clock, hmem⟩, hwrs⟩
  have hread {deliveries other : List (Entry × ℕ)} {value : Value}
      (hapl : Applies entries deliveries) (hoth : Applies entries other)
      (hread : register.read (Tables.empty.deliverAll deliveries) = some value) :
      register.read (Tables.empty.deliverAll other) = some value := by
    obtain ⟨entry, hent, hwrs⟩ := hcard hapl hread
    obtain ⟨clock, hmem⟩ := (hoth entry).mpr hent
    have hsome : (register.read (Tables.empty.deliverAll other)).isSome :=
      register.filled (.inr ⟨(entry, clock), hmem, hwrs ▸ rfl⟩)
    obtain ⟨value', hread'⟩ := isSome_iff_exists.mp hsome
    obtain ⟨entry', hent', hwrs'⟩ := hcard hoth hread'
    rw [hread', hagree entry' hent' entry hent value' value hwrs' hwrs]
  apply Option.ext
  intro value
  exact ⟨hread hfst hsnd, hread hsnd hfst⟩

def Change.messageAt (id : String) : Change → Option Message
  | .message other payload => if other = id then some payload else none
  | _ => none

def Change.sessionAt (id : String) : Change → Option Session
  | .session other payload => if other = id then some payload.session.carried else none
  | _ => none

def Change.runAt (id : String) : Change → Option Run
  | .run other payload => if other = id then some payload.received else none
  | _ => none

variable (tables : Tables)

theorem messages_deliver (entry : Entry) (clock : ℕ) (id : String) :
    (tables.deliver (entry, clock)).messages[id]? =
      (entry.change.messageAt id).or tables.messages[id]? := by
  have hrest := tables.deliver_rest clock entry
  obtain ⟨origin, change⟩ := entry
  cases change with
  | message other payload =>
    change (tables.setMessage other payload).messages[id]? = _
    rw [Tables.setMessage_messages, Change.messageAt]
    split <;> rfl
  | session | run => rw [hrest.2.1]; rfl
  | memory | forgotten => rw [hrest.1]; rfl

theorem runs_deliver (entry : Entry) (clock : ℕ) (id : String) :
    (tables.deliver (entry, clock)).runs[id]? = (entry.change.runAt id).or tables.runs[id]? := by
  have hrest := tables.deliver_rest clock entry
  obtain ⟨origin, change⟩ := entry
  cases change with
  | run other payload =>
    change (tables.setRun other payload.received).runs[id]? = _
    rw [Tables.setRun_runs, Change.runAt]
    split <;> rfl
  | message | session | memory | forgotten => rw [hrest.2.2]; rfl

theorem sessions_rest (entry : Entry) (clock : ℕ) (id : String)
    (hoth : entry.change.sessionAt id = none) :
    (tables.deliver (entry, clock)).sessions[id]? = tables.sessions[id]? := by
  have hrest := tables.deliver_rest clock entry
  obtain ⟨origin, change⟩ := entry
  cases change with
  | session other payload =>
    have hid : other ≠ id := by
      rintro rfl
      simp [Change.sessionAt] at hoth
    rw [Tables.deliver_session, if_neg hid]
  | message | memory | forgotten => rw [hrest.2.1]
  | run => rw [hrest.2.2]

def messageRegister (id : String) : Register Message where
  read tables := tables.messages[id]?
  writes := Change.messageAt id
  step tables entry clock := by
    rw [messages_deliver]
    cases entry.change.messageAt id with
    | none => exact Or.inl rfl
    | some payload => exact Or.inr rfl
  fills tables entry clock hsome := by
    rw [messages_deliver, Option.isSome_or, Bool.or_eq_true]
    exact hsome

def runRegister (id : String) : Register Run where
  read tables := tables.runs[id]?
  writes := Change.runAt id
  step tables entry clock := by
    rw [runs_deliver]
    cases entry.change.runAt id with
    | none => exact Or.inl rfl
    | some payload => exact Or.inr rfl
  fills tables entry clock hsome := by
    rw [runs_deliver, Option.isSome_or, Bool.or_eq_true]
    exact hsome

def sessionRegister (id : String) : Register Session where
  read tables := tables.sessions[id]?.map (·.session)
  writes := Change.sessionAt id
  step tables entry clock := by
    obtain ⟨origin, change⟩ := entry
    cases change with
    | session other payload =>
      rw [Tables.deliver_session]
      by_cases hid : other = id
      · subst hid
        rw [if_pos rfl, Change.sessionAt, if_pos rfl]
        cases tables.sessions[other]? with
        | none => exact Or.inr rfl
        | some row =>
          dsimp only
          split
          · exact Or.inl rfl
          · exact Or.inr rfl
      · rw [if_neg hid]
        exact Or.inl rfl
    | message | memory | forgotten | run =>
      exact Or.inl (congrArg _ (sessions_rest tables _ clock id rfl))
  fills tables entry clock hsome := by
    obtain ⟨origin, change⟩ := entry
    cases change with
    | session other payload =>
      rw [Tables.deliver_session]
      by_cases hid : other = id
      · subst hid
        rw [if_pos rfl]
        cases tables.sessions[other]? with
        | none => rfl
        | some row =>
          dsimp only
          split <;> rfl
      · rw [if_neg hid]
        simpa [Change.sessionAt, hid] using hsome
    | message | memory | forgotten | run =>
      rw [sessions_rest tables _ clock id rfl]
      simpa [Change.sessionAt] using hsome

end Registers

variable {payload : MemoryPayload}

section Memories

variable {digest : String → String} {entries : List Entry} {tables : Tables} {entry : Entry}
variable {clock : ℕ} {id : String}

def Sourced (entries : List Entry) (tables : Tables) : Prop :=
  ∀ (id : String) (row : Memory), tables.memories[id]? = some row →
    (∃ payload, Says entries (.memory id payload) ∧ row.scope = payload.scope ∧
      row.content = payload.content ∧ row.tags = payload.tags ∧
      row.contentSha256 = payload.contentSha256 ∧
      (row.deletedAt = none → row.updatedAt = payload.updatedAt)) ∧
    (row.deletedAt ≠ none → ∃ deletedAt updatedAt, Says entries (.forgotten id deletedAt updatedAt))

theorem memories_rest (hoth : entry.change.memoryId ≠ some id) :
    (tables.deliver (entry, clock)).memories[id]? = tables.memories[id]? := by
  have hrest := tables.deliver_rest clock entry
  obtain ⟨origin, change⟩ := entry
  cases change with
  | message | session | run => rw [hrest.1]
  | memory other payload =>
    rw [Tables.deliver_memory, if_neg fun hsame => hoth (congrArg some hsame)]
  | forgotten other deletedAt updatedAt =>
    rw [Tables.deliver_forgotten, if_neg fun hsame => hoth (congrArg some hsame)]

inductive Turned (entries : List Entry) (tables : Tables) (id : String) : Option Memory → Prop where
  | same : Turned entries tables id tables.memories[id]?
  | stored (payload : MemoryPayload) (hsaid : Says entries (.memory id payload))
      (hnone : tables.memories[id]? = none)
      (hfree : tables.taken id payload.scope payload.contentSha256 = false) :
      Turned entries tables id (some payload.row)
  | corrected (payload : MemoryPayload) {row : Memory} (hsaid : Says entries (.memory id payload))
      (hrow : tables.memories[id]? = some row) (hlater : row.updatedAt ≤ payload.updatedAt)
      (hfree : row.deletedAt = none → tables.taken id row.scope payload.contentSha256 = false) :
      Turned entries tables id (some (row.corrected payload))
  | deleted {row : Memory} (deletedAt updatedAt : ℕ)
      (hsaid : Says entries (.forgotten id deletedAt updatedAt))
      (hrow : tables.memories[id]? = some row) (hlive : row.deletedAt = none) :
      Turned entries tables id (some (row.deleted deletedAt updatedAt))

theorem turned (hent : entry ∈ entries) (clock : ℕ) (id : String) :
    Turned entries tables id (tables.deliver (entry, clock)).memories[id]? := by
  by_cases habout : entry.change.memoryId = some id
  · obtain ⟨origin, change⟩ := entry
    cases change with
    | message | session | run => exact nomatch habout
    | memory other payload =>
      obtain rfl : other = id := Option.some.inj habout
      rw [Tables.deliver_memory, if_pos rfl]
      have hsaid : Says entries (.memory other payload) := ⟨origin, hent⟩
      cases hrow : tables.memories[other]? with
      | none =>
        dsimp only
        split
        · rw [← hrow]
          exact .same
        case isFalse hfree => exact .stored payload hsaid hrow (Bool.eq_false_of_not_eq_true hfree)
      | some row =>
        dsimp only
        split
        · rw [← hrow]
          exact .same
        case isFalse hlater =>
          split
          · rw [← hrow]
            exact .same
          case isFalse hfree =>
            apply Turned.corrected payload hsaid hrow (Nat.le_of_not_lt hlater)
            intro hlive
            simpa [hlive] using hfree
    | forgotten other deletedAt updatedAt =>
      obtain rfl : other = id := Option.some.inj habout
      rw [Tables.deliver_forgotten, if_pos rfl]
      cases hrow : tables.memories[other]? with
      | none =>
        rw [map_none, ← hrow]
        exact .same
      | some row =>
        rw [map_some]
        cases hdel : row.deletedAt with
        | none => exact .deleted deletedAt updatedAt ⟨origin, hent⟩ hrow hdel
        | some since =>
          have hkept : row.deleted deletedAt updatedAt = row := by simp [Memory.deleted, hdel]
          rw [hkept, ← hrow]
          exact .same
  · rw [memories_rest habout]
    exact .same

theorem Sourced.deliver (hreg : Regular digest entries) (hsrcd : Sourced entries tables)
    (hent : entry ∈ entries) : Sourced entries (tables.deliver (entry, clock)) := by
  intro id found hfnd
  have htrn : Turned entries tables id _ := turned hent clock id
  generalize haft : (tables.deliver (entry, clock)).memories[id]? = after at htrn hfnd
  cases htrn with
  | same => exact hsrcd id found hfnd
  | stored payload hsaid hnone hfree =>
    obtain rfl := Option.some.inj hfnd
    exact ⟨⟨payload, hsaid, rfl, rfl, rfl, rfl, fun _ => rfl⟩, fun hdel => absurd rfl hdel⟩
  | @corrected payload row hsaid hrow hlater hfree =>
    obtain rfl := Option.some.inj hfnd
    obtain ⟨⟨stored, hsto, hscope, _⟩, hdel⟩ := hsrcd id row hrow
    exact ⟨⟨payload, hsaid, hscope.trans (hreg.scopes id stored payload hsto hsaid), rfl, rfl,
      rfl, fun _ => rfl⟩, hdel⟩
  | @deleted row deletedAt updatedAt hsaid hrow hlive =>
    obtain rfl := Option.some.inj hfnd
    obtain ⟨⟨payload, hsto, hscope, hcont, htags, hdig, _⟩, _⟩ := hsrcd id row hrow
    have hmade : row.deleted deletedAt updatedAt =
        { row with deletedAt := some deletedAt, updatedAt := updatedAt } := by
      simp [Memory.deleted, hlive]
    rw [hmade]
    exact ⟨⟨payload, hsto, hscope, hcont, htags, hdig, fun hnone => by cases hnone⟩,
      fun _ => ⟨deletedAt, updatedAt, hsaid⟩⟩

theorem Sourced.deliverAll (hreg : Regular digest entries) (hsrcd : Sourced entries tables)
    (hents : ∀ delivery ∈ deliveries, delivery.1 ∈ entries) :
    Sourced entries (tables.deliverAll deliveries) := by
  induction deliveries generalizing tables with
  | nil => exact hsrcd
  | cons delivery deliveries ih =>
    apply ih
    · exact hsrcd.deliver hreg (hents delivery mem_cons_self)
    · exact fun later hmem => hents later (mem_cons_of_mem _ hmem)

theorem empty_memories (id : String) : Tables.empty.memories[id]? = none :=
  Std.ExtTreeMap.getElem?_empty

theorem Sourced.empty : Sourced entries Tables.empty := by
  intro id row hrow
  exact nomatch (empty_memories id).symm.trans hrow

theorem deliverAll_keeps {holds : Tables → Prop} {deliveries : List (Entry × ℕ)}
    (hstep : ∀ delivery ∈ deliveries, ∀ tables, holds tables → holds (tables.deliver delivery))
    (hhld : holds tables) : holds (tables.deliverAll deliveries) := by
  induction deliveries generalizing tables with
  | nil => exact hhld
  | cons delivery deliveries ih =>
    apply ih
    · exact fun later hmem => hstep later (mem_cons_of_mem _ hmem)
    · exact hstep delivery mem_cons_self tables hhld

variable (hsrcd : Sourced entries tables)
include hsrcd

theorem Sourced.live
    (hkept : ∀ deletedAt updatedAt, ¬ Says entries (.forgotten id deletedAt updatedAt)) {row : Memory}
    (hrow : tables.memories[id]? = some row) :
    row.deletedAt = none ∧ ∃ payload, Says entries (.memory id payload) ∧
      row.scope = payload.scope ∧ row.content = payload.content ∧ row.tags = payload.tags ∧
      row.contentSha256 = payload.contentSha256 ∧ row.updatedAt = payload.updatedAt := by
  obtain ⟨⟨payload, hsaid, hscope, hcont, htags, hdig, hupd⟩, hdel⟩ := hsrcd id row hrow
  have hlive : row.deletedAt = none := by
    by_contra hgone
    obtain ⟨deletedAt, updatedAt, hfor⟩ := hdel hgone
    exact hkept deletedAt updatedAt hfor
  exact ⟨hlive, payload, hsaid, hscope, hcont, htags, hdig, hupd hlive⟩

variable (hagrg : Agreeing entries)
include hagrg

theorem Agreeing.free (hnew : Newest entries id payload) :
    tables.taken id payload.scope payload.contentSha256 = false := by
  apply Bool.eq_false_of_not_eq_true
  intro htkn
  obtain ⟨other, row, hrow, hoth, _, hscope, hdig⟩ := Tables.taken_iff.mp htkn
  obtain ⟨⟨found, hsaid, hfnd, _, _, hsha, _⟩, _⟩ := hsrcd other row hrow
  exact hagrg.apart id other payload found hoth.symm hnew hsaid
    ⟨hfnd.symm.trans hscope, hsha.symm.trans hdig⟩

/-- A memory is at least as new as this. -/
def Reached (tables : Tables) (id : String) (updatedAt : ℕ) : Prop :=
  ∃ row, tables.memories[id]? = some row ∧ updatedAt ≤ row.updatedAt

omit hsrcd in
theorem Agreeing.reached (hreg : Regular digest entries)
    (hsrcd : Sourced entries tables) {origin : String} (hnew : Newest entries id payload) :
    Reached (tables.deliver (⟨origin, .memory id payload⟩, clock)) id payload.updatedAt := by
  have hfree := hagrg.free hsrcd hnew
  rw [Reached, Tables.deliver_memory, if_pos rfl]
  cases hrow : tables.memories[id]? with
  | none =>
    rw [hfree]
    exact ⟨payload.row, rfl, Nat.le_refl _⟩
  | some row =>
    obtain ⟨⟨stored, hsto, hscope, _⟩, _⟩ := hsrcd id row hrow
    dsimp only
    rw [hscope.trans (hreg.scopes id stored payload hsto hnew.1), hfree, Bool.and_false]
    split
    case isTrue hlater => exact ⟨row, rfl, Nat.le_of_lt hlater⟩
    case isFalse => exact ⟨row.corrected payload, rfl, Nat.le_refl _⟩

theorem Agreeing.stays
    (hent : entry ∈ entries) {updatedAt : ℕ} (hrch : Reached tables id updatedAt) :
    Reached (tables.deliver (entry, clock)) id updatedAt := by
  obtain ⟨row, hrow, hle⟩ := hrch
  have htrn : Turned entries tables id _ := turned hent clock id
  rw [Reached]
  generalize (tables.deliver (entry, clock)).memories[id]? = after at htrn ⊢
  cases htrn with
  | same => exact ⟨row, hrow, hle⟩
  | stored payload hsaid hnone hfree => exact nomatch hnone.symm.trans hrow
  | corrected payload hsaid hfnd hlater hfree =>
    obtain rfl := Option.some.inj (hrow.symm.trans hfnd)
    exact ⟨row.corrected payload, rfl, Nat.le_trans hle hlater⟩
  | deleted deletedAt updatedAt hsaid hfnd hlive =>
    obtain ⟨⟨payload, hsto, _⟩, _⟩ := hsrcd id _ hfnd
    exact absurd hsaid (hagrg.kept id payload deletedAt updatedAt hsto)

omit hsrcd

theorem Agreeing.ends (hreg : Regular digest entries)
    (hapl : Applies entries deliveries) (hnew : Newest entries id payload) :
    (Tables.empty.deliverAll deliveries).view.memories id =
      some (payload.content, payload.tags) := by
  have hents : ∀ delivery ∈ deliveries, delivery.1 ∈ entries :=
    fun delivery hmem => (hapl delivery.1).mp ⟨delivery.2, hmem⟩
  obtain ⟨origin, hsaid⟩ := hnew.1
  obtain ⟨clock, hmem⟩ := (hapl _).mpr hsaid
  obtain ⟨before, after, rfl⟩ := List.append_of_mem hmem
  have hbef : Sourced entries (Tables.empty.deliverAll before) :=
    Sourced.empty.deliverAll hreg fun delivery hmem =>
      hents delivery (List.mem_append_left _ hmem)
  -- The newest entry is taken up when it comes, and nothing takes it back.
  let newest : Entry := ⟨origin, .memory id payload⟩
  have hends : Sourced entries (Tables.empty.deliverAll (before ++ (newest, clock) :: after)) ∧
      Reached (Tables.empty.deliverAll (before ++ (newest, clock) :: after)) id
        payload.updatedAt := by
    rw [Tables.deliverAll, List.foldl_append, List.foldl_cons]
    refine @deliverAll_keeps _ (fun tables =>
      Sourced entries tables ∧ Reached tables id payload.updatedAt) after ?_ ?_
    · rintro ⟨entry, clock⟩ hlater tables ⟨hsrcd, hrch⟩
      have hent := hents (entry, clock) (List.mem_append_right _ (List.mem_cons_of_mem _ hlater))
      exact ⟨hsrcd.deliver hreg hent, hagrg.stays hsrcd hent hrch⟩
    · exact ⟨hbef.deliver hreg hsaid, hagrg.reached hreg hbef hnew⟩
  obtain ⟨hsrcd, row, hrow, hle⟩ := hends
  obtain ⟨hlive, found, hsaid, _, hcont, htags, _, hupd⟩ := hsrcd.live
    (fun deletedAt updatedAt => hagrg.kept id payload deletedAt updatedAt hnew.1) hrow
  have hsame := hagrg.newest id found payload
    ⟨hsaid, fun other hoth => (hnew.2 other hoth).trans (hle.trans hupd.le)⟩ hnew
  change Option.bind _ _ = _
  rw [hrow, Option.bind_some, Memory.live, hlive, hcont, htags, hsame.1, hsame.2]
  rfl

omit hagrg

theorem newest_exists (hsaid : Says entries (.memory id payload)) :
    ∃ newest, Newest entries id newest := by
  have hfnd (other : MemoryPayload) : other ∈ (entries.filterMap fun entry =>
      match entry.change with
      | .memory found payload => if found = id then some payload else none
      | _ => none).toFinset ↔ Says entries (.memory id other) := by
    rw [List.mem_toFinset, mem_filterMap]
    constructor
    · rintro ⟨⟨origin, change⟩, hmem, hsome⟩
      cases change with
      | message | session | run | forgotten => exact nomatch hsome
      | memory found payload =>
        dsimp only at hsome
        split at hsome
        case isTrue hsame =>
          obtain rfl := Option.some.inj hsome
          exact ⟨origin, hsame ▸ hmem⟩
        case isFalse => exact nomatch hsome
    · rintro ⟨origin, hmem⟩
      exact ⟨_, hmem, if_pos rfl⟩
  obtain ⟨newest, hnew, hmax⟩ := Finset.exists_max_image _ MemoryPayload.updatedAt
    ⟨payload, (hfnd payload).mpr hsaid⟩
  exact ⟨newest, (hfnd newest).mp hnew,
    fun other hoth => hmax other ((hfnd other).mpr hoth)⟩

theorem never_stored (hreg : Regular digest entries) (hapl : Applies entries deliveries)
    (hnever : ∀ payload, ¬ Says entries (.memory id payload)) :
    (Tables.empty.deliverAll deliveries).view.memories id = none := by
  have hsrcd : Sourced entries (Tables.empty.deliverAll deliveries) :=
    Sourced.empty.deliverAll hreg
      fun delivery hmem => (hapl delivery.1).mp ⟨delivery.2, hmem⟩
  change Option.bind _ _ = _
  cases hrow : (Tables.empty.deliverAll deliveries).memories[id]? with
  | none => rfl
  | some row =>
    obtain ⟨⟨payload, hsaid, _⟩, _⟩ := hsrcd id row hrow
    exact absurd hsaid (hnever payload)

variable {change : Change}

theorem Change.messageAt_eq_some {payload : Message} :
    change.messageAt id = some payload ↔ change = .message id payload := by
  cases change with
  | message | _ => simp [Change.messageAt]

theorem Change.runAt_eq_some {run : Run} :
    change.runAt id = some run ↔ ∃ payload, change = .run id payload ∧ payload.received = run := by
  cases change with
  | run other found => simp [Change.runAt, and_comm, eq_comm]
  | _ => simp [Change.runAt]

theorem Change.sessionAt_eq_some {session : Session} :
    change.sessionAt id = some session ↔
      ∃ payload, change = .session id payload ∧ payload.session.carried = session := by
  cases change with
  | session other found => simp [Change.sessionAt, and_comm, eq_comm]
  | _ => simp [Change.sessionAt]

theorem says_of_mem (hent : entry ∈ entries) (hchg : entry.change = change) : Says entries change :=
  ⟨entry.origin, hchg ▸ hent⟩

theorem Agreeing.converges (hagrg : Agreeing entries) (hreg : Regular digest entries) :
    Converges entries := by
  intro first second hfst hsnd
  have hmem : (Tables.empty.deliverAll first).view.memories =
      (Tables.empty.deliverAll second).view.memories := by
    funext id
    by_cases hsto : ∃ payload, Says entries (.memory id payload)
    · obtain ⟨payload, hsaid⟩ := hsto
      obtain ⟨newest, hnew⟩ := newest_exists hsaid
      rw [hagrg.ends hreg hfst hnew, hagrg.ends hreg hsnd hnew]
    · rw [never_stored hreg hfst (not_exists.mp hsto), never_stored hreg hsnd (not_exists.mp hsto)]
  have hmsgs : (Tables.empty.deliverAll first).view.messages =
      (Tables.empty.deliverAll second).view.messages := by
    funext id
    apply (messageRegister id).settled Std.ExtTreeMap.getElem?_empty _ hfst hsnd
    intro entry hent other hoth payload payload' hsaid hsaid'
    exact hagrg.messages id payload payload'
      (says_of_mem hent (Change.messageAt_eq_some.mp hsaid))
      (says_of_mem hoth (Change.messageAt_eq_some.mp hsaid'))
  have hses : (Tables.empty.deliverAll first).view.sessions =
      (Tables.empty.deliverAll second).view.sessions := by
    funext id
    have hemp : (sessionRegister id).read Tables.empty = none := by
      change Tables.empty.sessions[id]?.map (·.session) = none
      rw [show Tables.empty.sessions[id]? = none from Std.ExtTreeMap.getElem?_empty]
      rfl
    apply (sessionRegister id).settled hemp _ hfst hsnd
    intro entry hent other hoth session session' hsaid hsaid'
    obtain ⟨payload, hchg, rfl⟩ := Change.sessionAt_eq_some.mp hsaid
    obtain ⟨payload', hchg', rfl⟩ := Change.sessionAt_eq_some.mp hsaid'
    exact hagrg.sessions id payload payload' (says_of_mem hent hchg) (says_of_mem hoth hchg')
  have hruns : (Tables.empty.deliverAll first).view.runs =
      (Tables.empty.deliverAll second).view.runs := by
    funext id
    apply (runRegister id).settled Std.ExtTreeMap.getElem?_empty _ hfst hsnd
    intro entry hent other hoth run run' hsaid hsaid'
    obtain ⟨payload, hchg, rfl⟩ := Change.runAt_eq_some.mp hsaid
    obtain ⟨payload', hchg', rfl⟩ := Change.runAt_eq_some.mp hsaid'
    exact hagrg.runs id payload payload' (says_of_mem hent hchg) (says_of_mem hoth hchg')
  exact View.ext hmem hmsgs hses hruns

end Memories

section Orders

variable {digest : String → String} {entries : List Entry} {id : String}

def once (entries : List Entry) : List (Entry × ℕ) := entries.map (·, 0)

variable {entry : Entry}

theorem mem_once {clock : ℕ} : (entry, clock) ∈ once entries ↔ entry ∈ entries ∧ clock = 0 := by
  simp [once, eq_comm]

theorem applies_around (before after : List (Entry × ℕ)) (middle : List Entry)
    (hbef : ∀ delivery ∈ before, delivery.1 ∈ entries)
    (haft : ∀ delivery ∈ after, delivery.1 ∈ entries)
    (hmid : ∀ entry, entry ∈ entries → entry ∈ middle ∨ (∃ clock, (entry, clock) ∈ before) ∨
      ∃ clock, (entry, clock) ∈ after)
    (hsub : ∀ entry ∈ middle, entry ∈ entries) :
    Applies entries (before ++ once middle ++ after) := by
  intro entry
  constructor
  · rintro ⟨clock, hmem⟩
    rcases mem_append.mp hmem with hely | hlate
    · rcases mem_append.mp hely with hmem | hmem
      · exact hbef _ hmem
      · exact hsub entry (mem_once.mp hmem).1
    · exact haft _ hlate
  intro hent
  rcases hmid entry hent with hmem | ⟨clock, hmem⟩ | ⟨clock, hmem⟩
  · exact ⟨0, mem_append_left _ (mem_append_right _ (mem_once.mpr ⟨hmem, rfl⟩))⟩
  · exact ⟨clock, mem_append_left _ (mem_append_left _ hmem)⟩
  · exact ⟨clock, mem_append_right _ hmem⟩

theorem applies_last (hent : entry ∈ entries) (clock : ℕ) :
    Applies entries (once entries ++ [(entry, clock)]) := by
  apply applies_around [] [(entry, clock)] entries nofun
  · intro delivery hmem
    rw [mem_singleton.mp hmem]
    exact hent
  · exact fun entry hent => .inl hent
  · exact fun _ hmem => hmem

theorem deliverAll_last (deliveries : List (Entry × ℕ)) (delivery : Entry × ℕ) (tables : Tables) :
    tables.deliverAll (deliveries ++ [delivery]) = (tables.deliverAll deliveries).deliver delivery := by
  rw [Tables.deliverAll, foldl_append]
  rfl

theorem deliverAll_append (before after : List (Entry × ℕ)) (tables : Tables) :
    tables.deliverAll (before ++ after) = (tables.deliverAll before).deliverAll after :=
  foldl_append

theorem Converges.messages (hcvg : Converges entries) {payload payload' : Message}
    (hsaid : Says entries (.message id payload)) (hsaid' : Says entries (.message id payload')) :
    payload = payload' := by
  have hlast {payload : Message} {origin : String} :
      (Tables.empty.deliverAll (once entries ++ [(⟨origin, .message id payload⟩, 0)])).view.messages
        id = some payload := by
    change (Tables.messages _)[id]? = _
    rw [deliverAll_last, messages_deliver, Change.messageAt, if_pos rfl]
    rfl
  obtain ⟨origin, hmem⟩ := hsaid
  obtain ⟨origin', hmem'⟩ := hsaid'
  have hview := hcvg _ _ (applies_last hmem 0) (applies_last hmem' 0)
  apply Option.some.inj
  rw [← hlast, hview, hlast]

theorem Converges.runs (hcvg : Converges entries) {payload payload' : Run}
    (hsaid : Says entries (.run id payload)) (hsaid' : Says entries (.run id payload')) :
    payload.received = payload'.received := by
  have hlast {payload : Run} {origin : String} :
      (Tables.empty.deliverAll (once entries ++ [(⟨origin, .run id payload⟩, 0)])).view.runs id =
        some payload.received := by
    change (Tables.runs _)[id]? = _
    rw [deliverAll_last, runs_deliver, Change.runAt, if_pos rfl]
    rfl
  obtain ⟨origin, hmem⟩ := hsaid
  obtain ⟨origin', hmem'⟩ := hsaid'
  have hview := hcvg _ _ (applies_last hmem 0) (applies_last hmem' 0)
  apply Option.some.inj
  rw [← hlast, hview, hlast]

theorem late_clock (entries : List Entry) :
    ∃ late, ∀ id payload, Says entries (.session id payload) → payload.stamp < late := by
  let stampOf : Entry → ℕ := fun entry =>
    match entry.change with
    | .session _ payload => payload.stamp
    | _ => 0
  refine ⟨entries.toFinset.sup stampOf + 1, ?_⟩
  rintro id payload ⟨origin, hmem⟩
  exact Nat.lt_succ_of_le (Finset.le_sup (f := stampOf) (List.mem_toFinset.mpr hmem))

theorem Session.carried_updatedAt (session : Session) :
    session.carried.updatedAt = session.updatedAt := rfl

theorem session_pinned (id origin : String) (payload : SessionRow) {clock : ℕ}
    (hlate : ∀ id payload, Says entries (.session id payload) → payload.stamp < clock) :
    let entry : Entry := ⟨origin, .session id payload⟩
    ∃ row, (Tables.empty.deliverAll ([(entry, 0), (entry, clock)] ++ once entries)).sessions[id]? =
      some row ∧ row.session = payload.session.carried ∧ row.changedAt = clock := by
  intro entry
  refine @deliverAll_keeps _ (fun tables => ∃ row : SessionRow, tables.sessions[id]? = some row ∧
    row.session = payload.session.carried ∧ row.changedAt = clock) (once entries) ?_ ?_
  · rintro ⟨later, reading⟩ hmem tables ⟨row, hrow, hses, hstamp⟩
    refine ⟨row, ?_, hses, hstamp⟩
    cases hat : later.change.sessionAt id with
    | none => rw [sessions_rest tables later reading id hat, hrow]
    | some session =>
      obtain ⟨found, hchg, _⟩ := Change.sessionAt_eq_some.mp hat
      have hely := hlate id found (says_of_mem (mem_once.mp hmem).1 hchg)
      obtain ⟨name, change⟩ := later
      obtain rfl : change = .session id found := hchg
      have hle : clock ≤ row.stamp := hstamp ▸ Nat.le_max_left _ _
      rw [Tables.deliver_session, if_pos rfl, hrow]
      dsimp only
      rw [if_pos (Nat.lt_of_lt_of_le hely hle)]
  have hfst : (Tables.empty.deliver (entry, 0)).sessions[id]? =
      some ⟨payload.session.carried, payload.stamp, ⟨none, 0, "", 0⟩⟩ := by
    rw [Tables.deliver_session, if_pos rfl,
      show Tables.empty.sessions[id]? = none from Std.ExtTreeMap.getElem?_empty]
  have hsame : (⟨payload.session.carried, payload.stamp, ⟨none, 0, "", 0⟩⟩ : SessionRow).stamp =
      payload.stamp := by
    rw [SessionRow.stamp, Session.carried_updatedAt]
    exact Nat.max_eq_left (Nat.le_max_right _ _)
  rw [Tables.deliver_session, if_pos rfl, hfst]
  dsimp only
  rw [hsame, if_neg (Nat.lt_irrefl _), if_pos rfl]
  exact ⟨_, rfl, rfl, rfl⟩

theorem applies_twice (hent : entry ∈ entries) (clock : ℕ) :
    Applies entries ([(entry, 0), (entry, clock)] ++ once entries) := by
  rw [← append_nil (_ ++ once entries)]
  apply applies_around [(entry, 0), (entry, clock)] [] entries
  · intro delivery hmem
    rcases mem_cons.mp hmem with rfl | hlast
    · exact hent
    · rw [mem_singleton.mp hlast]
      exact hent
  · exact nofun
  · exact fun entry hent => .inl hent
  · exact fun _ hmem => hmem

theorem Converges.sessions (hcvg : Converges entries) {payload payload' : SessionRow}
    (hsaid : Says entries (.session id payload)) (hsaid' : Says entries (.session id payload')) :
    payload.session.carried = payload'.session.carried := by
  obtain ⟨late, hlate⟩ := late_clock entries
  obtain ⟨origin, hmem⟩ := hsaid
  obtain ⟨origin', hmem'⟩ := hsaid'
  have hpin {payload : SessionRow} (origin : String) :
      (Tables.empty.deliverAll ([(⟨origin, .session id payload⟩, 0),
        (⟨origin, .session id payload⟩, late)] ++ once entries)).view.sessions id =
          some payload.session.carried := by
    obtain ⟨row, hrow, hses, _⟩ := session_pinned id origin payload hlate
    change Option.map _ (Tables.sessions _)[id]? = _
    rw [hrow, Option.map_some, hses]
  have hview := hcvg _ _ (applies_twice hmem late) (applies_twice hmem' late)
  apply Option.some.inj
  rw [← hpin origin, hview, hpin origin']

theorem ConvergesStamped.no_session (hcvg : ConvergesStamped entries)
    {payload : SessionRow} : ¬ Says entries (.session id payload) := by
  rintro ⟨origin, hmem⟩
  obtain ⟨late, hlate⟩ := late_clock entries
  have hpin {clock : ℕ}
      (hlate : ∀ id payload, Says entries (.session id payload) → payload.stamp < clock) :
      (Tables.empty.deliverAll ([(⟨origin, .session id payload⟩, 0),
        (⟨origin, .session id payload⟩, clock)] ++ once entries)).stamps id = some clock := by
    obtain ⟨row, hrow, _, hstamp⟩ := session_pinned id origin payload hlate
    rw [Tables.stamps, hrow, map_some, hstamp]
  have hlater : ∀ id payload, Says entries (.session id payload) → payload.stamp < late + 1 :=
    fun id payload hsaid => Nat.lt_succ_of_lt (hlate id payload hsaid)
  have hstam := (hcvg _ _ (applies_twice hmem late) (applies_twice hmem (late + 1))).2
  have hsame : some late = some (late + 1) := by
    rw [← hpin hlate, hstam, hpin hlater]
  exact Nat.succ_ne_self late (Option.some.inj hsame).symm

def isAbout (id : String) (entry : Entry) : Bool := entry.change.memoryId = some id

def memoryFirst (entries : List Entry) (id : String) (last : Entry) : List (Entry × ℕ) :=
  once (entries.filter (isAbout id)) ++ [(last, 0)] ++ once (entries.filter (!isAbout id ·)) ++ []

theorem mem_about_or (hent : entry ∈ entries) :
    entry ∈ entries.filter (isAbout id) ∨ entry ∈ entries.filter (!isAbout id ·) := by
  cases habout : isAbout id entry with
  | true => exact .inl (mem_filter.mpr ⟨hent, habout⟩)
  | false => exact .inr (mem_filter.mpr ⟨hent, by simp [habout]⟩)

theorem applies_memoryFirst (id : String) {last : Entry} (hlast : last ∈ entries) :
    Applies entries (memoryFirst entries id last) := by
  apply applies_around (once (entries.filter (isAbout id)) ++ [(last, 0)]) []
    (entries.filter (!isAbout id ·))
  · rintro ⟨entry, clock⟩ hmem
    rcases mem_append.mp hmem with hely | hend
    · exact (mem_filter.mp (mem_once.mp hely).1).1
    · rw [mem_singleton.mp hend]
      exact hlast
  · exact nofun
  · intro entry hent
    rcases mem_about_or hent with habout | hoth
    · exact .inr (.inl ⟨0, mem_append_left _ (mem_once.mpr ⟨habout, rfl⟩)⟩)
    · exact .inl hoth
  · exact fun entry hmem => (mem_filter.mp hmem).1

theorem memories_others (tables : Tables) :
    (tables.deliverAll (once (entries.filter (!isAbout id ·)) ++ [])).memories[id]? =
      tables.memories[id]? := by
  refine @deliverAll_keeps tables (fun after => after.memories[id]? = tables.memories[id]?)
    (once (entries.filter (!isAbout id ·)) ++ []) ?_ rfl
  rintro ⟨entry, clock⟩ hmem after haft
  rw [append_nil] at hmem
  have hoth := (mem_filter.mp (mem_once.mp hmem).1).2
  rw [memories_rest, haft]
  simpa [isAbout] using hoth

theorem newest_last (hreg : Regular digest entries)
    (hkept : ∀ deletedAt updatedAt, ¬ Says entries (.forgotten id deletedAt updatedAt))
    (origin : String) (hnew : Newest entries id payload) :
    (Tables.empty.deliverAll
      (memoryFirst entries id ⟨origin, .memory id payload⟩)).view.memories id =
        some (payload.content, payload.tags) := by
  have hph : Sourced entries (Tables.empty.deliverAll (once (entries.filter (isAbout id)))) ∧
      ∀ other, other ≠ id →
        (Tables.empty.deliverAll (once (entries.filter (isAbout id)))).memories[other]? = none := by
    refine @deliverAll_keeps _ (fun tables => Sourced entries tables ∧
      ∀ other, other ≠ id → tables.memories[other]? = none) (once (entries.filter (isAbout id))) ?_
      ⟨Sourced.empty, fun other _ => empty_memories other⟩
    rintro ⟨entry, clock⟩ hmem tables ⟨hsrcd, halone⟩
    obtain ⟨hent, habout⟩ := List.mem_filter.mp (mem_once.mp hmem).1
    refine ⟨hsrcd.deliver hreg hent, ?_⟩
    intro other hoth
    rw [memories_rest, halone other hoth]
    have hid : entry.change.memoryId = some id := by simpa [isAbout] using habout
    rw [hid]
    exact fun hsame => hoth (Option.some.inj hsame).symm
  change Option.bind (Tables.memories _)[id]? _ = _
  rw [memoryFirst, List.append_assoc, deliverAll_append, memories_others, deliverAll_last,
    Tables.deliver_memory, if_pos rfl]
  generalize Tables.empty.deliverAll (once (entries.filter (isAbout id))) = tables at hph
  have hfree (scope contentSha256 : String) : tables.taken id scope contentSha256 = false := by
    apply Bool.eq_false_of_not_eq_true
    intro htkn
    obtain ⟨other, row, hrow, hoth, _⟩ := Tables.taken_iff.mp htkn
    exact nomatch (hph.2 other hoth).symm.trans hrow
  cases hrow : tables.memories[id]? with
  | none =>
    rw [hfree]
    rfl
  | some row =>
    obtain ⟨hlive, stored, hsaid, _, _, _, _, hupd⟩ := hph.1.live hkept hrow
    have hlater : ¬ payload.updatedAt < row.updatedAt := by
      rw [hupd]
      exact Nat.not_lt_of_le (hnew.2 stored hsaid)
    dsimp only
    rw [if_neg hlater, hfree, Bool.and_false, if_neg Bool.false_ne_true, Option.bind_some,
      Memory.live]
    change (if row.deletedAt.isNone = true then _ else _) = _
    rw [hlive]
    rfl

variable {payload' : MemoryPayload}

theorem Converges.newest (hcvg : Converges entries) (hreg : Regular digest entries)
    (hkept : ∀ deletedAt updatedAt, ¬ Says entries (.forgotten id deletedAt updatedAt))
    (hnew : Newest entries id payload) (hnew' : Newest entries id payload') :
    payload.content = payload'.content ∧ payload.tags = payload'.tags := by
  obtain ⟨origin, hmem⟩ := hnew.1
  obtain ⟨origin', hmem'⟩ := hnew'.1
  have hview := hcvg _ _ (applies_memoryFirst id hmem) (applies_memoryFirst id hmem')
  apply Prod.mk.inj
  apply Option.some.inj
  rw [← newest_last hreg hkept origin hnew, hview, newest_last hreg hkept origin' hnew']

theorem stays_deleted {tables : Tables}
    (hdel : ∃ row : Memory, tables.memories[id]? = some row ∧ row.deletedAt ≠ none) :
    (tables.deliverAll deliveries).view.memories id = none := by
  obtain ⟨row, hrow, hgone⟩ := @deliverAll_keeps tables (fun tables => ∃ row : Memory,
    tables.memories[id]? = some row ∧ row.deletedAt ≠ none) deliveries (by
      rintro ⟨entry, clock⟩ _ tables ⟨row, hrow, hgone⟩
      have htrn : Turned [entry] tables id _ := turned (List.mem_singleton_self entry) clock id
      generalize (tables.deliver (entry, clock)).memories[id]? = after at htrn ⊢
      cases htrn with
      | same => exact ⟨row, hrow, hgone⟩
      | stored payload hsaid hnone hfree => exact nomatch hnone.symm.trans hrow
      | corrected payload hsaid hfnd hlater hfree =>
        obtain rfl := Option.some.inj (hrow.symm.trans hfnd)
        exact ⟨row.corrected payload, rfl, hgone⟩
      | deleted deletedAt updatedAt hsaid hfnd hlive =>
        obtain rfl := Option.some.inj (hrow.symm.trans hfnd)
        exact absurd hlive hgone) hdel
  change Option.bind (Tables.memories _)[id]? _ = _
  rw [hrow, Option.bind_some, Memory.live, if_neg (by simpa using hgone)]

def isDelete (id : String) (entry : Entry) : Bool :=
  match entry.change with
  | .forgotten other _ _ => other = id
  | _ => false

/-- The deletions of a memory first: they find nothing. -/
def deletesFirst (entries : List Entry) (id : String) (stored : Entry) : List (Entry × ℕ) :=
  once (entries.filter (isDelete id)) ++ [(stored, 0)] ++
    once (entries.filter (!isDelete id ·)) ++ []

theorem applies_deletesFirst (id : String) {stored : Entry} (hsto : stored ∈ entries) :
    Applies entries (deletesFirst entries id stored) := by
  apply applies_around (once (entries.filter (isDelete id)) ++ [(stored, 0)]) []
    (entries.filter (!isDelete id ·))
  · rintro ⟨entry, clock⟩ hmem
    rcases mem_append.mp hmem with hely | hend
    · exact (mem_filter.mp (mem_once.mp hely).1).1
    · rw [mem_singleton.mp hend]
      exact hsto
  · exact nofun
  · intro entry hent
    cases hdel : isDelete id entry with
    | true =>
      have hmem : entry ∈ entries.filter (isDelete id) := mem_filter.mpr ⟨hent, hdel⟩
      exact .inr (.inl ⟨0, mem_append_left _ (mem_once.mpr ⟨hmem, rfl⟩)⟩)
    | false => exact .inl (mem_filter.mpr ⟨hent, by simp [hdel]⟩)
  · exact fun entry hmem => (mem_filter.mp hmem).1

theorem free_of_none {tables : Tables} (hnot : ∀ other : String, tables.memories[other]? = none)
    (id scope contentSha256 : String) : tables.taken id scope contentSha256 = false := by
  apply Bool.eq_false_of_not_eq_true
  intro htkn
  obtain ⟨other, row, hrow, _⟩ := Tables.taken_iff.mp htkn
  exact nomatch (hnot other).symm.trans hrow

theorem live_after_deletes (origin : String) (payload : MemoryPayload) :
    (Tables.empty.deliverAll
      (deletesFirst entries id ⟨origin, .memory id payload⟩)).view.memories id ≠ none := by
  have hnot : ∀ other : String,
      (Tables.empty.deliverAll (once (entries.filter (isDelete id)))).memories[other]? = none := by
    refine @deliverAll_keeps _ (fun tables => ∀ other : String, tables.memories[other]? = none)
      (once (entries.filter (isDelete id))) ?_ empty_memories
    rintro ⟨⟨name, change⟩, clock⟩ hmem tables hnone other
    have hdel := (List.mem_filter.mp (mem_once.mp hmem).1).2
    cases change with
    | message | session | memory | run => exact nomatch hdel
    | forgotten found deletedAt updatedAt =>
      rw [Tables.deliver_forgotten, hnone found, hnone other]
      split <;> rfl
  obtain ⟨row, hrow, hlive⟩ : ∃ row : Memory,
      (Tables.empty.deliverAll (deletesFirst entries id ⟨origin, .memory id payload⟩)).memories[id]? =
        some row ∧ row.deletedAt = none := by
    rw [deletesFirst, List.append_nil, deliverAll_append, deliverAll_last]
    refine @deliverAll_keeps _ (fun tables => ∃ row : Memory, tables.memories[id]? = some row ∧
      row.deletedAt = none) (once (entries.filter (!isDelete id ·))) ?_ ?_
    · rintro ⟨entry, clock⟩ hmem tables ⟨row, hrow, hlive⟩
      have hspar := (List.mem_filter.mp (mem_once.mp hmem).1).2
      have htrn : Turned [entry] tables id _ := turned (List.mem_singleton_self entry) clock id
      generalize (tables.deliver (entry, clock)).memories[id]? = after at htrn ⊢
      cases htrn with
      | same => exact ⟨row, hrow, hlive⟩
      | stored found hsaid hnone hfree => exact nomatch hnone.symm.trans hrow
      | corrected found hsaid hfnd hlater hfree =>
        obtain rfl := Option.some.inj (hrow.symm.trans hfnd)
        exact ⟨row.corrected found, rfl, hlive⟩
      | deleted deletedAt updatedAt hsaid hfnd _ =>
        rw [isDelete, says_singleton.mp hsaid] at hspar
        simp at hspar
    rw [Tables.deliver_memory, if_pos rfl]
    generalize Tables.empty.deliverAll (once (entries.filter (isDelete id))) = tables at hnot
    rw [hnot id]
    rw [free_of_none hnot]
    exact ⟨payload.row, rfl, rfl⟩
  change Option.bind (Tables.memories _)[id]? _ ≠ _
  rw [hrow, Option.bind_some, Memory.live, hlive]
  exact nofun

variable (hcvg : Converges entries)
include hcvg

theorem Converges.kept {deletedAt updatedAt : ℕ} (hsaid : Says entries (.memory id payload)) :
    ¬ Says entries (.forgotten id deletedAt updatedAt) := by
  rintro ⟨origin', hdel⟩
  obtain ⟨origin, hsto⟩ := hsaid
  have hapl : Applies entries ([(⟨origin, .memory id payload⟩, 0),
      (⟨origin', .forgotten id deletedAt updatedAt⟩, 0)] ++ once entries ++ []) := by
    apply applies_around _ [] entries
    · intro delivery hmem
      rcases mem_cons.mp hmem with rfl | hlast
      · exact hsto
      · rw [mem_singleton.mp hlast]
        exact hdel
    · exact nofun
    · exact fun entry hent => .inl hent
    · exact fun _ hmem => hmem
  have hdead : (Tables.empty.deliverAll ([(⟨origin, .memory id payload⟩, 0),
      (⟨origin', .forgotten id deletedAt updatedAt⟩, 0)] ++ once entries ++ [])).view.memories id =
        none := by
    rw [append_assoc, deliverAll_append]
    apply stays_deleted
    change ∃ row : Memory, ((Tables.empty.deliver (⟨origin, .memory id payload⟩, 0)).deliver
      (⟨origin', .forgotten id deletedAt updatedAt⟩, 0)).memories[id]? = some row ∧ _
    rw [Tables.deliver_forgotten, if_pos rfl, Tables.deliver_memory, if_pos rfl, empty_memories]
    rw [free_of_none empty_memories]
    exact ⟨payload.row.deleted deletedAt updatedAt, rfl, nofun⟩
  have hview := hcvg _ _ hapl (applies_deletesFirst id hsto)
  rw [hview] at hdead
  exact live_after_deletes origin payload hdead

theorem Converges.apart (hreg : Regular digest entries)
    (hkept : ∀ deletedAt updatedAt, ¬ Says entries (.forgotten id deletedAt updatedAt))
    {id' : String} (hoth : id ≠ id')
    (hnew : Newest entries id payload) (hsaid' : Says entries (.memory id' payload')) :
    ¬ (payload'.scope = payload.scope ∧ payload'.contentSha256 = payload.contentSha256) := by
  rintro ⟨hscope, hsha⟩
  obtain ⟨origin, hmem⟩ := hnew.1
  obtain ⟨origin', hmem'⟩ := hsaid'
  let rival : Entry := ⟨origin', .memory id' payload'⟩
  have hapl : Applies entries ([(rival, 0)] ++ once (entries.filter (isAbout id)) ++
      (once (entries.filter (!isAbout id ·)) ++ [])) := by
    apply applies_around [(rival, 0)] (once (entries.filter (!isAbout id ·)) ++ [])
      (entries.filter (isAbout id))
    · intro delivery hdel
      rw [mem_singleton.mp hdel]
      exact hmem'
    · rintro ⟨entry, clock⟩ hdel
      rw [append_nil] at hdel
      exact (mem_filter.mp (mem_once.mp hdel).1).1
    · intro entry hent
      rcases mem_about_or hent with habout | hrest
      · exact .inl habout
      · exact .inr (.inr ⟨0, mem_append_left _ (mem_once.mpr ⟨hrest, rfl⟩)⟩)
    · exact fun entry hent => (mem_filter.mp hent).1
  -- The rival stays, and no entry of this memory brings its text in.
  have hph : Sourced entries
        (Tables.empty.deliverAll ([(rival, 0)] ++ once (entries.filter (isAbout id)))) ∧
      (Tables.empty.deliverAll ([(rival, 0)] ++ once (entries.filter (isAbout id)))).memories[id']? =
        some payload'.row ∧
      ∀ row : Memory, (Tables.empty.deliverAll ([(rival, 0)] ++
        once (entries.filter (isAbout id)))).memories[id]? = some row →
          row.contentSha256 ≠ payload.contentSha256 := by
    refine @deliverAll_keeps _ (fun tables => Sourced entries tables ∧
      tables.memories[id']? = some payload'.row ∧
      ∀ row : Memory, tables.memories[id]? = some row →
        row.contentSha256 ≠ payload.contentSha256) (once (entries.filter (isAbout id))) ?_ ?_
    · rintro ⟨entry, clock⟩ hdel tables ⟨hsrcd, hrival, hdif⟩
      obtain ⟨hent, habout⟩ := mem_filter.mp (mem_once.mp hdel).1
      have hid : entry.change.memoryId = some id := by simpa [isAbout] using habout
      have htkn : tables.taken id payload.scope payload.contentSha256 = true :=
        Tables.taken_iff.mpr ⟨id', payload'.row, hrival, hoth.symm, rfl, hscope, hsha⟩
      refine ⟨hsrcd.deliver hreg hent, ?_, ?_⟩
      · rw [memories_rest, hrival]
        rw [hid]
        exact fun hsame => hoth (Option.some.inj hsame)
      have htrn : Turned entries tables id _ := turned hent clock id
      generalize (tables.deliver (entry, clock)).memories[id]? = after at htrn ⊢
      intro row haft hsame
      cases htrn with
      | same => exact hdif row haft hsame
      | stored found hsaid hnone hfree =>
        obtain rfl := Option.some.inj haft
        rw [hreg.scopes id found payload hsaid hnew.1,
          show found.contentSha256 = payload.contentSha256 from hsame, htkn] at hfree
        exact Bool.false_ne_true hfree.symm
      | corrected found hsaid hfnd hlater hfree =>
        obtain rfl := Option.some.inj haft
        obtain ⟨hlive, stored, hsto, hrow, _⟩ := hsrcd.live hkept hfnd
        have hfree' := hfree hlive
        rw [hrow, hreg.scopes id stored payload hsto hnew.1,
          show found.contentSha256 = payload.contentSha256 from hsame, htkn] at hfree'
        exact Bool.false_ne_true hfree'.symm
      | deleted deletedAt updatedAt hsaid hfnd hlive => exact hkept _ _ hsaid
    refine ⟨Sourced.empty.deliver hreg hmem', ?_, ?_⟩
    · rw [Tables.deliver_memory, if_pos rfl, empty_memories]
      rw [free_of_none empty_memories]
      rfl
    · intro row hrow
      rw [Tables.deliver_memory, if_neg (Ne.symm hoth), empty_memories] at hrow
      exact nomatch hrow
  have hview := hcvg _ _ (applies_memoryFirst id hmem) hapl
  have hlive := newest_last hreg hkept origin hnew
  rw [hview] at hlive
  change bind (Tables.memories _)[id]? _ = _ at hlive
  rw [deliverAll_append, memories_others] at hlive
  obtain ⟨row, hrow, hcont⟩ := bind_eq_some_iff.mp hlive
  obtain ⟨hrowLive, stored, hsto, _, htext, _, hdig, _⟩ := hph.1.live hkept hrow
  have hsame : row.content = payload.content := by
    rw [Memory.live, hrowLive] at hcont
    exact congrArg Prod.fst (Option.some.inj hcont)
  apply hph.2.2 row hrow
  rw [hdig, hreg.digests id stored hsto, hreg.digests id payload hnew.1, ← htext, hsame]

theorem Converges.agreeing (hreg : Regular digest entries) : Agreeing entries := by
  constructor
  · exact fun _ _ _ _ hsaid => hcvg.kept hsaid
  · exact fun _ _ _ hnew hnew' =>
      hcvg.newest hreg (fun _ _ => hcvg.kept hnew.1) hnew hnew'
  · exact fun _ _ _ _ hoth hnew hsaid' =>
      hcvg.apart hreg (fun _ _ => hcvg.kept hnew.1) hoth hnew hsaid'
  · exact fun _ _ _ hsaid hsaid' => hcvg.messages hsaid hsaid'
  · exact fun _ _ _ hsaid hsaid' => hcvg.sessions hsaid hsaid'
  · exact fun _ _ _ hsaid hsaid' => hcvg.runs hsaid hsaid'

omit hcvg

theorem no_stamps (hnone : ∀ id payload, ¬ Says entries (.session id payload))
    (hapl : Applies entries deliveries) :
    (Tables.empty.deliverAll deliveries).stamps = fun _ => none := by
  funext id
  have hemp : (Tables.empty.deliverAll deliveries).sessions[id]? = none := by
    refine @deliverAll_keeps _ (fun tables => tables.sessions[id]? = none) deliveries ?_
      Std.ExtTreeMap.getElem?_empty
    rintro ⟨entry, clock⟩ hmem tables hbef
    rw [sessions_rest, hbef]
    apply eq_none_iff_forall_ne_some.mpr
    intro session hses
    obtain ⟨payload, hchg, _⟩ := Change.sessionAt_eq_some.mp hses
    exact hnone id payload (says_of_mem ((hapl entry).mp ⟨clock, hmem⟩) hchg)
  rw [Tables.stamps, hemp]
  rfl

end Orders

/-- Replicas converge where the entries agree; and on the stamps where there is no session. -/
theorem replicas_converge_iff (digest : String → String) (entries : List Entry)
    (hproduced : Produced digest entries) :
    (Converges entries ↔ Agreeing entries) ∧
      (ConvergesStamped entries ↔
        Agreeing entries ∧ ∀ id payload, ¬ Says entries (.session id payload)) := by
  have hregular := hproduced.regular
  constructor
  · exact ⟨fun hconverges => hconverges.agreeing hregular,
      fun hagreeing => hagreeing.converges hregular⟩
  constructor
  · intro hconverges
    have hviews : Converges entries :=
      fun first second hfirst hsecond => (hconverges first second hfirst hsecond).1
    exact ⟨hviews.agreeing hregular, fun id payload => hconverges.no_session⟩
  · rintro ⟨hagreeing, hnone⟩ first second hfirst hsecond
    refine ⟨hagreeing.converges hregular first second hfirst hsecond, ?_⟩
    rw [no_stamps hnone hfirst, no_stamps hnone hsecond]

section Sample

def factPayload : MemoryPayload := ⟨"global", "fact", [], "user", 1, 1, "fact"⟩

def storedFact : Entry := ⟨"node", .memory "m" factPayload⟩

def forgottenFact : Entry := ⟨"node", .forgotten "m" 2 2⟩

theorem produced_fact : Produced id [storedFact, forgottenFact] := by
  have hsta : Network.Reaches id (fun _ : Unit => "node") ⟨fun _ => Tables.empty, []⟩ := .start
  have hfree : Tables.empty.holding "global" "fact" = none := by decide +kernel
  have hscope : isUserScope "global" = false := by decide +kernel
  have hsize : ¬ 8000 < "fact".utf8ByteSize := by decide +kernel
  have hsto : remember id "node" "fact" none [] none "m" 1 Tables.empty =
      .ok ("m", Tables.empty.setMemory "m" factPayload.row, [storedFact]) := by
    rw [remember, getD_none, id, if_neg (by decide), if_neg hsize, hfree]
    rw [hscope]
    rfl
  have hrem := hsta.remember () (by simp) hsto
  have hfor := hrem.forget () "m" 2
  refine ⟨Unit, inferInstance, fun _ => "node", _, hfor, ?_⟩
  have hforg : (forget "node" "m" 2 (Tables.empty.setMemory "m" factPayload.row)).2.2 =
      [forgottenFact] := by
    rw [forget, Tables.setMemory_memories, if_pos rfl]
    rfl
  intro entry hent
  change entry ∈ ([] ++ [storedFact]) ++
    (forget "node" "m" 2 (Tables.empty.setMemory "m" factPayload.row)).2.2
  exact hent

/-- The deletion arrives first: the memory is kept. -/
theorem early_deletion_is_lost :
    Produced id [storedFact, forgottenFact] ∧
      (Tables.empty.deliverAll [(storedFact, 3), (forgottenFact, 3)]).view.memories "m" = none ∧
      (Tables.empty.deliverAll [(forgottenFact, 3), (storedFact, 3)]).view.memories "m" =
        some ("fact", []) ∧
      ¬ Converges [storedFact, forgottenFact] := by
  refine ⟨produced_fact, by decide +kernel, by decide +kernel, ?_⟩
  intro hconverges
  have hsaid : Says [storedFact, forgottenFact] (.memory "m" factPayload) :=
    ⟨"node", mem_cons_self⟩
  apply hconverges.kept hsaid
  exact ⟨"node", mem_cons_of_mem _ (mem_singleton_self _)⟩

theorem replicas_converge_fact : Converges [storedFact] := by
  have hproduced : Produced id [storedFact] := by
    obtain ⟨Node, hdecidable, name, network, hreaches, hmem⟩ := produced_fact
    exact ⟨Node, hdecidable, name, network, hreaches,
      fun entry hentry => hmem entry (mem_cons.mpr (.inl (mem_singleton.mp hentry)))⟩
  have honly {change : Change} (hsaid : Says [storedFact] change) :
      change = .memory "m" factPayload := (says_singleton.mp hsaid).symm
  apply (replicas_converge_iff id [storedFact] hproduced).1.mpr
  constructor
  · intro id payload deletedAt updatedAt _ hforgotten
    exact nomatch honly hforgotten
  · intro id payload payload' hnewest hnewest'
    obtain ⟨_, rfl⟩ := Change.memory.inj (honly hnewest.1)
    obtain ⟨_, rfl⟩ := Change.memory.inj (honly hnewest'.1)
    exact ⟨rfl, rfl⟩
  · intro id id' payload payload' hother hnewest hsaid'
    obtain ⟨rfl, _⟩ := Change.memory.inj (honly hnewest.1)
    obtain ⟨rfl, _⟩ := Change.memory.inj (honly hsaid')
    exact absurd rfl hother
  · intro id payload payload' hsaid
    exact nomatch honly hsaid
  · intro id payload payload' hsaid
    exact nomatch honly hsaid
  · intro id payload payload' hsaid
    exact nomatch honly hsaid

end Sample

end WasmAgent.Sync
