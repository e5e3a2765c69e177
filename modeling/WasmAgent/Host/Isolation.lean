import WasmAgent.Host.GuestKv

/-!
# The host's libraries in a component's store

The queue and the bus keep what is theirs under prefixes of their own, in the file the
component's kv is in.  A component's calls stay outside of those prefixes exactly when no
key, prefix or cursor of theirs reaches one.
-/

namespace WasmAgent.Host

open List Std.ExtTreeMap Std WasmAgent.Core WasmAgent.State

/-- A call a component makes on its own kv. -/
inductive GuestCall where
  | get (key : Bytes)
  | set (key value : Bytes)
  | delete (key : Bytes)
  | scan (base : Bytes) (cursor : Option Bytes) (limit : UInt32)
  | deletePrefix (base : Bytes)

inductive GuestAnswer where
  | value (found : Except String (Option Bytes))
  | done (outcome : Except String Unit)
  | page (found : Option (List Entry))
  | removed (outcome : Option (Except String UInt32))

namespace GuestCall

def run : GuestCall → Namespace → GuestAnswer × Namespace
  | get key, store => (.value (GuestKv.get key store), store)
  | set key value, store => (GuestKv.set key value store).map .done id
  | delete key, store => (GuestKv.delete key store).map .done id
  | scan base cursor limit, store =>
      (.page (GuestKv.scan KvStore.scan base cursor limit store), store)
  | deletePrefix base, store =>
      (GuestKv.deletePrefix KvStore.scan base store).elim (.removed none, store)
        (fun ended => (.removed (some ended.1), ended.2))

def runAll : List GuestCall → Namespace → List GuestAnswer × Namespace
  | [], store => ([], store)
  | call :: calls, store =>
      ((call.run store).1 :: (runAll calls (call.run store).2).1,
        (runAll calls (call.run store).2).2)

def reaches : GuestCall → Bytes → Bool
  | get asked, key => asked == key
  | set asked _, key => asked == key
  | delete asked, key => asked == key
  | scan base cursor _, key =>
      under base key && (KvStore.passed cursor).all (fun last => (compare last key).isLT)
  | deletePrefix base, key => under base key

/-- What a call puts under a key, `none` for the keys it leaves. -/
def written : GuestCall → Bytes → Option (Option Bytes)
  | set asked value, key => if asked = key ∧ isReserved key = false then some (some value) else none
  | delete asked, key => if asked = key ∧ isReserved key = false then some none else none
  | deletePrefix base, key =>
      if under base key = true ∧ isReserved key = false then some none else none
  | _, _ => none

end GuestCall

def queueRoot : Bytes := utf8 "q/"

def busRoot : Bytes := utf8 "b/"

def hostRoots (component : String) : List Bytes :=
  if component = "kernel" then [queueRoot, busRoot] else [queueRoot]

namespace Namespaced

def key (root key : Bytes) : Bytes := root ++ key

def strip (root key : Bytes) : Bytes := key.drop (min root.length key.length)

end Namespaced

/-- `HostStore::scan_page`: no limit is the store's default page. -/
def HostStore.scanPage (base : Bytes) (cursor : Option Bytes) (limit : ℕ) (store : Namespace) :
    List Entry :=
  KvStore.scan store base cursor (if limit = 0 then 512 else min limit maxPage)

variable (roots : List Bytes)

abbrev Root := {root : Bytes // root ∈ roots}

/-- What a library asks of its namespace; a whole prefix is read page by page. -/
inductive Lookup : Type → Type where
  | get (root : Root roots) (key : Bytes) : Lookup (Option Bytes)
  | scanPage (root : Root roots) (base : Bytes) (cursor : Option Bytes) (limit : ℕ) :
      Lookup (List Entry)
  | count (root : Root roots) (base : Bytes) : Lookup UInt32

/-- What a library changes in its namespace. -/
inductive Update where
  | put (root : Root roots) (key value : Bytes)
  | del (root : Root roots) (key : Bytes)
  | deletePrefix (root : Root roots) (base : Bytes)

def namespaced : Machine (Lookup roots) (Update roots) Namespace where
  answer
    | .get root key, store => store.get (Namespaced.key root.1 key)
    | .scanPage root base cursor limit, store =>
        (HostStore.scanPage (Namespaced.key root.1 base) (cursor.map (Namespaced.key root.1)) limit
          store).map (fun entry => (Namespaced.strip root.1 entry.1, entry.2))
    | .count root base, store => (KvStore.deletePrefix (Namespaced.key root.1 base) store).1
  apply
    | .put root key value, store => KvStore.set (Namespaced.key root.1 key) value store
    | .del root key, store => KvStore.delete (Namespaced.key root.1 key) store
    | .deletePrefix root base, store =>
        (KvStore.deletePrefix (Namespaced.key root.1 base) store).2

def hosted (key : Bytes) : Bool := roots.any (fun root => under root key)

def hostedPart (store : Namespace) : Namespace := store.filter (fun key _ => hosted roots key)

/-- What is not the libraries'. -/
def ownPart (store : Namespace) : Namespace := store.filter (fun key _ => !hosted roots key)

/-- However a component strings these calls together, they tell it nothing of the libraries'
keys and leave them as they are, and the libraries never notice them. -/
structure Isolated (made : GuestCall → Prop) : Prop where
  unread : ∀ calls, (∀ call ∈ calls, made call) → ∀ store other,
    ownPart roots store = ownPart roots other →
      (GuestCall.runAll calls store).1 = (GuestCall.runAll calls other).1
  untouched : ∀ calls, (∀ call ∈ calls, made call) → ∀ store,
    hostedPart roots (GuestCall.runAll calls store).2 = hostedPart roots store
  unnoticed : ∀ {Result : Type} (program : Program (Lookup roots) (Update roots) Result)
    (schedule : ℕ → List GuestCall), (∀ turn, ∀ call ∈ schedule turn, made call) → ∀ store,
      program.amid (namespaced roots)
          (fun turn current => (GuestCall.runAll (schedule turn) current).2) 0 store =
        program.result (namespaced roots) store

variable {roots}

section Host

variable {store other : Namespace} {key : Bytes}

theorem get_hostedPart (key : Bytes) (store : Namespace) :
    (hostedPart roots store).get key = if hosted roots key = true then store.get key else none := by
  rw [Namespace.get, hostedPart, getElem?_filter', Namespace.get]
  cases hosted roots key <;> cases store[key]? <;> rfl

theorem get_ownPart (key : Bytes) (store : Namespace) :
    (ownPart roots store).get key = if hosted roots key = true then none else store.get key := by
  rw [Namespace.get, ownPart, getElem?_filter', Namespace.get]
  cases hosted roots key <;> cases store[key]? <;> rfl

theorem hosted_key (root : Root roots) {base key : Bytes}
    (hunder : under (Namespaced.key root.1 base) key = true) : hosted roots key = true := by
  apply any_eq_true.mpr ⟨root.1, root.2, ?_⟩
  exact under_iff.mpr ((prefix_append root.1 base).trans (under_iff.mp hunder))

theorem under_self (key : Bytes) : under key key = true := under_iff.mpr (prefix_refl key)

theorem getD_ite (condition : Prop) [Decidable condition] (put kept : Option Bytes) :
    (if condition then some put else none).getD kept = if condition then put else kept := by
  split
  · rfl
  · rfl

theorem get_set (name value : Bytes) (store : Namespace) (key : Bytes) :
    (KvStore.set name value store).get key = if name = key then some value else store.get key := by
  rw [Namespace.get, KvStore.set, ExtTreeMap.getElem?_insert]
  simp [Namespace.get]

theorem get_delete (name : Bytes) (store : Namespace) (key : Bytes) :
    (KvStore.delete name store).get key = if name = key then none else store.get key := by
  rw [Namespace.get, KvStore.delete, getElem?_erase]
  simp [Namespace.get]

theorem get_deletePrefix (base : Bytes) (store : Namespace) (key : Bytes) :
    (KvStore.deletePrefix base store).2.get key =
      if under base key = true then none else store.get key := by
  rw [KvStore.deletePrefix, Namespace.get, getElem?_filter', Namespace.get]
  cases under base key <;> cases store[key]? <;> rfl

theorem entriesUnder_hostedPart (root : Root roots) (base : Bytes) (cursor : Option Bytes)
    (store : Namespace) :
    entriesUnder (Namespaced.key root.1 base) cursor store =
      entriesUnder (Namespaced.key root.1 base) cursor (hostedPart roots store) := by
  apply entriesUnder_congr
  intro key hunder _
  have hget := @get_hostedPart roots key store
  rw [if_pos (hosted_key root hunder)] at hget
  exact hget.symm

theorem namespaced_writes (change : Update roots) : ∃ written : Bytes → Option (Option Bytes),
    (∀ key, written key ≠ none → hosted roots key = true) ∧
      ∀ key (store : Namespace), ((namespaced roots).apply change store).get key =
        (written key).getD (store.get key) := by
  cases change with
  | put root name value =>
    refine ⟨fun key => if Namespaced.key root.1 name = key then some (some value) else none, ?_, ?_⟩
    · intro key hwrn
      rw [ite_ne_right_iff] at hwrn
      rw [← hwrn.1]
      exact hosted_key root (under_self _)
    · intro key store
      exact (get_set _ _ _ _).trans (getD_ite _ _ _).symm
  | del root name =>
    refine ⟨fun key => if Namespaced.key root.1 name = key then some none else none, ?_, ?_⟩
    · intro key hwrn
      rw [ite_ne_right_iff] at hwrn
      rw [← hwrn.1]
      exact hosted_key root (under_self _)
    · intro key store
      exact (get_delete _ _ _).trans (getD_ite _ _ _).symm
  | deletePrefix root base =>
    refine ⟨fun key => if under (Namespaced.key root.1 base) key = true then some none else none,
      ?_, ?_⟩
    · intro key hwrn
      rw [ite_ne_right_iff] at hwrn
      exact hosted_key root hwrn.1
    · intro key store
      exact (get_deletePrefix _ _ _).trans (getD_ite _ _ _).symm

theorem namespaced_projects :
    Program.Projects (namespaced roots) (namespaced roots) (hostedPart roots) where
  answer question store := by
    cases question with
    | get root key =>
      change store.get _ = (hostedPart roots store).get _
      rw [get_hostedPart, if_pos (hosted_key root (under_self _))]
    | scanPage root base cursor limit =>
      apply congrArg (List.map _)
      apply congrArg (List.take _)
      exact entriesUnder_hostedPart root base _ store
    | count root base =>
      apply congrArg UInt32.ofNat
      apply congrArg List.length
      exact entriesUnder_hostedPart root base none store
  apply change store := by
    obtain ⟨written, hwrn, hget⟩ := namespaced_writes change
    apply ExtTreeMap.ext_getElem?
    intro key
    change (hostedPart roots _).get key = ((namespaced roots).apply change _).get key
    rw [get_hostedPart, hget, hget, get_hostedPart]
    by_cases hhos : hosted roots key = true
    · rw [if_pos hhos, if_pos hhos]
    have hnone : written key = none := by
      by_contra hsome
      exact hhos (hwrn key hsome)
    rw [if_neg hhos, if_neg hhos, hnone]
    rfl

end Host

section Guest

variable {store other : Namespace} {call : GuestCall}

theorem GuestCall.get_run (call : GuestCall) (store : Namespace) (key : Bytes) :
    (call.run store).2.get key = (call.written key).getD (store.get key) := by
  cases call with
  | get | scan => rfl
  | set asked value =>
    rw [GuestCall.run, GuestKv.set, GuestCall.written]
    by_cases hrsv : isReserved asked = true
    · rw [if_pos hrsv, if_neg]
      · rfl
      · rintro ⟨rfl, hpln⟩
        rw [hpln] at hrsv
        cases hrsv
    rw [if_neg hrsv]
    refine (get_set _ _ _ _).trans ?_
    by_cases hsame : asked = key
    · rw [if_pos hsame, if_pos ⟨hsame, by rw [← hsame]; exact Bool.eq_false_iff.mpr hrsv⟩]
      rfl
    · rw [if_neg hsame, if_neg (fun hboth => hsame hboth.1)]
      rfl
  | delete asked =>
    rw [GuestCall.run, GuestKv.delete, GuestCall.written]
    by_cases hrsv : isReserved asked = true
    · rw [if_pos hrsv, if_neg]
      · rfl
      · rintro ⟨rfl, hpln⟩
        rw [hpln] at hrsv
        cases hrsv
    rw [if_neg hrsv]
    refine (get_delete _ _ _).trans ?_
    by_cases hsame : asked = key
    · rw [if_pos hsame, if_pos ⟨hsame, by rw [← hsame]; exact Bool.eq_false_iff.mpr hrsv⟩]
      rfl
    · rw [if_neg hsame, if_neg (fun hboth => hsame hboth.1)]
      rfl
  | deletePrefix base =>
    obtain ⟨after, haft, hget⟩ := deletePrefix_eq scan_pagesBy base store
    rw [GuestCall.run, haft, GuestCall.written]
    exact (hget key).trans (getD_ite _ _ _).symm

variable {key : Bytes}

theorem GuestCall.reaches_of_written (hwrn : call.written key ≠ none) :
    call.reaches key = true := by
  cases call with
  | get | scan => exact absurd rfl hwrn
  | set asked value =>
    rw [GuestCall.written, ite_ne_right_iff] at hwrn
    exact beq_iff_eq.mpr hwrn.1.1
  | delete asked =>
    rw [GuestCall.written, ite_ne_right_iff] at hwrn
    exact beq_iff_eq.mpr hwrn.1.1
  | deletePrefix base =>
    rw [GuestCall.written, ite_ne_right_iff] at hwrn
    exact hwrn.1.1

theorem GuestCall.answer_congr
    (hsame : ∀ key, call.reaches key = true → store.get key = other.get key) :
    (call.run store).1 = (call.run other).1 := by
  have huser : ∀ key, call.reaches key = true → store.user[key]? = other.user[key]? := by
    intro key hrch
    rw [Namespace.getElem?_user, Namespace.getElem?_user, hsame key hrch]
  cases call with
  | get asked =>
    apply congrArg GuestAnswer.value
    rw [GuestKv.get, GuestKv.get, hsame asked (beq_self_eq_true asked)]
  | set asked value =>
    apply congrArg GuestAnswer.done
    change (GuestKv.set asked value store).1 = (GuestKv.set asked value other).1
    rw [GuestKv.set, GuestKv.set]
    cases isReserved asked <;> rfl
  | delete asked =>
    apply congrArg GuestAnswer.done
    change (GuestKv.delete asked store).1 = (GuestKv.delete asked other).1
    rw [GuestKv.delete, GuestKv.delete]
    cases isReserved asked <;> rfl
  | scan base cursor limit =>
    apply congrArg GuestAnswer.page
    rw [scan_pagesBy.scan, scan_pagesBy.scan]
    apply congrArg (fun entries => some (take _ entries))
    apply entriesUnder_congr
    intro key hunder haft
    exact huser key (Bool.and_eq_true_iff.mpr ⟨hunder, haft⟩)
  | deletePrefix base =>
    obtain ⟨after, haft, -⟩ := deletePrefix_eq scan_pagesBy base store
    obtain ⟨afterOther, hafterOther, -⟩ := deletePrefix_eq scan_pagesBy base other
    rw [GuestCall.run, GuestCall.run, haft, hafterOther]
    apply congrArg (fun outcome => GuestAnswer.removed (some outcome))
    have hall : entriesUnder base none store = entriesUnder base none other :=
      entriesUnder_congr (fun key hunder _ => hsame key hunder)
    have hown : entriesUnder base none store.user = entriesUnder base none other.user :=
      entriesUnder_congr (fun key hunder _ => huser key hunder)
    rw [removal, removal, KvStore.deletePrefix, KvStore.deletePrefix, hall, hown]

def GuestCall.Outside (roots : List Bytes) (call : GuestCall) : Prop :=
  ∀ key, hosted roots key = true → call.reaches key = false

theorem GuestCall.Outside.written_eq (hout : call.Outside roots)
    (hhos : hosted roots key = true) : call.written key = none := by
  by_contra hwrn
  have hrch := GuestCall.reaches_of_written hwrn
  rw [hout key hhos] at hrch
  cases hrch

theorem GuestCall.Outside.hostedPart_run (hout : call.Outside roots) (store : Namespace) :
    hostedPart roots (call.run store).2 = hostedPart roots store := by
  apply ExtTreeMap.ext_getElem?
  intro key
  change (hostedPart roots _).get key = (hostedPart roots _).get key
  rw [get_hostedPart, get_hostedPart, call.get_run]
  by_cases hhos : hosted roots key = true
  · rw [hout.written_eq hhos]
    rfl
  · rw [if_neg hhos, if_neg hhos]

theorem get_eq_of_ownPart (hown : ownPart roots store = ownPart roots other)
    (hpln : hosted roots key = false) : store.get key = other.get key := by
  have hget : (ownPart roots store).get key = (ownPart roots other).get key := by
    rw [hown]
  rw [get_ownPart, get_ownPart, if_neg (Bool.eq_false_iff.mp hpln),
    if_neg (Bool.eq_false_iff.mp hpln)] at hget
  exact hget

theorem GuestCall.Outside.answer_eq (hout : call.Outside roots)
    (hown : ownPart roots store = ownPart roots other) :
    (call.run store).1 = (call.run other).1 := by
  apply GuestCall.answer_congr
  intro key hrch
  apply get_eq_of_ownPart hown
  by_contra hhos
  rw [Bool.not_eq_false] at hhos
  rw [hout key hhos] at hrch
  cases hrch

/-- The keys that are not the libraries' are changed alike. -/
theorem GuestCall.ownPart_run (call : GuestCall) (hown : ownPart roots store = ownPart roots other) :
    ownPart roots (call.run store).2 = ownPart roots (call.run other).2 := by
  apply ExtTreeMap.ext_getElem?
  intro key
  change (ownPart roots _).get key = (ownPart roots _).get key
  rw [get_ownPart, get_ownPart, call.get_run, call.get_run]
  cases hhos : hosted roots key with
  | true => rfl
  | false => rw [get_eq_of_ownPart hown hhos]

variable {calls : List GuestCall}

theorem runAll_untouched (hout : ∀ call ∈ calls, call.Outside roots) (store : Namespace) :
    hostedPart roots (GuestCall.runAll calls store).2 = hostedPart roots store := by
  induction calls generalizing store with
  | nil => rfl
  | cons call calls ih =>
    rw [GuestCall.runAll, ih (fun later hltr => hout later (mem_cons_of_mem _ hltr))]
    exact (hout call mem_cons_self).hostedPart_run store

theorem runAll_unread (hout : ∀ call ∈ calls, call.Outside roots)
    (hown : ownPart roots store = ownPart roots other) :
    (GuestCall.runAll calls store).1 = (GuestCall.runAll calls other).1 := by
  induction calls generalizing store other with
  | nil => rfl
  | cons call calls ih =>
    rw [GuestCall.runAll, GuestCall.runAll, (hout call mem_cons_self).answer_eq hown]
    apply congrArg (List.cons _)
    exact ih (fun later hltr => hout later (mem_cons_of_mem _ hltr)) (call.ownPart_run hown)

variable {made : GuestCall → Prop}

theorem isolated_of_outside (hout : ∀ call, made call → call.Outside roots) :
    Isolated roots made where
  unread calls hmade store other hown :=
    runAll_unread (fun call hcall => hout call (hmade call hcall)) hown
  untouched calls hmade store :=
    runAll_untouched (fun call hcall => hout call (hmade call hcall)) store
  unnoticed program schedule hmade store := by
    apply Program.amid_eq namespaced_projects
    intro turn current
    exact runAll_untouched (fun call hcall => hout call (hmade turn call hcall)) current

theorem Isolated.written_getD (hisol : Isolated roots made) (hcall : made call)
    (hhos : hosted roots key = true) (store : Namespace) :
    (call.written key).getD (store.get key) = store.get key := by
  have hkept := hisol.untouched [call] (forall_mem_singleton.mpr hcall) store
  have hget : (hostedPart roots (call.run store).2).get key = (hostedPart roots store).get key :=
    congrArg (fun part => Namespace.get part key) hkept
  rw [get_hostedPart, get_hostedPart, if_pos hhos, if_pos hhos, call.get_run] at hget
  exact hget

theorem ownPart_single (hhos : hosted roots key = true) :
    ownPart roots (KvStore.set key [] ∅) = ownPart roots ∅ := by
  apply ExtTreeMap.ext_getElem?
  intro asked
  change (ownPart roots _).get asked = (ownPart roots _).get asked
  rw [get_ownPart, get_ownPart, get_set]
  by_cases hsame : key = asked
  · rw [← hsame, if_pos hhos, if_pos hhos]
  · rw [if_neg hsame]

theorem Isolated.answer_single (hisol : Isolated roots made) (hcall : made call)
    (hhos : hosted roots key = true) : (call.run (KvStore.set key [] ∅)).1 = (call.run ∅).1 := by
  have hanss := hisol.unread [call] (forall_mem_singleton.mpr hcall)
    (KvStore.set key [] ∅) ∅ (ownPart_single hhos)
  exact (List.cons.inj hanss).1

theorem not_written_to {put : Option Bytes} {kept : Bytes}
    (hkept : ∀ store : Namespace, put = store.get kept) : False := by
  have hnone := hkept ∅
  have hsome := hkept (KvStore.set kept [] ∅)
  rw [get_set, if_pos rfl, hnone] at hsome
  cases hsome

theorem get_plain (hpln : isReserved key = false) (store : Namespace) :
    GuestKv.get key store = .ok (store.get key) :=
  if_neg (Bool.eq_false_iff.mp hpln)

theorem entriesUnder_nothing (base : Bytes) (cursor : Option Bytes) :
    entriesUnder base cursor (Namespace.user ∅) = [] := by
  apply eq_nil_iff_forall_not_mem.mpr
  intro entry hent
  have hfnd := (mem_entriesUnder.mp hent).1
  rw [Namespace.getElem?_user] at hfnd
  cases hrsv : isReserved entry.1 with
  | true =>
    rw [hrsv] at hfnd
    cases hfnd
  | false =>
    rw [hrsv] at hfnd
    cases hfnd

theorem outside_of_isolated (hisol : Isolated roots made)
    (hpln : ∀ key, hosted roots key = true → isReserved key = false) (hcall : made call) :
    call.Outside roots := by
  intro key hhos
  by_contra hrch
  rw [Bool.not_eq_false] at hrch
  have hwrn := hisol.written_getD hcall hhos
  have hans := hisol.answer_single hcall hhos
  cases call with
  | get asked =>
    have hval := GuestAnswer.value.inj hans
    rw [beq_iff_eq.mp hrch, get_plain (hpln key hhos), get_plain (hpln key hhos),
      get_set, if_pos rfl] at hval
    cases Except.ok.inj hval
  | set asked value =>
    rw [GuestCall.written, if_pos ⟨beq_iff_eq.mp hrch, hpln key hhos⟩] at hwrn
    exact not_written_to hwrn
  | delete asked =>
    rw [GuestCall.written, if_pos ⟨beq_iff_eq.mp hrch, hpln key hhos⟩] at hwrn
    exact not_written_to hwrn
  | deletePrefix base =>
    rw [GuestCall.written, if_pos ⟨hrch, hpln key hhos⟩] at hwrn
    exact not_written_to hwrn
  | scan base cursor limit =>
    have hpage := GuestAnswer.page.inj hans
    rw [scan_pagesBy.scan, scan_pagesBy.scan] at hpage
    have htkn := Option.some.inj hpage
    rw [entriesUnder_nothing, take_nil, take_eq_nil_iff] at htkn
    rcases htkn with hzero | hnone
    · exact absurd hzero (Nat.ne_of_gt (Nat.le_max_left _ _))
    have hreach := Bool.and_eq_true_iff.mp hrch
    have hlst : (key, []) ∈ entriesUnder base (KvStore.passed cursor)
        (Namespace.user (KvStore.set key [] ∅)) := by
      apply mem_entriesUnder.mpr ⟨?_, hreach.1, ?_⟩
      · rw [Namespace.getElem?_user, hpln key hhos, get_set, if_pos rfl]
        rfl
      · intro last hlast
        have haft := (Option.all_eq_true _ _).mp hreach.2 last hlast
        exact Ordering.isLT_iff_eq_lt.mp haft
    rw [hnone] at hlst
    cases hlst

end Guest

theorem plain_of_hosted {component : String} {key : Bytes}
    (hhos : hosted (hostRoots component) key = true) : isReserved key = false := by
  have hroot : under queueRoot key = true ∨ under busRoot key = true := by
    obtain ⟨root, hroot, hunder⟩ := any_eq_true.mp hhos
    rw [hostRoots] at hroot
    split at hroot
    · rw [mem_pair] at hroot
      rcases hroot with rfl | rfl
      · exact .inl hunder
      · exact .inr hunder
    · rw [mem_singleton] at hroot
      rw [hroot] at hunder
      exact .inl hunder
  rcases hroot with hunder | hunder
  · obtain ⟨rest, rfl⟩ := under_iff.mp hunder
    rfl
  · obtain ⟨rest, rfl⟩ := under_iff.mp hunder
    rfl

/-- A component's calls are isolated from the host's libraries exactly when none of them
reaches a key of theirs. -/
theorem isolated_iff (component : String) (made : GuestCall → Prop) :
    Isolated (hostRoots component) made ↔ ∀ call, made call → call.Outside (hostRoots component) := by
  apply Iff.intro
  · intro hisolated call hcall
    exact outside_of_isolated hisolated (fun key => plain_of_hosted) hcall
  · exact isolated_of_outside

/-- The queue reads the last id it gave out, and finds one the component put there. -/
theorem guest_sets_queue_id :
    ¬Isolated (hostRoots "notes") (fun call => call = .set (utf8 "q/s/id") (utf8 "7")) := by
  intro hisolated
  have hsame := hisolated.unnoticed
    (Program.query (.get ⟨queueRoot, by decide⟩ (utf8 "s/id")))
    (fun _ => [.set (utf8 "q/s/id") (utf8 "7")]) (fun _ => forall_mem_singleton.mpr rfl) ∅
  revert hsame
  decide +kernel

end WasmAgent.Host
