import Mathlib.Data.List.Induction
import WasmAgent.Rendezvous.Authority

/-!
# Roles come from grants, permissions from accepts

Every route keeps what holds of the registry, whatever the others do between its
statements, with one exception: a registration reads the role of its node and writes it
back in a later statement, and a binding request of the node in between takes the role
away before it is written back.
-/

namespace WasmAgent.Rendezvous

open List WasmAgent.Core WasmAgent.Core.Procedure
open Jobs (asI64 asArray textOf)

variable (setting : Setting)

def Undisturbed (last now : Registry) {Reply : Type} : Statement Reply → Prop
  | .saveNode node => node.nodeId ∉ setting.admins → node.role ≠ "guest" →
      requestCount node.nodeId now.log = requestCount node.nodeId last.log
  | _ => True

abbrev SafeRoute {Result : Type} (procedure : Route Result) (last : Registry) : Prop :=
  Safe (engine setting.library) (Authority setting) Later (Undisturbed setting) procedure last

theorem rely : Rely (engine setting.library) (Authority setting) Later where
  refl := Later.refl
  trans := fun _ _ _ => Later.trans
  shift := by
    intro span registry hauth
    refine ⟨hauth.congr rfl rfl hauth.granted hauth.roles, ?_⟩
    exact Later.tables (Int.le_add_of_nonneg_right (Int.natCast_nonneg span)) prefix_rfl rfl

section Reading

variable {setting}

theorem publicKeyOf_reads (node : String) : OnlyReads (engine setting.library) (publicKeyOf node) :=
  OnlyReads.bind (OnlyReads.execute fun _ => rfl) fun _ => trivial

theorem permits_reads (node : String) : OnlyReads (engine setting.library) (permits node) := by
  apply OnlyReads.bind (OnlyReads.execute fun _ => rfl)
  intro row
  exact OnlyReads.bind (OnlyReads.execute fun _ => rfl) fun _ => trivial

theorem current_reads (node : String) : OnlyReads (engine setting.library) (current node) := by
  apply OnlyReads.bind (OnlyReads.execute fun _ => rfl)
  intro row
  cases row with
  | none => trivial
  | some row => exact OnlyReads.execute fun _ => rfl

theorem namesCurrent_reads (payload : Json) (node : String) :
    OnlyReads (engine setting.library) (namesCurrent setting payload node) := by
  apply (current_reads node).bind
  intro row
  cases row with
  | none => trivial
  | some row => exact OnlyReads.bind (OnlyReads.execute fun _ => rfl) fun _ => trivial

theorem verify_reads (headers : Headers) (node action : String) (body : Option Bytes) :
    OnlyReads (engine setting.library) (verify setting headers node action body) := by
  rw [verify]
  split
  · trivial
  apply (publicKeyOf_reads node).bind
  intro stored
  cases stored with
  | none => trivial
  | some stored =>
    dsimp only
    split
    · trivial
    apply OnlyReads.bind (OnlyReads.execute fun _ => rfl)
    intro now
    split
    · trivial
    · split
      · trivial
      · trivial

theorem pinsChanged_reads (pins : List Json) (admins : List String) :
    OnlyReads (engine setting.library) (pinsChanged pins admins) := by
  induction admins with
  | nil => trivial
  | cons admin admins ih =>
    rw [pinsChanged]
    split
    · apply OnlyReads.bind (OnlyReads.execute fun _ => rfl)
      intro row
      split
      · trivial
      · exact ih
    · trivial

end Reading

section Routes

variable {setting} {registry : Registry}

theorem verified (hauth : Authority setting registry) {headers : Headers}
    {node action : String} {body : Option Bytes} {rest : Route Answer}
    (hrest : ∀ now, Later registry now → Authority setting now → SafeRoute setting rest now) :
    SafeRoute setting (do
      match ← verify setting headers node action body with
      | some refusal => pure refusal
      | none => rest) registry := by
  apply Safe.after (rely setting) (verify_reads headers node action body) hauth
  intro refusal now hltr hnow
  cases refusal with
  | some refusal => trivial
  | none => exact hrest now hltr hnow

theorem deleteUnseen_safe (nodes : List String) (registry : Registry) :
    SafeRoute setting (deleteUnseen setting nodes) registry := by
  induction nodes generalizing registry with
  | nil => trivial
  | cons node nodes ih =>
    rw [deleteUnseen]
    split
    · exact ih registry
    · apply Safe.executes
      intro now _ hnow _
      exact ⟨hnow.deletes node, Later.tables (Int.le_refl _) prefix_rfl rfl, ih _⟩

theorem prune_safe (registry : Registry) : SafeRoute setting (prune setting) registry := by
  apply Safe.guards
  intro _
  apply Safe.asks (rely setting) (fun _ => rfl)
  intro now _ _
  apply Safe.asks (rely setting) (fun _ => rfl)
  intro _ _ _
  exact deleteUnseen_safe _ _

theorem forget_safe (hauth : Authority setting registry) (headers : Headers) (body : Bytes) :
    SafeRoute setting (forget setting headers body) registry := by
  rw [forget]
  split
  · apply Safe.guards
    intro _
    apply verified hauth
    intro now _ hnow
    apply Safe.guards
    intro _
    apply Safe.guards
    intro _
    apply Safe.after (rely setting) (publicKeyOf_reads _) hnow
    intro key now _ _
    cases key with
    | none => trivial
    | some key =>
      apply Safe.executes
      intro now _ hnow _
      refine ⟨hnow.deletes _, Later.tables (Int.le_refl _) prefix_rfl rfl, ?_⟩
      apply Safe.executes
      intro now _ hnow _
      exact ⟨hnow.strips _, Later.tables (Int.le_refl _) prefix_rfl rfl, trivial⟩
  apply Safe.asks (rely setting) (fun _ => rfl)
  intro now _ hnow
  apply Safe.guards
  intro _
  apply Safe.after (rely setting) (publicKeyOf_reads _) hnow
  intro key now _ _
  cases key with
  | none => trivial
  | some key =>
    apply Safe.guards
    intro _
    apply Safe.executes
    intro now _ hnow _
    exact ⟨hnow.deletes _, Later.tables (Int.le_refl _) prefix_rfl rfl, trivial⟩

theorem grantRole_safe (hauth : Authority setting registry) (headers : Headers)
    (body : Bytes) : SafeRoute setting (grantRole setting headers body) registry := by
  apply Safe.guards
  intro _
  apply verified hauth
  intro now _ hnow
  apply Safe.guards
  intro hadmin
  apply Safe.guards
  intro _
  apply Safe.asks (rely setting) (fun _ => rfl)
  intro now _ hnow
  split
  · trivial
  apply Safe.after (rely setting) (permits_reads _) hnow
  intro allowed now _ hnow
  apply Safe.guards
  intro _
  apply Safe.after (rely setting) (namesCurrent_reads _ _) hnow
  intro named now _ _
  apply Safe.guards
  intro _
  apply Safe.executes
  intro now _ hnow _
  obtain ⟨hkept, hltr⟩ := hnow.grants (not_not.mp hadmin)
  exact ⟨hkept, hltr, trivial⟩

theorem eq_string_textOf {value : Json} (htext : textOf value ≠ "") :
    value = .string (textOf value) := by
  cases value with
  | string text => rfl
  | _ => exact absurd rfl htext

theorem requestedBinding_code {body : Bytes} {now : ℤ}
    (hvld : requestValid (setting.library.parse body) now = true) (time : ℤ) :
    ((requestedBinding setting body time).payload setting.library).field "code" =
      .string (requestedBinding setting body time).code := by
  have hhex : isHex (textOf ((setting.library.parse body).field "code")) 12 = true := by
    rw [requestValid] at hvld
    simp only [Bool.and_eq_true] at hvld
    exact hvld.1.1.1.1.1.1.1.1.1.2
  apply eq_string_textOf
  intro hemp
  have hnone : isHex "" 12 = true := by
    rw [← hemp]
    exact hhex
  revert hnone
  decide

theorem requestBinding_safe (headers : Headers) (body : Bytes) :
    SafeRoute setting (requestBinding setting headers body) registry := by
  apply Safe.guards
  intro _
  apply Safe.asks (rely setting) (fun _ => rfl)
  intro start _ hsta
  apply Safe.guards
  intro hvld
  have hcode := requestedBinding_code (Bool.of_not_eq_false hvld)
  apply Safe.guards
  intro _
  split
  · trivial
  apply Safe.guards
  intro _
  apply Safe.guards
  intro _
  apply Safe.after (rely setting) (pinsChanged_reads _ _) hsta
  intro changed now _ _
  apply Safe.guards
  intro _
  apply Safe.asks (rely setting) (fun _ => rfl)
  intro now _ hnow
  split
  · split
    · trivial
    · trivial
  apply Safe.after (rely setting) (publicKeyOf_reads _) hnow
  intro old now _ _
  apply Safe.guards
  intro _
  apply Safe.executes
  intro now _ hnow _
  obtain ⟨hkept, hltr⟩ := @Authority.requests setting now hnow
    (requestedBinding setting body start.clock) rfl (hcode start.clock)
  exact ⟨hkept, hltr, trivial⟩

variable {old : Binding}

theorem kept_of_view {seen now : Registry} {id : String} (hseen : seen.view id = some old)
    (hltr : Later seen now) (hnow : Authority setting now) :
    old.id = id ∧ ∀ row ∈ now.bindings, row.id = old.id → Kept old row := by
  have hid : decide (old.id = id) = true := by
    exact @find?_some Binding (fun row => decide (row.id = id)) _ _ hseen
  refine ⟨of_decide_eq_true hid, ?_⟩
  intro row hrow hid
  obtain ⟨other, hoth, hkept, -⟩ := hltr.rows old (mem_of_find?_eq_some hseen)
  have hsame : row = other := inj_on_of_nodup_map hnow.ids hrow hoth (hid.trans hkept.id.symm)
  rw [hsame]
  exact hkept

variable {payload : Json}

theorem commitRoute_safe {action : Action} {admin : String} {seen last : Registry} {id : String}
    (hseen : seen.view id = some old) (hlast : Later seen last)
    (hacc : action = .accept → old.state = .pending ∧ admin ∈ setting.admins ∧
      Named setting payload old old.revision) :
    SafeRoute setting (commitRoute action admin payload old) last := by
  apply Safe.executes
  intro now hltr hnow _
  obtain ⟨-, hold⟩ := kept_of_view hseen (hlast.trans hltr) hnow
  obtain ⟨hkept, hltr'⟩ := @Authority.transits setting now hnow action admin payload old hold hacc
  exact ⟨hkept, hltr', trivial⟩

theorem same_string {value : Json} {text : String} (hsame : value.same (.string text) = true) :
    value = .string text := by
  cases value with
  | string other => rw [of_decide_eq_true hsame]
  | _ => cases hsame

theorem lifetime_affirmed (hlif : lifetimeRefusal setting payload old = none) :
    textOf (payload.field "authorize_lifetime") =
      if ((old.payload setting.library).field "lifetime").asStr = some "permanent" then "permanent"
      else "" := by
  have hask : ((old.payload setting.library).field "lifetime").asStr.getD "standard" =
      "permanent" ↔ ((old.payload setting.library).field "lifetime").asStr = some "permanent" := by
    cases ((old.payload setting.library).field "lifetime").asStr with
    | none => decide
    | some asked => exact Option.some_inj.symm
  rw [lifetimeRefusal] at hlif
  split at hlif
  · cases hlif
  rename_i hper
  split at hlif
  · cases hlif
  rename_i hstan
  split
  · next hsome =>
    exact Classical.byContradiction fun hoth => hper ⟨hask.mpr hsome, hoth⟩
  · next hnone =>
    exact Classical.byContradiction fun hoth => hstan ⟨fun h => hnone (hask.mp h), hoth⟩

theorem named_of_names {seen : Registry}
    (hseen : seen.view (textOf (payload.field "id")) = some old) (hauth : Authority setting seen)
    (hnames : transitionNames setting payload .accept old = true)
    (hlif : lifetimeRefusal setting payload old = none) :
    Named setting payload old old.revision := by
  obtain ⟨hid, -⟩ := kept_of_view hseen (Later.refl seen) hauth
  rw [transitionNames] at hnames
  simp only [Bool.and_eq_true] at hnames
  obtain ⟨⟨⟨-, hdig⟩, hrev⟩, hcode⟩ := hnames
  have hold : old ∈ seen.bindings := mem_of_find?_eq_some hseen
  rw [hauth.codes old hold] at hcode
  exact ⟨hid.symm, same_string hdig, hrev, same_string hcode, lifetime_affirmed hlif⟩

theorem transition_safe (hauth : Authority setting registry) (action : Action)
    (headers : Headers) (body : Bytes) :
    SafeRoute setting (transition setting action headers body) registry := by
  apply Safe.guards
  intro _
  apply verified hauth
  intro now _ hnow
  apply Safe.asks (rely setting) (fun _ => rfl)
  intro seen _ hseen
  split
  · trivial
  rename_i old hfnd
  apply Safe.guards
  intro halwd
  apply Safe.guards
  intro hnames
  cases action with
  | accept =>
    dsimp only
    split
    · trivial
    rename_i hlif
    apply Safe.asks (rely setting) (fun _ => rfl)
    intro now hltr _
    apply Safe.guards
    intro hint
    apply commitRoute_safe hfnd hltr
    intro _
    have hadmin : headers.node ∈ setting.admins := by
      apply Classical.byContradiction
      intro hoth
      exact halwd ⟨hoth, .inl (by decide)⟩
    have hpnd : old.state = .pending := by
      exact (of_decide_eq_true (Bool.of_not_eq_false hint)).1
    exact ⟨hpnd, hadmin, named_of_names hfnd hseen (Bool.of_not_eq_false hnames) hlif⟩
  | revoke =>
    apply Safe.guards
    intro _
    exact commitRoute_safe hfnd (Later.refl seen) (by nofun)

theorem saveNode_safe {node : Node} {rest : Unit → Route Answer} {last : Registry}
    (hrole : node.nodeId ∉ setting.admins → node.role ≠ "guest" →
      GrantedSince setting.admins node.nodeId node.role last.log)
    (hrest : ∀ now, SafeRoute setting (rest ()) now) :
    SafeRoute setting (execute (.saveNode node) >>= rest) last := by
  apply Safe.executes
  intro now hltr hnow hund
  refine ⟨?_, Later.tables (Int.le_refl _) prefix_rfl rfl, hrest _⟩
  apply hnow.saves
  intro hoth hguest
  exact (hrole hoth hguest).later hltr.log (hund hoth hguest)

theorem register_safe (body : Bytes) : SafeRoute setting (register setting body) registry := by
  apply Safe.guards
  intro _
  apply Safe.guards
  intro _
  apply Safe.asks (rely setting) (fun _ => rfl)
  intro now _ hnow
  apply Safe.guards
  intro _
  apply Safe.after (rely setting) (publicKeyOf_reads _) hnow
  intro old now _ _
  apply Safe.guards
  intro _
  apply Safe.guards
  intro _
  apply Safe.asks (rely setting) (fun _ => rfl)
  intro start _ _
  have hrest : ∀ now, SafeRoute setting (do
      let last ← execute .lastPrune
      if start.clock - last > 3600 then
        execute (.setLastPrune start.clock)
        prune setting
        pure .ok
      else
        pure Answer.ok) now := by
    intro now
    apply Safe.asks (rely setting) (fun _ => rfl)
    intro now _ _
    split
    · apply Safe.executes
      intro now _ hnow _
      have hset : Authority setting { now with lastPrune := start.clock } :=
        hnow.congr rfl rfl hnow.granted hnow.roles
      refine ⟨hset, Later.tables (Int.le_refl _) prefix_rfl rfl, ?_⟩
      exact Safe.bind (prune_safe _) hset fun _ _ _ => trivial
    · trivial
  by_cases hmas : textOf ((setting.library.parse body).field "node_id") ∈ setting.admins
  · rw [registeredRole, if_pos hmas]
    apply saveNode_safe
    · exact fun hoth => absurd hmas hoth
    · exact hrest
  rw [registeredRole, if_neg hmas]
  apply Safe.asks (rely setting) (fun _ => rfl)
  intro now _ hnow
  apply saveNode_safe
  · intro _ hguest
    change (now.networkRoles _).getD "guest" ≠ "guest" at hguest
    change GrantedSince setting.admins _ ((now.networkRoles _).getD "guest") now.log
    cases hrole : now.networkRoles (textOf ((setting.library.parse body).field "node_id")) with
    | none =>
      rw [hrole] at hguest
      exact absurd rfl hguest
    | some role =>
      rw [hrole] at hguest
      exact hnow.granted _ role hrole hguest
  · exact hrest

theorem route_safe (hauth : Authority setting registry) (incoming : Incoming) :
    SafeRoute setting (route setting incoming) registry := by
  cases incoming with
  | register body => exact register_safe body
  | request headers body => exact requestBinding_safe headers body
  | transition action headers body => exact transition_safe hauth action headers body
  | grantRole headers body => exact grantRole_safe hauth headers body
  | forget headers body => exact forget_safe hauth headers body
  | prune => exact Safe.bind (prune_safe registry) hauth fun _ _ _ => trivial

end Routes

instance (last now : Registry) :
    (Reply : Type) → (statement : Statement Reply) → Decidable (Undisturbed setting last now statement)
  | _, .saveNode node => inferInstanceAs (Decidable (node.nodeId ∉ setting.admins → _ → _))
  | _, .now | _, .lookup _ | _, .networkRole _ | _, .latest _ | _, .view _ | _, .unseen _
  | _, .lastPrune | _, .setLastPrune _ | _, .deleteNode _ | _, .deleteRole _ | _, .request _
  | _, .transition _ _ _ _ | _, .grant _ _ _ _ _ => isTrue trivial

section Results

variable {setting} {registry : Registry}

theorem latestOf_cases (rows : List Binding) :
    (rows = [] ∧ Registry.latestOf rows = none) ∨
      ∃ row ∈ rows, Registry.latestOf rows = some row := by
  induction rows using reverseRecOn with
  | nil => exact .inl ⟨rfl, rfl⟩
  | append_singleton rows last ih =>
    right
    rw [Registry.latestOf, foldl_append]
    rw [← Registry.latestOf, foldl_cons, foldl_nil]
    rcases ih with ⟨-, hnone⟩ | ⟨row, hrow, hsome⟩
    · rw [hnone]
      exact ⟨last, mem_append_right _ mem_cons_self, rfl⟩
    rw [hsome]
    dsimp only
    split
    · exact ⟨last, mem_append_right _ mem_cons_self, rfl⟩
    · exact ⟨row, mem_append_left _ hrow, rfl⟩

theorem getLast_of_live {rows : List Binding} {row : Binding} (hrow : row ∈ rows)
    (hlast : rows.Pairwise fun first _ => first.state.live = false)
    (hlive : row.state.live = true) : rows.getLast? = some row := by
  obtain ⟨before, after, rfl⟩ := append_of_mem hrow
  cases after with
  | nil => exact getLast?_concat
  | cons next after =>
    have hover := (pairwise_append.mp hlast).2.1
    rw [(pairwise_cons.mp hover).1 next mem_cons_self] at hlive
    cases hlive

theorem live_le_one {rows : List Binding}
    (hlast : rows.Pairwise fun first _ => first.state.live = false) :
    (rows.filter fun row => row.state.live).length ≤ 1 := by
  have hlive : ∀ row ∈ rows.filter fun row => row.state.live, row.state.live = true :=
    fun row hrow => (mem_filter.mp hrow).2
  have hpairs := hlast.filter fun row => row.state.live
  cases hfnd : rows.filter fun row => row.state.live with
  | nil => exact Nat.zero_le 1
  | cons first rest =>
    cases rest with
    | nil => exact Nat.le_refl 1
    | cons second rest =>
      rw [hfnd] at hpairs hlive
      have hover := (pairwise_cons.mp hpairs).1 second mem_cons_self
      rw [hlive first mem_cons_self] at hover
      cases hover

theorem Authority.rows_of (hauth : Authority setting registry) (node : String) :
    (registry.bindings.filter fun row => row.nodeId = node).Pairwise
      fun first _ => first.state.live = false := by
  apply (hauth.last.filter _).imp_of_mem
  intro first second hfst hsnd hover
  apply hover
  rw [of_decide_eq_true (mem_filter.mp hfst).2, of_decide_eq_true (mem_filter.mp hsnd).2]

theorem Authority.permits_latest (hauth : Authority setting registry) {node : String}
    (hask : ∃ row ∈ registry.bindings, row.nodeId = node)
    (hper : permitted registry.clock (registry.latest node) = true) :
    ∃ row, registry.latest node = some row ∧
      (registry.bindings.filter fun row => row.nodeId = node).getLast? = some row ∧
      row.state = .accepted ∧ registry.clock < row.consentExpires ∧
      ∃ admin payload, .accepted admin payload row.id ∈ registry.log ∧ admin ∈ setting.admins ∧
        Named setting payload row (row.revision - 1) := by
  obtain ⟨asked, hmem, hnode⟩ := hask
  rcases latestOf_cases (registry.bindings.filter fun row => row.nodeId = node) with
    ⟨hnil, -⟩ | ⟨row, hrow, hlat⟩
  · have hask : asked ∈ registry.bindings.filter fun row => row.nodeId = node :=
      mem_filter.mpr ⟨hmem, decide_eq_true hnode⟩
    rw [hnil] at hask
    cases hask
  change registry.latest node = some row at hlat
  rw [hlat] at hper
  obtain ⟨hst, hclock⟩ := of_decide_eq_true hper
  have hlive : row.state.live = true := by
    rw [hst]
    rfl
  exact ⟨row, hlat, getLast_of_live hrow (hauth.rows_of node) hlive, hst, hclock,
    hauth.accepted row (mem_of_mem_filter hrow) hst⟩

theorem Authority.over_stays {after : Registry} (hauth : Authority setting after)
    (hltr : Later registry after) {row : Binding} (hrow : row ∈ registry.bindings)
    (hover : Dead registry.clock row ∨ row.consentExpires ≤ registry.clock)
    {other : Binding} (hoth : other ∈ after.bindings) (hid : other.id = row.id) :
    ¬(other.state = .accepted ∧ after.clock < other.consentExpires) := by
  rintro ⟨hst, hclock⟩
  obtain ⟨kept, hmem, hkept, hdead⟩ := hltr.rows row hrow
  have hsame : other = kept := inj_on_of_nodup_map hauth.ids hoth hmem (hid.trans hkept.id.symm)
  subst hsame
  rcases hover with hover | hcon
  · exact (hdead hover).not_accepted hst
  · rw [hkept] at hclock
    exact Int.not_lt.mpr (Int.le_trans hcon hltr.clock) hclock

theorem Authority.empty (clock : ℤ) : Authority setting (Registry.empty clock) where
  ids := nodup_nil
  last := List.Pairwise.nil
  codes := by nofun
  accepted := by nofun
  granted := by nofun
  roles := by nofun

end Results

def registryAfter {Caller : Type} [DecidableEq Caller] (clock : ℤ)
    (acts : List (Act Caller Incoming ℕ)) : Registry :=
  ((Traffic.start (Registry.empty clock)).plays (engine setting.library) (route setting) acts).state

/-- In every run that disturbs no registration: a node has one live binding at most; a node
that has asked to be bound is permitted by its latest request only, which an administrator
accepted by name and which is in time; a request that is over stays over; and a role other
than guest was granted by an administrator after the latest request of its node. -/
theorem authority_follows_requests {Caller : Type} [DecidableEq Caller] (setting : Setting)
    (clock : ℤ) (acts more : List (Act Caller Incoming ℕ))
    (hundisturbed : Traffic.MeetsAll (Undisturbed setting) (engine setting.library) (route setting)
      (Traffic.start (Registry.empty clock)) (acts ++ more)) :
    (∀ node, (((registryAfter setting clock acts).bindings.filter fun row =>
        row.nodeId = node).filter fun row => row.state.live).length ≤ 1) ∧
      (∀ node, (∃ row ∈ (registryAfter setting clock acts).bindings, row.nodeId = node) →
        permitted (registryAfter setting clock acts).clock
            ((registryAfter setting clock acts).latest node) = true →
          ∃ row, (registryAfter setting clock acts).latest node = some row ∧
            ((registryAfter setting clock acts).bindings.filter fun row =>
              row.nodeId = node).getLast? = some row ∧
            row.state = .accepted ∧
            (registryAfter setting clock acts).clock < row.consentExpires ∧
            ∃ admin payload, .accepted admin payload row.id ∈ (registryAfter setting clock acts).log ∧
              admin ∈ setting.admins ∧ Named setting payload row (row.revision - 1)) ∧
      (∀ row ∈ (registryAfter setting clock acts).bindings,
        Dead (registryAfter setting clock acts).clock row ∨
            row.consentExpires ≤ (registryAfter setting clock acts).clock →
          ∀ other ∈ (registryAfter setting clock (acts ++ more)).bindings, other.id = row.id →
            ¬(other.state = .accepted ∧
              (registryAfter setting clock (acts ++ more)).clock < other.consentExpires)) ∧
      ∀ node ∈ (registryAfter setting clock acts).nodes, node.nodeId ∉ setting.admins →
        node.role ≠ "guest" →
          GrantedSince setting.admins node.nodeId node.role (registryAfter setting clock acts).log := by
  obtain ⟨hacts, hmore⟩ := Traffic.meetsAll_append.mp hundisturbed
  have hstart : (Traffic.start (Registry.empty clock) :
      Traffic Statement Registry Answer Caller).Sound (engine setting.library) (Authority setting)
        Later (Undisturbed setting) := Traffic.Sound.start (Authority.empty clock)
  have hroute : ∀ incoming registry, Authority setting registry →
      SafeRoute setting (route setting incoming) registry :=
    fun incoming _ hauthority => route_safe hauthority incoming
  obtain ⟨hsound, -⟩ := hstart.plays (rely setting) hroute acts hacts
  obtain ⟨hafter, hlater⟩ := hsound.plays (rely setting) hroute more hmore
  rw [← Traffic.plays_append] at hafter hlater
  exact ⟨fun node => live_le_one (hsound.kept.rows_of node),
    fun _ hasked hpermitted => hsound.kept.permits_latest hasked hpermitted,
    fun _ hrow hover _ hother hid => hafter.kept.over_stays hlater hrow hover hother hid,
    hsound.kept.roles⟩

section Sample

def adminKey : String := "e56add4ca259884a81a46c4edf7dd99368d1eb435da173b03203e12e5f0c05a0"

def nodeKey : String := "444cb395631704122434e4f65b539bc75359e9c07cf9e12a5e8dbce428cf180f"

/-- The ids are the first half of the hash of the key. -/
def adminId : String := "912adc476c601e852f84f0c7d8be9657"

def nodeId : String := "5a89feaf0076d20e2471a48228de9d8e"

def requestId : String := "0123456789abcdef0123456789abcdef"

def requestHash : String := "2d01e867d5b276a2f50ae5193a9fea4b6319869df26aebaccf044d06b51aac64"

def adminRegistersSignature : String :=
  "25ab0cd87ef953ea09140ee581dff0c5900e85ee05c538c5138da685bdc7d899" ++
    "efd5969b47d897412b171db9d0cf74c03bf8c9d160e42d46e215d3b007adfc0a"

def nodeRegistersSignature : String :=
  "ee02c38bedeeb5f6447eda274c6209045ee385efe96fffb95a757838e34bf215" ++
    "3d7f874f4ed1eb704f2817fd1fe08adb42ad244de23cbcb4cd586a34206b4705"

def grantSignature : String :=
  "6fb2540ce135574a396a62745c8019eb11585f4db5cdfabf30e4ac86aa40fafb" ++
    "8a88f5a5e7c4de0feb4b36f9e629ad63467426549dc3ae17331c272d0c95cd0e"

def requestSignature : String :=
  "dc2fb80da56037d39d51eb077ac6c7e02cc71e16f72e04993f399fe272556424" ++
    "898d90764dfda338ddb1724cd7a139f3c07b0564c80171efdc3d4ce8b6907d01"

def acceptSignature : String :=
  "b4f6865331e155e37590907200dd8993d00309b06d8dbcbd074d7de1f96b2cbb" ++
    "5e2e3df98b09a0527cf5b33a11d7aef38e088e7526629598b0680d1ab57d7c01"

def adminRegistersBody : Json :=
  .object [("endpoints", .array []), ("name", .string "admin"), ("node_id", .string adminId),
    ("public_key", .string adminKey), ("signature", .string adminRegistersSignature),
    ("ts", .number (.unsigned 1800000000))]

def nodeRegistersBody : Json :=
  .object [("endpoints", .array []), ("name", .string "node"), ("node_id", .string nodeId),
    ("public_key", .string nodeKey), ("signature", .string nodeRegistersSignature),
    ("ts", .number (.unsigned 1800000000))]

def grantBody : Json :=
  .object [("node_id", .string nodeId), ("role", .string "master")]

def requestBody : Json :=
  .object [("code", .string "a1b2c3d4e5f6"), ("expires_at", .number (.unsigned 1800003600)),
    ("id", .string requestId), ("name", .string "node"), ("node_id", .string nodeId),
    ("operators", .array [.object [("node_id", .string adminId), ("public_key", .string adminKey)]]),
    ("pairing_expires_at", .number (.unsigned 1800000600)), ("public_key", .string nodeKey),
    ("schema", .number (.unsigned 1)), ("scope", .string "user-account-tools"),
    ("service", .string "https://rendezvous.colmeio.com")]

def acceptBody : Json :=
  .object [("code", .string "a1b2c3d4e5f6"), ("digest", .string requestHash),
    ("id", .string requestId), ("node_id", .string nodeId), ("public_key", .string nodeKey),
    ("revision", .number (.unsigned 1))]

def knownKeys : List (String × Bytes × String) :=
  [(adminKey,
    [229, 106, 221, 76, 162, 89, 136, 74, 129, 164, 108, 78, 223, 125,
      217, 147, 104, 209, 235, 67, 93, 161, 115, 176, 50, 3, 225, 46,
      95, 12, 5, 160],
    "912adc476c601e852f84f0c7d8be9657c563c5a6cabc5707f8448ffc7a6e6688"),
  (nodeKey,
    [68, 76, 179, 149, 99, 23, 4, 18, 36, 52, 228, 246, 91, 83,
      155, 199, 83, 89, 233, 192, 124, 249, 225, 42, 94, 141, 188, 228,
      40, 207, 24, 15],
    "5a89feaf0076d20e2471a48228de9d8e136b8e202d84a83aad25f6e7aeca0f09")]

def registryBodies : List (Json × String) :=
  [(adminRegistersBody, "1036830d990e2320b7900f85e111e496c0002b709a5cba995bc2b7c63971701a"),
    (nodeRegistersBody, "3f2e2ecf2ab44bafc246cfcdcd537effd8a31694b53a394e7e178d5e4d51c56d"),
    (grantBody, "ad7c668729342a19b4db63351c8c847e358cd72abe179d907c7d6c5480fdc942"),
    (requestBody, requestHash),
    (acceptBody, "d7f601479f82b250182717d2e39bdee89dc15409eb3b9a178de35ec336bb3587")]

def signedMessages : List (String × String × String) :=
  [(adminKey, "v2|912adc476c601e852f84f0c7d8be9657|1800000000|admin|[]", adminRegistersSignature),
    (nodeKey, "v2|5a89feaf0076d20e2471a48228de9d8e|1800000000|node|[]", nodeRegistersSignature),
    (adminKey, "grant-role|912adc476c601e852f84f0c7d8be9657|1800000000|" ++
      "ad7c668729342a19b4db63351c8c847e358cd72abe179d907c7d6c5480fdc942", grantSignature),
    (nodeKey, "bind-request|5a89feaf0076d20e2471a48228de9d8e|1800000000|" ++
      "2d01e867d5b276a2f50ae5193a9fea4b6319869df26aebaccf044d06b51aac64", requestSignature),
    (adminKey, "bind-accept|912adc476c601e852f84f0c7d8be9657|1800000000|" ++
      "d7f601479f82b250182717d2e39bdee89dc15409eb3b9a178de35ec336bb3587", acceptSignature)]

def registryLibrary : Library where
  parse := (knownBodies registryBodies).parse
  bodyHash bytes := ((knownKeys.find? fun key => key.2.1 = bytes).map (·.2.2)).getD
    ((knownBodies registryBodies).bodyHash bytes)
  unhex text := ((knownKeys.find? (·.1 = text)).map (·.2.1)).getD []
  verify key message signature := decide ((key, message, signature) ∈ signedMessages)
  print value := String.ofList (value.text fun _ => [])

def registrySetting : Setting := ⟨registryLibrary, [adminId], 7 * 24 * 3600⟩

def adminHeaders (signature : String) : Headers := ⟨adminId, adminKey, 1800000000, signature⟩

def whole (caller : Fin 2) (incoming : Incoming) : List (Act (Fin 2) Incoming ℕ) :=
  .call caller incoming :: List.replicate 14 (.step caller)

def granting : List (Act (Fin 2) Incoming ℕ) :=
  whole 0 (.register (printed adminRegistersBody)) ++
    whole 0 (.register (printed nodeRegistersBody)) ++
    whole 0 (.grantRole (adminHeaders grantSignature) (printed grantBody))

def binding : List (Act (Fin 2) Incoming ℕ) :=
  whole 0 (.request ⟨nodeId, nodeKey, 1800000000, requestSignature⟩ (printed requestBody))

def accepting : List (Act (Fin 2) Incoming ℕ) :=
  whole 0 (.transition .accept (adminHeaders acceptSignature) (printed acceptBody))

def bound : List (Act (Fin 2) Incoming ℕ) :=
  whole 0 (.register (printed adminRegistersBody)) ++ binding ++ accepting

theorem authority_follows_requests_bound :
    ∃ row, (registryAfter registrySetting 1800000000 bound).latest nodeId = some row ∧
      row.state = .accepted ∧ ∃ admin payload, .accepted admin payload row.id ∈
        (registryAfter registrySetting 1800000000 bound).log ∧
          Named registrySetting payload row (row.revision - 1) := by
  have hrun : Traffic.MeetsAll (Undisturbed registrySetting) (engine registryLibrary)
        (route registrySetting) (Traffic.start (Registry.empty 1800000000)) (bound ++ []) ∧
      (∃ row ∈ (registryAfter registrySetting 1800000000 bound).bindings, row.nodeId = nodeId) ∧
      permitted (registryAfter registrySetting 1800000000 bound).clock
        ((registryAfter registrySetting 1800000000 bound).latest nodeId) = true := by
    decide +kernel
  obtain ⟨hundisturbed, hasked, hpermitted⟩ := hrun
  obtain ⟨-, hpermits, -⟩ :=
    authority_follows_requests registrySetting 1800000000 bound [] hundisturbed
  obtain ⟨row, hlatest, -, hstate, -, admin, payload, hmem, -, hnamed⟩ :=
    hpermits nodeId hasked hpermitted
  exact ⟨row, hlatest, hstate, admin, payload, hmem, hnamed⟩

/-- A registration of the node has read its role when the node asks to be bound. -/
def disturbed : List (Act (Fin 2) Incoming ℕ) :=
  granting ++ .call 1 (.register (printed nodeRegistersBody)) :: List.replicate 4 (.step 1) ++
    binding ++ List.replicate 10 (.step 1) ++ accepting

/-- The role is written back, and the accept permits the node with it. -/
theorem role_outlives_request :
    ¬∀ acts : List (Act (Fin 2) Incoming ℕ),
      ∀ node ∈ (registryAfter registrySetting 1800000000 acts).nodes,
        node.nodeId ∉ registrySetting.admins →
          permitted (registryAfter registrySetting 1800000000 acts).clock
            ((registryAfter registrySetting 1800000000 acts).latest node.nodeId) = true →
          node.role ≠ "guest" →
            GrantedSince registrySetting.admins node.nodeId node.role
              (registryAfter registrySetting 1800000000 acts).log := by
  intro hgranted
  have hrun : (⟨nodeId, nodeKey, "master", 1800000000⟩ : Node) ∈
        (registryAfter registrySetting 1800000000 disturbed).nodes ∧
      permitted (registryAfter registrySetting 1800000000 disturbed).clock
        ((registryAfter registrySetting 1800000000 disturbed).latest nodeId) = true ∧
      grantedSince nodeId (registryAfter registrySetting 1800000000 disturbed).log = false := by
    decide +kernel
  obtain ⟨hnode, hpermitted, hnone⟩ := hrun
  have hsince := hgranted disturbed _ hnode (by decide +kernel) hpermitted (by decide)
  rw [hsince.checks] at hnone
  cases hnone

end Sample

end WasmAgent.Rendezvous
