import Mathlib.Data.List.Nodup
import WasmAgent.Rendezvous.Routes

/-!
# Who a node acts for

A node's authority is its latest binding, accepted by an administrator and in time, and
the role an administrator granted it since that request.  A row of `bindings` is never
taken away, and a row that is over stays over.
-/

namespace WasmAgent.Rendezvous

open List Function WasmAgent.Core WasmAgent.Core.Procedure
open Jobs (asI64 asArray textOf)

section Rows

/-- A row whose state alone has changed, by itself or by a transition. -/
def Kept (row other : Binding) : Prop :=
  other = { row with state := other.state, revision := other.revision, actor := other.actor }

def Dead (now : ℤ) (row : Binding) : Prop :=
  row.state.live = false ∨ (row.state = .pending ∧ row.pairingExpires ≤ now)

theorem Kept.refl (row : Binding) : Kept row row := by
  rfl

theorem Kept.id {row other : Binding} (hkept : Kept row other) : other.id = row.id := by
  rw [hkept]

theorem Kept.trans {first second third : Binding} (hfst : Kept first second)
    (hsnd : Kept second third) : Kept first third := by
  rw [Kept] at hfst hsnd ⊢
  rw [hsnd, hfst]

theorem Dead.mono {first second : ℤ} {row : Binding} (hdead : Dead first row)
    (hclock : first ≤ second) : Dead second row := by
  rcases hdead with hst | ⟨hpnd, hpair⟩
  · exact .inl hst
  · exact .inr ⟨hpnd, Int.le_trans hpair hclock⟩

theorem Dead.not_accepted {now : ℤ} {row : Binding} (hdead : Dead now row) :
    row.state ≠ .accepted := by
  intro haccd
  rcases hdead with hst | ⟨hpnd, -⟩
  · rw [haccd] at hst
    cases hst
  · rw [haccd] at hpnd
    cases hpnd

structure Later (before after : Registry) : Prop where
  clock : before.clock ≤ after.clock
  log : before.log <+: after.log
  rows : ∀ row ∈ before.bindings, ∃ other ∈ after.bindings, Kept row other ∧
    (Dead before.clock row → Dead after.clock other)

theorem Later.refl (registry : Registry) : Later registry registry where
  clock := Int.le_refl _
  log := prefix_rfl
  rows := fun row hrow => ⟨row, hrow, Kept.refl row, fun hdead => hdead⟩

theorem Later.trans {first second third : Registry} (hfst : Later first second)
    (hsnd : Later second third) : Later first third where
  clock := Int.le_trans hfst.clock hsnd.clock
  log := hfst.log.trans hsnd.log
  rows := by
    intro row hrow
    obtain ⟨middle, hmid, hkept, hdead⟩ := hfst.rows row hrow
    obtain ⟨last, hlast, hkept', hdead'⟩ := hsnd.rows middle hmid
    exact ⟨last, hlast, hkept.trans hkept', fun hover => hdead' (hdead hover)⟩

theorem Later.tables {before after : Registry} (hclock : before.clock ≤ after.clock)
    (hlog : before.log <+: after.log) (hrows : after.bindings = before.bindings) :
    Later before after where
  clock := hclock
  log := hlog
  rows := by
    intro row hrow
    exact ⟨row, hrows ▸ hrow, Kept.refl row, fun hdead => hdead.mono hclock⟩

theorem Later.changes {before after : Registry} {change : Binding → Binding} {more : List Binding}
    (hclock : before.clock ≤ after.clock) (hlog : before.log <+: after.log)
    (hrows : after.bindings = before.bindings.map change ++ more)
    (hkept : ∀ row ∈ before.bindings, Kept row (change row))
    (hdead : ∀ row ∈ before.bindings, Dead before.clock row → Dead after.clock (change row)) :
    Later before after where
  clock := hclock
  log := hlog
  rows := by
    intro row hrow
    refine ⟨change row, ?_, hkept row hrow, hdead row hrow⟩
    rw [hrows]
    exact mem_append_left _ (mem_map_of_mem hrow)

end Rows

section Grants

variable {admins : List String} {node role : String} {log tail : List Entry}

def GrantedSince (admins : List String) (node role : String) (log : List Entry) : Prop :=
  ∃ before admin after, log = before ++ .granted admin node role :: after ∧ admin ∈ admins ∧
    .requested node ∉ after

theorem GrantedSince.append (hgrd : GrantedSince admins node role log)
    (htail : Entry.requested node ∉ tail) : GrantedSince admins node role (log ++ tail) := by
  obtain ⟨before, admin, after, rfl, hadmin, haft⟩ := hgrd
  refine ⟨before, admin, after ++ tail, ?_, hadmin, ?_⟩
  · rw [append_assoc, cons_append]
  · rw [mem_append]
    exact fun hmem => hmem.elim haft htail

theorem GrantedSince.last {admin : String} (hadmin : admin ∈ admins) :
    GrantedSince admins node role (log ++ [.granted admin node role]) :=
  ⟨log, admin, [], rfl, hadmin, not_mem_nil⟩

def isRequest (node : String) : Entry → Bool
  | .requested other => other = node
  | _ => false

/-- How often a node has asked to be bound. -/
def requestCount (node : String) (log : List Entry) : ℕ := log.countP (isRequest node)

theorem GrantedSince.later {after : List Entry} (hgrd : GrantedSince admins node role log)
    (hltr : log <+: after) (hcnt : requestCount node after = requestCount node log) :
    GrantedSince admins node role after := by
  obtain ⟨tail, rfl⟩ := hltr
  apply hgrd.append
  intro hmem
  rw [requestCount, requestCount, countP_append] at hcnt
  have hpos : 0 < tail.countP (isRequest node) := countP_pos_iff.mpr ⟨_, hmem, decide_eq_true rfl⟩
  omega

def grantedSince (node : String) (log : List Entry) : Bool :=
  log.foldl (fun given entry => match entry with
    | .requested other => given && other ≠ node
    | .granted _ other _ => given || other = node
    | .accepted _ _ _ => given) false

theorem GrantedSince.checks (hgrd : GrantedSince admins node role log) :
    grantedSince node log = true := by
  obtain ⟨before, admin, after, rfl, -, haft⟩ := hgrd
  rw [grantedSince, foldl_append, foldl_cons]
  dsimp only
  rw [decide_eq_true rfl, Bool.or_true]
  induction after with
  | nil => rfl
  | cons entry after ih =>
    rw [mem_cons, not_or] at haft
    cases entry with
    | requested other =>
      have hoth : other ≠ node := fun hsame => haft.1 (hsame ▸ rfl)
      change foldl _ (true && decide (other ≠ node)) after = true
      rw [decide_eq_true hoth]
      exact ih haft.2
    | granted | accepted => exact ih haft.2

end Grants

variable (setting : Setting)

def Named (payload : Json) (row : Binding) (revision : ℤ) : Prop :=
  textOf (payload.field "id") = row.id ∧ payload.field "digest" = .string row.digest ∧
    (payload.field "revision").same (integer revision) = true ∧
    payload.field "code" = .string row.code ∧
    textOf (payload.field "authorize_lifetime") =
      if ((row.payload setting.library).field "lifetime").asStr = some "permanent" then "permanent"
      else ""

theorem Named.kept {setting : Setting} {payload : Json} {old row : Binding} {revision : ℤ}
    (hnmd : Named setting payload old revision) (hkept : Kept old row) :
    Named setting payload row revision := by
  rw [hkept]
  exact hnmd

structure Authority (registry : Registry) : Prop where
  ids : (registry.bindings.map (·.id)).Nodup
  last : registry.bindings.Pairwise fun first second =>
    first.nodeId = second.nodeId → first.state.live = false
  codes : ∀ row ∈ registry.bindings, (row.payload setting.library).field "code" = .string row.code
  accepted : ∀ row ∈ registry.bindings, row.state = .accepted →
    ∃ admin payload, .accepted admin payload row.id ∈ registry.log ∧ admin ∈ setting.admins ∧
      Named setting payload row (row.revision - 1)
  granted : ∀ node role, registry.networkRoles node = some role → role ≠ "guest" →
    GrantedSince setting.admins node role registry.log
  roles : ∀ node ∈ registry.nodes, node.nodeId ∉ setting.admins → node.role ≠ "guest" →
    GrantedSince setting.admins node.nodeId node.role registry.log


namespace Authority

variable {setting} {registry after : Registry} (hauth : Authority setting registry)
include hauth

theorem congr (hbin : after.bindings = registry.bindings) (hlog : after.log = registry.log)
    (hgrd : ∀ node role, after.networkRoles node = some role → role ≠ "guest" →
      GrantedSince setting.admins node role registry.log)
    (hroles : ∀ node ∈ after.nodes, node.nodeId ∉ setting.admins → node.role ≠ "guest" →
      GrantedSince setting.admins node.nodeId node.role registry.log) :
    Authority setting after where
  ids := by
    rw [hbin]
    exact hauth.ids
  last := by
    rw [hbin]
    exact hauth.last
  codes := by
    rw [hbin]
    exact hauth.codes
  accepted := by
    rw [hbin, hlog]
    exact hauth.accepted
  granted := by
    rw [hlog]
    exact hgrd
  roles := by
    rw [hlog]
    exact hroles

theorem changes {change : Binding → Binding} (hbin : after.bindings = registry.bindings.map change)
    (hkept : ∀ row ∈ registry.bindings, Kept row (change row))
    (hlive : ∀ row ∈ registry.bindings, row.state.live = false → (change row).state.live = false)
    (haccd : ∀ row ∈ registry.bindings, (change row).state = .accepted →
      ∃ admin payload, .accepted admin payload row.id ∈ after.log ∧ admin ∈ setting.admins ∧
        Named setting payload row ((change row).revision - 1))
    (hgrd : ∀ node role, after.networkRoles node = some role → role ≠ "guest" →
      GrantedSince setting.admins node role after.log)
    (hroles : ∀ node ∈ after.nodes, node.nodeId ∉ setting.admins → node.role ≠ "guest" →
      GrantedSince setting.admins node.nodeId node.role after.log) :
    Authority setting after where
  ids := by
    have hsame : (registry.bindings.map change).map (·.id) = registry.bindings.map (·.id) := by
      rw [map_map]
      apply map_congr_left
      intro row hrow
      exact (hkept row hrow).id
    rw [hbin, hsame]
    exact hauth.ids
  last := by
    rw [hbin, pairwise_map]
    apply hauth.last.imp_of_mem
    intro first second hfst hsnd hover hsame
    apply hlive first hfst
    apply hover
    rw [hkept first hfst, hkept second hsnd] at hsame
    exact hsame
  codes := by
    rw [hbin]
    intro row hrow
    obtain ⟨old, hold, rfl⟩ := mem_map.mp hrow
    rw [hkept old hold]
    exact hauth.codes old hold
  accepted := by
    rw [hbin]
    intro row hrow hst
    obtain ⟨old, hold, rfl⟩ := mem_map.mp hrow
    obtain ⟨admin, payload, hmem, hadmin, hnmd⟩ := haccd old hold hst
    rw [hkept old hold]
    exact ⟨admin, payload, hmem, hadmin, hnmd⟩
  granted := hgrd
  roles := hroles

theorem adds {row : Binding} (hbin : after.bindings = registry.bindings ++ [row])
    (hlog : registry.log <+: after.log) (hpnd : row.state = .pending)
    (hid : ∀ other ∈ registry.bindings, other.id ≠ row.id)
    (hover : ∀ other ∈ registry.bindings, other.nodeId = row.nodeId → other.state.live = false)
    (hcode : (row.payload setting.library).field "code" = .string row.code)
    (hgrd : ∀ node role, after.networkRoles node = some role → role ≠ "guest" →
      GrantedSince setting.admins node role after.log)
    (hroles : ∀ node ∈ after.nodes, node.nodeId ∉ setting.admins → node.role ≠ "guest" →
      GrantedSince setting.admins node.nodeId node.role after.log) :
    Authority setting after where
  ids := by
    rw [hbin, map_append, nodup_append]
    refine ⟨hauth.ids, nodup_singleton _, ?_⟩
    intro first hfst second hsnd
    obtain ⟨other, hoth, rfl⟩ := mem_map.mp hfst
    rw [mem_singleton.mp hsnd]
    exact hid other hoth
  last := by
    rw [hbin, pairwise_append]
    refine ⟨hauth.last, pairwise_singleton _ _, ?_⟩
    intro first hfst second hsnd hsame
    rw [mem_singleton.mp hsnd] at hsame
    exact hover first hfst hsame
  codes := by
    rw [hbin]
    intro other hoth
    rcases mem_append.mp hoth with hold | hnew
    · exact hauth.codes other hold
    · rw [mem_singleton.mp hnew]
      exact hcode
  accepted := by
    rw [hbin]
    intro other hoth hst
    rcases mem_append.mp hoth with hold | hnew
    · obtain ⟨admin, payload, hmem, hrest⟩ := hauth.accepted other hold hst
      exact ⟨admin, payload, hlog.subset hmem, hrest⟩
    · rw [mem_singleton.mp hnew, hpnd] at hst
      cases hst
  granted := hgrd
  roles := hroles

end Authority

section Nodes

variable {nodes : List Node} {node row : Node} {change : Node → Node}

theorem mem_upsert (hrow : row ∈ Registry.upsert nodes node change) :
    (row ∈ nodes ∧ row.nodeId ≠ node.nodeId) ∨ row = node ∨
      ∃ old ∈ nodes, old.nodeId = node.nodeId ∧ row = change old := by
  rw [Registry.upsert] at hrow
  split at hrow
  · obtain ⟨old, hold, rfl⟩ := mem_map.mp hrow
    split
    · next hsame => exact .inr (.inr ⟨old, hold, hsame, rfl⟩)
    · next hoth => exact .inl ⟨hold, hoth⟩
  rename_i hnone
  rcases mem_append.mp hrow with hold | hnew
  · left
    refine ⟨hold, fun hsame => hnone ?_⟩
    exact any_eq_true.mpr ⟨row, hold, decide_eq_true hsame⟩
  · exact .inr (.inl (mem_singleton.mp hnew))

theorem mem_setRole {registry : Registry} {id role : String}
    (hrow : row ∈ registry.setRole id role) :
    (row ∈ registry.nodes ∧ row.nodeId ≠ id) ∨ (row.nodeId = id ∧ row.role = role) := by
  obtain ⟨old, hold, rfl⟩ := mem_map.mp hrow
  split
  · next hsame => exact .inr ⟨hsame, rfl⟩
  · next hoth => exact .inl ⟨hold, hoth⟩

end Nodes

namespace Authority

variable {setting} {registry : Registry} (hauth : Authority setting registry)
include hauth

theorem saves {node : Node} (hrole : node.nodeId ∉ setting.admins → node.role ≠ "guest" →
      GrantedSince setting.admins node.nodeId node.role registry.log) :
    Authority setting
      { registry with nodes := Registry.upsert registry.nodes node fun _ => node } := by
  refine hauth.congr rfl rfl hauth.granted ?_
  intro row hrow hoth hguest
  rcases mem_upsert hrow with ⟨hold, -⟩ | rfl | ⟨-, -, -, rfl⟩
  · exact hauth.roles row hold hoth hguest
  · exact hrole hoth hguest
  · exact hrole hoth hguest

theorem deletes (node : String) :
    Authority setting { registry with nodes := registry.nodes.filter (·.nodeId ≠ node) } := by
  refine hauth.congr rfl rfl hauth.granted ?_
  intro row hrow
  exact hauth.roles row (mem_of_mem_filter hrow)

theorem strips (node : String) :
    Authority setting { registry with networkRoles := update registry.networkRoles node none } := by
  refine hauth.congr rfl rfl ?_ hauth.roles
  intro other role hrole
  dsimp only at hrole
  by_cases hsame : other = node
  · rw [hsame, update_self] at hrole
    cases hrole
  · rw [update_of_ne hsame] at hrole
    exact hauth.granted other role hrole

omit hauth in
theorem transited_kept (action : Action) (admin : String) (old : Binding) (now : ℤ)
    (row : Binding) : Kept row (transited action admin old now row) := by
  rw [transited]
  split
  · rfl
  · rfl

omit hauth in
theorem expired_kept (row other : Binding) : Kept other (expired row other) := by
  rw [expired]
  split
  · rfl
  · rfl

theorem requests {row : Binding} (hpnd : row.state = .pending)
    (hcode : (row.payload setting.library).field "code" = .string row.code) :
    Authority setting (commitRequest row registry).2 ∧ Later registry (commitRequest row registry).2 := by
  have hkept : ∀ other ∈ registry.bindings, Kept other (expired row other) :=
    fun other _ => expired_kept row other
  rw [commitRequest]
  split
  · exact ⟨hauth, Later.refl registry⟩
  rename_i hfree
  have hnone : ∀ other ∈ registry.bindings.map (expired row), ¬(other.id = row.id ∨
      other.code = row.code ∨ (other.nodeId = row.nodeId ∧ other.state.live = true)) := by
    intro other hoth hclash
    exact hfree (any_eq_true.mpr ⟨other, hoth, decide_eq_true hclash⟩)
  have hexp : Authority setting
      { registry with bindings := registry.bindings.map (expired row) } := by
    refine hauth.changes rfl hkept ?_ ?_ hauth.granted hauth.roles
    · intro other _ hover
      rw [expired]
      split
      · rfl
      · exact hover
    intro other hoth haccd
    rw [expired] at haccd ⊢
    split at haccd
    · cases haccd
    · next hsame =>
      rw [if_neg hsame]
      exact hauth.accepted other hoth haccd
  have hlog : registry.log <+: registry.log ++ [.requested row.nodeId] := prefix_append _ _
  have hoths : ∀ node role, node ≠ row.nodeId →
      GrantedSince setting.admins node role registry.log →
        GrantedSince setting.admins node role (registry.log ++ [.requested row.nodeId]) := by
    intro node role hoth hgrd
    apply hgrd.append
    intro hmem
    cases mem_singleton.mp hmem
    exact hoth rfl
  constructor
  · refine hexp.adds rfl hlog hpnd ?_ ?_ hcode ?_ ?_
    · exact fun other hoth hid => hnone other hoth (.inl hid)
    · intro other hoth hnode
      cases hlive : other.state.live with
      | false => rfl
      | true => exact absurd (.inr (.inr ⟨hnode, hlive⟩)) (hnone other hoth)
    · intro node role hrole hguest
      dsimp only at hrole
      by_cases hsame : node = row.nodeId
      · rw [hsame, update_self] at hrole
        cases hrole
      · rw [update_of_ne hsame] at hrole
        exact hoths node role hsame (hauth.granted node role hrole hguest)
    · intro node hnode hadmin hguest
      rcases mem_upsert hnode with ⟨hold, hoth⟩ | rfl | ⟨old, -, -, rfl⟩
      · exact hoths node.nodeId node.role hoth (hauth.roles node hold hadmin hguest)
      · exact absurd rfl hguest
      · exact absurd rfl hguest
  refine Later.changes (Int.le_refl _) hlog rfl hkept ?_
  intro other _ hdead
  rw [expired]
  split
  · exact .inl rfl
  · exact hdead

theorem transits {action : Action} {admin : String} {payload : Json} {old : Binding}
    (hold : ∀ row ∈ registry.bindings, row.id = old.id → Kept old row)
    (hacc : action = .accept → old.state = .pending ∧ admin ∈ setting.admins ∧
      Named setting payload old old.revision) :
    Authority setting (commitTransition action admin payload old registry).2 ∧
      Later registry (commitTransition action admin payload old registry).2 := by
  have hkept : ∀ row ∈ registry.bindings, Kept row (transited action admin old registry.clock row) :=
    fun row _ => transited_kept action admin old registry.clock row
  rw [commitTransition]
  split
  · exact ⟨hauth, Later.refl registry⟩
  cases action with
  | accept =>
    obtain ⟨hpnd, hadmin, hnmd⟩ := hacc rfl
    constructor
    · refine hauth.changes rfl hkept ?_ ?_ ?_ ?_
      · intro row _ hover
        rw [transited]
        split
        · next hthis =>
          rw [(of_decide_eq_true hthis).2.2.1, hpnd] at hover
          cases hover
        · exact hover
      · intro row hrow hst
        rw [transited] at hst ⊢
        split at hst
        · next hthis =>
          obtain ⟨hid, hrev, -, -⟩ := of_decide_eq_true hthis
          rw [if_pos hthis]
          refine ⟨admin, payload, ?_, hadmin, ?_⟩
          · rw [hid]
            exact mem_append_right _ mem_cons_self
          · dsimp only
            rw [Int.add_sub_cancel, hrev]
            exact hnmd.kept (hold row hrow hid)
        rename_i hoth
        rw [if_neg hoth]
        obtain ⟨other, named, hmem, hrest⟩ := hauth.accepted row hrow hst
        exact ⟨other, named, mem_append_left _ hmem, hrest⟩
      · intro node role hrole hguest
        apply (hauth.granted node role hrole hguest).append
        intro hmem
        cases mem_singleton.mp hmem
      · intro node hnode hoth hguest
        apply (hauth.roles node hnode hoth hguest).append
        intro hmem
        cases mem_singleton.mp hmem
    refine @Later.changes _ _ _ [] (Int.le_refl _) (prefix_append _ _) (append_nil _).symm hkept ?_
    intro row _ hdead
    change Dead registry.clock (transited .accept admin old registry.clock row)
    rw [transited]
    split
    · next hthis =>
      obtain ⟨-, -, hst, hint⟩ := of_decide_eq_true hthis
      rcases hdead with hover | ⟨-, hpair⟩
      · rw [hst, hpnd] at hover
        cases hover
      · exact absurd (hint rfl).2 (Int.not_lt.mpr hpair)
    · exact hdead
  | revoke =>
    constructor
    · refine hauth.changes rfl hkept ?_ ?_ ?_ ?_
      · intro row _ hover
        rw [transited]
        split
        · rfl
        · exact hover
      · intro row hrow hst
        rw [transited] at hst ⊢
        split at hst
        · cases hst
        · next hoth =>
          rw [if_neg hoth]
          exact hauth.accepted row hrow hst
      · exact (hauth.strips _).granted
      · intro node hnode hoth hguest
        rcases mem_setRole hnode with ⟨hbef, -⟩ | ⟨-, hrole⟩
        · exact hauth.roles node hbef hoth hguest
        · exact absurd hrole hguest
    refine @Later.changes _ _ _ [] (Int.le_refl _) prefix_rfl (append_nil _).symm hkept ?_
    intro row _ hdead
    change Dead registry.clock (transited .revoke admin old registry.clock row)
    rw [transited]
    split
    · exact .inl rfl
    · exact hdead

theorem grants {payload : Json}
    {admin node role signature : String} (hadmin : admin ∈ setting.admins) :
    Authority setting (commitGrant setting.library payload admin node role signature registry).2 ∧
      Later registry
        (commitGrant setting.library payload admin node role signature registry).2 := by
  rw [commitGrant]
  split
  · exact ⟨hauth, Later.refl registry⟩
  have htail : ∀ other, Entry.requested other ∉ [Entry.granted admin node role] := by
    intro other hmem
    cases mem_singleton.mp hmem
  have hold : ∀ other given, GrantedSince setting.admins other given registry.log →
      GrantedSince setting.admins other given (registry.log ++ [.granted admin node role]) :=
    fun other given hgrd => hgrd.append (htail other)
  refine ⟨?_, Later.tables (Int.le_refl _) (prefix_append _ _) rfl⟩
  constructor
  · exact hauth.ids
  · exact hauth.last
  · exact hauth.codes
  · intro row hrow hst
    obtain ⟨by', named, hmem, hrest⟩ := hauth.accepted row hrow hst
    exact ⟨by', named, mem_append_left _ hmem, hrest⟩
  · intro other given hgiven hguest
    dsimp only at hgiven
    by_cases hsame : other = node
    · subst hsame
      rw [update_self] at hgiven
      cases hgiven
      exact GrantedSince.last hadmin
    · rw [update_of_ne hsame] at hgiven
      exact hold other given (hauth.granted other given hgiven hguest)
  intro row hrow hoth hguest
  rcases mem_setRole hrow with ⟨hbef, -⟩ | ⟨rfl, rfl⟩
  · exact hold row.nodeId row.role (hauth.roles row hbef hoth hguest)
  · exact GrantedSince.last hadmin

end Authority

end WasmAgent.Rendezvous
