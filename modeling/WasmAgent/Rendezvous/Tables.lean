import WasmAgent.Rendezvous.Relay

/-!
# The tables of the relay

What one send can do to the tables, case by case, and what holds of them in every run: an
id that is issued or answered has an owner, the owner is the request the id was taken up
for, and so is whatever is queued under the id.
-/

namespace WasmAgent.Rendezvous

open List Option Function WasmAgent.Core

variable {Tid : Type} {service : Service}

/-- What a send finds under its id, and what comes of it. -/
inductive Admission (service : Service) (now : Instant) (tid : Tid) (call : Call) (id : String)
    (pruned : RelayState Tid) : RelayState Tid × Phase × Bool → Prop where
  | conflict (owner : Owner) (howner : pruned.owners id = some owner)
      (hother : owner ≠ service.owner call) :
      Admission service now tid call id pruned (pruned, .returned .conflict, false)
  | replay (result : Result) (time : Instant)
      (howner : ∀ owner, pruned.owners id = some owner → owner = service.owner call)
      (hresult : pruned.results id = some (result, time)) :
      Admission service now tid call id pruned (pruned, .returned (.answered result true), false)
  | inFlight (howner : ∀ owner, pruned.owners id = some owner → owner = service.owner call)
      (hresult : pruned.results id = none) (hwaiting : (pruned.waiting id).isSome) :
      Admission service now tid call id pruned (pruned, .returned .inFlight, false)
  | retry (hold : ℕ)
      (howner : ∀ owner, pruned.owners id = some owner → owner = service.owner call)
      (hresult : pruned.results id = none) (hwaiting : pruned.waiting id = none)
      (hissued : (pruned.issued id).isSome) :
      Admission service now tid call id pruned
        ({ pruned with waiting := Function.update pruned.waiting id (some tid) },
          .waiting (now + hold) hold none, false)
  | fresh (hold : ℕ)
      (howner : ∀ owner, pruned.owners id = some owner → owner = service.owner call)
      (hresult : pruned.results id = none) (hwaiting : pruned.waiting id = none)
      (hissued : pruned.issued id = none) :
      Admission service now tid call id pruned
        (issue service { pruned with waiting := Function.update pruned.waiting id (some tid) }
            now call id,
          .waiting (now + hold) hold none, true)

theorem admitCall_admission (now : Instant) (tid : Tid) (call : Call) (id : String)
    (relay : RelayState Tid) :
    Admission service now tid call id (relay.prune now) (admitCall service now tid call id relay) := by
  rw [admitCall]
  dsimp only
  split
  · next hother =>
    cases hfnd : (relay.prune now).owners id with
    | none =>
      rw [hfnd] at hother
      cases hother
    | some owner =>
      rw [hfnd] at hother
      exact .conflict owner hfnd (of_decide_eq_true hother)
  rename_i hsame
  have howner : ∀ owner, (relay.prune now).owners id = some owner → owner = service.owner call := by
    intro owner howner
    rw [howner] at hsame
    exact Classical.byContradiction fun hne => hsame (decide_eq_true hne)
  split
  · next kept hres => exact .replay kept.1 kept.2 howner hres
  rename_i hres
  split
  · next hwait => exact .inFlight howner hres hwait
  rename_i hwait
  have hnone : (relay.prune now).waiting id = none := not_isSome_iff_eq_none.mp hwait
  cases hiss : (relay.prune now).issued id with
  | none => exact .fresh _ howner hres hnone hiss
  | some time =>
    refine .retry _ howner hres hnone ?_
    rw [hiss]
    rfl

structure Tables (service : Service) (relay : RelayState Tid) (history : History) : Prop where
  owned : ∀ id, (relay.issued id).isSome ∨ (relay.results id).isSome → (relay.owners id).isSome
  once : ∀ id, (relay.issued id).isSome → relay.results id = none
  holder : ∀ id owner, relay.owners id = some owner →
    ∃ call, history.holder id = some call ∧ owner = service.owner call
  queued : ∀ node, ∀ queued ∈ relay.queue node, (relay.owners queued.id).isSome ∧
    history.holder queued.id = some queued.call ∧ node = service.recipient queued.call
  requested : ∀ id call, (relay.issued id).isSome → history.holder id = some call →
    ⟨id, call⟩ ∈ relay.queue (service.recipient call) ∨
      (service.recipient call, ⟨id, call⟩) ∈ history.handed

variable {now : Instant} {id : String}

namespace RelayState

theorem live_iff (relay : RelayState Tid) (now : Instant) (id : String) :
    relay.live now id = true ↔
      ((relay.prune now).issued id).isSome ∨ ((relay.prune now).results id).isSome := by
  rw [live, Bool.or_eq_true]
  simp only [prune]
  cases relay.issued id <;> cases relay.results id <;> simp [Option.filter]

variable {relay : RelayState Tid}

theorem owners_prune_none (hiss : (relay.prune now).issued id = none)
    (hres : (relay.prune now).results id = none) : (relay.prune now).owners id = none := by
  change (if relay.live now id then relay.owners id else none) = none
  rw [if_neg]
  rw [live_iff, hiss, hres]
  nofun

theorem issued_of_prune {time : Instant} (hiss : (relay.prune now).issued id = some time) :
    relay.issued id = some time ∧ now - time < retention := by
  have hkept := filter_eq_some_iff.mp hiss
  exact ⟨hkept.1, of_decide_eq_true hkept.2⟩

theorem results_of_prune {kept : Result × Instant}
    (hres : (relay.prune now).results id = some kept) :
    relay.results id = some kept ∧ now - kept.2 < retention := by
  have hkept := filter_eq_some_iff.mp hres
  exact ⟨hkept.1, of_decide_eq_true hkept.2⟩

theorem prune_issued {time : Instant}
    (hiss : relay.issued id = some time) (hyng : now - time < retention) :
    (relay.prune now).issued id = some time :=
  filter_eq_some_iff.mpr ⟨hiss, decide_eq_true hyng⟩

theorem prune_results {kept : Result × Instant}
    (hres : relay.results id = some kept) (hyng : now - kept.2 < retention) :
    (relay.prune now).results id = some kept :=
  filter_eq_some_iff.mpr ⟨hres, decide_eq_true hyng⟩

theorem prune_owners (hlive : relay.live now id = true) :
    (relay.prune now).owners id = relay.owners id :=
  if_pos hlive

theorem owners_of_prune {owner : Owner} (howner : (relay.prune now).owners id = some owner) :
    relay.live now id = true ∧ relay.owners id = some owner := by
  change (if relay.live now id then relay.owners id else none) = some owner at howner
  split at howner
  · next hlive => exact ⟨hlive, howner⟩
  · cases howner

end RelayState

namespace Tables

variable {relay : RelayState Tid} {history : History}

theorem start : Tables service (World.start : World Tid).relay (World.start : World Tid).history where
  owned := by
    intro id hlive
    cases hlive with
    | inl h => cases h
    | inr h => cases h
  once := by nofun
  holder := by nofun
  queued := by nofun
  requested := by nofun

variable (htbl : Tables service relay history)
include htbl

theorem prune (now : Instant) : Tables service (relay.prune now) history where
  owned := by
    intro id hlive
    rw [← RelayState.live_iff] at hlive
    rw [RelayState.prune_owners hlive]
    apply htbl.owned
    rw [RelayState.live_iff] at hlive
    rcases hlive with h | h
    · obtain ⟨time, htime⟩ := isSome_iff_exists.mp h
      rw [(RelayState.issued_of_prune htime).1]
      exact .inl rfl
    · obtain ⟨kept, hkept⟩ := isSome_iff_exists.mp h
      rw [(RelayState.results_of_prune hkept).1]
      exact .inr rfl
  once := by
    intro id hiss
    obtain ⟨time, htime⟩ := isSome_iff_exists.mp hiss
    have hnone := htbl.once id (isSome_iff_exists.mpr ⟨time, (RelayState.issued_of_prune htime).1⟩)
    change (relay.results id).filter _ = none
    rw [hnone]
    rfl
  holder := by
    intro id owner howner
    exact htbl.holder id owner (RelayState.owners_of_prune howner).2
  queued := by
    intro node queued hmem
    obtain ⟨hold, hlive⟩ := mem_filter.mp hmem
    obtain ⟨howner, hrest⟩ := htbl.queued node queued hold
    rw [RelayState.prune_owners hlive]
    exact ⟨howner, hrest⟩
  requested := by
    intro id call hiss hhldr
    obtain ⟨time, htime⟩ := isSome_iff_exists.mp hiss
    have hbef := isSome_iff_exists.mpr ⟨time, (RelayState.issued_of_prune htime).1⟩
    rcases htbl.requested id call hbef hhldr with hqd | hhan
    · left
      exact mem_filter.mpr ⟨hqd, (RelayState.live_iff relay now id).mpr (.inl hiss)⟩
    · exact .inr hhan

omit htbl in
theorem congr {other : RelayState Tid} (htbl : Tables service relay history)
    (hiss : other.issued = relay.issued) (hress : other.results = relay.results)
    (hown : other.owners = relay.owners) (hque : other.queue = relay.queue) :
    Tables service other history where
  owned := by
    rw [hiss, hress, hown]
    exact htbl.owned
  once := by
    rw [hiss, hress]
    exact htbl.once
  holder := by
    rw [hown]
    exact htbl.holder
  queued := by
    rw [hown, hque]
    exact htbl.queued
  requested := by
    rw [hiss, hque]
    exact htbl.requested

theorem issue {call : Call} (hfree : relay.owners id = none) (hres : relay.results id = none)
    {after : History} (hhldr : after.holder = update history.holder id (some call))
    (hhan : after.handed = history.handed) :
    Tables service (issue service relay now call id) after where
  owned := by
    intro other hlive
    change (update relay.owners id _ other).isSome
    by_cases hsame : other = id
    · rw [hsame, update_self]
      rfl
    rw [update_of_ne hsame]
    apply htbl.owned
    change (update relay.issued id _ other).isSome ∨ _ at hlive
    rwa [update_of_ne hsame] at hlive
  once := by
    intro other hiss
    by_cases hsame : other = id
    · rw [hsame]
      exact hres
    · apply htbl.once
      change (update relay.issued id _ other).isSome at hiss
      rwa [update_of_ne hsame] at hiss
  holder := by
    intro other owner howner
    rw [hhldr]
    change update relay.owners id _ other = some owner at howner
    by_cases hsame : other = id
    · subst hsame
      rw [update_self] at howner ⊢
      cases howner
      exact ⟨call, rfl, rfl⟩
    · rw [update_of_ne hsame] at howner ⊢
      exact htbl.holder other owner howner
  queued := by
    intro node queued hmem
    rw [hhldr]
    change (update relay.owners id _ queued.id).isSome ∧ _
    have hold : queued ∈ relay.queue node → queued.id ≠ id := by
      intro hmem hsame
      have howner := (htbl.queued node queued hmem).1
      rw [hsame, hfree] at howner
      cases howner
    have hstays : queued ∈ relay.queue node →
        (update relay.owners id (some (service.owner call)) queued.id).isSome ∧
          update history.holder id (some call) queued.id = some queued.call ∧
            node = service.recipient queued.call := by
      intro hmem
      rw [update_of_ne (hold hmem), update_of_ne (hold hmem)]
      exact htbl.queued node queued hmem
    change queued ∈ update relay.queue (service.recipient call) _ node at hmem
    by_cases hnode : node = service.recipient call
    · subst hnode
      rw [update_self, mem_append, mem_singleton] at hmem
      rcases hmem with hmem | rfl
      · exact hstays hmem
      · rw [update_self, update_self]
        exact ⟨rfl, rfl, rfl⟩
    · rw [update_of_ne hnode] at hmem
      exact hstays hmem
  requested := by
    intro other asked hiss hask
    rw [hhldr] at hask
    rw [hhan]
    have hmore : ∀ queued ∈ relay.queue (service.recipient asked),
        queued ∈ update relay.queue (service.recipient call)
          (relay.queue (service.recipient call) ++ [⟨id, call⟩]) (service.recipient asked) := by
      intro queued hmem
      by_cases hnode : service.recipient asked = service.recipient call
      · rw [hnode] at hmem ⊢
        rw [update_self]
        exact mem_append_left _ hmem
      · rwa [update_of_ne hnode]
    by_cases hsame : other = id
    · subst hsame
      rw [update_self] at hask
      cases hask
      left
      change _ ∈ update relay.queue (service.recipient call) _ (service.recipient call)
      rw [update_self]
      exact mem_append_right _ mem_cons_self
    rw [update_of_ne hsame] at hask
    change (update relay.issued id _ other).isSome at hiss
    rw [update_of_ne hsame] at hiss
    rcases htbl.requested other asked hiss hask with hqd | hhan
    · exact .inl (hmore _ hqd)
    · exact .inr hhan

theorem popped {node : String} {first : Queued}
    {rest : List Queued} (hque : relay.queue node = first :: rest) {after : History}
    (hhldr : after.holder = history.holder)
    (hhan : after.handed = history.handed ++ [(node, first)]) :
    Tables service { relay with queue := update relay.queue node rest } after where
  owned := htbl.owned
  once := htbl.once
  holder := by
    rw [hhldr]
    exact htbl.holder
  queued := by
    rw [hhldr]
    intro other queued hmem
    apply htbl.queued other queued
    change queued ∈ update relay.queue node rest other at hmem
    by_cases hsame : other = node
    · rw [hsame, update_self] at hmem
      rw [hsame, hque]
      exact mem_cons_of_mem _ hmem
    · rwa [update_of_ne hsame] at hmem
  requested := by
    intro id call hiss hask
    rw [hhldr] at hask
    rw [hhan]
    change _ ∈ update relay.queue node rest (service.recipient call) ∨ _
    rcases htbl.requested id call hiss hask with hqd | hold
    · by_cases hnode : service.recipient call = node
      · rw [hnode, hque] at hqd
        rw [hnode, update_self]
        cases mem_cons.mp hqd with
        | inl hfst =>
          right
          rw [hfst]
          exact mem_append_right _ mem_cons_self
        | inr hrest => exact .inl hrest
      · rw [update_of_ne hnode]
        exact .inl hqd
    · exact .inr (mem_append_left _ hold)

theorem posted {id : String} {kept : Result × Instant} (howner : (relay.owners id).isSome) :
    Tables service
      { relay with
        issued := update relay.issued id none
        results := update relay.results id (some kept) } history where
  owned := by
    intro other hlive
    by_cases hsame : other = id
    · rw [hsame]
      exact howner
    apply htbl.owned
    change (update relay.issued id none other).isSome ∨
      (update relay.results id _ other).isSome at hlive
    rwa [update_of_ne hsame, update_of_ne hsame] at hlive
  once := by
    intro other hiss
    change (update relay.issued id none other).isSome at hiss
    by_cases hsame : other = id
    · rw [hsame, update_self] at hiss
      cases hiss
    rw [update_of_ne hsame] at hiss
    change update relay.results id _ other = none
    rw [update_of_ne hsame]
    exact htbl.once other hiss
  holder := htbl.holder
  queued := htbl.queued
  requested := by
    intro other call hiss
    change (update relay.issued id none other).isSome at hiss
    by_cases hsame : other = id
    · rw [hsame, update_self] at hiss
      cases hiss
    · rw [update_of_ne hsame] at hiss
      exact htbl.requested other call hiss

end Tables

theorem accepts_iff {relay : RelayState Tid} {node : String} :
    accepts relay node id = true ↔
      ∃ owner, relay.owners id = some owner ∧ owner.2.1 = node ∧ relay.results id = none := by
  rw [accepts, Bool.and_eq_true, Option.isNone_iff_eq_none, Option.any_eq_true]
  constructor
  · rintro ⟨⟨owner, howner, hnode⟩, hres⟩
    exact ⟨owner, howner, of_decide_eq_true hnode, hres⟩
  · rintro ⟨owner, howner, hnode, hres⟩
    exact ⟨⟨owner, howner, decide_eq_true hnode⟩, hres⟩

section Steps

variable [DecidableEq Tid] {world : World Tid}

theorem admitThread_numbered {tid : Tid} {call : Call} {id : String} {generated : Bool}
    (hthr : world.threads tid = some ⟨call, id, generated, .numbered⟩) :
    ∃ relay phase fresh,
      Admission service world.clock tid call id (world.relay.prune world.clock)
          (relay, phase, fresh) ∧
        admitThread service tid world =
          { world with
            relay := relay
            threads := update world.threads tid (some ⟨call, id, generated, phase⟩)
            history := if fresh then
              { world.history with
                queued := world.history.queued ++ [(⟨id, call⟩, world.clock)]
                holder := update world.history.holder id (some call) }
              else world.history } := by
  have hadm := @admitCall_admission Tid service world.clock tid call id world.relay
  rw [admitThread, hthr]
  dsimp only
  generalize admitCall service world.clock tid call id world.relay = result at hadm ⊢
  obtain ⟨relay, phase, fresh⟩ := result
  exact ⟨relay, phase, fresh, hadm, rfl⟩

/-- Any other send is left as it is. -/
theorem admitThread_cases (tid : Tid) :
    admitThread service tid world = world ∨
      ∃ call id generated, world.threads tid = some ⟨call, id, generated, .numbered⟩ := by
  rw [admitThread]
  split
  · next call id generated hthr => exact .inr ⟨call, id, generated, hthr⟩
  · exact .inl rfl

theorem Tables.step (htbl : Tables service world.relay world.history) (event : Event Tid) :
    Tables service (step service world event).relay (step service world event).history := by
  cases event with
  | pass span => exact htbl
  | arrive tid call =>
    change Tables service (arrive service tid call world).relay (arrive service tid call world).history
    rw [arrive]
    split
    · exact htbl
    · split
      · exact htbl
      · exact htbl.congr rfl rfl rfl rfl
  | admitted tid =>
    change Tables service (admitThread service tid world).relay
      (admitThread service tid world).history
    rcases @admitThread_cases Tid service _ world tid with hsame | hcase
    · rw [hsame]
      exact htbl
    obtain ⟨call, id, generated, hthr⟩ := hcase
    obtain ⟨relay, phase, fresh, hadm, hworld⟩ := @admitThread_numbered Tid service _ world
      tid call id generated hthr
    have hprn := htbl.prune world.clock
    rw [hworld]
    dsimp only
    cases hadm with
    | conflict | replay | inFlight => exact hprn
    | retry => exact hprn.congr rfl rfl rfl rfl
    | fresh hold howner hres hwait hiss =>
      have hreg : Tables service
          { world.relay.prune world.clock with
            waiting := update (world.relay.prune world.clock).waiting id (some tid) }
          world.history := hprn.congr rfl rfl rfl rfl
      exact hreg.issue (RelayState.owners_prune_none hiss hres) hres rfl rfl
  | wake tid =>
    change Tables service (wake tid world).relay (wake tid world).history
    rw [wake]
    split
    · exact htbl
    · exact htbl
  | look tid =>
    change Tables service (look service tid world).relay (look service tid world).history
    rw [look]
    split
    · exact htbl
    · exact htbl
  | clean tid =>
    change Tables service (clean tid world).relay (clean tid world).history
    rw [clean]
    split
    · split
      · exact htbl.congr rfl rfl rfl rfl
      · exact htbl
    · exact htbl
  | poll node =>
    change Tables service (poll node world).relay (poll node world).history
    rw [Rendezvous.poll]
    split
    · exact htbl.congr rfl rfl rfl rfl
    rename_i queued rest hque
    have hpop := @Tables.popped Tid service _ _ htbl node queued rest hque
      { world.history with
        handed := world.history.handed ++ [(node, queued)]
        unanswered := world.history.unanswered ++ [(node, queued)] } rfl rfl
    exact hpop.congr rfl rfl rfl rfl
  | respond node id result =>
    change Tables service (respond node id result world).relay (respond node id result world).history
    rw [Rendezvous.respond]
    split
    · next haccs =>
      obtain ⟨owner, hfnd, -⟩ := accepts_iff.mp haccs
      have howner : (world.relay.owners id).isSome := isSome_iff_exists.mpr ⟨owner, hfnd⟩
      have hpos := @Tables.posted Tid service _ _ htbl id (result, world.clock) howner
      exact { hpos with }
    · exact { htbl with }

/-- The tables are in order after any turns of any sends, polls and responds. -/
theorem tables_of_run (events : List (Event Tid)) : Tables service
    (run service World.start events).relay (run service World.start events).history := by
  apply foldlRecOn (motive := fun world : World Tid => Tables service world.relay world.history)
  · exact Tables.start
  · intro world htbl event _
    exact htbl.step event

end Steps

end WasmAgent.Rendezvous
