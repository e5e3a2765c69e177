import WasmAgent.Rendezvous.Tables

/-!
# A request runs once

The relay forgets an issued id 120 seconds after it was taken up, whatever its sender has
tried since, and a result 120 seconds after it was posted.  A request whose retries and
whose answer come before the relay has forgotten it is handed out once, its first answer
is taken, and every later retry collects that answer.
-/

namespace WasmAgent.Rendezvous

open List Option Function WasmAgent.Core

variable {Tid : Type} (service : Service) (call : Call) (id : String)

/-- What the sends must not do to a request: none comes 120 seconds or more after it was
taken up while it is unanswered, no retry of its own 120 seconds or more after its answer,
and its id is not taken up while its recipient owes an answer to another request under it. -/
def Prompt (world : World Tid) : Event Tid → Prop
  | .admitted tid => ∀ thread ∈ world.threads tid, thread.phase = .numbered →
      (world.history.holder id = some call → ∀ time ∈ world.relay.issued id,
        world.clock - time < retention) ∧
      (thread.call = call → thread.id = id →
        (∀ posted ∈ world.history.answers, posted.id = id → posted.holder = some call →
          world.clock - posted.time < retention) ∧
        (world.relay.live world.clock id = false →
          ∀ entry ∈ world.history.unanswered, entry.1 = service.recipient call →
            entry.2.id = id → entry.2.call = call))
  | _ => True

instance (world : World Tid) : (event : Event Tid) → Decidable (Prompt service call id world event)
  | .admitted tid => inferInstanceAs (Decidable (∀ thread ∈ world.threads tid, _ → _))
  | .pass _ | .arrive _ _ | .wake _ | .look _ | .clean _ | .poll _ | .respond _ _ _ => isTrue trivial

def PromptRun [DecidableEq Tid] (world : World Tid) : List (Event Tid) → Prop
  | [] => True
  | event :: events =>
      Prompt service call id world event ∧ PromptRun (step service world event) events

instance instDecidablePromptRun [DecidableEq Tid] :
    (world : World Tid) → (events : List (Event Tid)) →
      Decidable (PromptRun service call id world events)
  | _, [] => isTrue trivial
  | world, event :: events =>
      have := instDecidablePromptRun (step service world event) events
      inferInstanceAs (Decidable (_ ∧ _))

/-- The request has been taken up. -/
def Asked (world : World Tid) : Prop := ∃ time, (⟨id, call⟩, time) ∈ world.history.queued

/-- The result that was taken for the request. -/
def Answers (posted : Posted) : Prop := posted.id = id ∧ posted.holder = some call

def handedCount (world : World Tid) : ℕ :=
  world.history.handed.countP fun entry => entry.2 = ⟨id, call⟩

def queueCount (world : World Tid) : ℕ :=
  (world.relay.queue (service.recipient call)).countP fun queued => queued = ⟨id, call⟩

def askedCount (world : World Tid) : ℕ :=
  world.history.queued.countP fun entry => entry.1 = ⟨id, call⟩

/-- What holds of a request in every run that is prompt with it. -/
structure Held (world : World Tid) : Prop where
  tables : Tables service world.relay world.history
  pending : Asked call id world →
    (world.history.holder id = some call ∧ (world.relay.issued id).isSome) ∨
      ∃ posted ∈ world.history.answers, Answers call id posted
  kept : ∀ posted ∈ world.history.answers, Answers call id posted →
    world.clock - posted.time < retention →
      world.relay.results id = some (posted.result, posted.time) ∧
        world.history.holder id = some call
  proper : ∀ posted ∈ world.history.answers, Answers call id posted →
    posted.node = service.recipient call ∧ ∀ other ∈ posted.unanswered, other = call
  sole : world.history.holder id = some call → (world.relay.owners id).isSome →
    ∀ entry ∈ world.history.unanswered, entry.1 = service.recipient call →
      entry.2.id = id → entry.2.call = call
  asked : askedCount call id world ≤ 1
  counted : handedCount call id world + queueCount service call id world ≤ askedCount call id world

variable {service call id} {world : World Tid}

theorem Held.start : Held service call id (World.start : World Tid) where
  tables := Tables.start
  pending := by
    rintro ⟨time, hmem⟩
    cases hmem
  kept := by nofun
  proper := by nofun
  sole := by nofun
  asked := Nat.zero_le 1
  counted := Nat.le_refl 0

variable (hheld : Held service call id world)
include hheld

/-- A step that leaves all tables but those of the waiting sends and of the polls. -/
theorem Held.quiet {after : World Tid} (hiss : after.relay.issued = world.relay.issued)
    (hress : after.relay.results = world.relay.results)
    (hown : after.relay.owners = world.relay.owners) (hque : after.relay.queue = world.relay.queue)
    (hhis : after.history = world.history) (hclock : world.clock ≤ after.clock) :
    Held service call id after where
  tables := by
    rw [hhis]
    exact hheld.tables.congr hiss hress hown hque
  pending := by
    rw [Asked, hhis, hiss]
    exact hheld.pending
  kept := by
    rw [hhis, hress]
    intro posted hmem hanss hyng
    exact hheld.kept posted hmem hanss (Nat.lt_of_le_of_lt (Nat.sub_le_sub_right hclock _) hyng)
  proper := by
    rw [hhis]
    exact hheld.proper
  sole := by
    rw [hhis, hown]
    exact hheld.sole
  asked := by
    rw [askedCount, hhis]
    exact hheld.asked
  counted := by
    rw [handedCount, askedCount, queueCount, hhis, hque]
    exact hheld.counted

theorem Held.prune
    (hyng : ∀ time, world.history.holder id = some call → world.relay.issued id = some time →
      world.clock - time < retention) :
    Held service call id { world with relay := world.relay.prune world.clock } where
  tables := hheld.tables.prune world.clock
  pending := by
    intro hask
    rcases hheld.pending hask with ⟨hhldr, hiss⟩ | hansd
    · obtain ⟨time, htime⟩ := isSome_iff_exists.mp hiss
      have hkept := RelayState.prune_issued htime (hyng time hhldr htime)
      exact .inl ⟨hhldr, isSome_iff_exists.mpr ⟨time, hkept⟩⟩
    · exact .inr hansd
  kept := by
    intro posted hmem hanss hage
    obtain ⟨hres, hhldr⟩ := hheld.kept posted hmem hanss hage
    exact ⟨RelayState.prune_results hres hage, hhldr⟩
  proper := hheld.proper
  sole := by
    intro hhldr hown
    obtain ⟨owner, hown⟩ := isSome_iff_exists.mp hown
    apply hheld.sole hhldr
    exact isSome_iff_exists.mpr ⟨owner, (RelayState.owners_of_prune hown).2⟩
  asked := hheld.asked
  counted := by
    have hfewer : queueCount service call id
        { world with relay := world.relay.prune world.clock } ≤ queueCount service call id world :=
      filter_sublist.countP_le
    exact Nat.le_trans (Nat.add_le_add_left hfewer _) hheld.counted

variable {threads : Tid → Option Thread} {tid : Tid}

theorem Held.others {other : Call} {taken : String} (hdif : ¬(other = call ∧ taken = id))
    (hiss : world.relay.issued taken = none) (hres : world.relay.results taken = none)
    (hown : world.relay.owners taken = none) :
    Held service call id
      ⟨issue service
          { world.relay with waiting := update world.relay.waiting taken (some tid) }
          world.clock other taken, threads, world.clock,
        { world.history with
          queued := world.history.queued ++ [(⟨taken, other⟩, world.clock)]
          holder := update world.history.holder taken (some other) }⟩ := by
  have hitem : (⟨taken, other⟩ : Queued) ≠ ⟨id, call⟩ := by
    intro hsame
    cases hsame
    exact hdif ⟨rfl, rfl⟩
  have hreg : Tables service
      { world.relay with waiting := update world.relay.waiting taken (some tid) }
      world.history := hheld.tables.congr rfl rfl rfl rfl
  have hask : ∀ after : World Tid, after.history.queued =
      world.history.queued ++ [(⟨taken, other⟩, world.clock)] →
        Asked call id after → Asked call id world := by
    rintro after hqd ⟨time, hmem⟩
    rw [hqd, mem_append, mem_singleton] at hmem
    rcases hmem with hmem | hmem
    · exact ⟨time, hmem⟩
    · cases hmem
      exact absurd rfl hitem
  have hcnt : (world.history.queued ++ [((⟨taken, other⟩ : Queued), world.clock)]).countP
      (fun entry => entry.1 = ⟨id, call⟩) = askedCount call id world := by
    rw [countP_append, countP_singleton, if_neg (mt of_decide_eq_true hitem)]
    rfl
  constructor
  · exact hreg.issue hown hres rfl rfl
  · intro h
    rcases hheld.pending (hask _ rfl h) with ⟨hhldr, hsome⟩ | hansd
    · by_cases hsame : id = taken
      · rw [← hsame] at hiss
        rw [hiss] at hsome
        cases hsome
      · left
        dsimp only [issue]
        rw [update_of_ne hsame, update_of_ne hsame]
        exact ⟨hhldr, hsome⟩
    · exact .inr hansd
  · intro posted hmem hanss hyng
    obtain ⟨hkept, hhldr⟩ := hheld.kept posted hmem hanss hyng
    by_cases hsame : id = taken
    · rw [← hsame, hkept] at hres
      cases hres
    refine ⟨hkept, ?_⟩
    dsimp only
    rw [update_of_ne hsame]
    exact hhldr
  · exact hheld.proper
  · intro hhldr hsome
    by_cases hsame : id = taken
    · subst hsame
      dsimp only at hhldr
      rw [update_self] at hhldr
      cases hhldr
      exact absurd rfl hitem
    apply hheld.sole
    · dsimp only at hhldr
      rwa [update_of_ne hsame] at hhldr
    · change (update world.relay.owners taken _ id).isSome at hsome
      rwa [update_of_ne hsame] at hsome
  · rw [askedCount, hcnt]
    exact hheld.asked
  have hque : (update world.relay.queue (service.recipient other)
      (world.relay.queue (service.recipient other) ++ [⟨taken, other⟩])
      (service.recipient call)).countP (fun queued => queued = ⟨id, call⟩) =
        queueCount service call id world := by
    by_cases hsame : service.recipient call = service.recipient other
    · rw [← hsame, update_self, countP_append, countP_singleton,
        if_neg (mt of_decide_eq_true hitem)]
      rfl
    · rw [update_of_ne hsame]
      rfl
  change handedCount call id world + countP _ (update world.relay.queue _ _ _) ≤
    countP _ (world.history.queued ++ _)
  rw [hcnt, hque]
  exact hheld.counted

theorem Held.taken (hiss : world.relay.issued id = none) (hres : world.relay.results id = none)
    (hown : world.relay.owners id = none)
    (hyng : ∀ posted ∈ world.history.answers, Answers call id posted →
      world.clock - posted.time < retention)
    (hsole : ∀ entry ∈ world.history.unanswered, entry.1 = service.recipient call →
      entry.2.id = id → entry.2.call = call) :
    Held service call id
      ⟨issue service
          { world.relay with waiting := update world.relay.waiting id (some tid) }
          world.clock call id, threads, world.clock,
        { world.history with
          queued := world.history.queued ++ [(⟨id, call⟩, world.clock)]
          holder := update world.history.holder id (some call) }⟩ := by
  have hreg : Tables service
      { world.relay with waiting := update world.relay.waiting id (some tid) }
      world.history := hheld.tables.congr rfl rfl rfl rfl
  have hunan : ∀ posted ∈ world.history.answers, ¬Answers call id posted := by
    intro posted hmem hanss
    rw [(hheld.kept posted hmem hanss (hyng posted hmem hanss)).1] at hres
    cases hres
  have hfst : askedCount call id world = 0 := by
    rw [askedCount, countP_eq_zero]
    intro entry hmem hsame
    have hask : Asked call id world := by
      refine ⟨entry.2, ?_⟩
      rw [← of_decide_eq_true hsame]
      exact hmem
    rcases hheld.pending hask with ⟨-, hsome⟩ | ⟨posted, hpos, hanss⟩
    · rw [hiss] at hsome
      cases hsome
    · exact hunan posted hpos hanss
  have hcnt : (world.history.queued ++ [((⟨id, call⟩ : Queued), world.clock)]).countP
      (fun entry => entry.1 = ⟨id, call⟩) = 1 := by
    rw [countP_append, countP_singleton, if_pos (decide_eq_true rfl)]
    exact congrArg (· + 1) hfst
  constructor
  · exact hreg.issue hown hres rfl rfl
  · intro hask
    left
    dsimp only [issue]
    rw [update_self, update_self]
    exact ⟨rfl, rfl⟩
  · intro posted hmem hanss
    exact absurd hanss (hunan posted hmem)
  · exact hheld.proper
  · exact fun _ _ => hsole
  · rw [askedCount, hcnt]
  have hque : (update world.relay.queue (service.recipient call)
      (world.relay.queue (service.recipient call) ++ [⟨id, call⟩])
      (service.recipient call)).countP (fun queued => queued = ⟨id, call⟩) =
        queueCount service call id world + 1 := by
    rw [update_self, countP_append, countP_singleton, if_pos (decide_eq_true rfl)]
    rfl
  change handedCount call id world + countP _ (update world.relay.queue _ _ _) ≤
    countP _ (world.history.queued ++ _)
  rw [hcnt, hque]
  have hcntd := hheld.counted
  rw [hfst] at hcntd
  exact Nat.succ_le_succ hcntd

omit hheld in
theorem Held.polled [DecidableEq Tid] (hheld : Held service call id world) (node : String) :
    Held service call id (poll node world) := by
  have htbl : Tables service (poll node world).relay (poll node world).history :=
    hheld.tables.step (.poll node)
  rw [Rendezvous.poll] at htbl ⊢
  split at htbl
  · exact hheld.quiet rfl rfl rfl rfl rfl (Nat.le_refl _)
  rename_i queued rest hque
  obtain ⟨howned, hhldr, hnode⟩ := hheld.tables.queued node queued (hque ▸ mem_cons_self)
  constructor
  · exact htbl
  · exact hheld.pending
  · exact hheld.kept
  · exact hheld.proper
  · intro hcall hown entry hmem hat hid
    rcases mem_append.mp hmem with hold | hnew
    · exact hheld.sole hcall hown entry hold hat hid
    · cases mem_singleton.mp hnew
      rw [hid] at hhldr
      exact Option.some.inj (hhldr.symm.trans hcall)
  · exact hheld.asked
  have hcntd := hheld.counted
  change (world.history.handed ++ [(node, queued)]).countP _ +
    (update world.relay.queue node rest (service.recipient call)).countP _ ≤ _
  rw [countP_append, countP_singleton]
  by_cases hsame : queued = ⟨id, call⟩
  · have hrcp : service.recipient call = node := by
      rw [hnode, hsame]
    have hone : queueCount service call id world =
        rest.countP (fun queued => queued = ⟨id, call⟩) + 1 := by
      rw [queueCount, hrcp, hque, countP_cons, if_pos (decide_eq_true hsame)]
    rw [hone] at hcntd
    rw [if_pos (decide_eq_true hsame), hrcp, update_self, Nat.add_right_comm]
    exact hcntd
  have hfewer : (update world.relay.queue node rest (service.recipient call)).Sublist
      (world.relay.queue (service.recipient call)) := by
    by_cases hrcp : service.recipient call = node
    · rw [hrcp, update_self, hque]
      exact sublist_cons_self queued rest
    · rw [update_of_ne hrcp]
  rw [if_neg (mt of_decide_eq_true hsame)]
  exact Nat.le_trans (Nat.add_le_add_left hfewer.countP_le _) hcntd

omit hheld in
theorem Held.answered [DecidableEq Tid] (hheld : Held service call id world) (node other : String)
    (result : Result) : Held service call id (respond node other result world) := by
  have htbl : Tables service (respond node other result world).relay
      (respond node other result world).history := hheld.tables.step (.respond node other result)
  by_cases haccs : accepts world.relay node other = true
  · rw [Rendezvous.respond, if_pos haccs] at htbl ⊢
    obtain ⟨owner, hown, hnode, hfst⟩ := accepts_iff.mp haccs
    have hnew : ∀ posted ∈ world.history.answers, Answers call id posted → id = other →
        ¬world.clock - posted.time < retention := by
      intro posted hmem hanss hsame hyng
      have hres := (hheld.kept posted hmem hanss hyng).1
      rw [hsame, hfst] at hres
      cases hres
    constructor
    · exact htbl
    · intro hask
      rcases hheld.pending hask with ⟨hhldr, hiss⟩ | ⟨posted, hmem, hanss⟩
      · by_cases hsame : id = other
        · right
          subst hsame
          exact ⟨_, mem_append_right _ mem_cons_self, rfl, hhldr⟩
        · left
          dsimp only
          rw [update_of_ne hsame]
          exact ⟨hhldr, hiss⟩
      · exact .inr ⟨posted, mem_append_left _ hmem, hanss⟩
    · intro posted hmem hanss hyng
      rcases mem_append.mp hmem with hold | hlast
      · by_cases hsame : id = other
        · exact absurd hyng (hnew posted hold hanss hsame)
        · dsimp only
          rw [update_of_ne hsame]
          exact hheld.kept posted hold hanss hyng
      rw [mem_singleton.mp hlast] at hanss ⊢
      obtain ⟨rfl, hhldr⟩ := hanss
      dsimp only
      rw [update_self]
      exact ⟨rfl, hhldr⟩
    · intro posted hmem hanss
      rcases mem_append.mp hmem with hold | hlast
      · exact hheld.proper posted hold hanss
      rw [mem_singleton.mp hlast] at hanss ⊢
      obtain ⟨rfl, hhldr⟩ := hanss
      obtain ⟨holder, hheld', hfor⟩ := hheld.tables.holder other owner hown
      cases hheld'.symm.trans hhldr
      have hrcp : node = service.recipient call := by
        rw [← hnode, hfor]
        rfl
      refine ⟨hrcp, ?_⟩
      · intro unanswered hmem
        obtain ⟨entry, hent, rfl⟩ := List.mem_map.mp hmem
        obtain ⟨hent, hunder⟩ := mem_filter.mp hent
        exact hheld.sole hhldr (isSome_iff_exists.mpr ⟨owner, hown⟩) entry hent
          ((of_decide_eq_true hunder).1.trans hrcp) (of_decide_eq_true hunder).2
    · intro hcall hsome entry hmem
      exact hheld.sole hcall hsome entry (mem_of_mem_eraseP hmem)
    · exact hheld.asked
    · exact hheld.counted
  · rw [Rendezvous.respond, if_neg haccs] at htbl ⊢
    constructor
    · exact htbl
    · exact hheld.pending
    · exact hheld.kept
    · exact hheld.proper
    · intro hcall hsome entry hmem
      exact hheld.sole hcall hsome entry (mem_of_mem_eraseP hmem)
    · exact hheld.asked
    · exact hheld.counted

theorem Held.answerable (hask : Asked call id world)
    (hnone : ∀ posted ∈ world.history.answers, ¬Answers call id posted) :
    accepts world.relay (service.recipient call) id = true := by
  rcases hheld.pending hask with ⟨hhldr, hiss⟩ | ⟨posted, hmem, hanss⟩
  · obtain ⟨owner, hown⟩ := isSome_iff_exists.mp (hheld.tables.owned id (.inl hiss))
    obtain ⟨holder, hfor, hsame⟩ := hheld.tables.holder id owner hown
    cases hfor.symm.trans hhldr
    rw [accepts_iff]
    exact ⟨owner, hown, congrArg (·.2.1) hsame, hheld.tables.once id hiss⟩
  · exact absurd hanss (hnone posted hmem)

section Steps

variable [DecidableEq Tid]

theorem Held.step (event : Event Tid) (hprom : Prompt service call id world event) :
    Held service call id (Rendezvous.step service world event) := by
  cases event with
  | pass span => exact hheld.quiet rfl rfl rfl rfl rfl (Nat.le_add_right _ _)
  | arrive tid other =>
    change Held service call id (arrive service tid other world)
    rw [arrive]
    split
    · exact hheld
    · split
      · exact hheld.quiet rfl rfl rfl rfl rfl (Nat.le_refl _)
      · exact hheld.quiet rfl rfl rfl rfl rfl (Nat.le_refl _)
  | admitted tid =>
    change Held service call id (admitThread service tid world)
    rcases @admitThread_cases Tid service _ world tid with hsame | hcase
    · rw [hsame]
      exact hheld
    obtain ⟨other, taken, generated, hthr⟩ := hcase
    obtain ⟨relay, phase, fresh, hadm, hworld⟩ := @admitThread_numbered Tid service _ world
      tid other taken generated hthr
    obtain ⟨hyng, hown⟩ := hprom _ hthr rfl
    have hprn := hheld.prune fun time hhldr => hyng hhldr time
    rw [hworld]
    cases hadm with
    | conflict => exact hprn.quiet rfl rfl rfl rfl rfl (Nat.le_refl _)
    | replay | inFlight | retry => exact hprn.quiet rfl rfl rfl rfl rfl (Nat.le_refl _)
    | fresh hold howner hres hwtg hiss =>
      have hfree := RelayState.owners_prune_none hiss hres
      by_cases hsame : other = call ∧ taken = id
      · obtain ⟨rfl, rfl⟩ := hsame
        obtain ⟨hrcnt, hsole⟩ := hown rfl rfl
        apply hprn.taken hiss hres hfree
        · exact fun posted hmem hanss => hrcnt posted hmem hanss.1 hanss.2
        · apply hsole
          simp [← Bool.not_eq_true, RelayState.live_iff, hiss, hres]
      · exact hprn.others hsame hiss hres hfree
  | wake tid =>
    change Held service call id (wake tid world)
    rw [wake]
    split
    · exact hheld.quiet rfl rfl rfl rfl rfl (Nat.le_refl _)
    · exact hheld
  | look tid =>
    change Held service call id (look service tid world)
    rw [look]
    split
    · exact hheld.quiet rfl rfl rfl rfl rfl (Nat.le_refl _)
    · exact hheld
  | clean tid =>
    change Held service call id (clean tid world)
    rw [clean]
    split
    · split
      · exact hheld.quiet rfl rfl rfl rfl rfl (Nat.le_refl _)
      · exact hheld
    · exact hheld
  | poll node => exact hheld.polled node
  | respond node other result => exact hheld.answered node other result

theorem Held.run (events : List (Event Tid)) (hprom : PromptRun service call id world events) :
    Held service call id (Rendezvous.run service world events) := by
  induction events generalizing world with
  | nil => exact hheld
  | cons event events ih => exact ih (hheld.step event hprom.1) hprom.2

theorem Held.replays {generated : Bool}
    {posted : Posted} (hthr : world.threads tid = some ⟨call, id, generated, .numbered⟩)
    (hmem : posted ∈ world.history.answers) (hanss : Answers call id posted)
    (hyng : world.clock - posted.time < retention) :
    (admitThread service tid world).threads tid =
      some ⟨call, id, generated, .returned (.answered posted.result true)⟩ := by
  obtain ⟨hres, hhldr⟩ := hheld.kept posted hmem hanss hyng
  have hkept := RelayState.prune_results hres hyng
  obtain ⟨relay, phase, fresh, hadm, hworld⟩ := @admitThread_numbered Tid service _ world
    tid call id generated hthr
  rw [hworld]
  dsimp only
  rw [update_self]
  cases hadm with
  | conflict owner hown hoth =>
    obtain ⟨holder, hfor, hsame⟩ := hheld.tables.holder id owner (RelayState.owners_of_prune hown).2
    cases hfor.symm.trans hhldr
    exact absurd hsame hoth
  | replay result time hown hfnd =>
    cases hfnd.symm.trans hkept
    rfl
  | inFlight hown hnone hwtg => cases hnone.symm.trans hkept
  | retry hold hown hnone hwtg hiss => cases hnone.symm.trans hkept
  | fresh hold hown hnone hwtg hiss => cases hnone.symm.trans hkept

omit hheld

/-- In a run that is prompt with a request, the request is handed out at most once, the
first answer of its recipient is taken, an answer that was taken is the recipient's and
for no other request it has been handed, and a retry within the retention of the answer
returns it. -/
theorem relay_runs_once (service : Service) (call : Call) (id : String) (events : List (Event Tid))
    (hprompt : PromptRun service call id World.start events) :
    handedCount call id (run service World.start events) ≤ 1 ∧
      (Asked call id (run service World.start events) →
        (∀ posted ∈ (run service World.start events).history.answers, ¬Answers call id posted) →
          accepts (run service World.start events).relay (service.recipient call) id = true) ∧
      (∀ posted ∈ (run service World.start events).history.answers, Answers call id posted →
        posted.node = service.recipient call ∧ ∀ other ∈ posted.unanswered, other = call) ∧
      ∀ tid generated, (run service World.start events).threads tid =
          some ⟨call, id, generated, .numbered⟩ →
        ∀ posted ∈ (run service World.start events).history.answers, Answers call id posted →
          (run service World.start events).clock - posted.time < retention →
            (run service World.start (events ++ [.admitted tid])).threads tid =
              some ⟨call, id, generated, .returned (.answered posted.result true)⟩ := by
  have hheld := Held.start.run events hprompt
  refine ⟨?_, hheld.answerable, hheld.proper, ?_⟩
  · calc handedCount call id (Rendezvous.run service World.start events)
        ≤ handedCount call id (Rendezvous.run service World.start events) +
            queueCount service call id (Rendezvous.run service World.start events) :=
          Nat.le_add_right _ _
      _ ≤ askedCount call id (Rendezvous.run service World.start events) := hheld.counted
      _ ≤ 1 := hheld.asked
  · intro tid generated hthread posted hmem hanswers hyoung
    rw [Rendezvous.run, foldl_append]
    exact hheld.replays hthread hmem hanswers hyoung

end Steps

omit hheld

section Sample

def jobBody : Json :=
  .object [("body", .string "x"), ("rid", .string "job"), ("to", .string "b")]

def jobService : Service :=
  knownBodies [(jobBody, "1ace1a23e61b54b0e67e365291bd662aec193f053cea50f043b586c5f0950fef")]

def jobCall : Call := ⟨"a", printed jobBody⟩

/-- A request is sent, answered after its sender gave up, and tried again. -/
def answeredLate : List (Event ℕ) :=
  [.arrive 1 jobCall, .admitted 1, .poll "b", .pass (45 * second), .wake 1, .look 1, .clean 1,
    .pass (10 * second), .respond "b" "job" ⟨200, "done"⟩, .pass (60 * second),
    .arrive 2 jobCall]

theorem relay_runs_once_late :
    (run jobService World.start (answeredLate ++ [.admitted 2])).threads 2 =
      some ⟨jobCall, "job", false, .returned (.answered ⟨200, "done"⟩ true)⟩ :=
  (relay_runs_once jobService jobCall "job" answeredLate (by decide +kernel)).2.2.2 2 false
    (by decide +kernel) ⟨"job", "b", ⟨200, "done"⟩, 55 * second, [jobCall], some jobCall⟩
    (by decide +kernel) ⟨rfl, rfl⟩ (by decide +kernel)

/-- Whether each send of a request comes less than the retention after the send of it before,
or after that one gave up. -/
def punctual [DecidableEq Tid] (service : Service) (call : Call) (id : String) :
    Option Instant → World Tid → List (Event Tid) → Bool
  | _, _, [] => true
  | last, world, event :: events =>
      let after := step service world event
      let own (tid : Tid) := (world.threads tid).any fun thread => thread.call = call ∧ thread.id = id
      match event with
      | .admitted tid =>
          if own tid then
            last.all (world.clock - · < retention) && punctual service call id (some world.clock) after events
          else punctual service call id last after events
      | .clean tid =>
          punctual service call id (if own tid then some world.clock else last) after events
      | _ => punctual service call id last after events

/-- A request that its recipient works on, tried again a minute after each time-out. -/
def triedAgain : List (Event ℕ) :=
  [.arrive 1 jobCall, .admitted 1, .poll "b", .pass (45 * second), .wake 1, .look 1, .clean 1,
    .pass (60 * second), .arrive 2 jobCall, .admitted 2, .pass (20 * second), .wake 2, .look 2,
    .clean 2, .pass (60 * second), .arrive 3 jobCall, .admitted 3, .poll "b"]

/-- The issued id is as old as the first send, so the third one queues the request again. -/
theorem retry_is_handed_again :
    ¬∀ events : List (Event ℕ), punctual jobService jobCall "job" none World.start events = true →
      handedCount jobCall "job" (run jobService World.start events) ≤ 1 := by
  intro honce
  have htwice : handedCount jobCall "job" (run jobService World.start triedAgain) = 2 := by
    decide +kernel
  have hone := honce triedAgain (by decide +kernel)
  exact absurd hone (by decide)

end Sample

end WasmAgent.Rendezvous
