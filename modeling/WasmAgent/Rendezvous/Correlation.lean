import Mathlib.Data.Fintype.Basic
import WasmAgent.Rendezvous.Tables

/-!
# A result comes from the request it is returned for

Ids that clients choose and ids that the relay makes up are one namespace, and a result
names its request by the id alone.  What keeps the requests of one id apart is the owner
of the id, which lives as long as the id is issued or its result is kept.
-/

namespace WasmAgent.Rendezvous

open List Option Function WasmAgent.Core

variable {Tid : Type} {phase : Phase}

namespace Phase

/-- The send has been admitted and has not returned. -/
def isOpen : Phase → Bool
  | waiting _ _ _ | collected _ | expired _ | looked _ _ => true
  | numbered | returned _ => false

/-- The result a send has, in its channel or in hand. -/
def received : Phase → Option Result
  | waiting _ _ inbox => inbox
  | collected result | returned (.answered result _) => some result
  | _ => none

def awaits : Phase → Bool
  | waiting _ _ none => true
  | _ => false

def refused : Phase → Bool
  | returned .conflict | returned .inFlight => true
  | _ => false

theorem isOpen_of_awaits (hawt : phase.awaits = true) : phase.isOpen = true := by
  cases phase with
  | waiting deadline hold inbox => rfl
  | _ => cases hawt

/-- What a send does by itself once it has been admitted. -/
inductive Next : Phase → Phase → Prop where
  | collect (deadline : Instant) (hold : ℕ) (result : Result) :
      Next (waiting deadline hold (some result)) (collected result)
  | expire (deadline : Instant) (hold : ℕ) : Next (waiting deadline hold none) (expired hold)
  | look (hold : ℕ) (attached : Bool) : Next (expired hold) (looked attached hold)

end Phase

variable (service : Service)

def Reply (call : Call) (id : String) (result : Result) (posted : Posted) : Prop :=
  posted.id = id ∧ posted.result = result ∧ posted.node = service.recipient call ∧
    posted.holder = some call ∧ ∀ other ∈ posted.unanswered, other = call

/-- What a send must not find: a waiting send whose id was issued 120 seconds ago or more;
its id taken up by nobody, but with a send of it still open or its recipient owing an
answer to another request under it; an id in use, when the relay made the id up; another
request with the same owner. -/
def CarefulSend (world : World Tid) (thread : Thread) : Prop :=
  (∀ other, ∀ waiter ∈ world.threads other, waiter.phase.awaits = true →
    ∀ time ∈ world.relay.issued waiter.id, world.clock - time < retention) ∧
  (world.relay.live world.clock thread.id = false → world.relay.waiting thread.id = none →
    (∀ other, ∀ opener ∈ world.threads other, opener.phase.isOpen = true → opener.id ≠ thread.id) ∧
    ∀ entry ∈ world.history.unanswered, entry.1 = service.recipient thread.call →
      entry.2.id = thread.id → entry.2.call = thread.call) ∧
  (thread.generated = true → world.relay.live world.clock thread.id = false ∧
    world.relay.waiting thread.id = none) ∧
  ∀ holder ∈ world.history.holder thread.id,
    service.owner holder = service.owner thread.call → holder = thread.call

instance [DecidableEq Tid] [Fintype Tid] (world : World Tid) (thread : Thread) :
    Decidable (CarefulSend service world thread) :=
  inferInstanceAs (Decidable (_ ∧ _))

def Careful (world : World Tid) : Event Tid → Prop
  | .admitted tid => ∀ thread ∈ world.threads tid, thread.phase = .numbered →
      CarefulSend service world thread
  | _ => True

instance [DecidableEq Tid] [Fintype Tid] (world : World Tid) :
    (event : Event Tid) → Decidable (Careful service world event)
  | .admitted tid => inferInstanceAs (Decidable (∀ thread ∈ world.threads tid, _ → _))
  | .pass _ | .arrive _ _ | .wake _ | .look _ | .clean _ | .poll _ | .respond _ _ _ => isTrue trivial

def CarefulRun [DecidableEq Tid] (world : World Tid) : List (Event Tid) → Prop
  | [] => True
  | event :: events => Careful service world event ∧ CarefulRun (step service world event) events

instance instDecidableCarefulRun [DecidableEq Tid] [Fintype Tid] :
    (world : World Tid) → (events : List (Event Tid)) → Decidable (CarefulRun service world events)
  | _, [] => isTrue trivial
  | world, event :: events =>
      have := instDecidableCarefulRun (step service world event) events
      inferInstanceAs (Decidable (_ ∧ _))

/-- A step that is not the send's own, and no answer of its recipient under its id. -/
def Foreign (tid : Tid) (thread : Thread) : Event Tid → Prop
  | .arrive other _ | .admitted other | .wake other | .look other | .clean other => other ≠ tid
  | .respond node id _ => node ≠ service.recipient thread.call ∨ id ≠ thread.id
  | .pass _ | .poll _ => True

/-- What holds of the sends in every careful run. -/
structure Correlated (world : World Tid) : Prop where
  tables : Tables service world.relay world.history
  named : ∀ id tid, world.relay.waiting id = some tid → ∃ thread, world.threads tid = some thread ∧
    thread.id = id ∧ thread.phase.isOpen = true ∧ thread.phase.received = none
  registered : ∀ tid thread, world.threads tid = some thread → thread.phase.awaits = true →
    world.relay.waiting thread.id = some tid ∧ (world.relay.issued thread.id).isSome ∧
      world.history.holder thread.id = some thread.call
  held : ∀ tid thread, world.threads tid = some thread → thread.phase.isOpen = true →
    world.relay.waiting thread.id = some tid ∨ world.relay.issued thread.id = none
  alone : ∀ left first, world.threads left = some first → first.phase.isOpen = true →
    ∀ right second, world.threads right = some second → second.phase.isOpen = true →
      first.id = second.id → left = right
  sole : ∀ id call, world.history.holder id = some call → (world.relay.owners id).isSome →
    ∀ entry ∈ world.history.unanswered, entry.1 = service.recipient call →
      entry.2.id = id → entry.2.call = call
  kept : ∀ id result time, world.relay.results id = some (result, time) →
    ∃ call, world.history.holder id = some call ∧
      ∃ posted ∈ world.history.answers, Reply service call id result posted
  replies : ∀ tid thread, world.threads tid = some thread →
    ∀ result, thread.phase.received = some result →
      ∃ posted ∈ world.history.answers, Reply service thread.call thread.id result posted
  unshared : ∀ tid thread, world.threads tid = some thread → thread.generated = true →
    thread.phase.refused = false

variable {id : String} {call : Call}

namespace Correlated

variable {service} {world : World Tid}

theorem start : Correlated service (World.start : World Tid) where
  tables := Tables.start
  named := by nofun
  registered := by nofun
  held := by nofun
  alone := by nofun
  sole := by nofun
  kept := by nofun
  replies := by nofun
  unshared := by nofun

variable (hcor : Correlated service world)
include hcor

theorem counts (nextId : ℕ) :
    Correlated service { world with relay := { world.relay with nextId := nextId } } where
  tables := hcor.tables.congr rfl rfl rfl rfl
  named := hcor.named
  registered := hcor.registered
  held := hcor.held
  alone := hcor.alone
  sole := hcor.sole
  kept := hcor.kept
  replies := hcor.replies
  unshared := hcor.unshared

theorem prune (hyng : ∀ other, ∀ waiter ∈ world.threads other, waiter.phase.awaits = true →
      ∀ time ∈ world.relay.issued waiter.id, world.clock - time < retention) :
    Correlated service { world with relay := world.relay.prune world.clock } where
  tables := hcor.tables.prune world.clock
  named := hcor.named
  registered := by
    intro tid thread hthr hawt
    obtain ⟨hwtg, hiss, hhldr⟩ := hcor.registered tid thread hthr hawt
    obtain ⟨time, htime⟩ := isSome_iff_exists.mp hiss
    have hkept := RelayState.prune_issued htime (hyng tid thread hthr hawt time htime)
    exact ⟨hwtg, isSome_iff_exists.mpr ⟨time, hkept⟩, hhldr⟩
  held := by
    intro tid thread hthr hopen
    cases hcor.held tid thread hthr hopen with
    | inl hwtg => exact .inl hwtg
    | inr hiss =>
      right
      change (world.relay.issued thread.id).filter _ = none
      rw [hiss]
      rfl
  alone := hcor.alone
  sole := by
    intro id call hhldr hown
    obtain ⟨owner, hown⟩ := isSome_iff_exists.mp hown
    apply hcor.sole id call hhldr
    exact isSome_iff_exists.mpr ⟨owner, (RelayState.owners_of_prune hown).2⟩
  kept := by
    intro id result time hres
    exact hcor.kept id result time (RelayState.results_of_prune hres).1
  replies := hcor.replies
  unshared := hcor.unshared

theorem issues {call : Call} {id : String} {after : History} (hown : world.relay.owners id = none)
    (hres : world.relay.results id = none)
    (hfree : ∀ other opener, world.threads other = some opener → opener.phase.isOpen = true →
      opener.id ≠ id)
    (hsole : ∀ entry ∈ world.history.unanswered, entry.1 = service.recipient call →
      entry.2.id = id → entry.2.call = call)
    (hhldr : after.holder = update world.history.holder id (some call))
    (hhan : after.handed = world.history.handed)
    (hunan : after.unanswered = world.history.unanswered)
    (hanss : after.answers = world.history.answers) :
    Correlated service
      { world with relay := issue service world.relay world.clock call id, history := after } where
  tables := hcor.tables.issue hown hres hhldr hhan
  named := hcor.named
  registered := by
    intro tid thread hthr hawt
    obtain ⟨hwtg, hiss, hfor⟩ := hcor.registered tid thread hthr hawt
    have hdif := hfree tid thread hthr (Phase.isOpen_of_awaits hawt)
    rw [hhldr]
    change _ ∧ (update world.relay.issued id _ thread.id).isSome ∧ _
    rw [update_of_ne hdif, update_of_ne hdif]
    exact ⟨hwtg, hiss, hfor⟩
  held := by
    intro tid thread hthr hopen
    change _ ∨ update world.relay.issued id _ thread.id = none
    rw [update_of_ne (hfree tid thread hthr hopen)]
    exact hcor.held tid thread hthr hopen
  alone := hcor.alone
  sole := by
    intro other asked hask hsome
    rw [hhldr] at hask
    rw [hunan]
    by_cases hsame : other = id
    · subst hsame
      rw [update_self] at hask
      cases hask
      exact hsole
    rw [update_of_ne hsame] at hask
    change (update world.relay.owners id _ other).isSome at hsome
    rw [update_of_ne hsame] at hsome
    exact hcor.sole other asked hask hsome
  kept := by
    intro other result time hkept
    have hdif : other ≠ id := by
      rintro rfl
      cases hres.symm.trans hkept
    rw [hhldr, hanss, update_of_ne hdif]
    exact hcor.kept other result time hkept
  replies := by
    rw [hanss]
    exact hcor.replies
  unshared := hcor.unshared

theorem replied {node : String} (result : Result) (haccs : accepts world.relay node id = true) :
    ∃ call, world.history.holder id = some call ∧
      Reply service call id result ⟨id, node, result, world.clock,
        world.history.unansweredBy node id, world.history.holder id⟩ := by
  obtain ⟨owner, hown, hnode, -⟩ := accepts_iff.mp haccs
  obtain ⟨call, hhldr, hfor⟩ := hcor.tables.holder id owner hown
  have hrcp : node = service.recipient call := by
    rw [← hnode, hfor]
    rfl
  refine ⟨call, hhldr, rfl, rfl, hrcp, hhldr, ?_⟩
  intro other hmem
  obtain ⟨entry, hent, rfl⟩ := List.mem_map.mp hmem
  obtain ⟨hent, hunder⟩ := mem_filter.mp hent
  obtain ⟨hat, hid⟩ := of_decide_eq_true hunder
  exact hcor.sole id call hhldr (isSome_iff_exists.mpr ⟨owner, hown⟩) entry hent
    (hat.trans hrcp) hid

theorem holds_call (hown : ∀ owner, (world.relay.prune world.clock).owners id = some owner →
      owner = service.owner call)
    (hlive : ((world.relay.prune world.clock).issued id).isSome ∨
      ((world.relay.prune world.clock).results id).isSome)
    (hcol : ∀ holder ∈ world.history.holder id,
      service.owner holder = service.owner call → holder = call) :
    world.history.holder id = some call := by
  have hprn := hcor.tables.prune world.clock
  obtain ⟨owner, hfnd⟩ := isSome_iff_exists.mp (hprn.owned id hlive)
  obtain ⟨holder, hhldr, hfor⟩ := hprn.holder id owner hfnd
  rw [hhldr, hcol holder hhldr (hfor.symm.trans (hown owner hfnd))]

end Correlated

section Threads

variable [DecidableEq Tid] {service} {world : World Tid}

theorem wakePhase_next (connected : Bool) (now : Instant) (phase : Phase) :
    wakePhase connected now phase = phase ∨ Phase.Next phase (wakePhase connected now phase) := by
  cases phase with
  | waiting deadline hold inbox =>
    cases inbox with
    | some result => exact .inr (.collect deadline hold result)
    | none =>
      rw [wakePhase]
      split
      · exact .inr (.expire deadline hold)
      · exact .inl rfl
  | _ => exact .inl rfl

variable {outcome : Outcome}

theorem ending_returns (hend : ending phase = some outcome) :
    phase.isOpen = true ∧ (Phase.returned outcome).received = phase.received ∧
      (Phase.returned outcome).refused = false := by
  cases phase with
  | collected result =>
    cases hend
    exact ⟨rfl, rfl, rfl⟩
  | looked attached hold =>
    cases hend
    exact ⟨rfl, rfl, rfl⟩
  | _ => cases hend

variable {tid : Tid} {thread : Thread}

theorem update_some {threads : Tid → Option Thread} {other : Tid} {new : Thread}
    (hthr : update threads tid (some new) other = some thread) :
    (other = tid ∧ thread = new) ∨ (other ≠ tid ∧ threads other = some thread) := by
  by_cases hsame : other = tid
  · rw [hsame, update_self] at hthr
    exact .inl ⟨hsame, (Option.some.inj hthr).symm⟩
  · rw [update_of_ne hsame] at hthr
    exact .inr ⟨hsame, hthr⟩

namespace Correlated

variable (hcor : Correlated service world)
include hcor

theorem moves {new : Thread}
    (hopens : new.phase.isOpen = true → ∃ old, world.threads tid = some old ∧ old.id = new.id ∧
      old.phase.isOpen = true)
    (hnmd : ∀ id, world.relay.waiting id = some tid →
      new.id = id ∧ new.phase.isOpen = true ∧ new.phase.received = none)
    (hawt : new.phase.awaits = false)
    (hrep : ∀ result, new.phase.received = some result →
      ∃ posted ∈ world.history.answers, Reply service new.call new.id result posted)
    (huns : new.generated = true → new.phase.refused = false) :
    Correlated service { world with threads := update world.threads tid (some new) } where
  tables := hcor.tables
  named := by
    intro id other hwtg
    by_cases hsame : other = tid
    · subst hsame
      refine ⟨new, ?_, hnmd id hwtg⟩
      exact update_self other (some new) world.threads
    · dsimp only
      rw [update_of_ne hsame]
      exact hcor.named id other hwtg
  registered := by
    intro other thread hthr hwts
    rcases update_some hthr with ⟨rfl, rfl⟩ | ⟨-, hold⟩
    · rw [hawt] at hwts
      cases hwts
    · exact hcor.registered other thread hold hwts
  held := by
    intro other thread hthr hopen
    rcases update_some hthr with ⟨rfl, rfl⟩ | ⟨-, hold⟩
    · obtain ⟨old, hold, hid, hopen⟩ := hopens hopen
      rw [← hid]
      exact hcor.held other old hold hopen
    · exact hcor.held other thread hold hopen
  alone := by
    have hbef : ∀ other thread, update world.threads tid (some new) other = some thread →
        thread.phase.isOpen = true → ∃ old, world.threads other = some old ∧ old.id = thread.id ∧
          old.phase.isOpen = true := by
      intro other thread hthr hopen
      rcases update_some hthr with ⟨rfl, rfl⟩ | ⟨-, hold⟩
      · exact hopens hopen
      · exact ⟨thread, hold, rfl, hopen⟩
    intro left first hfst hopen right second hsnd hopen' hsame
    obtain ⟨one, hone, hid, hopen⟩ := hbef left first hfst hopen
    obtain ⟨two, htwo, hid', hopen'⟩ := hbef right second hsnd hopen'
    exact hcor.alone left one hone hopen right two htwo hopen' (by rw [hid, hid', hsame])
  sole := hcor.sole
  kept := hcor.kept
  replies := by
    intro other thread hthr
    rcases update_some hthr with ⟨rfl, rfl⟩ | ⟨-, hold⟩
    · exact hrep
    · exact hcor.replies other thread hold
  unshared := by
    intro other thread hthr
    rcases update_some hthr with ⟨rfl, rfl⟩ | ⟨-, hold⟩
    · exact huns
    · exact hcor.unshared other thread hold

variable {generated : Bool}

theorem advances {after : Phase} (hthr : world.threads tid = some ⟨call, id, generated, phase⟩)
    (hnext : Phase.Next phase after) :
    Correlated service { world with
      threads := update world.threads tid (some ⟨call, id, generated, after⟩) } := by
  have hopen : phase.isOpen = true ∧ after.isOpen = true := by
    cases hnext with
    | collect | expire | look => exact ⟨rfl, rfl⟩
  have hrcvd : after.received = phase.received := by
    cases hnext with
    | collect | expire | look => rfl
  apply hcor.moves
  · intro _
    exact ⟨_, hthr, rfl, hopen.1⟩
  · intro other hwtg
    obtain ⟨thread, hfnd, hid, -, hnone⟩ := hcor.named other tid hwtg
    cases hthr.symm.trans hfnd
    exact ⟨hid, hopen.2, hrcvd.trans hnone⟩
  · cases hnext with
    | collect | expire | look => rfl
  · intro result hres
    exact hcor.replies tid _ hthr result (hrcvd.symm.trans hres)
  · intro _
    cases hnext with
    | collect | expire | look => rfl

theorem arrives (hthr : world.threads tid = none) :
    Correlated service { world with
      threads := update world.threads tid (some ⟨call, id, generated, .numbered⟩) } := by
  apply hcor.moves
  · nofun
  · intro other hwtg
    obtain ⟨thread, hfnd, -⟩ := hcor.named other tid hwtg
    cases hthr.symm.trans hfnd
  · rfl
  · nofun
  · exact fun _ => rfl

theorem settles (hthr : world.threads tid = some ⟨call, id, generated, .numbered⟩)
    (hrep : ∀ result, (Phase.returned outcome).received = some result →
      ∃ posted ∈ world.history.answers, Reply service call id result posted)
    (huns : generated = true → (Phase.returned outcome).refused = false) :
    Correlated service { world with
      threads := update world.threads tid (some ⟨call, id, generated, .returned outcome⟩) } := by
  apply hcor.moves
  · nofun
  · intro other hwtg
    obtain ⟨thread, hfnd, -, hopen, -⟩ := hcor.named other tid hwtg
    cases hthr.symm.trans hfnd
    cases hopen
  · rfl
  · exact hrep
  · exact huns

theorem opens {deadline : Instant} {hold : ℕ}
    (hthr : world.threads tid = some ⟨call, id, generated, .numbered⟩)
    (hwtg : world.relay.waiting id = none) (hiss : (world.relay.issued id).isSome)
    (hhldr : world.history.holder id = some call)
    (hfree : ∀ other opener, world.threads other = some opener → opener.phase.isOpen = true →
      opener.id ≠ id) :
    Correlated service
      { world with
        relay := { world.relay with waiting := update world.relay.waiting id (some tid) }
        threads := update world.threads tid
          (some ⟨call, id, generated, .waiting deadline hold none⟩) } where
  tables := hcor.tables.congr rfl rfl rfl rfl
  named := by
    intro other waiter hoth
    dsimp only at hoth ⊢
    by_cases hsame : other = id
    · rw [hsame, update_self] at hoth
      cases hoth
      refine ⟨_, update_self tid _ world.threads, hsame.symm, rfl, rfl⟩
    rw [update_of_ne hsame] at hoth
    obtain ⟨thread, hfnd, hid, hopen, hnone⟩ := hcor.named other waiter hoth
    have hdif : waiter ≠ tid := by
      rintro rfl
      cases hthr.symm.trans hfnd
      cases hopen
    rw [update_of_ne hdif]
    exact ⟨thread, hfnd, hid, hopen, hnone⟩
  registered := by
    intro other thread hfnd hawt
    dsimp only
    rcases update_some hfnd with ⟨rfl, rfl⟩ | ⟨-, hold⟩
    · rw [update_self]
      exact ⟨rfl, hiss, hhldr⟩
    obtain ⟨hwts, hrest⟩ := hcor.registered other thread hold hawt
    have hdif : thread.id ≠ id := by
      intro hsame
      rw [hsame, hwtg] at hwts
      cases hwts
    rw [update_of_ne hdif]
    exact ⟨hwts, hrest⟩
  held := by
    intro other thread hfnd hopen
    dsimp only
    rcases update_some hfnd with ⟨rfl, rfl⟩ | ⟨-, hold⟩
    · rw [update_self]
      exact .inl rfl
    · rw [update_of_ne (hfree other thread hold hopen)]
      exact hcor.held other thread hold hopen
  alone := by
    intro left first hfst hopen right second hsnd hopen' hsame
    rcases update_some hfst with ⟨rfl, rfl⟩ | ⟨-, hlt⟩
    · rcases update_some hsnd with ⟨rfl, -⟩ | ⟨-, hrt⟩
      · rfl
      · exact absurd hsame.symm (hfree right second hrt hopen')
    · rcases update_some hsnd with ⟨rfl, rfl⟩ | ⟨-, hrt⟩
      · exact absurd hsame (hfree left first hlt hopen)
      · exact hcor.alone left first hlt hopen right second hrt hopen' hsame
  sole := hcor.sole
  kept := hcor.kept
  replies := by
    intro other thread hfnd
    rcases update_some hfnd with ⟨rfl, rfl⟩ | ⟨-, hold⟩
    · nofun
    · exact hcor.replies other thread hold
  unshared := by
    intro other thread hfnd
    rcases update_some hfnd with ⟨rfl, rfl⟩ | ⟨-, hold⟩
    · exact fun _ => rfl
    · exact hcor.unshared other thread hold

theorem polled (node : String) : Correlated service (poll node world) := by
  have htbl : Tables service (poll node world).relay (poll node world).history :=
    hcor.tables.step (.poll node)
  rw [Rendezvous.poll] at htbl ⊢
  split at htbl
  · exact { hcor with tables := htbl }
  rename_i queued rest hque
  obtain ⟨-, hhldr, -⟩ := hcor.tables.queued node queued (hque ▸ mem_cons_self)
  refine { hcor with tables := htbl, sole := ?_ }
  intro id call hask hown entry hmem hat hid
  rcases mem_append.mp hmem with hold | hnew
  · exact hcor.sole id call hask hown entry hold hat hid
  · cases mem_singleton.mp hnew
    rw [hid] at hhldr
    exact Option.some.inj (hhldr.symm.trans hask)

theorem leaves (hthr : world.threads tid = some ⟨call, id, generated, phase⟩)
    (hend : ending phase = some outcome) :
    Correlated service
      { world with
        relay := { world.relay with waiting := update world.relay.waiting id none }
        threads := update world.threads tid (some ⟨call, id, generated, .returned outcome⟩) } := by
  obtain ⟨hopen, hrcvd, href⟩ := ending_returns hend
  -- the entry of the id is that of the send that leaves, if it is there
  have hoths : ∀ other thread, other ≠ tid → world.threads other = some thread →
      thread.phase.isOpen = true → thread.id ≠ id := by
    intro other thread hdif hfnd hoth hsame
    exact hdif (hcor.alone other thread hfnd hoth tid _ hthr hopen hsame)
  constructor
  · exact hcor.tables.congr rfl rfl rfl rfl
  · intro other waiter hwtg
    dsimp only at hwtg ⊢
    by_cases hsame : other = id
    · rw [hsame, update_self] at hwtg
      cases hwtg
    rw [update_of_ne hsame] at hwtg
    obtain ⟨thread, hfnd, hid, hrest⟩ := hcor.named other waiter hwtg
    have hdif : waiter ≠ tid := by
      rintro rfl
      cases hthr.symm.trans hfnd
      exact hsame hid.symm
    rw [update_of_ne hdif]
    exact ⟨thread, hfnd, hid, hrest⟩
  · intro other thread hfnd hawt
    rcases update_some hfnd with ⟨rfl, rfl⟩ | ⟨hdif, hold⟩
    · cases hawt
    have hoth := hoths other thread hdif hold (Phase.isOpen_of_awaits hawt)
    dsimp only
    rw [update_of_ne hoth]
    exact hcor.registered other thread hold hawt
  · intro other thread hfnd hoth
    rcases update_some hfnd with ⟨rfl, rfl⟩ | ⟨hdif, hold⟩
    · cases hoth
    · dsimp only
      rw [update_of_ne (hoths other thread hdif hold hoth)]
      exact hcor.held other thread hold hoth
  · intro left first hfst hlt right second hsnd hrt hsame
    rcases update_some hfst with ⟨rfl, rfl⟩ | ⟨-, hfst⟩
    · cases hlt
    · rcases update_some hsnd with ⟨rfl, rfl⟩ | ⟨-, hsnd⟩
      · cases hrt
      · exact hcor.alone left first hfst hlt right second hsnd hrt hsame
  · exact hcor.sole
  · exact hcor.kept
  · intro other thread hfnd result hres
    rcases update_some hfnd with ⟨rfl, rfl⟩ | ⟨-, hold⟩
    · exact hcor.replies other _ hthr result (hrcvd.symm.trans hres)
    · exact hcor.replies other thread hold result hres
  intro other thread hfnd hgen
  rcases update_some hfnd with ⟨rfl, rfl⟩ | ⟨-, hold⟩
  · exact href
  · exact hcor.unshared other thread hold hgen

def delivered (world : World Tid) (id : String) (result : Result) : Tid → Option Thread :=
  match world.relay.waiting id with
  | some tid => Function.update world.threads tid ((world.threads tid).map (deliver result))
  | none => world.threads

variable (result : Result)

omit hcor in
theorem delivered_waiting (hthr : world.threads tid = some thread)
    (hwtg : world.relay.waiting id = some tid) :
    delivered world id result tid = some (deliver result thread) := by
  rw [delivered, hwtg]
  dsimp only
  rw [update_self, hthr]
  rfl

omit hcor in
theorem delivered_other (hwtg : world.relay.waiting id ≠ some tid) :
    delivered world id result tid = world.threads tid := by
  rw [delivered]
  cases hfnd : world.relay.waiting id with
  | none => rfl
  | some other =>
    apply update_of_ne
    rintro rfl
    exact hwtg hfnd

omit hcor in
theorem deliver_fields (thread : Thread) :
    (deliver result thread).id = thread.id ∧
      (deliver result thread).generated = thread.generated ∧
      (deliver result thread).phase.isOpen = thread.phase.isOpen ∧
      (deliver result thread).phase.refused = thread.phase.refused ∧
      (deliver result thread).phase.awaits = false := by
  obtain ⟨call, id, generated, phase⟩ := thread
  cases phase with
  | _ => exact ⟨rfl, rfl, rfl, rfl, rfl⟩

omit hcor in
theorem delivered_cases {result : Result} (hthr : delivered world id result tid = some thread) :
    ∃ old, world.threads tid = some old ∧
      ((world.relay.waiting id ≠ some tid ∧ thread = old) ∨
        (world.relay.waiting id = some tid ∧ thread = deliver result old)) := by
  by_cases hwtg : world.relay.waiting id = some tid
  · cases hold : world.threads tid with
    | none =>
      rw [delivered, hwtg] at hthr
      dsimp only at hthr
      rw [update_self, hold] at hthr
      cases hthr
    | some old =>
      rw [delivered_waiting result hold hwtg] at hthr
      exact ⟨old, rfl, .inr ⟨hwtg, (Option.some.inj hthr).symm⟩⟩
  · rw [delivered_other result hwtg] at hthr
    exact ⟨thread, hthr, .inl ⟨hwtg, rfl⟩⟩

omit hcor in
theorem delivered_fields {result : Result} (hthr : delivered world id result tid = some thread) :
    ∃ old, world.threads tid = some old ∧ thread.id = old.id ∧ thread.generated = old.generated ∧
      thread.phase.isOpen = old.phase.isOpen ∧ thread.phase.refused = old.phase.refused := by
  obtain ⟨old, hold, ⟨-, rfl⟩ | ⟨-, rfl⟩⟩ := delivered_cases hthr
  · exact ⟨thread, hold, rfl, rfl, rfl, rfl⟩
  · obtain ⟨hid, hgen, hopen, href, -⟩ := deliver_fields result old
    exact ⟨old, hold, hid, hgen, hopen, href⟩

theorem answered (node id : String) (result : Result) :
    Correlated service (respond node id result world) := by
  have htbl : Tables service (respond node id result world).relay
      (respond node id result world).history := hcor.tables.step (.respond node id result)
  by_cases haccs : accepts world.relay node id = true
  · rw [respond, if_pos haccs] at htbl ⊢
    obtain ⟨call, hhldr, hreply⟩ := hcor.replied result haccs
    constructor
    · exact htbl
    · intro other tid hwtg
      by_cases hsame : other = id
      · rw [hsame] at hwtg
        dsimp only at hwtg
        rw [update_self] at hwtg
        cases hwtg
      dsimp only at hwtg
      rw [update_of_ne hsame] at hwtg
      obtain ⟨thread, hthr, hid, hrest⟩ := hcor.named other tid hwtg
      have hnot : world.relay.waiting id ≠ some tid := by
        intro hhere
        obtain ⟨same, hfnd, hunder, -⟩ := hcor.named id tid hhere
        cases hthr.symm.trans hfnd
        exact hsame (hid.symm.trans hunder)
      exact ⟨thread, (delivered_other result hnot).trans hthr, hid, hrest⟩
    · intro tid thread hthr hawt
      obtain ⟨old, hold, ⟨hnot, rfl⟩ | ⟨-, rfl⟩⟩ := delivered_cases hthr
      · obtain ⟨hwtg, hrest⟩ := hcor.registered tid thread hold hawt
        have hdif : thread.id ≠ id := by
          intro hsame
          exact hnot (hsame ▸ hwtg)
        dsimp only
        rw [update_of_ne hdif, update_of_ne hdif]
        exact ⟨hwtg, hrest⟩
      · rw [(deliver_fields result old).2.2.2.2] at hawt
        cases hawt
    · intro tid thread hthr hopen
      obtain ⟨old, hold, hid, -, hph, -⟩ := delivered_fields hthr
      dsimp only
      by_cases hsame : thread.id = id
      · rw [hsame, update_self, update_self]
        exact .inr rfl
      · rw [update_of_ne hsame, update_of_ne hsame, hid]
        exact hcor.held tid old hold (hph ▸ hopen)
    · intro left first hfst hlt right second hsnd hrt hsame
      obtain ⟨one, hone, hid, -, hph, -⟩ := delivered_fields hfst
      obtain ⟨two, htwo, hid', -, hph', -⟩ := delivered_fields hsnd
      exact hcor.alone left one hone (hph ▸ hlt) right two htwo (hph' ▸ hrt)
        (hid.symm.trans (hsame.trans hid'))
    · intro other asked hask hown entry hmem
      exact hcor.sole other asked hask hown entry (mem_of_mem_eraseP hmem)
    · intro other kept time hkept
      by_cases hsame : other = id
      · subst hsame
        dsimp only at hkept
        rw [update_self] at hkept
        cases hkept
        exact ⟨call, hhldr, _, mem_append_right _ mem_cons_self, hreply⟩
      dsimp only at hkept
      rw [update_of_ne hsame] at hkept
      obtain ⟨asked, hask, posted, hmem, hpos⟩ := hcor.kept other kept time hkept
      exact ⟨asked, hask, posted, mem_append_left _ hmem, hpos⟩
    · intro tid thread hthr received hrcvd
      have hbef : ∀ old, world.threads tid = some old → old.phase.received = some received →
          ∃ posted ∈ world.history.answers ++ [⟨id, node, result, world.clock,
              world.history.unansweredBy node id, world.history.holder id⟩],
            Reply service old.call old.id received posted := by
        intro old hold hrcvd
        obtain ⟨posted, hmem, hpos⟩ := hcor.replies tid old hold received hrcvd
        exact ⟨posted, mem_append_left _ hmem, hpos⟩
      obtain ⟨old, hold, ⟨-, rfl⟩ | ⟨hwtg, rfl⟩⟩ := delivered_cases hthr
      · exact hbef thread hold hrcvd
      obtain ⟨same, hfnd, hid, -, hnone⟩ := hcor.named id tid hwtg
      cases hold.symm.trans hfnd
      obtain ⟨asker, under, generated, phase⟩ := old
      cases phase with
      | waiting deadline hold inbox =>
        cases hnone
        cases hrcvd
        obtain ⟨-, -, hfor⟩ := hcor.registered tid _ hold rfl
        subst hid
        cases hfor.symm.trans hhldr
        exact ⟨_, mem_append_right _ mem_cons_self, hreply⟩
      | _ => exact hbef _ hold hrcvd
    intro tid thread hthr hgen
    obtain ⟨old, hold, -, hmade, -, href⟩ := delivered_fields hthr
    rw [href]
    exact hcor.unshared tid old hold (hmade ▸ hgen)
  · rw [respond, if_neg haccs] at htbl ⊢
    refine { hcor with tables := htbl, sole := ?_ }
    intro other asked hask hown entry hmem
    exact hcor.sole other asked hask hown entry (mem_of_mem_eraseP hmem)

theorem admits (tid : Tid) (hcare : Careful service world (.admitted tid)) :
    Correlated service (admitThread service tid world) := by
  rcases @admitThread_cases Tid service _ world tid with hsame | ⟨call, id, generated, hthr⟩
  · rw [hsame]
    exact hcor
  obtain ⟨relay, phase, fresh, hadm, hworld⟩ := @admitThread_numbered Tid service _ world
    tid call id generated hthr
  obtain ⟨hyng, hquiet, hunus, hcol⟩ := hcare _ hthr rfl
  have hprn := hcor.prune hyng
  have hdead : (world.relay.prune world.clock).issued id = none →
      (world.relay.prune world.clock).results id = none →
        world.relay.live world.clock id = false := by
    intro hiss hres
    rw [← Bool.not_eq_true, RelayState.live_iff, hiss, hres]
    nofun
  rw [hworld]
  cases hadm with
  | conflict owner hown hoth =>
    apply hprn.settles hthr
    · nofun
    · intro hgen
      rw [(RelayState.owners_of_prune hown).1] at hunus
      cases (hunus hgen).1
  | replay result time hown hres =>
    have hsome : ((world.relay.prune world.clock).results id).isSome :=
      isSome_iff_exists.mpr ⟨_, hres⟩
    have hhldr := hcor.holds_call hown (.inr hsome) hcol
    apply hprn.settles hthr
    · intro received hrcvd
      cases hrcvd
      obtain ⟨asked, hask, hpos⟩ := hprn.kept id result time hres
      cases hask.symm.trans hhldr
      exact hpos
    · exact fun _ => rfl
  | inFlight hown hres hwtg =>
    apply hprn.settles hthr
    · nofun
    intro hgen
    rw [show (world.relay.prune world.clock).waiting id = none from (hunus hgen).2] at hwtg
    cases hwtg
  | retry hold hown hres hwtg hiss =>
    have hhldr := hcor.holds_call hown (.inl hiss) hcol
    apply hprn.opens hthr hwtg hiss hhldr
    rintro other opener hfnd hopen rfl
    cases hprn.held other opener hfnd hopen with
    | inl hwts => cases hwtg.symm.trans hwts
    | inr hnone =>
      rw [hnone] at hiss
      cases hiss
  | fresh hold hown hres hwtg hiss =>
    obtain ⟨hfree, hsole⟩ := hquiet (hdead hiss hres) hwtg
    have hissues := @Correlated.issues Tid service _ hprn call id
      { world.history with
        queued := world.history.queued ++ [(⟨id, call⟩, world.clock)]
        holder := update world.history.holder id (some call) }
      (RelayState.owners_prune_none hiss hres) hres hfree hsole rfl rfl rfl rfl
    refine hissues.opens hthr hwtg ?_ ?_ hfree
    · change (update (world.relay.prune world.clock).issued id _ id).isSome
      rw [update_self]
      rfl
    · exact update_self id (some call) world.history.holder

theorem step (event : Event Tid) (hcare : Careful service world event) :
    Correlated service (Rendezvous.step service world event) := by
  cases event with
  | pass span => exact { hcor with }
  | arrive tid call =>
    change Correlated service (arrive service tid call world)
    rw [arrive]
    split
    · exact hcor
    rename_i hnew
    have hthr : world.threads tid = none := not_isSome_iff_eq_none.mp hnew
    split
    · exact hcor.arrives hthr
    · exact (hcor.counts _).arrives hthr
  | admitted tid => exact hcor.admits tid hcare
  | wake tid =>
    change Correlated service (wake tid world)
    rw [wake]
    split
    · next thread hthr =>
      obtain ⟨call, id, generated, phase⟩ := thread
      rcases wakePhase_next (decide (world.relay.waiting id = some tid)) world.clock phase with
        hsame | hnext
      · have hthreads : update world.threads tid
            (some ⟨call, id, generated, wakePhase (decide (world.relay.waiting id = some tid))
              world.clock phase⟩) = world.threads := by
          rw [hsame, ← hthr]
          exact update_eq_self tid world.threads
        dsimp only
        rw [hthreads]
        exact hcor
      · exact hcor.advances hthr hnext
    · exact hcor
  | look tid =>
    change Correlated service (look service tid world)
    rw [look]
    split
    · next hthr => exact hcor.advances hthr (.look _ _)
    · exact hcor
  | clean tid =>
    change Correlated service (clean tid world)
    rw [clean]
    split
    · next thread hthr =>
      split
      · next outcome hend => exact hcor.leaves hthr hend
      · exact hcor
    · exact hcor
  | poll node => exact hcor.polled node
  | respond node id result => exact hcor.answered node id result

theorem run (events : List (Event Tid)) (hcare : CarefulRun service world events) :
    Correlated service (Rendezvous.run service world events) := by
  induction events generalizing world with
  | nil => exact hcor
  | cons event events ih => exact ih (hcor.step event hcare.1) hcare.2

theorem answers_waiting (hthr : world.threads tid = some thread) (hawt : thread.phase.awaits = true)
    (result : Result) :
    (respond (service.recipient thread.call) thread.id result world).threads tid =
      some (deliver result thread) := by
  obtain ⟨hwtg, hiss, hhldr⟩ := hcor.registered tid thread hthr hawt
  obtain ⟨owner, hown⟩ := isSome_iff_exists.mp (hcor.tables.owned thread.id (.inl hiss))
  obtain ⟨call, hfnd, hfor⟩ := hcor.tables.holder thread.id owner hown
  cases hfnd.symm.trans hhldr
  have haccs : accepts world.relay (service.recipient thread.call) thread.id = true :=
    accepts_iff.mpr ⟨owner, hown, congrArg (·.2.1) hfor, hcor.tables.once thread.id hiss⟩
  rw [respond, if_pos haccs]
  exact delivered_waiting result hthr hwtg

theorem foreign_respond {node : String} (result : Result) (hthr : world.threads tid = some thread)
    (hforeign : node ≠ service.recipient thread.call ∨ id ≠ thread.id) :
    (respond node id result world).threads tid = some thread := by
  by_cases haccs : accepts world.relay node id = true
  · rw [respond, if_pos haccs]
    change delivered world id result tid = some thread
    by_cases hwtg : world.relay.waiting id = some tid
    · rw [delivered_waiting result hthr hwtg]
      obtain ⟨same, hfnd, hid, hopen, hnone⟩ := hcor.named id tid hwtg
      cases hthr.symm.trans hfnd
      obtain ⟨call, under, generated, phase⟩ := thread
      cases phase with
      | waiting deadline hold inbox =>
        cases hnone
        obtain ⟨-, -, hhldr⟩ := hcor.registered tid _ hthr rfl
        obtain ⟨holder, hfor, -, -, hnode, -⟩ := hcor.replied result haccs
        rw [hid] at hhldr
        cases hfor.symm.trans hhldr
        cases hforeign with
        | inl hoth => exact absurd hnode hoth
        | inr hoth => exact absurd hid.symm hoth
      | _ => rfl
    · rw [delivered_other result hwtg]
      exact hthr
  · rw [respond, if_neg haccs]
    exact hthr

theorem foreign {event : Event Tid}
    (hthr : world.threads tid = some thread) (hfor : Foreign service tid thread event) :
    (Rendezvous.step service world event).threads tid = some thread := by
  have hoths : ∀ other new, other ≠ tid → update world.threads other new tid = some thread := by
    intro other new hdif
    rw [update_of_ne (Ne.symm hdif)]
    exact hthr
  cases event with
  | pass span => exact hthr
  | arrive other call =>
    change (arrive service other call world).threads tid = _
    rw [arrive]
    split
    · exact hthr
    · split
      · exact hoths _ _ hfor
      · exact hoths _ _ hfor
  | admitted other =>
    change (admitThread service other world).threads tid = _
    rw [admitThread]
    split
    · exact hoths _ _ hfor
    · exact hthr
  | wake other =>
    change (wake other world).threads tid = _
    rw [wake]
    split
    · exact hoths _ _ hfor
    · exact hthr
  | look other =>
    change (look service other world).threads tid = _
    rw [look]
    split
    · exact hoths _ _ hfor
    · exact hthr
  | clean other =>
    change (clean other world).threads tid = _
    rw [clean]
    split
    · split
      · exact hoths _ _ hfor
      · exact hthr
    · exact hthr
  | poll node =>
    change (poll node world).threads tid = _
    rw [Rendezvous.poll]
    split
    · exact hthr
    · exact hthr
  | respond node id result => exact hcor.foreign_respond result hthr hfor

end Correlated

/-- In a careful run a result that a send returns was taken for its request, no step of
anybody else changes the send, what it waits for is in its recipient's queue or with it and
an answer of the recipient reaches it, and no id that the relay made up is refused. -/
theorem results_are_own (service : Service) (events : List (Event Tid))
    (hcareful : CarefulRun service World.start events) (tid : Tid) (thread : Thread)
    (hthread : (run service World.start events).threads tid = some thread) :
    (∀ result replayed, thread.phase = .returned (.answered result replayed) →
      ∃ posted ∈ (run service World.start events).history.answers,
        Reply service thread.call thread.id result posted) ∧
      (∀ event, Foreign service tid thread event →
        (run service World.start (events ++ [event])).threads tid = some thread) ∧
      (thread.phase.awaits = true →
        (run service World.start events).relay.waiting thread.id = some tid ∧
          (⟨thread.id, thread.call⟩ ∈ (run service World.start events).relay.queue
              (service.recipient thread.call) ∨
            (service.recipient thread.call, ⟨thread.id, thread.call⟩) ∈
              (run service World.start events).history.handed) ∧
          ∀ result, (run service World.start (events ++
            [.respond (service.recipient thread.call) thread.id result])).threads tid =
              some (deliver result thread)) ∧
      (thread.generated = true →
        thread.phase ≠ .returned .conflict ∧ thread.phase ≠ .returned .inFlight) := by
  have hcorrelated := Correlated.start.run events hcareful
  have hlast : ∀ event, run service World.start (events ++ [event]) =
      step service (run service World.start events) event := by
    intro event
    rw [run, foldl_append]
    rfl
  refine ⟨?_, ?_, ?_, ?_⟩
  · intro result replayed hphase
    apply hcorrelated.replies tid thread hthread
    rw [hphase]
    rfl
  · intro event hforeign
    rw [hlast]
    exact hcorrelated.foreign hthread hforeign
  · intro hawaits
    obtain ⟨hwaiting, hissued, hholder⟩ := hcorrelated.registered tid thread hthread hawaits
    refine ⟨hwaiting, hcorrelated.tables.requested thread.id thread.call hissued hholder, ?_⟩
    intro result
    rw [hlast]
    exact hcorrelated.answers_waiting hthread hawaits result
  intro hgenerated
  have hrefused := hcorrelated.unshared tid thread hthread hgenerated
  constructor
  · intro hphase
    rw [hphase] at hrefused
    cases hrefused
  · intro hphase
    rw [hphase] at hrefused
    cases hrefused

end Threads

section Sample

def chosenBody : Json :=
  .object [("body", .string "x"), ("rid", .string "r1"), ("to", .string "b")]

def plainBody : Json :=
  .object [("body", .string "y"), ("to", .string "b")]

def twoBodies : Service :=
  knownBodies
    [(chosenBody, "7c41ac463a718057e0c36168f3344b986e1e6f73ef72c61e3692ec282ef302fd"),
      (plainBody, "6466232f78c4daa1242ea699e7c59b3905b96c6dfadee77b7190ad723d55d86e")]

instance twoThreads : NeZero 2 := ⟨two_ne_zero⟩

/-- Two senders without an id of their own; the first is answered. -/
def bothPlain : List (Event (Fin 2)) :=
  [.arrive 0 ⟨"a", printed plainBody⟩, .arrive 1 ⟨"c", printed plainBody⟩, .admitted 0, .poll "b",
    .admitted 1, .respond "b" "r1" ⟨200, "first"⟩, .poll "b", .wake 0, .clean 0]

theorem results_are_own_answered :
    ∃ posted ∈ (run twoBodies World.start bothPlain).history.answers,
      Reply twoBodies ⟨"a", printed plainBody⟩ "r1" ⟨200, "first"⟩ posted :=
  (results_are_own twoBodies bothPlain (by decide +kernel) 0
    ⟨⟨"a", printed plainBody⟩, "r1", true, .returned (.answered ⟨200, "first"⟩ false)⟩
    (by decide +kernel)).1 _ false rfl

/-- A sender chooses the id that the relay makes up next. -/
def chosenFirst : List (Event (Fin 2)) :=
  [.arrive 0 ⟨"c", printed chosenBody⟩, .admitted 0, .arrive 1 ⟨"a", printed plainBody⟩, .admitted 1]

/-- A request without an id of its own is refused for the id that another sender chose. -/
theorem made_up_id_is_refused :
    ¬∀ (events : List (Event (Fin 2))) tid thread,
      (run twoBodies World.start events).threads tid = some thread → thread.generated = true →
        thread.phase ≠ .returned .conflict := by
  intro hnever
  have hthread : (run twoBodies World.start chosenFirst).threads 1 =
      some ⟨⟨"a", printed plainBody⟩, "r1", true, .returned .conflict⟩ := by
    decide +kernel
  exact hnever chosenFirst 1 _ hthread rfl rfl

end Sample

end WasmAgent.Rendezvous
