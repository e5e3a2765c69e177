import WasmAgent.Core.Maps
import WasmAgent.Serve.Scheduler

/-!
# One writer per conversation

A run that was admitted has a lease of its conversation until it completes.  The owners of the
scheduler count the leases, and hold a conversation on one node-thread for as long as there are any.
-/

namespace WasmAgent.Serve

open List Std.ExtTreeMap Std WasmAgent.Core

/-- A run that was admitted and has not completed. -/
structure Lease where
  runId : ℕ
  conversation : String
  nodeThread : ℕ
  deriving DecidableEq

def leave (runId : ℕ) (leases : List Lease) : List Lease := leases.filter (·.runId ≠ runId)

def held (conversation : String) (leases : List Lease) : List Lease :=
  leases.filter (·.conversation = conversation)

variable {depth : ℕ}

section Leases

variable {leases : List Lease} {lease : Lease} {conversation : String} {runId : ℕ}

theorem mem_leave : lease ∈ leave runId leases ↔ lease ∈ leases ∧ lease.runId ≠ runId := by
  rw [leave, List.mem_filter, decide_eq_true_iff]

theorem mem_held : lease ∈ held conversation leases ↔
    lease ∈ leases ∧ lease.conversation = conversation := by
  rw [held, List.mem_filter, decide_eq_true_iff]

theorem leave_eq_self (hnone : runId ∉ leases.map Lease.runId) : leave runId leases = leases := by
  apply filter_eq_self.mpr
  intro lease hlse
  apply decide_eq_true
  intro hid
  exact hnone (List.mem_map.mpr ⟨lease, hlse, hid⟩)

theorem held_leave : held conversation (leave runId leases) = leave runId (held conversation leases) := by
  rw [held, leave, leave, held, filter_filter, filter_filter]
  apply filter_congr
  intro lease _
  exact Bool.and_comm _ _

theorem held_concat (hconv : lease.conversation = conversation) :
    held conversation (leases ++ [lease]) = held conversation leases ++ [lease] := by
  have hlse : held conversation [lease] = [lease] := filter_cons_of_pos (decide_eq_true hconv)
  calc
    held conversation (leases ++ [lease]) = held conversation leases ++ held conversation [lease] :=
      filter_append _ _
    _ = held conversation leases ++ [lease] := by rw [hlse]

theorem held_concat_other (hconv : lease.conversation ≠ conversation) :
    held conversation (leases ++ [lease]) = held conversation leases := by
  have hlse : held conversation [lease] = [] := by
    apply filter_cons_of_neg
    rw [decide_eq_true_iff]
    exact hconv
  calc
    held conversation (leases ++ [lease]) = held conversation leases ++ held conversation [lease] :=
      filter_append _ _
    _ = held conversation leases := by rw [hlse, append_nil]

variable (hdist : (leases.map Lease.runId).Nodup)
include hdist

theorem distinct_leave : ((leave runId leases).map Lease.runId).Nodup :=
  hdist.sublist (filter_sublist.map Lease.runId)

theorem distinct_held : ((held conversation leases).map Lease.runId).Nodup :=
  hdist.sublist (filter_sublist.map Lease.runId)

theorem length_leave (hlse : lease ∈ leases) :
    (leave lease.runId leases).length + 1 = leases.length := by
  induction leases with
  | nil => exact absurd hlse not_mem_nil
  | cons first rest ih =>
    rw [map_cons, nodup_cons] at hdist
    cases hlse with
    | head =>
      have hrest := leave_eq_self hdist.1
      have hgone : leave lease.runId (lease :: rest) = leave lease.runId rest := by
        apply filter_cons_of_neg
        rw [decide_eq_true_iff]
        exact not_not.mpr rfl
      rw [hgone, hrest]
      rfl
    | tail _ hrest =>
      have hoth : first.runId ≠ lease.runId := by
        intro hid
        apply hdist.1
        rw [hid]
        exact mem_map_of_mem hrest
      have hkept : leave lease.runId (first :: rest) = first :: leave lease.runId rest :=
        filter_cons_of_pos (decide_eq_true hoth)
      rw [hkept, length_cons, length_cons, ih hdist.2 hrest]

omit hdist

def Counted (depth : ℕ) (leases : List Lease) : Option Owner → Prop
  | none => leases = []
  | some holder => holder.pending = leases.length ∧ 0 < leases.length ∧ leases.length ≤ depth ∧
      ∀ lease ∈ leases, lease.nodeThread = holder.nodeThread

theorem Counted.behind {holder : Owner} (hcntd : Counted depth leases (some holder))
    (hroom : holder.pending < depth) (hthr : lease.nodeThread = holder.nodeThread) :
    Counted depth (leases ++ [lease]) (some { holder with pending := holder.pending + 1 }) := by
  obtain ⟨hpnd, _, _, hthreads⟩ := hcntd
  have hlen : (leases ++ [lease]).length = leases.length + 1 := length_append
  constructor
  · rw [hlen, ← hpnd]
  rw [hlen]
  apply And.intro (Nat.succ_pos _)
  apply And.intro
  · rw [← hpnd]
    exact hroom
  intro other hoth
  cases mem_append.mp hoth with
  | inl hbef => exact hthreads other hbef
  | inr hthis =>
    rw [mem_singleton.mp hthis]
    exact hthr

theorem Counted.first (hcntd : Counted depth leases none) (hdepth : 0 < depth)
    (runClass : RunClass) :
    Counted depth (leases ++ [lease]) (some ⟨lease.nodeThread, runClass, 1⟩) := by
  rw [show leases = [] from hcntd]
  apply And.intro rfl
  apply And.intro Nat.one_pos
  apply And.intro hdepth
  intro other hoth
  rw [mem_singleton.mp hoth]

theorem Counted.leave {holder : Owner} (hcntd : Counted depth leases (some holder))
    (hdist : (leases.map Lease.runId).Nodup) (hlse : lease ∈ leases) :
    Counted depth (leave lease.runId leases)
      (if holder.pending - 1 = 0 then none
        else some { holder with pending := holder.pending - 1 }) := by
  obtain ⟨hpnd, _, hdepth, hthr⟩ := hcntd
  have hlen := length_leave hdist hlse
  have hlt : holder.pending - 1 = (Serve.leave lease.runId leases).length := by
    rw [hpnd, ← hlen, Nat.add_sub_cancel]
  by_cases hlast : holder.pending - 1 = 0
  · rw [if_pos hlast]
    exact eq_nil_of_length_eq_zero (hlt.symm.trans hlast)
  rw [if_neg hlast]
  apply And.intro hlt
  rw [← hlt]
  apply And.intro (Nat.pos_of_ne_zero hlast)
  apply And.intro
  · rw [hpnd]
    exact (Nat.sub_le _ _).trans hdepth
  · intro other hoth
    exact hthr other (mem_leave.mp hoth).1

end Leases

structure World where
  scheduler : Scheduler
  leases : List Lease

inductive Call where
  | admitRun (conversation owner : String) (runClass : RunClass) (pick : Pick)
  | admitIfIdle (conversation owner : String) (runClass : RunClass) (pick : Pick)
  | markRunning (runId : ℕ)
  | completeRun (runId : ℕ)
  | cancelRun (owner conversation : String) (runId : Option ℕ)
  | recordEvent (runId : ℕ)

namespace World

def admitted (conversation : String) (world : World) (outcome : Scheduler × Decision) : World :=
  match outcome.2 with
  | .run runId nodeThread => ⟨outcome.1, world.leases ++ [⟨runId, conversation, nodeThread⟩]⟩
  | .behind runId nodeThread => ⟨outcome.1, world.leases ++ [⟨runId, conversation, nodeThread⟩]⟩
  | .refused _ => ⟨outcome.1, world.leases⟩

def step (journal : Journal) (world : World) : Call → World
  | .admitRun conversation owner runClass pick =>
      world.admitted conversation
        (world.scheduler.admitRun journal conversation owner runClass pick)
  | .admitIfIdle conversation owner runClass pick =>
      world.admitted conversation
        (world.scheduler.admitIfIdle journal conversation owner runClass pick)
  | .markRunning runId => { world with scheduler := world.scheduler.markRunning journal runId }
  | .completeRun runId =>
      ⟨world.scheduler.completeRun journal runId, leave runId world.leases⟩
  | .cancelRun owner conversation runId =>
      { world with scheduler := (world.scheduler.cancelRun journal owner conversation runId).1 }
  | .recordEvent runId => { world with scheduler := world.scheduler.recordEvent journal runId }

/-- Every admitted run that has not completed is counted where it is to run. -/
structure OneWriter (world : World) : Prop where
  pending : ∀ conversation, conversation ≠ "" →
    (world.scheduler.owners[conversation]?.map Owner.pending).getD 0 =
      (held conversation world.leases).length
  bounded : ∀ conversation, conversation ≠ "" →
    (held conversation world.leases).length ≤ world.scheduler.config.sessionQueueDepth
  owned : ∀ conversation, conversation ≠ "" →
    (conversation ∈ world.scheduler.owners ↔ 0 < (held conversation world.leases).length)
  together : ∀ conversation, conversation ≠ "" →
    ∀ first ∈ held conversation world.leases, ∀ second ∈ held conversation world.leases,
      first.nodeThread = second.nodeThread

/-- The runs of a scheduler that has just been started, with the calls that satisfy `meets`. -/
inductive Reaches (meets : World → Journal → Call → Prop) : World → Prop where
  | start (config : Config) (journaled : Bool) : Reaches meets ⟨.new config journaled, []⟩
  | step {world : World} (journal : Journal) (call : Call) (hbefore : Reaches meets world)
      (hmeets : meets world journal call) : Reaches meets (world.step journal call)

end World

def Scheduler.nextId (journal : Journal) (scheduler : Scheduler) : Option ℕ :=
  if scheduler.journaled then journal.admission else some ((scheduler.nextRunId + 1) % 2 ^ 64)

def Once (world : World) (journal : Journal) : Call → Prop
  | .admitRun _ _ _ _ => ∀ runId ∈ world.scheduler.nextId journal,
      runId ∉ world.leases.map Lease.runId
  | .admitIfIdle _ _ _ _ => ∀ runId ∈ world.scheduler.nextId journal,
      runId ∉ world.leases.map Lease.runId
  | .completeRun runId => runId ∉ world.leases.map Lease.runId →
      ∀ run ∈ world.scheduler.runs[runId]?, world.scheduler.owners[run.conversation]? = none
  | _ => True

instance (world : World) (journal : Journal) (call : Call) : Decidable (Once world journal call) :=
  match call with
  | .admitRun _ _ _ _ => inferInstanceAs (Decidable (∀ runId ∈ world.scheduler.nextId journal,
      runId ∉ world.leases.map Lease.runId))
  | .admitIfIdle _ _ _ _ => inferInstanceAs (Decidable (∀ runId ∈ world.scheduler.nextId journal,
      runId ∉ world.leases.map Lease.runId))
  | .completeRun runId => inferInstanceAs (Decidable (runId ∉ world.leases.map Lease.runId →
      ∀ run ∈ world.scheduler.runs[runId]?, world.scheduler.owners[run.conversation]? = none))
  | .markRunning _ => inferInstanceAs (Decidable True)
  | .cancelRun _ _ _ => inferInstanceAs (Decidable True)
  | .recordEvent _ => inferInstanceAs (Decidable True)

def Recorded (runs : ExtTreeMap ℕ RunRecord) (lease : Lease) : Prop :=
  ∃ run, runs[lease.runId]? = some run ∧ run.conversation = lease.conversation ∧
    run.state ≠ .cancelled ∧ run.state ≠ .completed

structure Orderly (world : World) : Prop where
  counted : ∀ conversation, conversation ≠ "" →
    Counted world.scheduler.config.sessionQueueDepth (held conversation world.leases)
      world.scheduler.owners[conversation]?
  anonymous : world.scheduler.owners[""]? = none
  recorded : ∀ lease ∈ world.leases, Recorded world.scheduler.runs lease
  distinct : (world.leases.map Lease.runId).Nodup

section Calls

variable {world : World} {journal : Journal} {scheduler : Scheduler}

theorem Orderly.oneWriter (hord : Orderly world) : world.OneWriter := by
  constructor
  · intro conversation hnamed
    have hcntd := hord.counted conversation hnamed
    cases hown : world.scheduler.owners[conversation]? with
    | none =>
      rw [hown] at hcntd
      rw [show held conversation world.leases = [] from hcntd]
      rfl
    | some holder =>
      rw [hown] at hcntd
      exact hcntd.1
  · intro conversation hnamed
    have hcntd := hord.counted conversation hnamed
    cases hown : world.scheduler.owners[conversation]? with
    | none =>
      rw [hown] at hcntd
      rw [show held conversation world.leases = [] from hcntd]
      exact Nat.zero_le _
    | some holder =>
      rw [hown] at hcntd
      exact hcntd.2.2.1
  · intro conversation hnamed
    have hcntd := hord.counted conversation hnamed
    rw [mem_iff_isSome_getElem?]
    cases hown : world.scheduler.owners[conversation]? with
    | none =>
      rw [hown] at hcntd
      rw [show held conversation world.leases = [] from hcntd]
      exact iff_of_false nofun (lt_irrefl 0)
    | some holder =>
      rw [hown] at hcntd
      exact iff_of_true rfl hcntd.2.1
  intro conversation hnamed first hfst second hsnd
  have hcntd := hord.counted conversation hnamed
  cases hown : world.scheduler.owners[conversation]? with
  | none =>
    rw [hown] at hcntd
    rw [show held conversation world.leases = [] from hcntd] at hfst
    exact absurd hfst not_mem_nil
  | some holder =>
    rw [hown] at hcntd
    exact (hcntd.2.2.2 first hfst).trans (hcntd.2.2.2 second hsnd).symm

structure Same (before after : Scheduler) : Prop where
  config : after.config = before.config
  owners : after.owners = before.owners
  runs : after.runs = before.runs

variable {after : Scheduler}

theorem Orderly.same (hord : Orderly world) (hsame : Same world.scheduler after) :
    Orderly ⟨after, world.leases⟩ := by
  constructor
  · intro conversation hnamed
    rw [hsame.config, hsame.owners]
    exact hord.counted conversation hnamed
  · change after.owners[""]? = none
    rw [hsame.owners]
    exact hord.anonymous
  · change ∀ lease ∈ world.leases, Recorded after.runs lease
    rw [hsame.runs]
    exact hord.recorded
  · exact hord.distinct

variable {runs : ExtTreeMap ℕ RunRecord} {run : RunRecord} {runId : ℕ} {lease : Lease}

theorem recorded_insert {changed : RunRecord}
    (hrecd : Recorded runs lease) (hrun : runs[runId]? = some run)
    (hconv : changed.conversation = run.conversation)
    (hact : run.state ≠ .cancelled ∧ run.state ≠ .completed →
      changed.state ≠ .cancelled ∧ changed.state ≠ .completed) :
    Recorded (runs.insert runId changed) lease := by
  obtain ⟨own, hown, hsame, huns⟩ := hrecd
  by_cases hid : runId = lease.runId
  · subst hid
    cases hown.symm.trans hrun
    exact ⟨changed, getElem?_insert_self, hconv.trans hsame, hact huns⟩
  · exact ⟨own, (getElem?_insert_of_ne hid).trans hown, hsame, huns⟩

theorem Orderly.changed (hord : Orderly world)
    (hrun : world.scheduler.runs[runId]? = some run) (changed : RunRecord)
    (hconv : changed.conversation = run.conversation)
    (hact : run.state ≠ .cancelled ∧ run.state ≠ .completed →
      changed.state ≠ .cancelled ∧ changed.state ≠ .completed)
    (haft : Same { world.scheduler with runs := world.scheduler.runs.insert runId changed } after) :
    Orderly ⟨after, world.leases⟩ := by
  have hins : Orderly
      ⟨{ world.scheduler with runs := world.scheduler.runs.insert runId changed }, world.leases⟩ :=
    { hord with recorded := fun lease hlse =>
        recorded_insert (hord.recorded lease hlse) hrun hconv hact }
  exact hins.same haft

/-- What a call that neither admits nor completes can come to; `lost` is when a run becomes unknown. -/
inductive Turns (lost : Prop) (before after : Scheduler) : Prop where
  | same (hsame : Same before after)
  | changed (runId : ℕ) (run changed : RunRecord) (hrun : before.runs[runId]? = some run)
      (hconv : changed.conversation = run.conversation)
      (hstate : changed.state = run.state ∨
        run.state = .queued ∧ (changed.state = .running ∨ changed.state = .unknown ∧ lost))
      (hsame : Same { before with runs := before.runs.insert runId changed } after)

theorem turns_markRunning (runId : ℕ) :
    Turns (∃ run ∈ scheduler.runs[runId]?, run.state = .queued ∧ scheduler.unwritten journal = true)
      scheduler (scheduler.markRunning journal runId) := by
  rw [Scheduler.markRunning]
  split
  · exact .same ⟨rfl, rfl, rfl⟩
  next run hrun =>
    split
    · exact .same ⟨rfl, rfl, rfl⟩
    next hqueued =>
      split
      · next hunw =>
        exact .changed runId run { run with cancel := true, state := .unknown } hrun rfl
          (.inr ⟨not_not.mp hqueued, .inr ⟨rfl, run, hrun, not_not.mp hqueued, hunw⟩⟩)
          ⟨rfl, rfl, rfl⟩
      · exact .changed runId run { run with state := .running } hrun rfl
          (.inr ⟨not_not.mp hqueued, .inl rfl⟩) ⟨rfl, rfl, rfl⟩

theorem turns_cancelRun (owner conversation : String) (runId : Option ℕ) :
    Turns False scheduler (scheduler.cancelRun journal owner conversation runId).1 := by
  rw [Scheduler.cancelRun]
  split
  · exact .same ⟨rfl, rfl, rfl⟩
  next id _ =>
    split
    · exact .same ⟨rfl, rfl, rfl⟩
    next run hrun =>
      split
      · exact .same ⟨rfl, rfl, rfl⟩
      apply Turns.changed id run { run with cancel := true } hrun rfl (.inl rfl)
      dsimp only
      split <;> exact ⟨rfl, rfl, rfl⟩

theorem turns_recordEvent (runId : ℕ) :
    Turns False scheduler (scheduler.recordEvent journal runId) := by
  rw [Scheduler.recordEvent]
  split
  · split
    · exact .same ⟨rfl, rfl, rfl⟩
    · next run hrun =>
      exact .changed runId run { run with cancel := true } hrun rfl (.inl rfl) ⟨rfl, rfl, rfl⟩
  · exact .same ⟨rfl, rfl, rfl⟩

theorem Orderly.turned {lost : Prop} (hord : Orderly world)
    (hturns : Turns lost world.scheduler after) : Orderly ⟨after, world.leases⟩ := by
  cases hturns with
  | same hsame => exact hord.same hsame
  | changed runId run changed hrun hconv hstate hsame =>
    apply hord.changed hrun changed hconv _ hsame
    intro hact
    rcases hstate with hstate | ⟨-, hstate | ⟨hstate, -⟩⟩
    · rwa [hstate]
    · rw [hstate]
      exact ⟨nofun, nofun⟩
    · rw [hstate]
      exact ⟨nofun, nofun⟩

section Release

variable {conversation other : String} {holder : Owner}

theorem release_eq_self (hnone : scheduler.owners[conversation]? = none) :
    scheduler.release conversation = scheduler := by
  rw [Scheduler.release, hnone]

theorem owners_release_self (hhol : scheduler.owners[conversation]? = some holder) :
    (scheduler.release conversation).owners[conversation]? =
      if holder.pending - 1 = 0 then none
      else some { holder with pending := holder.pending - 1 } := by
  rw [Scheduler.release, hhol]
  dsimp only
  by_cases hlast : holder.pending - 1 = 0
  · rw [if_pos hlast, if_pos hlast]
    exact getElem?_erase_self
  · rw [if_neg hlast, if_neg hlast]
    exact getElem?_insert_self

theorem owners_release_other (hoth : conversation ≠ other) :
    (scheduler.release conversation).owners[other]? = scheduler.owners[other]? := by
  rw [Scheduler.release]
  cases hhol : scheduler.owners[conversation]? with
  | none => rfl
  | some holder =>
    dsimp only
    by_cases hlast : holder.pending - 1 = 0
    · rw [if_pos hlast, getElem?_erase_of_ne hoth]
    · rw [if_neg hlast, getElem?_insert_of_ne hoth]

theorem runs_release : (scheduler.release conversation).runs = scheduler.runs := by
  rw [Scheduler.release]
  cases scheduler.owners[conversation]? with
  | none => rfl
  | some holder =>
    dsimp only
    split <;> rfl

theorem config_release : (scheduler.release conversation).config = scheduler.config := by
  rw [Scheduler.release]
  cases scheduler.owners[conversation]? with
  | none => rfl
  | some holder =>
    dsimp only
    split <;> rfl

end Release

variable {conversation : String}

theorem getElem?_prune :
    (scheduler.prune conversation).runs[runId]? =
      if runId ∈ scheduler.stale conversation then none else scheduler.runs[runId]? :=
  getElem?_foldl_erase _

theorem recorded_prune (hrecd : Recorded scheduler.runs lease) :
    Recorded (scheduler.prune conversation).runs lease := by
  obtain ⟨run, hrun, hconv, hcan, hcom⟩ := hrecd
  have hkept : lease.runId ∉ scheduler.stale conversation := by
    intro hstl
    have hmem := mem_reverse.mp (mem_of_mem_drop hstl)
    obtain ⟨⟨id, own⟩, hent, rfl⟩ := List.mem_map.mp hmem
    obtain ⟨hlist, hlst⟩ := List.mem_filter.mp hent
    have hown := mem_toList_iff_getElem?_eq_some.mp hlist
    obtain rfl : own = run := Option.some.inj (hown.symm.trans hrun)
    rw [Scheduler.listed, Bool.and_eq_true, Bool.or_eq_true] at hlst
    cases hlst.2 with
    | inl hstate => exact hcan (of_decide_eq_true hstate)
    | inr hstate => exact hcom (of_decide_eq_true hstate)
  apply Exists.intro run
  apply And.intro _ ⟨hconv, hcan, hcom⟩
  rwa [getElem?_prune, if_neg hkept]

theorem settle_same {run : RunRecord} : ∃ state, Same
    { scheduler with runs := scheduler.runs.insert runId { run with state := state } }
    (scheduler.settle journal runId run) := by
  rw [Scheduler.settle]
  split
  · exact ⟨.unknown, rfl, rfl, rfl⟩
  · exact ⟨run.settles, rfl, rfl, rfl⟩

theorem not_mem_held (hdist : (world.leases.map Lease.runId).Nodup) (hlse : lease ∈ world.leases)
    (hoth : lease.conversation ≠ conversation) :
    lease.runId ∉ (held conversation world.leases).map Lease.runId := by
  intro hmem
  obtain ⟨second, hsnd, hid⟩ := List.mem_map.mp hmem
  obtain ⟨hin, hconv⟩ := mem_held.mp hsnd
  have hsame := inj_on_of_nodup_map hdist hin hlse hid
  rw [hsame] at hconv
  exact hoth hconv

theorem Orderly.released {settled : Scheduler}
    (hord : Orderly world) (hrun : world.scheduler.runs[runId]? = some run)
    (honce : Once world journal (.completeRun runId))
    (howners : settled.owners = world.scheduler.owners)
    (hcntd : Counted depth (held conversation world.leases) world.scheduler.owners[conversation]?) :
    Counted depth (leave runId (held conversation world.leases))
      (settled.release run.conversation).owners[conversation]? := by
  rw [← howners] at hcntd
  by_cases hls : runId ∈ world.leases.map Lease.runId
  · obtain ⟨lease, hlse, rfl⟩ := List.mem_map.mp hls
    obtain ⟨own, hown, hconv, _⟩ := hord.recorded lease hlse
    obtain rfl : run = own := Option.some.inj (hrun.symm.trans hown)
    by_cases hhere : run.conversation = conversation
    · have hheld := mem_held.mpr ⟨hlse, hconv.symm.trans hhere⟩
      rw [hhere]
      cases hhol : settled.owners[conversation]? with
      | none =>
        rw [hhol] at hcntd
        rw [show held conversation world.leases = [] from hcntd] at hheld
        exact absurd hheld not_mem_nil
      | some holder =>
        rw [hhol] at hcntd
        rw [owners_release_self hhol]
        exact hcntd.leave (distinct_held hord.distinct) hheld
    · rw [owners_release_other hhere,
        leave_eq_self (not_mem_held hord.distinct hlse (hconv ▸ hhere))]
      exact hcntd
  have hnone := honce hls run hrun
  rw [← howners] at hnone
  have hheld : runId ∉ (held conversation world.leases).map Lease.runId := by
    intro hmem
    obtain ⟨lease, hlse, hid⟩ := List.mem_map.mp hmem
    exact hls (List.mem_map.mpr ⟨lease, (mem_held.mp hlse).1, hid⟩)
  rw [release_eq_self hnone, leave_eq_self hheld]
  exact hcntd

theorem Orderly.completeRun (hord : Orderly world)
    (honce : Once world journal (.completeRun runId)) :
    Orderly ⟨world.scheduler.completeRun journal runId, leave runId world.leases⟩ := by
  rw [Scheduler.completeRun]
  cases hrun : world.scheduler.runs[runId]? with
  | none =>
    have hnone : runId ∉ world.leases.map Lease.runId := by
      intro hmem
      obtain ⟨lease, hlse, rfl⟩ := List.mem_map.mp hmem
      obtain ⟨run, hown, _⟩ := hord.recorded lease hlse
      exact absurd (hrun.symm.trans hown) nofun
    rw [leave_eq_self hnone]
    exact hord
  | some run =>
    obtain ⟨state, hsame⟩ := @settle_same journal world.scheduler runId run
    have howners := hsame.owners
    have hruns : ∀ lease ∈ leave runId world.leases,
        Recorded (world.scheduler.settle journal runId run).runs lease := by
      intro lease hlse
      obtain ⟨hmem, hid⟩ := mem_leave.mp hlse
      obtain ⟨own, hown, hrest⟩ := hord.recorded lease hmem
      rw [hsame.runs]
      apply Exists.intro own
      exact ⟨(getElem?_insert_of_ne (Ne.symm hid)).trans hown, hrest⟩
    apply Orderly.mk
    · intro conversation hnamed
      change Counted
        ((world.scheduler.settle journal runId run).release run.conversation).config.sessionQueueDepth
        _ ((world.scheduler.settle journal runId run).release run.conversation).owners[conversation]?
      rw [config_release, hsame.config, held_leave]
      exact hord.released hrun honce howners (hord.counted conversation hnamed)
    · change ((world.scheduler.settle journal runId run).release run.conversation).owners[""]? = none
      have hanon := hord.anonymous
      rw [← howners] at hanon
      by_cases hemp : run.conversation = ""
      · rw [hemp, release_eq_self hanon]
        exact hanon
      · rw [owners_release_other hemp]
        exact hanon
    · intro lease hlse
      apply recorded_prune
      rw [runs_release]
      exact hruns lease hlse
    · exact distinct_leave hord.distinct

theorem writable_same {ready : Scheduler} (hrdy : scheduler.writable journal = some ready) :
    Same scheduler ready ∧ ready.journaled = scheduler.journaled ∧
      ready.nextRunId = scheduler.nextRunId := by
  rw [Scheduler.writable] at hrdy
  split at hrdy
  · split at hrdy
    · cases hrdy
      exact ⟨⟨rfl, rfl, rfl⟩, rfl, rfl⟩
    · cases hrdy
  · cases hrdy
    exact ⟨⟨rfl, rfl, rfl⟩, rfl, rfl⟩

/-- What an admission can come to. -/
inductive Admits (journal : Journal) (conversation : String) (before : Scheduler) :
    Scheduler × Decision → Prop where
  | refused {after : Scheduler} (refusal : Refusal) (hsame : Same before after) :
      Admits journal conversation before (after, .refused refusal)
  | behind {after : Scheduler} {holder : Owner} {runId : ℕ} (run : RunRecord)
      (hid : before.nextId journal = some runId) (hrun : run.conversation = conversation)
      (hstate : run.state = .queued) (hnamed : conversation ≠ "")
      (hholder : before.owners[conversation]? = some holder)
      (hroom : holder.pending < before.config.sessionQueueDepth)
      (hsame : Same { before with
        owners := before.owners.insert conversation { holder with pending := holder.pending + 1 }
        runs := before.runs.insert runId run } after) :
      Admits journal conversation before (after, .behind runId holder.nodeThread)
  | run {after : Scheduler} {runId : ℕ} (run : RunRecord) (runClass : RunClass) (nodeThread : ℕ)
      (hid : before.nextId journal = some runId) (hrun : run.conversation = conversation)
      (hstate : run.state = .queued)
      (hfree : conversation ≠ "" → before.owners[conversation]? = none)
      (hsame : Same { before with
        owners := if conversation = "" then before.owners
          else before.owners.insert conversation ⟨nodeThread, runClass, 1⟩
        runs := before.runs.insert runId run } after) :
      Admits journal conversation before (after, .run runId nodeThread)

section Admission

variable {conversation owner : String} {runClass : RunClass} {pick : Pick} {before : Scheduler}

theorem admits_behind {holder : Owner} {rejectBusy : Bool} (hsame : Same before scheduler)
    (hid : scheduler.allocate journal = before.nextId journal) (hnamed : conversation ≠ "")
    (hhol : scheduler.owners[conversation]? = some holder) :
    Admits journal conversation before
      (scheduler.admitBehind journal conversation owner runClass rejectBusy holder) := by
  rw [Scheduler.admitBehind]
  split
  · exact .refused .sessionBusy hsame
  split
  · exact .refused .sessionQueueFull hsame
  rename_i hroom
  rw [hsame.config, Nat.not_le] at hroom
  cases hall : scheduler.allocate journal with
  | none => exact .refused .journalUnavailable { hsame with }
  | some runId =>
    rw [hsame.owners] at hhol
    apply Admits.behind ⟨owner, conversation, runClass, false, .queued⟩
      (hid.symm.trans hall) rfl rfl hnamed hhol hroom
    constructor
    · exact hsame.config
    · dsimp only [Scheduler.record]
      rw [hsame.owners]
    · dsimp only [Scheduler.record]
      rw [hsame.runs]

theorem admits_first (hsame : Same before scheduler)
    (hid : scheduler.allocate journal = before.nextId journal)
    (hfree : conversation ≠ "" → scheduler.owners[conversation]? = none) :
    Admits journal conversation before
      (scheduler.admitFirst journal conversation owner runClass pick) := by
  rw [Scheduler.admitFirst]
  split
  · exact .refused .backgroundQueueFull hsame
  cases pick runClass scheduler.claimed with
  | none => exact .refused _ hsame
  | some nodeThread =>
    cases hall : scheduler.allocate journal with
    | none => exact .refused .journalUnavailable { hsame with }
    | some runId =>
      rw [hsame.owners] at hfree
      apply Admits.run ⟨owner, conversation, runClass, false, .queued⟩ runClass nodeThread
        (hid.symm.trans hall) rfl rfl hfree
      constructor
      · exact hsame.config
      · dsimp only [Scheduler.record]
        rw [hsame.owners]
      · dsimp only [Scheduler.record]
        rw [hsame.runs]

theorem admits_admitWithPolicy (rejectBusy : Bool) :
    Admits journal conversation scheduler
      (scheduler.admitWithPolicy journal conversation owner runClass rejectBusy pick) := by
  rw [Scheduler.admitWithPolicy]
  cases hrdy : ({ scheduler with
      nextRunId := (scheduler.nextRunId + 1) % 2 ^ 64 } : Scheduler).writable journal with
  | none => exact .refused .journalUnavailable ⟨rfl, rfl, rfl⟩
  | some ready =>
    dsimp only
    obtain ⟨hcntd, hjour, hnext⟩ := writable_same hrdy
    have hsame : Same scheduler ready := { hcntd with }
    have hid : ready.allocate journal = scheduler.nextId journal := by
      rw [Scheduler.allocate, Scheduler.nextId, hjour, hnext]
    by_cases hemp : conversation = ""
    · rw [if_pos hemp]
      exact admits_first hsame hid (fun hnamed => absurd hemp hnamed)
    rw [if_neg hemp]
    cases hhol : ready.owners[conversation]? with
    | none => exact admits_first hsame hid (fun _ => hhol)
    | some holder => exact admits_behind hsame hid hemp hhol

end Admission

theorem recorded_fresh (hrecd : Recorded runs lease)
    (hoth : runId ≠ lease.runId) (run : RunRecord) : Recorded (runs.insert runId run) lease := by
  obtain ⟨own, hown, hrest⟩ := hrecd
  exact ⟨own, (getElem?_insert_of_ne hoth).trans hown, hrest⟩

theorem Orderly.entered (hord : Orderly world) (hfre : lease.runId ∉ world.leases.map Lease.runId)
    (hrun : run.conversation = lease.conversation) (hstate : run.state = .queued)
    (hruns : after.runs = world.scheduler.runs.insert lease.runId run)
    (hcon : after.config = world.scheduler.config) (hanon : after.owners[""]? = none)
    (hown : lease.conversation ≠ "" → Counted after.config.sessionQueueDepth
      (held lease.conversation world.leases ++ [lease]) after.owners[lease.conversation]?)
    (hoths : ∀ other, lease.conversation ≠ other →
      after.owners[other]? = world.scheduler.owners[other]?) :
    Orderly ⟨after, world.leases ++ [lease]⟩ := by
  constructor
  · intro conversation hnamed
    by_cases hhere : lease.conversation = conversation
    · subst hhere
      rw [held_concat rfl]
      exact hown hnamed
    change Counted after.config.sessionQueueDepth (held _ (world.leases ++ [lease]))
      after.owners[conversation]?
    rw [held_concat_other hhere, hoths conversation hhere, hcon]
    exact hord.counted conversation hnamed
  · exact hanon
  · intro other hoth
    rw [hruns]
    cases mem_append.mp hoth with
    | inl hbef =>
      apply recorded_fresh (hord.recorded other hbef)
      intro hid
      exact hfre (List.mem_map.mpr ⟨other, hbef, hid.symm⟩)
    | inr hthis =>
      rw [mem_singleton.mp hthis]
      apply Exists.intro run
      apply And.intro getElem?_insert_self
      rw [hstate]
      exact ⟨hrun, nofun, nofun⟩
  · change ((world.leases ++ [lease]).map Lease.runId).Nodup
    rw [map_append, map_singleton, ← concat_eq_append]
    exact List.Nodup.concat hfre hord.distinct

theorem Orderly.admitted {outcome : Scheduler × Decision}
    (hord : Orderly world) (hadm : Admits journal conversation world.scheduler outcome)
    (hfre : ∀ runId, world.scheduler.nextId journal = some runId →
      runId ∉ world.leases.map Lease.runId) :
    Orderly (world.admitted conversation outcome) := by
  cases hadm with
  | refused refusal hsame => exact hord.same hsame
  | behind run hid hrun hstate hnamed hhol hroom hsame =>
    have hcntd := hord.counted conversation hnamed
    rw [hhol] at hcntd
    apply hord.entered (hfre _ hid) hrun hstate hsame.runs hsame.config
    · rw [hsame.owners, getElem?_insert_of_ne hnamed]
      exact hord.anonymous
    · intro _
      rw [hsame.config, hsame.owners, ExtTreeMap.getElem?_insert_self]
      exact hcntd.behind hroom rfl
    intro other hoth
    rw [hsame.owners, getElem?_insert_of_ne hoth]
  | run run runClass nodeThread hid hrun hstate hfree hsame =>
    have hown := hsame.owners
    apply hord.entered (hfre _ hid) hrun hstate hsame.runs hsame.config
    · rw [hown]
      by_cases hemp : conversation = ""
      · rw [if_pos hemp]
        exact hord.anonymous
      rw [if_neg hemp, getElem?_insert_of_ne hemp]
      exact hord.anonymous
    · intro hnamed
      have hcntd := hord.counted conversation hnamed
      rw [hfree hnamed] at hcntd
      rw [hsame.config, hown, if_neg hnamed, ExtTreeMap.getElem?_insert_self]
      exact hcntd.first world.scheduler.config.room runClass
    intro other hoth
    rw [hown]
    by_cases hemp : conversation = ""
    · rw [if_pos hemp]
    · rw [if_neg hemp, getElem?_insert_of_ne hoth]

theorem Orderly.step (hord : Orderly world) (call : Call) (honce : Once world journal call) :
    Orderly (world.step journal call) := by
  cases call with
  | admitRun conversation owner runClass pick =>
    exact hord.admitted (admits_admitWithPolicy false) honce
  | admitIfIdle conversation owner runClass pick =>
    exact hord.admitted (admits_admitWithPolicy true) honce
  | markRunning runId => exact hord.turned (turns_markRunning runId)
  | completeRun runId => exact hord.completeRun honce
  | cancelRun owner conversation runId =>
    exact hord.turned (turns_cancelRun owner conversation runId)
  | recordEvent runId => exact hord.turned (turns_recordEvent runId)

theorem orderly_new (config : Config) (journaled : Bool) : Orderly ⟨.new config journaled, []⟩ := by
  constructor
  · intro conversation _
    rfl
  · rfl
  · nofun
  · exact nodup_nil

/-- A conversation has one writer in every run in which no run is completed again while others are
counted under its conversation. -/
theorem once_runs_have_one_writer {world : World} (hreaches : World.Reaches Once world) :
    world.OneWriter := by
  have horderly : Orderly world := by
    induction hreaches with
    | start config journaled => exact orderly_new config journaled
    | step journal call _ honce ih => exact ih.step call honce
  exact horderly.oneWriter

/-- Some calls in a row, as long as they satisfy `meets`. -/
def World.play (meets : World → Journal → Call → Bool) (world : World) :
    List (Journal × Call) → World
  | [] => world
  | (journal, call) :: calls =>
      if meets world journal call then (world.step journal call).play meets calls else world

theorem World.Reaches.play {meets : World → Journal → Call → Prop}
    {test : World → Journal → Call → Bool}
    (htest : ∀ world journal call, test world journal call = true → meets world journal call)
    (calls : List (Journal × Call)) (hrchs : World.Reaches meets world) :
    World.Reaches meets (world.play test calls) := by
  induction calls generalizing world with
  | nil => exact hrchs
  | cons call calls ih =>
    rw [World.play]
    split
    · next hmeets => exact ih (hrchs.step call.1 call.2 (htest _ _ _ hmeets))
    · exact hrchs

def roomy : Config := ⟨4, 4, 8, by decide⟩

def noJournal : Journal := ⟨true, none, true⟩

def submit (nodeThread : ℕ) : Journal × Call :=
  (noJournal, .admitRun "c" "master" .interactive (fun _ _ => some nodeThread))

def complete (runId : ℕ) : Journal × Call := (noJournal, .completeRun runId)

def playOnce (calls : List (Journal × Call)) : World :=
  World.play (fun world journal call => Once world journal call) ⟨.new roomy false, []⟩ calls

theorem once_runs_have_one_writer_behind :
    (playOnce [submit 0, submit 1, complete 1]).OneWriter ∧
      (playOnce [submit 0, submit 1, complete 1]).leases = [⟨2, "c", 0⟩] := by
  apply And.intro
  · apply once_runs_have_one_writer
    exact World.Reaches.play (fun _ _ _ => of_decide_eq_true) _ (.start roomy false)
  · decide +kernel

/-- The first run is completed twice while the second waits: the third is admitted as another
writer. -/
theorem repeated_completion_admits_second_writer :
    ¬ ∀ world, World.Reaches (fun _ _ _ => True) world → world.OneWriter := by
  intro hall
  have hwriter := hall _ (@World.Reaches.play _ (fun _ _ _ => True) (fun _ _ _ => true)
    (fun _ _ _ _ => trivial) [submit 0, submit 1, complete 1, complete 1, submit 1]
    (.start roomy false))
  have hleases : (World.play (fun _ _ _ => true) ⟨.new roomy false, []⟩
      [submit 0, submit 1, complete 1, complete 1, submit 1]).leases =
        [⟨2, "c", 0⟩, ⟨3, "c", 1⟩] := by
    decide +kernel
  have htogether := hwriter.together "c" (by decide)
  exact absurd (htogether ⟨2, "c", 0⟩ (by decide) ⟨3, "c", 1⟩ (by decide)) (by decide)

end Calls

end WasmAgent.Serve
