import WasmAgent.Serve.OneWriter

/-!
# The life of a run

A run is queued, runs and settles, and of the settled runs of a conversation the last four stay in
the table.  Runs that settle twice move again; runs that settle as not started or as unknown stay.
-/

namespace WasmAgent.Serve

open List Std.ExtTreeMap Std WasmAgent.Core

def RunState.settled : RunState → Bool
  | .queued | .running => false
  | _ => true

/-- What may become of a run in one call. -/
def RunState.Moves (before after : RunState) : Prop :=
  after = before ∨ before = .queued ∨ before = .running ∧ after.settled = true

def Forward (before after : ExtTreeMap ℕ RunRecord) : Prop :=
  ∀ (runId : ℕ) (run next : RunRecord), before[runId]? = some run → after[runId]? = some next →
    run.state.Moves next.state

/-- The settled runs of a conversation are not more than `bound`. -/
def FewSettled (bound : ℕ) (runs : ExtTreeMap ℕ RunRecord) : Prop :=
  ∀ (conversation : String) (ids : List ℕ), ids.Nodup → (∀ id ∈ ids, ∃ run : RunRecord,
    runs[id]? = some run ∧ run.conversation = conversation ∧ run.state.settled = true) →
      ids.length ≤ bound

/-- Completion settles the run as completed or as cancelled, and not in another way than before. -/
def RunRecord.completes (run : RunRecord) : Bool :=
  match run.state with
  | .running => true
  | .queued | .cancelled => run.cancel
  | .completed => !run.cancel
  | .unknown | .notStarted => false

/-- Ids are new in the table, states are written down, and runs complete that may. -/
def Careful (world : World) (journal : Journal) : Call → Prop
  | .admitRun _ _ _ _ | .admitIfIdle _ _ _ _ => ∀ runId ∈ world.scheduler.nextId journal,
      world.scheduler.runs[runId]? = none
  | .markRunning runId => ∀ run ∈ world.scheduler.runs[runId]?, run.state = .queued →
      world.scheduler.unwritten journal = false
  | .completeRun runId => ∀ run ∈ world.scheduler.runs[runId]?,
      world.scheduler.unwritten journal = false ∧ run.completes = true
  | _ => True

/-- Settled runs are those that `prune` counts, and few. -/
structure Tidy (runs : ExtTreeMap ℕ RunRecord) : Prop where
  listed : ∀ (runId : ℕ) (run : RunRecord), runs[runId]? = some run → run.state.settled = true →
    run.state = .cancelled ∨ run.state = .completed
  few : FewSettled 4 runs

variable {scheduler after : Scheduler} {journal : Journal} {world : World}
variable {runs : ExtTreeMap ℕ RunRecord} {runId : ℕ}

theorem Forward.refl : Forward runs runs := by
  intro _ run next hrun hnext
  cases hrun.symm.trans hnext
  exact .inl rfl

theorem Forward.insert {changed : RunRecord}
    (hmoves : ∀ run, runs[runId]? = some run → run.state.Moves changed.state) :
    Forward runs (runs.insert runId changed) := by
  intro other run next hrun hnext
  rcases getElem?_insert_cases hnext with ⟨rfl, rfl⟩ | ⟨-, hold⟩
  · exact hmoves run hrun
  · exact Forward.refl other run next hrun hold

/-- A run that does not settle now leaves the table tidy. -/
theorem Tidy.insert {changed : RunRecord} (htidy : Tidy runs)
    (hold : changed.state.settled = true → ∃ run, runs[runId]? = some run ∧
      run.conversation = changed.conversation ∧ run.state = changed.state) :
    Tidy (runs.insert runId changed) := by
  have hbef : ∀ (other : ℕ) (found : RunRecord), (runs.insert runId changed)[other]? = some found →
      found.state.settled = true → ∃ run : RunRecord, runs[other]? = some run ∧
        run.conversation = found.conversation ∧ run.state = found.state := by
    intro other found hfnd hsett
    rcases getElem?_insert_cases hfnd with ⟨rfl, rfl⟩ | ⟨-, hsame⟩
    · exact hold hsett
    · exact ⟨found, hsame, rfl, rfl⟩
  constructor
  · intro other found hfnd hsett
    obtain ⟨run, hrun, -, hstate⟩ := hbef other found hfnd hsett
    rw [← hstate] at hsett ⊢
    exact htidy.listed other run hrun hsett
  · intro conversation ids hnodup hids
    apply htidy.few conversation ids hnodup
    intro id hid
    obtain ⟨found, hfnd, hconv, hsett⟩ := hids id hid
    obtain ⟨run, hrun, hsame, hstate⟩ := hbef id found hfnd hsett
    exact ⟨run, hrun, hsame.trans hconv, hstate ▸ hsett⟩

variable {conversation : String}

theorem of_prune {run : RunRecord} (hfnd : (scheduler.prune conversation).runs[runId]? = some run) :
    scheduler.runs[runId]? = some run ∧ runId ∉ scheduler.stale conversation := by
  rw [getElem?_prune] at hfnd
  split at hfnd
  · cases hfnd
  · next hnot => exact ⟨hfnd, hnot⟩

/-- Pruning makes up for one run that settles. -/
theorem Tidy.prune {before : ExtTreeMap ℕ RunRecord} (htidy : Tidy before)
    (hlist : ∀ (runId : ℕ) (run : RunRecord), scheduler.runs[runId]? = some run →
      run.state.settled = true → run.state = .cancelled ∨ run.state = .completed)
    (hrest : ∀ (runId : ℕ) (run : RunRecord), scheduler.runs[runId]? = some run →
      run.conversation ≠ conversation → before[runId]? = some run) :
    Tidy (scheduler.prune conversation).runs := by
  constructor
  · intro runId run hfnd
    exact hlist runId run (of_prune hfnd).1
  intro other ids hnodup hids
  by_cases hsame : other = conversation
  · have hsub : ids ⊆ ((scheduler.runs.toList.filter (Scheduler.listed conversation)).map
        Prod.fst).reverse.take 4 := by
      intro id hid
      obtain ⟨run, hfnd, hconv, hsett⟩ := hids id hid
      obtain ⟨hrun, hnot⟩ := of_prune hfnd
      have hmem : (id, run) ∈ scheduler.runs.toList.filter (Scheduler.listed conversation) := by
        rw [List.mem_filter, mem_toList_iff_getElem?_eq_some]
        simpa [Scheduler.listed, hrun, hconv, hsame] using hlist id run hrun hsett
      have hin := mem_reverse.mpr (List.mem_map_of_mem (f := Prod.fst) hmem)
      rw [← take_append_drop 4 (reverse _), mem_append] at hin
      exact hin.resolve_right hnot
    calc
      ids.length ≤ _ := (hnodup.subperm hsub).length_le
      _ ≤ 4 := length_take_le 4 _
  · apply htidy.few other ids hnodup
    intro id hid
    obtain ⟨run, hfnd, hconv, hsett⟩ := hids id hid
    exact ⟨run, hrest id run (of_prune hfnd).1 (hconv ▸ hsame), hconv, hsett⟩

/-- What a step keeps: runs move forward, and the table stays tidy. -/
def Keeps (before after : ExtTreeMap ℕ RunRecord) : Prop := Forward before after ∧ Tidy after

theorem keeps_admitted {outcome : Scheduler × Decision}
    (htidy : Tidy scheduler.runs) (hadm : Admits journal conversation scheduler outcome)
    (hnew : ∀ runId ∈ scheduler.nextId journal, scheduler.runs[runId]? = none) :
    Keeps scheduler.runs outcome.1.runs := by
  have hins : ∀ {runId : ℕ} {run : RunRecord}, scheduler.nextId journal = some runId →
      run.state = .queued → Keeps scheduler.runs (scheduler.runs.insert runId run) := by
    intro runId run hid hstate
    constructor
    · apply Forward.insert
      intro old hold
      cases (hnew runId hid).symm.trans hold
    · apply htidy.insert
      intro hsett
      rw [hstate] at hsett
      cases hsett
  cases hadm with
  | refused refusal hsame =>
    rw [hsame.runs]
    exact ⟨.refl, htidy⟩
  | behind run hid _ hstate _ _ _ hsame =>
    rw [hsame.runs]
    exact hins hid hstate
  | run run _ _ hid _ hstate _ hsame =>
    rw [hsame.runs]
    exact hins hid hstate

theorem keeps_turned {lost : Prop} (htidy : Tidy scheduler.runs)
    (hturns : Turns lost scheduler after) (hkept : ¬ lost) : Keeps scheduler.runs after.runs := by
  cases hturns with
  | same hsame =>
    rw [hsame.runs]
    exact ⟨.refl, htidy⟩
  | changed runId run changed hrun hconv hstate hsame =>
    rw [hsame.runs]
    constructor
    · apply Forward.insert
      intro old hold
      cases hrun.symm.trans hold
      exact hstate.imp_right fun hqueued => .inl hqueued.1
    · apply htidy.insert
      intro hsett
      rcases hstate with hstate | ⟨-, hrunning | ⟨-, hlost⟩⟩
      · exact ⟨run, hrun, hconv.symm, hstate.symm⟩
      · rw [hrunning] at hsett
        cases hsett
      · exact absurd hlost hkept

theorem moves_of_completes {run : RunRecord} (hcom : run.completes = true) :
    run.state.Moves run.settles ∧ (run.settles = .cancelled ∨ run.settles = .completed) := by
  obtain ⟨_, _, _, cancel, state⟩ := run
  cases state <;> cases cancel <;> simp_all [RunRecord.completes, RunRecord.settles,
    RunState.Moves, RunState.settled]

theorem keeps_completeRun (htidy : Tidy scheduler.runs)
    (hcare : ∀ run ∈ scheduler.runs[runId]?,
      scheduler.unwritten journal = false ∧ run.completes = true) :
    Keeps scheduler.runs (scheduler.completeRun journal runId).runs := by
  rw [Scheduler.completeRun]
  split
  · exact ⟨.refl, htidy⟩
  next run hrun =>
    obtain ⟨hwrit, hcom⟩ := hcare run hrun
    obtain ⟨hmoves, hlist⟩ := moves_of_completes hcom
    have hruns : ((scheduler.settle journal runId run).release run.conversation).runs =
        scheduler.runs.insert runId { run with state := run.settles } := by
      rw [runs_release, Scheduler.settle, hwrit]
      rfl
    constructor
    · intro id old next hold hnext
      have hnext := (of_prune hnext).1
      rw [hruns] at hnext
      apply Forward.insert _ id old next hold hnext
      intro found hfnd
      cases hrun.symm.trans hfnd
      exact hmoves
    · apply htidy.prune
      · intro id found hfnd hsett
        rw [hruns] at hfnd
        rcases getElem?_insert_cases hfnd with ⟨-, rfl⟩ | ⟨-, hold⟩
        · exact hlist
        · exact htidy.listed id found hold hsett
      · intro id found hfnd hoth
        rw [hruns] at hfnd
        rcases getElem?_insert_cases hfnd with ⟨-, rfl⟩ | ⟨-, hold⟩
        · exact absurd rfl hoth
        · exact hold

theorem scheduler_admitted {outcome : Scheduler × Decision} :
    (world.admitted conversation outcome).scheduler = outcome.1 := by
  rw [World.admitted]
  split <;> rfl

theorem keeps_step (htidy : Tidy world.scheduler.runs) (call : Call)
    (hcare : Careful world journal call) :
    Keeps world.scheduler.runs (world.step journal call).scheduler.runs := by
  cases call with
  | admitRun conversation owner runClass pick =>
    rw [World.step, scheduler_admitted]
    exact keeps_admitted htidy (admits_admitWithPolicy false) hcare
  | admitIfIdle conversation owner runClass pick =>
    rw [World.step, scheduler_admitted]
    exact keeps_admitted htidy (admits_admitWithPolicy true) hcare
  | markRunning runId =>
    apply keeps_turned htidy (turns_markRunning runId)
    rintro ⟨run, hrun, hqueued, hunw⟩
    exact Bool.false_ne_true ((hcare run hrun hqueued).symm.trans hunw)
  | completeRun runId => exact keeps_completeRun htidy hcare
  | cancelRun owner conversation runId =>
    exact keeps_turned htidy (turns_cancelRun owner conversation runId) id
  | recordEvent runId => exact keeps_turned htidy (turns_recordEvent runId) id

theorem tidy_new : Tidy ∅ := by
  constructor
  · intro runId run hrun
    cases hrun.symm.trans ExtTreeMap.getElem?_empty
  · intro conversation ids _ hids
    cases ids with
    | nil => exact Nat.zero_le 4
    | cons id ids =>
      obtain ⟨run, hrun, -⟩ := hids id mem_cons_self
      cases hrun.symm.trans ExtTreeMap.getElem?_empty

def submitted : World := (⟨.new roomy false, []⟩ : World).step noJournal (submit 0).2

end WasmAgent.Serve
