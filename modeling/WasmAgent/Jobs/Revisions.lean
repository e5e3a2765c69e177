import WasmAgent.Core.Maps
import WasmAgent.Jobs.Ledger

/-!
# What a revision stands for

A source reads a job and its revision, and enqueues later.  Beside the ledger, all the tables are
kept that there have been.
-/

namespace WasmAgent.Jobs

open List Option WasmAgent.Core

structure Chronicle where
  ledger : Ledger
  past : List Store

def Chronicle.empty : Chronicle := ⟨Ledger.empty, [Store.empty]⟩

def Records (serde : Serde) (op : Op) (chronicle : Chronicle) (answer : Checked op.Reply)
    (after : Chronicle) : Prop :=
  Performs serde op chronicle.ledger answer after.ledger ∧
    after.past = after.ledger.store :: chronicle.past

structure Chronicle.Identified (serde : Serde) (chronicle : Chronicle) : Prop where
  states : ∀ one ∈ chronicle.past, ∀ other ∈ chronicle.past, ∀ (id : String) (job job' : JobRow),
    one.jobs[id]? = some job → other.jobs[id]? = some job' → job.revision = job'.revision →
      job.definition = job'.definition ∧ job.enabled = job'.enabled
  claims : ∀ claim ∈ chronicle.ledger.answered, ∀ store ∈ chronicle.past, ∀ job : JobRow,
    store.jobs[claim.jobId]? = some job → job.revision = claim.revision →
      ∃ definition, readJson serde job.definition = .ok definition ∧
        claim.action = definition.field "action" ∧ claim.controls = definition.field "controls"

def Unused (op : Op) (chronicle : Chronicle) : Prop :=
  match op with
  | .replace id _ => chronicle.ledger.store.jobs[id]? = none →
      ∀ store ∈ chronicle.past, store.jobs[id]? = none
  | _ => True

inductive Rewrites (before : Store) (op : Op) (id : String) (job' : JobRow) : Prop where
  | kept (job : JobRow) (hjob : before.jobs[id]? = some job)
      (hsame : job'.revision = job.revision ∧ job'.definition = job.definition ∧
        job'.enabled = job.enabled)
  | edited (job : JobRow) (hjob : before.jobs[id]? = some job) (hlater : job.revision < job'.revision)
  | installed (prepared : String) (hop : op = .replace id prepared)
      (hnone : before.jobs[id]? = none)

section Rows

variable {serde : Serde} {store : Store} {op : Op} {id : String} {job' : JobRow}

theorem Rewrites.same (hjob : store.jobs[id]? = some job') : Rewrites store op id job' :=
  .kept job' hjob ⟨rfl, rfl, rfl⟩

theorem Store.empty_jobs (id : String) : Store.empty.jobs[id]? = none :=
  Std.ExtTreeMap.getElem?_empty

theorem rewrites_setJob {other : String} {changed : JobRow}
    (hchan : Rewrites store op other changed)
    (hjob : (store.setJob other changed).jobs[id]? = some job') : Rewrites store op id job' := by
  change (store.jobs.insert other changed)[id]? = some job' at hjob
  rcases getElem?_insert_cases hjob with ⟨rfl, rfl⟩ | ⟨-, hold⟩
  · exact hchan
  · exact Rewrites.same hold

theorem rewrites_touch {other : String} {revision : ℤ} {change : JobRow → JobRow}
    (hchg : ∀ job, (change job).revision = job.revision ∧
      (change job).definition = job.definition ∧ (change job).enabled = job.enabled)
    (hjob : (store.touch other revision change).jobs[id]? = some job') :
    Rewrites store op id job' := by
  unfold Store.touch at hjob
  split at hjob
  case h_1 => exact Rewrites.same hjob
  case h_2 job hfnd =>
    split at hjob
    case isTrue => exact rewrites_setJob (.kept job hfnd (hchg job)) hjob
    case isFalse => exact Rewrites.same hjob

theorem enqueue_jobs (other : String) (revision : ℤ) (eventId payload : String) (now : ℤ) :
    (store.enqueue serde other revision eventId payload now).2.jobs = store.jobs := by
  unfold Store.enqueue
  repeat' split
  all_goals rfl

theorem claim_jobs (now wakeBudget : ℤ) (kinds : Option (List String)) :
    (store.claim serde now wakeBudget kinds).2.jobs = store.jobs := by
  unfold Store.claim
  dsimp only
  split <;> rfl

theorem settle_jobs (delivery : ℕ) (change : Delivery → Delivery) (why : String) :
    (store.settle delivery change why).2.jobs = store.jobs := by
  unfold Store.settle
  split <;> rfl

theorem run_rewrites (hjob : (op.run serde store).2.jobs[id]? = some job') :
    Rewrites store op id job' := by
  cases op with
  | replace other prepared =>
    change (store.replace other prepared).2.jobs[id]? = some job' at hjob
    unfold Store.replace at hjob
    split at hjob
    case h_1 hnone => exact rewrites_setJob (.installed prepared rfl hnone) hjob
    case h_2 job hfnd =>
      split at hjob
      · exact Rewrites.same hjob
      · exact rewrites_setJob (.edited job hfnd (Int.lt_succ _)) hjob
  | enable other enabled =>
    change (store.enable other enabled).2.jobs[id]? = some job' at hjob
    unfold Store.enable at hjob
    split at hjob
    case h_1 => exact Rewrites.same hjob
    case h_2 job hfnd => exact rewrites_setJob (.edited job hfnd (Int.lt_succ _)) hjob
  | forget other =>
    change (store.forget other).2.jobs[id]? = some job' at hjob
    unfold Store.forget at hjob
    split at hjob
    · exact Rewrites.same hjob
    split at hjob
    · exact Rewrites.same hjob
    rw [Std.ExtTreeMap.getElem?_erase] at hjob
    split at hjob
    · exact nomatch hjob
    · exact Rewrites.same hjob
  | setNextAt other revision next =>
    change (store.touch other revision (fun job => { job with nextAt := next })).jobs[id]? =
      some job' at hjob
    refine rewrites_touch ?_ hjob
    exact fun _ => ⟨rfl, rfl, rfl⟩
  | sourceStatus other revision status =>
    change (store.touch other revision (fun job => { job with sourceStatus := status })).jobs[id]? =
      some job' at hjob
    refine rewrites_touch ?_ hjob
    exact fun _ => ⟨rfl, rfl, rfl⟩
  | enqueue other revision eventId payload now =>
    exact Rewrites.same ((enqueue_jobs other revision eventId payload now) ▸ hjob)
  | claim now wakeBudget kinds => exact Rewrites.same ((claim_jobs now wakeBudget kinds) ▸ hjob)
  | finish other outcome detail now => exact Rewrites.same ((settle_jobs other _ _) ▸ hjob)
  | defer other detail => exact Rewrites.same ((settle_jobs other _ _) ▸ hjob)
  | definition other | list | nextAt other | recover now => exact Rewrites.same hjob

end Rows

section Invariant

variable {serde : Serde} {chronicle after : Chronicle}

structure Chronicle.Kept (serde : Serde) (chronicle : Chronicle) : Prop where
  ledger : chronicle.ledger.Kept serde
  now : chronicle.ledger.store ∈ chronicle.past
  states : ∀ one ∈ chronicle.past, ∀ other ∈ chronicle.past, ∀ (id : String) (job job' : JobRow),
    one.jobs[id]? = some job → other.jobs[id]? = some job' → job.revision = job'.revision →
      job.definition = job'.definition ∧ job.enabled = job'.enabled
  earlier : ∀ store ∈ chronicle.past, ∀ (id : String) (job now : JobRow),
    store.jobs[id]? = some job → chronicle.ledger.store.jobs[id]? = some now →
      job.revision ≤ now.revision
  claims : ∀ claim ∈ chronicle.ledger.answered, ∃ store ∈ chronicle.past, ∃ job : JobRow,
    store.jobs[claim.jobId]? = some job ∧ job.revision = claim.revision ∧
      ∃ definition, readJson serde job.definition = .ok definition ∧
        claim.action = definition.field "action" ∧ claim.controls = definition.field "controls"

theorem Evolves.given_read {before later : Store} {claim : Claim}
    (hevo : Evolves serde before later (some claim)) : ∃ job : JobRow,
      before.jobs[claim.jobId]? = some job ∧ job.revision = claim.revision ∧
        ∃ definition, readJson serde job.definition = .ok definition ∧
          claim.action = definition.field "action" ∧
          claim.controls = definition.field "controls" := by
  cases hevo with
  | changed change only _ _ _ _ _ _ hstas hgiven =>
    obtain ⟨row, hmem, _, hqd, hruns⟩ := hgiven claim rfl
    have hres : row.state ≠ .running := by
      rw [hqd]
      exact nofun
    obtain ⟨job, hjob, _, hrevis, hcar⟩ := (hstas row hmem hres hruns).2.current
    obtain ⟨_, hkey, hread⟩ := hcar claim rfl
    obtain ⟨hid, hrev, _⟩ : claim.jobId = row.jobId ∧ claim.revision = row.revision ∧
        claim.eventId = row.eventId := by
      simpa [Delivery.key] using hkey
    rw [hid, hrev]
    exact ⟨job, hjob, hrevis, hread⟩

variable (hkept : chronicle.Kept serde)
include hkept

theorem Chronicle.Kept.rewritten {op : Op} (hunus : Unused op chronicle) {id : String}
    {job' : JobRow} (hrew : Rewrites chronicle.ledger.store op id job') :
    ∀ store ∈ chronicle.past, ∀ job : JobRow, store.jobs[id]? = some job →
      job.revision ≤ job'.revision ∧ (job.revision = job'.revision →
        job.definition = job'.definition ∧ job.enabled = job'.enabled) := by
  intro store hstr job hjob
  cases hrew with
  | kept now hnow hsame =>
    have hle := hkept.earlier store hstr id job now hjob hnow
    rw [hsame.1, hsame.2.1, hsame.2.2]
    exact ⟨hle, hkept.states store hstr _ hkept.now id job now hjob hnow⟩
  | edited now hnow hlater =>
    have hle := hkept.earlier store hstr id job now hjob hnow
    have hlt := Int.lt_of_le_of_lt hle hlater
    exact ⟨Int.le_of_lt hlt, fun hsame => absurd hsame (Int.ne_of_lt hlt)⟩
  | installed prepared hop hnone =>
    subst hop
    exact nomatch (hunus hnone store hstr).symm.trans hjob

theorem Chronicle.Kept.step {op : Op} (hunus : Unused op chronicle) :
    Chronicle.Kept serde ⟨chronicle.ledger.extend (op.run serde chronicle.ledger.store).2
        (given op (op.run serde chronicle.ledger.store).1),
      (op.run serde chronicle.ledger.store).2 :: chronicle.past⟩ := by
  have hevo : Evolves serde chronicle.ledger.store _ _ := run_evolves op hkept.ledger.ids
  have hrew {id : String} {job' : JobRow}
      (hjob : (op.run serde chronicle.ledger.store).2.jobs[id]? = some job') :=
    hkept.rewritten hunus (run_rewrites hjob)
  constructor
  · exact hkept.ledger.step hevo
  · exact mem_cons_self
  · intro one hone other hoth id job job' hjob hjob' hsame
    rcases mem_cons.mp hone with rfl | hone
    · rcases mem_cons.mp hoth with rfl | hoth
      · obtain rfl := Option.some.inj (hjob.symm.trans hjob')
        exact ⟨rfl, rfl⟩
      · obtain ⟨hdef, hena⟩ := (hrew hjob other hoth job' hjob').2 hsame.symm
        exact ⟨hdef.symm, hena.symm⟩
    · rcases mem_cons.mp hoth with rfl | hoth
      · exact (hrew hjob' one hone job hjob).2 hsame
      · exact hkept.states one hone other hoth id job job' hjob hjob' hsame
  · intro store hstr id job now hjob hnow
    rcases mem_cons.mp hstr with rfl | hstr
    · obtain rfl := Option.some.inj (hjob.symm.trans hnow)
      exact Int.le_refl _
    · exact (hrew hnow store hstr job hjob).1
  intro claim hclm
  rcases mem_append.mp hclm with hold | hnew
  · obtain ⟨store, hstr, hread⟩ := hkept.claims claim hold
    exact ⟨store, mem_cons_of_mem _ hstr, hread⟩
  · rw [mem_toList.mp hnew] at hevo
    exact ⟨chronicle.ledger.store, mem_cons_of_mem _ hkept.now, hevo.given_read⟩

theorem Chronicle.Kept.refused :
    Chronicle.Kept serde ⟨chronicle.ledger, chronicle.ledger.store :: chronicle.past⟩ := by
  have hpast : ∀ store ∈ chronicle.ledger.store :: chronicle.past, store ∈ chronicle.past := by
    intro store hstr
    rcases mem_cons.mp hstr with rfl | hold
    · exact hkept.now
    · exact hold
  constructor
  · exact hkept.ledger
  · exact mem_cons_self
  · exact fun one hone other hoth => hkept.states one (hpast one hone) other (hpast other hoth)
  · exact fun store hstr => hkept.earlier store (hpast store hstr)
  · intro claim hclm
    obtain ⟨store, hstr, hread⟩ := hkept.claims claim hclm
    exact ⟨store, mem_cons_of_mem _ hstr, hread⟩

theorem Chronicle.Kept.identified : chronicle.Identified serde := by
  constructor
  · exact hkept.states
  intro claim hclm store hstr job hjob hrev
  obtain ⟨found, hfnd, job', hjob', hrev', hread⟩ := hkept.claims claim hclm
  obtain ⟨hdef, _⟩ := hkept.states store hstr found hfnd _ job job' hjob hjob'
    (hrev.trans hrev'.symm)
  rw [hdef]
  exact hread

omit hkept

end Invariant

section Sample

def Chronicle.respond (serde : Serde) (op : Op) (chronicle : Chronicle) :
    Checked op.Reply × Chronicle :=
  let step := chronicle.ledger.respond serde op
  (step.1, ⟨step.2, step.2.store :: chronicle.past⟩)

theorem Chronicle.respond_records (serde : Serde) (op : Op) (chronicle : Chronicle) :
    Records serde op chronicle (chronicle.respond serde op).1 (chronicle.respond serde op).2 :=
  ⟨chronicle.ledger.respond_performs serde op, rfl⟩

def Store.stands (store : Store) : Option (ℤ × String) :=
  store.jobs["job"]?.map (fun job => (job.revision, job.definition))

theorem begun_put {serde : Serde} {definition : Json} (hvld : validate serde definition = .ok ()) :
    ∃ next, begun (put serde definition) =
      .ask (.replace (textOf (definition.field "id")) (serde.print definition)) next := by
  unfold put
  rw [hvld]
  exact ⟨_, rfl⟩

theorem validate_runner : validate samples (runner "/bin/one") = .ok () := by
  have hpas : (validate samples (runner "/bin/one")).toOption = some () := by decide +kernel
  cases hvld : validate samples (runner "/bin/one") with
  | ok passed => rfl
  | error why =>
    rw [hvld] at hpas
    exact nomatch hpas

/-- A job is forgotten and another one put under its id; then an event arrives from a source that
read the first. -/
def laterCalls : List (Script Op (fun op => Checked op.Reply) Unit) :=
  [begun (put samples (runner "/bin/one")), begun (enable "job" true), begun (forget "job"),
    begun (put samples (runner "/bin/two")), begun (enable "job" true),
    begun (enqueue samples "job" 2 "mail-1" .null 5), begun (claimNext 7 0 true)]

theorem requested_laterCalls : ∀ script ∈ laterCalls, Requested samples script := by
  simp only [laterCalls, forall_mem_cons]
  exact ⟨.put _, .enable _ _, .forget _, .put _, .enable _ _, .enqueue _ _ _ _ _,
    .claimNext _ _ _, nofun⟩

theorem not_identified {chronicle : Chronicle} {revision : ℤ} {text text' : String}
    (hone : ∃ one ∈ chronicle.past, one.stands = some (revision, text))
    (hoth : ∃ other ∈ chronicle.past, other.stands = some (revision, text'))
    (hdif : text ≠ text') : ¬ chronicle.Identified samples := by
  obtain ⟨one, hmem, hstds⟩ := hone
  obtain ⟨other, hmem', hstds'⟩ := hoth
  obtain ⟨job, hjob, hrow⟩ := map_eq_some_iff.mp hstds
  obtain ⟨job', hjob', hrow'⟩ := map_eq_some_iff.mp hstds'
  obtain ⟨rfl, rfl⟩ := Prod.mk.inj hrow
  obtain ⟨hrev, rfl⟩ := Prod.mk.inj hrow'
  intro hiden
  exact hdif (hiden.states one hmem other hmem' "job" job job' hjob hjob' hrev.symm).1

end Sample

end WasmAgent.Jobs
