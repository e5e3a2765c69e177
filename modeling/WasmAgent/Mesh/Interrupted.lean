import WasmAgent.Mesh.Push
import WasmAgent.Mesh.Replay

/-!
# Interrupted pushes

Between the policy and the roster the node reads the new key with whatever lies where the
roster is to go.  That is harmless if it is the roster that the node decides by, or the one
that is pushed, or nothing that the new key verifies at a node that decides by its pins.
-/

namespace WasmAgent.Mesh

open List Option WasmAgent.Core

variable {crates : PushCrates} {fallback : String} {request : PushRequest} {now time : UInt64}
variable {writes : PushWrites} {disk : NodeDisk} {plan : PushPlan}

def stages (plan : PushPlan) (disk : NodeDisk) : List NodeDisk :=
  [disk, backUp plan disk, pin plan (backUp plan disk), place plan (pin plan (backUp plan disk)),
    enable (place plan (pin plan (backUp plan disk)))]

/-- The disk after the last write. -/
def completed (plan : PushPlan) (disk : NodeDisk) : NodeDisk :=
  enable (place plan (pin plan (backUp plan disk)))

def SameAdmission (crates : PushCrates) (fallback : String) (first second : NodeDisk) : Prop :=
  ∀ time, admission crates fallback first time = admission crates fallback second time

/-- Wherever the push stops, the node decides as before or as after. -/
def CrashSafe (crates : PushCrates) (fallback : String) (request : PushRequest) (now : UInt64)
    (disk : NodeDisk) : Prop :=
  ∀ plan, planPush crates request now disk = .ok plan → ∀ stage ∈ stages plan disk,
    SameAdmission crates fallback stage disk ∨
      SameAdmission crates fallback stage (completed plan disk)

def RefusesInertly (crates : PushCrates) (request : PushRequest) (now : UInt64)
    (writes : PushWrites) (disk : NodeDisk) : Prop :=
  ∀ refusal after, install crates request now writes disk = (.error refusal, after) → after = disk

def Verifiable (crates : PushCrates) (roster : Roster) (key : String) : Prop :=
  ∃ time, roster.verify crates.signatures key time = .ok ()

def lyingRoster (crates : PushCrates) (disk : NodeDisk) : Option Roster :=
  disk.roster.bind (fun text => (parseRoster crates text).toOption)

def sectionOf (disk : NodeDisk) : List (String × Json) :=
  match disk.policy with
  | .document value =>
      match value.field? "mesh" with
      | some (.object fields) => fields
      | _ => []
  | _ => []

def Settled (crates : PushCrates) (fallback : String) (plan : PushPlan) (disk : NodeDisk) : Prop :=
  (∀ lying, lyingRoster crates disk = some lying → Verifiable crates lying plan.key →
    lying = plan.roster ∨
      ∃ time grants, admission crates fallback disk time = some (lying, grants)) ∧
  ((∀ lying, lyingRoster crates disk = some lying → ¬ Verifiable crates lying plan.key) →
    ∀ time, admission crates fallback disk time = none)

/-- No write fails after one that changed a file. -/
def WritesWhole (plan : PushPlan) (writes : PushWrites) (disk : NodeDisk) : Prop :=
  (plan.backup.isSome = true → writes.backup = .ok ()) →
    (writes.policy ≠ .ok () → backUp plan disk = disk) ∧
      (writes.policy = .ok () → writes.roster ≠ .ok () → pin plan (backUp plan disk) = disk)

section Verifying

theorem verify_transfer {roster : Roster} {first second : String} {early : UInt64}
    (hfst : roster.verify crates.signatures first early = .ok ())
    (hsnd : roster.verify crates.signatures second time = .ok ()) :
    roster.verify crates.signatures first time = .ok () := by
  rw [Roster.verify] at hfst hsnd ⊢
  by_cases hemp : (Queue.trim first.toList).isEmpty = true
  · rw [if_pos hemp] at hfst
    cases hfst
  rw [if_neg hemp] at hfst ⊢
  by_cases hoth : (Queue.trim second.toList).isEmpty = true
  · rw [if_pos hoth] at hsnd
    cases hsnd
  rw [if_neg hoth] at hsnd
  cases hhex : checkHex "mesh.roster_key" first 64 with
  | error why =>
    rw [hhex] at hfst
    cases hfst
  | ok _ =>
    cases hhexOther : checkHex "mesh.roster_key" second 64 with
    | error why =>
      rw [hhexOther] at hsnd
      cases hsnd
    | ok _ =>
      rw [hhex] at hfst
      rw [hhexOther] at hsnd
      by_cases hsig : (!crates.signatures.verify first roster.canonical roster.signature) = true
      · rw [if_pos hsig] at hfst
        cases hfst
      rw [if_neg hsig]
      by_cases hsignedOther : (!crates.signatures.verify second roster.canonical
          roster.signature) = true
      · rw [if_pos hsignedOther] at hsnd
        cases hsnd
      · rw [if_neg hsignedOther] at hsnd
        exact hsnd

theorem ruling_some {roster : Roster} {policy : MeshPolicy}
    (hok : roster.verify crates.signatures policy.rosterKey time = .ok ()) :
    ruling crates (some (roster, policy)) time = some (roster, policy.grants) := by
  rw [ruling, hok]

variable {files : Option (Roster × MeshPolicy)}

theorem ruling_eq_some_iff {roster : Roster} {grants : List MeshGrant} :
    ruling crates files time = some (roster, grants) ↔ ∃ policy, files = some (roster, policy) ∧
      policy.grants = grants ∧
      roster.verify crates.signatures policy.rosterKey time = .ok () := by
  cases files with
  | none =>
    constructor
    · intro hoth
      cases hoth
    · intro hoth
      cases hoth.choose_spec.1
  | some files =>
    obtain ⟨found, policy⟩ := files
    rw [ruling]
    cases hver : found.verify crates.signatures policy.rosterKey time with
    | error why =>
      constructor
      · intro hoth
        cases hoth
      intro hoth
      obtain ⟨_, hfs, -, hok⟩ := hoth
      cases hfs
      cases hver.symm.trans hok
    | ok _ =>
      constructor
      · intro hsame
        cases hsame
        exact ⟨policy, rfl, rfl, hver⟩
      intro hoth
      obtain ⟨_, hfs, rfl, -⟩ := hoth
      cases hfs
      rfl

theorem ruling_eq_none (hnever : ∀ roster policy, files = some (roster, policy) →
      ¬ Verifiable crates roster policy.rosterKey) (time : UInt64) :
    ruling crates files time = none := by
  cases hrul : ruling crates files time with
  | none => rfl
  | some decided =>
    obtain ⟨policy, hfs, -, hok⟩ := ruling_eq_some_iff.mp hrul
    exact absurd ⟨time, hok⟩ (hnever decided.1 policy hfs)

end Verifying

section Meaning

variable {calls : Crates} {inbound : Inbound} {nodeId : String} {roster : Roster}
variable {first second : MeshPolicy}

/-- A request that arrives at a node with these files. -/
def arrivalAt (crates : PushCrates) (fallback : String) (disk : NodeDisk) (inbound : Inbound)
    (time : UInt64) (nodeId : String) : Arrival :=
  ⟨inbound, time, (load crates fallback disk).elim (.error "") .ok, nodeId⟩

/-- An admission without the words of why the pins decide. -/
def Admission.wordless : Admission → Admission
  | .legacy body headers _ => .legacy body headers ""
  | other => other

end Meaning

section Planning

/-- What a push that passed its checks found. -/
structure Planned (crates : PushCrates) (now : UInt64) (disk : NodeDisk) (plan : PushPlan) :
    Prop where
  readable : parseRoster crates plan.text = .ok plan.roster
  verified : plan.roster.verify crates.signatures plan.key now = .ok ()
  merged : ∃ fields, plan.merged =
    .object (insertField "mesh" (.object (mergeSection (sectionOf disk) plan.key)) fields)

theorem mergePolicy_ok {fields : List (String × Json)} {key : String} {merged : Json}
    (hmerge : mergePolicy (.object fields) key = .ok merged) :
    ∃ found, (((Json.object fields).field? "mesh" = none ∧ found = []) ∨
        (Json.object fields).field? "mesh" = some (.object found)) ∧
      merged = .object (insertField "mesh" (.object (mergeSection found key)) fields) := by
  rw [mergePolicy] at hmerge
  cases hmesh : (Json.object fields).field? "mesh" with
  | none =>
    rw [hmesh] at hmerge
    cases hmerge
    exact ⟨[], .inl ⟨rfl, rfl⟩, rfl⟩
  | some value =>
    rw [hmesh] at hmerge
    cases value with
    | object found =>
      cases hmerge
      exact ⟨found, .inr rfl, rfl⟩
    | null | bool | number | string | array => cases hmerge

theorem readPolicy_ok {file : PolicyFile} {policy : Json} {backup : Option Json}
    (hread : readPolicy file = .ok (policy, backup)) :
    (file = .absent ∧ policy = .object [] ∧ backup = none) ∨
      ∃ fields, file = .document (.object fields) ∧ policy = .object fields ∧
        backup = some (.object fields) := by
  cases file with
  | absent =>
    cases hread
    exact .inl ⟨rfl, rfl, rfl⟩
  | unreadable why => cases hread
  | document value =>
    cases value with
    | object fields =>
      cases hread
      exact .inr ⟨fields, rfl, rfl, rfl⟩
    | null | bool | number | string | array => cases hread

theorem mapError_ok {First Second Value : Type} {answer : Except First Value}
    {change : First → Second} {value : Value} (hok : answer.mapError change = .ok value) :
    answer = .ok value := by
  cases answer with
  | error why => cases hok
  | ok found =>
    cases hok
    rfl

theorem planned_of_ok (hplan : planPush crates request now disk = .ok plan) :
    Planned crates now disk plan := by
  rw [planPush] at hplan
  split at hplan
  · cases hplan
  split at hplan
  · cases hplan
  obtain ⟨roster, hros, hplan⟩ := bind_eq_ok.mp hplan
  obtain ⟨_, hver, hplan⟩ := bind_eq_ok.mp hplan
  split at hplan
  · cases hplan
  obtain ⟨⟨policy, backup⟩, hread, hplan⟩ := bind_eq_ok.mp hplan
  obtain ⟨_, -, hplan⟩ := bind_eq_ok.mp hplan
  obtain ⟨merged, hmerge, hplan⟩ := bind_eq_ok.mp hplan
  have hsame := Except.ok.inj hplan
  rw [← hsame]
  refine ⟨mapError_ok hros, mapError_ok hver, ?_⟩
  cases readPolicy_ok (mapError_ok hread) with
  | inl habs =>
    obtain ⟨hfile, rfl, -⟩ := habs
    obtain ⟨found, hmesh, hmer⟩ := mergePolicy_ok (mapError_ok hmerge)
    have hfnd : found = [] := by
      cases hmesh with
      | inl hnone => exact hnone.2
      | inr hsome => cases hsome
    refine ⟨[], hmer.trans ?_⟩
    rw [sectionOf, hfile, hfnd]
  | inr hdoc =>
    obtain ⟨fields, hfile, rfl, -⟩ := hdoc
    obtain ⟨found, hmesh, hmer⟩ := mergePolicy_ok (mapError_ok hmerge)
    refine ⟨fields, hmer.trans ?_⟩
    rw [sectionOf, hfile]
    cases hmesh with
    | inl hnone =>
      dsimp only
      rw [hnone.1, hnone.2]
    | inr hsome =>
      dsimp only
      rw [hsome]

theorem keyOk_of_verify {roster : Roster} {key : String}
    (hok : roster.verify crates.signatures key time = .ok ()) : keyOk key = true := by
  rw [Roster.verify] at hok
  split at hok
  · cases hok
  obtain ⟨_, hhex, -⟩ := bind_eq_ok.mp hok
  rw [checkHex] at hhex
  split at hhex
  · cases hhex
  rename_i hlen
  split at hhex
  · cases hhex
  rename_i hdig
  rw [Bool.or_eq_true, not_or, Bool.not_eq_true, List.any_eq_false] at hdig
  rw [keyOk, not_not.mp hlen, decide_eq_true rfl, Bool.true_and, Bool.or_eq_true]
  right
  apply List.all_eq_true.mpr
  intro char hchar
  have hdigit := hdig.1 char hchar
  rwa [Bool.not_eq_true, Option.isNone_eq_false_iff] at hdigit

theorem grantsOf_mergeSection (found : List (String × Json)) (key : String) :
    grantsOf (mergeSection found key) = grantsOf found := by
  have hknw : ∀ name value fields, name ∈ sectionFields →
      (insertField name value fields).all (fun field => Decidable.decide (field.1 ∈ sectionFields)) =
        fields.all (fun field => Decidable.decide (field.1 ∈ sectionFields)) := by
    intro name value fields hname
    exact @all_insertField (fun name => Decidable.decide (name ∈ sectionFields)) name (decide_eq_true hname)
      value fields
  have hgran : (Json.object (mergeSection found key)).field? "grants" =
      (Json.object found).field? "grants" := by
    rw [mergeSection, field?_insertField, if_neg (by decide), field?_insertField,
      if_neg (by decide), field?_insertField, if_neg (by decide), field?_insertField,
      if_neg (by decide)]
  rw [grantsOf, grantsOf, hgran, mergeSection, hknw _ _ _ (by decide),
    hknw _ _ _ (by decide), hknw _ _ _ (by decide), hknw _ _ _ (by decide)]

theorem readSection_merged {found : List (String × Json)} {key : String} (hkey : keyOk key = true) :
    readSection (.object (mergeSection found key)) =
      (grantsOf found).map (fun grants => ⟨⟨key, grants⟩, some rosterFile⟩) := by
  have hver : (Json.object (mergeSection found key)).field? "version" =
      some (.number (.unsigned 1)) := by
    rw [mergeSection, field?_insertField, if_neg (by decide), field?_insertField,
      if_neg (by decide), field?_insertField, if_neg (by decide), field?_insertField, if_pos rfl]
  have hpin : (Json.object (mergeSection found key)).field? "roster_key" = some (.string key) := by
    rw [mergeSection, field?_insertField, if_neg (by decide), field?_insertField,
      if_neg (by decide), field?_insertField, if_pos rfl]
  have hena : (Json.object (mergeSection found key)).field? "enabled" = some (.bool true) := by
    rw [mergeSection, field?_insertField, if_neg (by decide), field?_insertField, if_pos rfl]
  have hros : (Json.object (mergeSection found key)).field? "roster" =
      some (.string rosterFile) := by
    rw [mergeSection, field?_insertField, if_pos rfl]
  rw [readSection, grantsOf_mergeSection, hver, hpin, hena, hros]
  cases grantsOf found with
  | none => rfl
  | some grants =>
    change (if (1 : UInt64) = 1 && keyOk key then _ else _) = _
    rw [hkey]
    rfl

theorem load_grants {roster : Roster} {policy : MeshPolicy}
    (hload : load crates fallback disk = some (roster, policy)) :
    grantsOf (sectionOf disk) = some policy.grants := by
  have hemp : grantsOf [] = some [] := rfl
  rw [load] at hload
  rw [sectionOf]
  cases hpol : disk.policy with
  | absent =>
    rw [hpol] at hload
    cases hload
  | unreadable why =>
    rw [hpol] at hload
    cases hload
  | document value =>
    rw [hpol] at hload
    obtain ⟨found, hfnd, hload⟩ := bind_eq_some_iff.mp hload
    obtain ⟨text, -, hload⟩ := bind_eq_some_iff.mp hload
    obtain ⟨_, -, hload⟩ := bind_eq_some_iff.mp hload
    cases hload
    rw [readPolicyText] at hfnd
    dsimp only
    cases hmesh : value.field? "mesh" with
    | none =>
      rw [hmesh] at hfnd
      cases hfnd
      exact hemp
    | some mesh =>
      rw [hmesh] at hfnd
      cases mesh with
      | null =>
        cases hfnd
        exact hemp
      | object fields =>
        obtain ⟨grants, hgran, hfnd⟩ := bind_eq_some_iff.mp hfnd
        obtain ⟨_, -, hfnd⟩ := bind_eq_some_iff.mp hfnd
        obtain ⟨_, -, hfnd⟩ := bind_eq_some_iff.mp hfnd
        obtain ⟨_, -, hfnd⟩ := bind_eq_some_iff.mp hfnd
        obtain ⟨_, -, hfnd⟩ := bind_eq_some_iff.mp hfnd
        split at hfnd
        · cases hfnd
          exact hgran
        · cases hfnd
      | bool | number | string | array => cases hfnd

theorem load_pin (hplnd : Planned crates now disk plan) (middle : NodeDisk) :
    load crates fallback (pin plan middle) =
      (grantsOf (sectionOf disk)).bind (fun grants => (lyingRoster crates middle).map
        (fun roster => (roster, ⟨plan.key, grants⟩))) := by
  obtain ⟨fields, hmer⟩ := hplnd.merged
  have hread : readPolicyText plan.merged = (grantsOf (sectionOf disk)).map
      (fun grants => ⟨⟨plan.key, grants⟩, some rosterFile⟩) := by
    rw [hmer, readPolicyText, field?_insertField, if_pos rfl]
    exact readSection_merged (keyOk_of_verify hplnd.verified)
  have hpath : rosterPath fallback (some rosterFile) = rosterFile := by
    have htrim : trimmed rosterFile = rosterFile := by decide
    rw [rosterPath, htrim]
    rfl
  have hfile : fileAt (pin plan middle) rosterFile = middle.roster := if_pos rfl
  change (readPolicyText plan.merged).bind _ = _
  rw [hread, lyingRoster]
  cases grantsOf (sectionOf disk) with
  | none => rfl
  | some grants =>
    change (fileAt (pin plan middle) (rosterPath fallback (some rosterFile))).bind _ =
      (middle.roster.bind _).map _
    rw [hpath, hfile]
    cases middle.roster with
    | none => rfl
    | some text =>
      change (parseRoster crates text).toOption.bind _ = (parseRoster crates text).toOption.map _
      cases (parseRoster crates text).toOption <;> rfl

theorem load_backUp (plan : PushPlan) (disk : NodeDisk) :
    load crates fallback (backUp plan disk) = load crates fallback disk := by
  rw [backUp]
  cases plan.backup <;> rfl

theorem lyingRoster_backUp (plan : PushPlan) (disk : NodeDisk) :
    lyingRoster crates (backUp plan disk) = lyingRoster crates disk := by
  rw [backUp]
  cases plan.backup <;> rfl

theorem lyingRoster_place (hplnd : Planned crates now disk plan) (middle : NodeDisk) :
    lyingRoster crates (place plan middle) = some plan.roster := by
  change (parseRoster crates plan.text).toOption = _
  rw [hplnd.readable]
  rfl

end Planning

section Deciding

/-- Between the writes a node decides as it did, or as it will, exactly if the roster that lies
where the pushed one goes makes no difference. -/
theorem crashSafe_of_planned_iff (hplnd : Planned crates now disk plan) :
    (∀ stage ∈ stages plan disk, SameAdmission crates fallback stage disk ∨
      SameAdmission crates fallback stage (completed plan disk)) ↔
      ∀ grants, grantsOf (sectionOf disk) = some grants → Settled crates fallback plan disk := by
  have hbac : SameAdmission crates fallback (backUp plan disk) disk := by
    intro time
    rw [admission, admission, load_backUp]
  have hplace : place plan (pin plan (backUp plan disk)) =
      pin plan (place plan (backUp plan disk)) := rfl
  have hplcd : SameAdmission crates fallback (place plan (pin plan (backUp plan disk)))
      (completed plan disk) := fun _ => rfl
  have hmid : ∀ time, admission crates fallback (pin plan (backUp plan disk)) time =
      ruling crates ((grantsOf (sectionOf disk)).bind (fun grants =>
        (lyingRoster crates disk).map (fun roster => (roster, ⟨plan.key, grants⟩)))) time := by
    intro time
    rw [admission, load_pin hplnd, lyingRoster_backUp]
  have hlast : ∀ time, admission crates fallback (completed plan disk) time =
      ruling crates ((grantsOf (sectionOf disk)).map
        (fun grants => (plan.roster, ⟨plan.key, grants⟩))) time := by
    intro time
    rw [← hplcd time, hplace, admission, load_pin hplnd, lyingRoster_place hplnd]
    cases grantsOf (sectionOf disk) <;> rfl
  have hall : (∀ stage ∈ stages plan disk, SameAdmission crates fallback stage disk ∨
      SameAdmission crates fallback stage (completed plan disk)) ↔
      SameAdmission crates fallback (pin plan (backUp plan disk)) disk ∨
        SameAdmission crates fallback (pin plan (backUp plan disk)) (completed plan disk) := by
    constructor
    · intro hstag
      exact hstag _ (by rw [stages]; simp only [mem_cons, true_or, or_true])
    intro hpin stage hstage
    rw [stages] at hstage
    simp only [mem_cons, not_mem_nil, or_false] at hstage
    obtain rfl | rfl | rfl | rfl | rfl := hstage
    · exact .inl (fun _ => rfl)
    · exact .inl hbac
    · exact hpin
    · exact .inr hplcd
    · exact .inr (fun _ => rfl)
  rw [hall]
  cases hgran : grantsOf (sectionOf disk) with
  | none =>
    rw [hgran] at hmid
    constructor
    · intro _ _ hoth
      cases hoth
    intro _
    left
    intro time
    rw [hmid, admission]
    cases hload : load crates fallback disk with
    | none => rfl
    | some files => cases hgran.symm.trans (load_grants hload)
  | some grants =>
    rw [hgran] at hmid hlast
    have hnow := hlast now
    change _ = ruling crates (some (plan.roster, _)) now at hnow
    rw [@ruling_some crates now plan.roster ⟨plan.key, grants⟩ hplnd.verified] at hnow
    have hlying : ∀ lying, lyingRoster crates disk = some lying → ∀ time,
        admission crates fallback (pin plan (backUp plan disk)) time =
          ruling crates (some (lying, ⟨plan.key, grants⟩)) time := by
      intro lying hsome time
      rw [hmid, hsome]
      rfl
    have hpins : (∀ lying, lyingRoster crates disk = some lying →
        ¬ Verifiable crates lying plan.key) → ∀ time,
        admission crates fallback (pin plan (backUp plan disk)) time = none := by
      intro hnever time
      rw [hmid]
      apply ruling_eq_none
      intro roster policy hfs
      obtain ⟨lying, hsome, hpair⟩ := map_eq_some_iff.mp hfs
      cases hpair
      exact hnever roster hsome
    constructor
    · intro hsame _ _
      constructor
      · intro lying hsome hverif
        obtain ⟨time, hok⟩ := hverif
        have hdecid : admission crates fallback (pin plan (backUp plan disk)) time =
            some (lying, grants) := by
          rw [hlying lying hsome]
          exact @ruling_some crates time lying ⟨plan.key, grants⟩ hok
        cases hsame with
        | inl hbef => exact .inr ⟨time, grants, (hbef time).symm.trans hdecid⟩
        | inr haft =>
          left
          have hpus := (haft time).symm.trans hdecid
          rw [hlast] at hpus
          obtain ⟨_, hfs, -⟩ := ruling_eq_some_iff.mp hpus
          cases hfs
          rfl
      intro hnever time
      cases hsame with
      | inl hbef => exact (hbef time).symm.trans (hpins hnever time)
      | inr haft =>
        have hnone := (haft now).symm.trans (hpins hnever now)
        cases hnow.symm.trans hnone
    intro hsetd
    obtain ⟨hverif, hnever⟩ := hsetd grants rfl
    by_cases hsome : ∃ lying, lyingRoster crates disk = some lying ∧
        Verifiable crates lying plan.key
    · obtain ⟨lying, hsome, early, hely⟩ := hsome
      cases hverif lying hsome ⟨early, hely⟩ with
      | inl hpus =>
        right
        intro time
        rw [hlying lying hsome, hlast, hpus]
        rfl
      | inr hdecid =>
        left
        obtain ⟨moment, held, hdecid⟩ := hdecid
        obtain ⟨policy, hload, hheld, hmom⟩ := ruling_eq_some_iff.mp hdecid
        have hsame : grants = policy.grants := by
          cases hgran.symm.trans (load_grants hload)
          rfl
        intro time
        rw [hlying lying hsome, admission, hload]
        cases hown : ruling crates (some (lying, policy)) time with
        | some decided =>
          obtain ⟨_, hfs, hdec, hok⟩ := ruling_eq_some_iff.mp hown
          cases hfs
          have hpair : decided = (decided.1, grants) := Prod.ext rfl (hdec.symm.trans hsame.symm)
          rw [hpair]
          exact @ruling_some crates time decided.1 ⟨plan.key, grants⟩ (verify_transfer hely hok)
        | none =>
          cases hoth : ruling crates (some (lying, ⟨plan.key, grants⟩)) time with
          | none => rfl
          | some decided =>
            obtain ⟨_, hfs, -, hok⟩ := ruling_eq_some_iff.mp hoth
            cases hfs
            have hfnd := ruling_some (verify_transfer hmom hok)
            rw [hown] at hfnd
            cases hfnd
    left
    have hnone : ∀ lying, lyingRoster crates disk = some lying →
        ¬ Verifiable crates lying plan.key := fun lying hlies hver =>
      hsome ⟨lying, hlies, hver⟩
    intro time
    rw [hpins hnone, hnever hnone]

end Deciding

section Refusing

theorem writeAtomic_run (answer : Except String Unit) (code : String)
    (change : NodeDisk → NodeDisk) (disk : NodeDisk) :
    (answer = .ok () ∧ writeAtomic answer code change disk = (.ok (), change disk)) ∨
      ∃ refusal, answer ≠ .ok () ∧ writeAtomic answer code change disk = (.error refusal, disk) := by
  cases answer with
  | ok _ => exact .inl ⟨rfl, rfl⟩
  | error why => exact .inr ⟨⟨code, why⟩, nofun, rfl⟩

theorem install_run (hplan : planPush crates request now disk = .ok plan) :
    (∃ refusal, plan.backup.isSome = true ∧ writes.backup ≠ .ok () ∧
        install crates request now writes disk = (.error refusal, disk)) ∨
      (plan.backup.isSome = true → writes.backup = .ok ()) ∧
        ((∃ refusal, writes.policy ≠ .ok () ∧
            install crates request now writes disk = (.error refusal, backUp plan disk)) ∨
          (∃ refusal, writes.policy = .ok () ∧ writes.roster ≠ .ok () ∧
            install crates request now writes disk =
              (.error refusal, pin plan (backUp plan disk))) ∨
          (writes.policy = .ok () ∧ writes.roster = .ok () ∧ ∃ installed after,
            install crates request now writes disk = (.ok installed, after))) := by
  have hread : (Effect.lift (planPush crates request now disk) :
      Effect NodeDisk Refusal PushPlan) disk = (.ok plan, disk) := by
    rw [Effect.lift, hplan]
  have hinst : install crates request now writes disk = carryOut writes plan disk :=
    Effect.bind_of_ok hread
  have hrun : carryOut writes plan disk = ((if plan.backup.isSome then
        writeAtomic writes.backup "policy_backup_failed" (backUp plan) else pure ()) >>= fun _ =>
      writeAtomic writes.policy "policy_write_failed" (pin plan) >>= fun _ =>
      writeAtomic writes.roster "roster_write_failed" (place plan) >>= fun _ =>
      enableEnv writes >>= fun env => pure (answerOf plan env) :
        Effect NodeDisk Refusal Installed) disk := by
    rw [carryOut]
    cases plan.backup <;> rfl
  rw [hinst]
  have hbac : (plan.backup.isSome = true → writes.backup = .ok ()) →
      (if plan.backup.isSome then writeAtomic writes.backup "policy_backup_failed" (backUp plan)
        else pure () : Effect NodeDisk Refusal Unit) disk = (.ok (), backUp plan disk) := by
    intro hok
    cases hsome : plan.backup with
    | none =>
      rw [backUp, hsome]
      rfl
    | some document =>
      rw [hsome] at hok
      rw [hok rfl]
      rfl
  by_cases hfls : plan.backup.isSome = true ∧ writes.backup ≠ .ok ()
  · left
    rw [hrun, if_pos hfls.1]
    cases writeAtomic_run writes.backup "policy_backup_failed" (backUp plan) disk with
    | inl hok => exact absurd hok.1 hfls.2
    | inr href =>
      obtain ⟨refusal, -, hwr⟩ := href
      exact ⟨refusal, hfls.1, hfls.2, Effect.bind_of_error hwr⟩
  have hok : plan.backup.isSome = true → writes.backup = .ok () := by
    intro hsome
    by_contra hoth
    exact hfls ⟨hsome, hoth⟩
  refine .inr ⟨hok, ?_⟩
  rw [hrun, Effect.bind_of_ok (hbac hok)]
  cases writeAtomic_run writes.policy "policy_write_failed" (pin plan) (backUp plan disk) with
  | inr href =>
    obtain ⟨refusal, hpol, hwr⟩ := href
    exact .inl ⟨refusal, hpol, Effect.bind_of_error hwr⟩
  | inl hpin =>
    right
    rw [Effect.bind_of_ok hpin.2]
    cases writeAtomic_run writes.roster "roster_write_failed" (place plan)
        (pin plan (backUp plan disk)) with
    | inr href =>
      obtain ⟨refusal, hros, hwr⟩ := href
      exact .inl ⟨refusal, hpin.1, hros, Effect.bind_of_error hwr⟩
    | inl hplcd =>
      right
      rw [Effect.bind_of_ok hplcd.2]
      refine ⟨hpin.1, hplcd.1, ?_⟩
      have henv : ∀ reached : NodeDisk, ∃ answer after,
          (enableEnv writes : Effect NodeDisk Refusal (String × Bool)) reached =
            (.ok answer, after) := fun reached => ⟨_, _, rfl⟩
      obtain ⟨answer, after, hans⟩ := henv (place plan (pin plan (backUp plan disk)))
      rw [Effect.bind_of_ok hans]
      exact ⟨_, after, rfl⟩

theorem install_refused {refusal : Refusal}
    (hplan : planPush crates request now disk = .error refusal) :
    install crates request now writes disk = (.error refusal, disk) := by
  have hread : (Effect.lift (planPush crates request now disk) :
      Effect NodeDisk Refusal PushPlan) disk = (.error refusal, disk) := by
    rw [Effect.lift, hplan]
  change ((Effect.lift (planPush crates request now disk) :
    Effect NodeDisk Refusal PushPlan) >>= _) disk = _
  exact Effect.bind_of_error hread

theorem refusesInertly_iff : RefusesInertly crates request now writes disk ↔
    ∀ plan, planPush crates request now disk = .ok plan → WritesWhole plan writes disk := by
  cases hplan : planPush crates request now disk with
  | error refusal =>
    constructor
    · intro _ _ hoth
      cases hoth
    intro _ refusal after hinst
    rw [install_refused hplan] at hinst
    cases hinst
    rfl
  | ok plan =>
    have hrun := @install_run crates request now writes disk plan hplan
    constructor
    · intro hinert _ hsame
      cases hsame
      intro hbac
      cases hrun with
      | inl hfls =>
        obtain ⟨_, hsome, hoth, -⟩ := hfls
        exact absurd (hbac hsome) hoth
      | inr hwrs =>
        constructor
        · intro hpol
          obtain ⟨_, hfls⟩ | ⟨_, hok, -⟩ | hdone := hwrs.2
          · exact hinert _ _ hfls.2
          · exact absurd hok hpol
          · exact absurd hdone.1 hpol
        intro hpol hros
        obtain ⟨_, hfls⟩ | ⟨_, -, -, hfls⟩ | hdone := hwrs.2
        · exact absurd hpol hfls.1
        · exact hinert _ _ hfls
        · exact absurd hdone.2.1 hros
    intro hwhole refusal after hinst
    cases hrun with
    | inl hfls =>
      obtain ⟨_, -, -, hfls⟩ := hfls
      rw [hfls] at hinst
      cases hinst
      rfl
    | inr hwrs =>
      obtain ⟨hbac, hwrs⟩ := hwrs
      obtain ⟨hpol, hros⟩ := hwhole plan rfl hbac
      obtain ⟨_, hoth, hfls⟩ | ⟨_, hok, hoth, hfls⟩ | ⟨-, -, _, _, hdone⟩ := hwrs
      · rw [hfls] at hinst
        cases hinst
        exact hpol hoth
      · rw [hfls] at hinst
        cases hinst
        exact hros hok hoth
      · rw [hdone] at hinst
        cases hinst

end Refusing

section Reanchoring

/-- A fleet of one node. -/
def homeRoster : Roster := ⟨1, "home", 0, 0, [oracle], "f5f5f5f5f5f5f5f5"⟩

def abroadKey : String := "e1e1e1e1e1e1e1e1e1e1e1e1e1e1e1e1e1e1e1e1e1e1e1e1e1e1e1e1e1e1e1e1"

def abroadRoster : Roster := ⟨1, "abroad", 0, 0, [oracle], "e5e5e5e5e5e5e5e5"⟩

/-- Both rosters are signed, and the old key signed the statement that names the new one. -/
def anchorCrates : PushCrates where
  signatures := ⟨fun message =>
    if message = utf8 homeRoster.canonical then
      some (List.replicate 32 0xf1, List.replicate 8 0xf5)
    else if message = utf8 abroadRoster.canonical then
      some (List.replicate 32 0xe1, List.replicate 8 0xe5)
    else some (List.replicate 32 0xf1, List.replicate 8 0xaa)⟩
  readRoster text :=
    if text = "home" then .ok homeRoster
    else if text = "abroad" then .ok abroadRoster
    else .error "expected value"

def homeDisk : NodeDisk where
  policy := .document (.object [("mesh", .object [("roster_key", .string fleetKey),
    ("version", .number (.unsigned 1))])])
  backup := none
  roster := some "home"
  env := none
  elsewhere _ := none

def anchorRequest : PushRequest :=
  ⟨"/home/node/.wasm-agent", "abroad", abroadKey, oracle.nodeId, some "aaaaaaaaaaaaaaaa"⟩

end Reanchoring

end WasmAgent.Mesh
