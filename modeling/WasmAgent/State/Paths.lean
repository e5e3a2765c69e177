import WasmAgent.State.Listing
import WasmAgent.State.Registry

/-!
# What a plan is

The path from one version to another begins at the one, ends at the other, and goes
one version at a time: what is left of it after its first step is the path from
where that step leads.
-/

namespace WasmAgent.State

open List Std WasmAgent.Core

section Lists

variable {Item Value Fault : Type} {make : Item → Except Fault Value}
variable {items : List Item} {values : List Value}

theorem mapM_cons_eq_ok {item : Item} :
    (item :: items).mapM make = .ok values ↔
      ∃ value rest, values = value :: rest ∧ make item = .ok value ∧
        items.mapM make = .ok rest := by
  rw [mapM_cons]
  constructor
  · intro hok
    obtain ⟨value, hval, hok⟩ := bind_eq_ok.mp hok
    obtain ⟨rest, hrest, hok⟩ := bind_eq_ok.mp hok
    cases hok
    exact ⟨value, rest, rfl, hval, hrest⟩
  · rintro ⟨value, rest, rfl, hval, hrest⟩
    rw [hval, ok_bind, hrest]
    rfl

theorem mapM_congr_ok {other : Item → Except Fault Value}
    (hsame : ∀ item value, make item = .ok value ↔ other item = .ok value) :
    items.mapM make = .ok values ↔ items.mapM other = .ok values := by
  induction items generalizing values with
  | nil => rfl
  | cons item items ih => simp only [mapM_cons_eq_ok, hsame, ih]

theorem length_of_mapM (hval : items.mapM make = .ok values) : values.length = items.length := by
  induction items generalizing values with
  | nil =>
    cases hval
    rfl
  | cons item items ih =>
    obtain ⟨value, rest, rfl, -, hrest⟩ := mapM_cons_eq_ok.mp hval
    rw [length_cons, length_cons, ih hrest]

end Lists

variable {steps : List PlannedStep}

namespace Registry

variable {registry : Registry} {first last : UInt32} {version : UInt32}

theorem planUp_ok_iff {planned : PlannedStep} :
    registry.planUp first last version = .ok planned ↔
      registry.step version = some planned.step ∧ planned.direction = .up := by
  rw [planUp]
  cases registry.step version with
  | none =>
    constructor
    · intro hok
      cases hok
    · rintro ⟨hstep, -⟩
      cases hstep
  | some step =>
    constructor
    · intro hok
      cases hok
      exact ⟨rfl, rfl⟩
    rintro ⟨hstep, hdir⟩
    obtain ⟨other, direction⟩ := planned
    cases hstep
    cases hdir
    rfl

theorem planDown_ok_iff {planned : PlannedStep} :
    registry.planDown first last version = .ok planned ↔
      registry.step version = some planned.step ∧ planned.step.hasDown = true ∧
        planned.direction = .down := by
  rw [planDown]
  cases registry.step version with
  | none =>
    constructor
    · intro hok
      cases hok
    · rintro ⟨hstep, -⟩
      cases hstep
  | some step =>
    dsimp only
    cases hdown : step.hasDown with
    | false =>
      constructor
      · intro hok
        cases hok
      rintro ⟨hstep, hhas, -⟩
      cases hstep
      rw [hdown] at hhas
      cases hhas
    | true =>
      constructor
      · intro hok
        cases hok
        exact ⟨rfl, hdown, rfl⟩
      rintro ⟨hstep, -, hdir⟩
      obtain ⟨other, direction⟩ := planned
      cases hstep
      cases hdir
      rfl

theorem versions_self (version : UInt32) : versions version version = [] := by
  rw [versions, Nat.sub_self]
  rfl

theorem toNat_succ (hless : version < last) : (version + 1).toNat = version.toNat + 1 := by
  have hlast := last.toNat_lt
  rw [UInt32.lt_iff_toNat_lt] at hless
  rw [UInt32.toNat_add, show (1 : UInt32).toNat = 1 from rfl]
  exact Nat.mod_eq_of_lt (by omega)

theorem versions_cons (hless : first < last) :
    versions first last = first :: versions (first + 1) last := by
  have hsucc := toNat_succ hless
  rw [UInt32.lt_iff_toNat_lt] at hless
  have hlen : last.toNat - first.toNat = (last.toNat - (first + 1).toNat) + 1 := by
    omega
  rw [versions, versions, hlen, range'_succ, map_cons, hsucc, UInt32.ofNat_toNat]

theorem versions_concat (hle : first ≤ last) (hnext : last < last + 1) :
    versions first (last + 1) = versions first last ++ [last] := by
  have hsucc := toNat_succ hnext
  rw [UInt32.le_iff_toNat_le] at hle
  have hlen : (last + 1).toNat - first.toNat = (last.toNat - first.toNat) + 1 := by
    omega
  rw [versions, versions, hlen, range'_concat, map_append, Nat.one_mul,
    Nat.add_sub_cancel' hle, map_singleton, UInt32.ofNat_toNat]

structure Offers (registry : Registry) (planned : PlannedStep) : Prop where
  step : registry.step planned.step.fromVersion = some planned.step
  down : planned.direction = .down → planned.step.hasDown = true
  next : planned.step.toVersion.toNat = planned.step.fromVersion.toNat + 1

section Plans

variable {version target : UInt32} {allowDowngrade : Bool} {planned : PlannedStep}
  {rest : List PlannedStep}

theorem plan_self : registry.plan target target allowDowngrade = .ok [] := by
  rw [plan, if_pos rfl]

theorem plan_up (hless : version < target) :
    registry.plan version target allowDowngrade = .ok rest ↔
      (versions version target).mapM (registry.planUp version target) = .ok rest := by
  rw [plan, if_neg (UInt32.ne_of_lt hless), if_pos hless]

theorem plan_down (hless : target < version) :
    registry.plan version target allowDowngrade = .ok rest ↔ allowDowngrade = true ∧
      (versions target version).reverse.mapM (registry.planDown version target) = .ok rest := by
  rw [plan, if_neg (UInt32.ne_of_lt hless).symm, if_neg (UInt32.lt_asymm hless)]
  cases allowDowngrade with
  | false =>
    constructor
    · intro hok
      cases hok
    · intro hboth
      cases hboth.1
  | true => exact ⟨fun hok => ⟨rfl, hok⟩, fun hboth => hboth.2⟩

theorem sub_one_add_one (version : UInt32) : version - 1 + 1 = version :=
  UInt32.sub_add_cancel version 1

theorem toNat_pred (hless : target < version) : (version - 1).toNat + 1 = version.toNat := by
  rw [UInt32.lt_iff_toNat_lt] at hless
  have hone : (1 : UInt32) ≤ version := by
    rw [UInt32.le_iff_toNat_le]
    exact Nat.one_le_of_lt hless
  rw [UInt32.toNat_sub_of_le _ _ hone, show (1 : UInt32).toNat = 1 from rfl]
  omega

theorem plan_up_cons (hless : version < target) :
    registry.plan version target allowDowngrade = .ok (planned :: rest) ↔
      (registry.step version = some planned.step ∧ planned.direction = .up) ∧
        registry.plan (version + 1) target allowDowngrade = .ok rest := by
  have hsucc := toNat_succ hless
  have hrest : (versions (version + 1) target).mapM (registry.planUp version target) = .ok rest ↔
      registry.plan (version + 1) target allowDowngrade = .ok rest := by
    by_cases hlast : version + 1 = target
    · rw [hlast, versions_self, plan_self]
      rfl
    have hmore : version + 1 < target := by
      have hoth : (version + 1).toNat ≠ target.toNat := fun hsame =>
        hlast (UInt32.toNat_inj.mp hsame)
      rw [UInt32.lt_iff_toNat_lt] at hless ⊢
      omega
    rw [plan_up hmore]
    apply mapM_congr_ok
    intro found other
    rw [planUp_ok_iff, planUp_ok_iff]
  rw [plan_up hless, versions_cons hless, mapM_cons_eq_ok, ← hrest, ← planUp_ok_iff]
  constructor
  · rintro ⟨found, others, hsame, hfnd, hoths⟩
    cases hsame
    exact ⟨hfnd, hoths⟩
  · rintro ⟨hfnd, hoths⟩
    exact ⟨planned, rest, rfl, hfnd, hoths⟩

theorem plan_down_cons (hless : target < version) :
    registry.plan version target allowDowngrade = .ok (planned :: rest) ↔
      allowDowngrade = true ∧ (registry.step (version - 1) = some planned.step ∧
        planned.step.hasDown = true ∧ planned.direction = .down) ∧
        registry.plan (version - 1) target allowDowngrade = .ok rest := by
  have hpred := toNat_pred hless
  have hlower : target ≤ version - 1 := by
    rw [UInt32.lt_iff_toNat_lt] at hless
    rw [UInt32.le_iff_toNat_le]
    omega
  have hnext : version - 1 < version - 1 + 1 := by
    rw [sub_one_add_one, UInt32.lt_iff_toNat_lt]
    omega
  have hver : (versions target version).reverse =
      (version - 1) :: (versions target (version - 1)).reverse := by
    conv_lhs => rw [← sub_one_add_one version]
    rw [versions_concat hlower hnext, reverse_append]
    rfl
  have hrest : allowDowngrade = true →
      ((versions target (version - 1)).reverse.mapM (registry.planDown version target) = .ok rest ↔
        registry.plan (version - 1) target allowDowngrade = .ok rest) := by
    intro hall
    by_cases hlast : version - 1 = target
    · rw [hlast, versions_self, plan_self]
      rfl
    have hmore : target < version - 1 := by
      have hoth : (version - 1).toNat ≠ target.toNat := fun hsame =>
        hlast (UInt32.toNat_inj.mp hsame)
      rw [UInt32.le_iff_toNat_le] at hlower
      rw [UInt32.lt_iff_toNat_lt]
      omega
    rw [plan_down hmore, and_iff_right hall]
    apply mapM_congr_ok
    intro found other
    rw [planDown_ok_iff, planDown_ok_iff]
  rw [plan_down hless, hver, mapM_cons_eq_ok, ← planDown_ok_iff]
  constructor
  · rintro ⟨hall, found, others, hsame, hfnd, hoths⟩
    cases hsame
    exact ⟨hall, hfnd, (hrest hall).mp hoths⟩
  · rintro ⟨hall, hfnd, hoths⟩
    exact ⟨hall, planned, rest, rfl, hfnd, (hrest hall).mpr hoths⟩

theorem length_versions (first last : UInt32) :
    (versions first last).length = last.toNat - first.toNat := by
  rw [versions, length_map, length_range']

theorem plan_nil (hplan : registry.plan version target allowDowngrade = .ok []) :
    version = target := by
  by_contra hoth
  rcases UInt32.lt_or_lt_of_ne hoth with hless | hless
  · have hlen := length_of_mapM ((plan_up hless).mp hplan)
    rw [length_versions] at hlen
    rw [UInt32.lt_iff_toNat_lt] at hless
    exact absurd hlen (by rw [length_nil]; omega)
  have hlen := length_of_mapM ((plan_down hless).mp hplan).2
  rw [length_reverse, length_versions] at hlen
  rw [UInt32.lt_iff_toNat_lt] at hless
  exact absurd hlen (by rw [length_nil]; omega)

theorem offers_up (hless : version < target) (hstep : registry.step version = some planned.step)
    (hdir : planned.direction = .up) :
    registry.Offers planned ∧ planned.fromVersion = version ∧ planned.toVersion = version + 1 := by
  have hfrom := (registry.lawful version planned.step hstep).1
  refine ⟨⟨?_, ?_, ?_⟩, ?_, ?_⟩
  · rw [hfrom, hstep]
  · intro hdown
    rw [hdown] at hdir
    cases hdir
  · rw [Step.toVersion, hfrom, toNat_succ hless]
  · rw [PlannedStep.fromVersion, hdir]
    exact hfrom
  · rw [PlannedStep.toVersion, hdir, Step.toVersion, hfrom]

theorem offers_down (hless : target < version)
    (hstep : registry.step (version - 1) = some planned.step)
    (hdown : planned.step.hasDown = true) (hdir : planned.direction = .down) :
    registry.Offers planned ∧ planned.fromVersion = version ∧ planned.toVersion = version - 1 := by
  have hfrom := (registry.lawful (version - 1) planned.step hstep).1
  have hpred := toNat_pred hless
  refine ⟨⟨?_, fun _ => hdown, ?_⟩, ?_, ?_⟩
  · rw [hfrom, hstep]
  · rw [Step.toVersion, hfrom, sub_one_add_one, hpred]
  · rw [PlannedStep.fromVersion, hdir]
    change planned.step.toVersion = version
    rw [Step.toVersion, hfrom, sub_one_add_one]
  · rw [PlannedStep.toVersion, hdir]
    exact hfrom

theorem plan_cons (hplan : registry.plan version target allowDowngrade = .ok (planned :: rest)) :
    registry.Offers planned ∧ planned.fromVersion = version ∧
      (planned.direction = .up ↔ version < target) ∧
      registry.plan planned.toVersion target allowDowngrade = .ok rest := by
  rcases lt_trichotomy version target with hless | hsame | hless
  · obtain ⟨⟨hstep, hdir⟩, hrest⟩ := (plan_up_cons hless).mp hplan
    obtain ⟨hofs, hfrom, hto⟩ := offers_up hless hstep hdir
    exact ⟨hofs, hfrom, ⟨fun _ => hless, fun _ => hdir⟩, by rwa [hto]⟩
  · rw [hsame, plan_self] at hplan
    cases hplan
  obtain ⟨-, ⟨hstep, hdown, hdir⟩, hrest⟩ := (plan_down_cons hless).mp hplan
  obtain ⟨hofs, hfrom, hto⟩ := offers_down hless hstep hdown hdir
  refine ⟨hofs, hfrom, ⟨?_, ?_⟩, by rwa [hto]⟩
  · intro hup
    rw [hup] at hdir
    cases hdir
  · intro hoth
    exact absurd hoth (UInt32.lt_asymm hless)

theorem Offers.nonzero (hofs : registry.Offers planned) : planned.toVersion ≠ 0 := by
  have hnext := hofs.next
  have hlaw := (registry.lawful _ _ hofs.step).2
  obtain ⟨step, direction⟩ := planned
  cases direction with
  | up =>
    intro hzero
    rw [show step.toVersion = 0 from hzero] at hnext
    cases hnext
  | down => exact hlaw

variable (hplan : registry.plan version target allowDowngrade = .ok steps)
include hplan

theorem plan_offers : ∀ planned ∈ steps, registry.Offers planned := by
  induction steps generalizing version with
  | nil =>
    intro planned hplnd
    cases hplnd
  | cons planned rest ih =>
    obtain ⟨hofs, -, -, hrest⟩ := plan_cons hplan
    intro other hoth
    rcases mem_cons.mp hoth with rfl | htail
    · exact hofs
    · exact ih hrest other htail

theorem plan_nonzero (hver : version ≠ 0) : target ≠ 0 := by
  induction steps generalizing version with
  | nil => rwa [← plan_nil hplan]
  | cons planned rest ih =>
    obtain ⟨hofs, -, -, hrest⟩ := plan_cons hplan
    exact ih hrest hofs.nonzero

omit hplan

theorem plan_of_next {step : Step} (hstep : registry.step version = some step)
    (hnext : version < version + 1)
    (hplan : registry.plan (version + 1) target allowDowngrade = .ok rest) :
    ∃ path, registry.plan version target allowDowngrade = .ok path := by
  rcases lt_trichotomy version target with hless | hsame | hless
  · exact ⟨⟨step, .up⟩ :: rest, (plan_up_cons hless).mpr ⟨⟨hstep, rfl⟩, hplan⟩⟩
  · exact ⟨[], by rw [hsame, plan_self]⟩
  have hfur : target < version + 1 := UInt32.lt_trans hless hnext
  cases rest with
  | nil => exact absurd (plan_nil hplan).symm (UInt32.ne_of_lt hfur)
  | cons planned rest =>
    obtain ⟨-, -, hrest⟩ := (plan_down_cons hfur).mp hplan
    rw [UInt32.add_sub_cancel] at hrest
    exact ⟨rest, hrest⟩

end Plans

end Registry

def Along (holds : PlannedStep → Batch → Batch → Prop) : List PlannedStep → Batch → Prop
  | [], _ => True
  | planned :: rest, batch =>
      ∀ next, planned.next batch = .ok next → holds planned batch next ∧ Along holds rest next

theorem Along.of_forall {holds : PlannedStep → Batch → Batch → Prop}
    (hhld : ∀ planned before after, holds planned before after) (steps : List PlannedStep)
    (batch : Batch) : Along holds steps batch := by
  induction steps generalizing batch with
  | nil => trivial
  | cons planned rest ih =>
    intro next _
    exact ⟨hhld planned batch next, ih next⟩

theorem Along.weaken {holds wider : PlannedStep → Batch → Batch → Prop} {batch : Batch}
    (halong : Along holds steps batch)
    (hwider : ∀ planned ∈ steps, ∀ before after, holds planned before after →
      wider planned before after) : Along wider steps batch := by
  induction steps generalizing batch with
  | nil => trivial
  | cons planned rest ih =>
    intro next hnext
    obtain ⟨hhld, hrest⟩ := halong next hnext
    refine ⟨hwider planned mem_cons_self batch next hhld, ih hrest ?_⟩
    intro other hoth
    exact hwider other (mem_cons_of_mem _ hoth)

end WasmAgent.State
