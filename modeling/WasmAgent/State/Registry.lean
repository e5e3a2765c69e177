import WasmAgent.Queue.Types
import WasmAgent.State.Meta

/-!
# Steps and the paths they make

The steps a component carries, addressed by the version they start from, and the
ordered path from one version to another, up or down.
-/

namespace WasmAgent.State

open Std WasmAgent.Core

/-- A step works on a batch, and may fail half way. -/
abbrev StepFn := Batch → Batch × Except Error Unit

/-- One migration from a version to the next. -/
structure Step where
  fromVersion : UInt32
  name : String
  up : StepFn
  down : Option StepFn

namespace Step

def toVersion (step : Step) : UInt32 := step.fromVersion + 1

def hasDown (step : Step) : Bool := step.down.isSome

def applyUp (step : Step) (batch : Batch) : Batch × Except Error Unit := step.up batch

def applyDown (step : Step) (batch : Batch) : Batch × Except Error Unit :=
  match step.down with
  | some down => down batch
  | none => (batch, .error (.noMigrationPath step.toVersion step.fromVersion step.fromVersion .down))

end Step

structure Registry where
  steps : ExtTreeMap UInt32 Step
  lawful : ∀ (version : UInt32) (step : Step), steps[version]? = some step →
    step.fromVersion = version ∧ version ≠ 0

namespace Registry

def empty : Registry where
  steps := ∅
  lawful := by
    intro version step hstep
    simp at hstep

def add (registry : Registry) (step : Step) (hfrom : step.fromVersion ≠ 0) : Registry where
  steps := registry.steps.insert step.fromVersion step
  lawful := by
    intro version found hfound
    rw [ExtTreeMap.getElem?_insert] at hfound
    split at hfound
    · next hversion =>
      cases hfound
      have hsame := LawfulEqCmp.eq_of_compare hversion
      exact ⟨hsame, by rwa [← hsame]⟩
    · exact registry.lawful version found hfound

/-- The loop of `new` over the steps left. -/
def addAll : List Step → Registry → Except Error Registry
  | [], registry => .ok registry
  | step :: steps, registry =>
      if hfrom : step.fromVersion = 0 then
        .error (.corrupt "a migration step cannot start at v0")
      else if step.name.toList.all WasmAgent.Queue.isWhitespace then
        .error (.corrupt "a migration step needs a name")
      else if registry.steps.contains step.fromVersion then
        .error (.corrupt "two migration steps start at the same version")
      else
        addAll steps (registry.add step hfrom)

def new (steps : List Step) : Except Error Registry := addAll steps empty

def step (registry : Registry) (fromVersion : UInt32) : Option Step := registry.steps[fromVersion]?

end Registry

structure PlannedStep where
  step : Step
  direction : Direction

namespace PlannedStep

def fromVersion (planned : PlannedStep) : UInt32 :=
  match planned.direction with
  | .up => planned.step.fromVersion
  | .down => planned.step.toVersion

def toVersion (planned : PlannedStep) : UInt32 :=
  match planned.direction with
  | .up => planned.step.toVersion
  | .down => planned.step.fromVersion

def apply (planned : PlannedStep) (batch : Batch) : Batch × Except Error Unit :=
  match planned.direction with
  | .up => planned.step.applyUp batch
  | .down => planned.step.applyDown batch

def next (planned : PlannedStep) (batch : Batch) : Except Error Batch :=
  match planned.apply batch with
  | (next, .ok ()) => .ok next
  | (_, .error fault) => .error fault

end PlannedStep

namespace Registry

def planUp (registry : Registry) (fromVersion toVersion version : UInt32) : Except Error PlannedStep :=
  match registry.step version with
  | some step => .ok ⟨step, .up⟩
  | none => .error (.noMigrationPath fromVersion toVersion version .up)

def planDown (registry : Registry) (fromVersion toVersion version : UInt32) :
    Except Error PlannedStep :=
  match registry.step version with
  | some step =>
      if !step.hasDown then
        .error (.noMigrationPath fromVersion toVersion version .down)
      else
        .ok ⟨step, .down⟩
  | none => .error (.noMigrationPath fromVersion toVersion version .down)

/-- The versions `first..last`, in order. -/
def versions (first last : UInt32) : List UInt32 :=
  (List.range' first.toNat (last.toNat - first.toNat)).map UInt32.ofNat

/-- The ordered steps from one version to another, or the reason there are none. -/
def plan (registry : Registry) (fromVersion toVersion : UInt32) (allowDowngrade : Bool) :
    Except Error (List PlannedStep) :=
  if fromVersion = toVersion then
    .ok []
  else if fromVersion < toVersion then
    (versions fromVersion toVersion).mapM (registry.planUp fromVersion toVersion)
  else if !allowDowngrade then
    .error (.downgradeRefused fromVersion toVersion)
  else
    (versions toVersion fromVersion).reverse.mapM (registry.planDown fromVersion toVersion)

end Registry

end WasmAgent.State
