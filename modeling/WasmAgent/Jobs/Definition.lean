import Mathlib.Algebra.Group.Nat.Defs
import WasmAgent.Core.Json
import WasmAgent.Queue.Types

/-!
# Job definitions

A job is a trigger and one action.  What is checked of a definition before it is stored, and which
actions need a model.
-/

namespace WasmAgent.Jobs

open WasmAgent.Core

/-- A failure, by its text. -/
abbrev Checked := Except String

def fail {Value : Type} (why : String) : Checked Value :=
  .error why

section Values

/-- `as_u64`. -/
def asU64 : Json → Option ℕ
  | .number (.unsigned value) => some value.toNat
  | _ => none

/-- `as_i64`. -/
def asI64 : Json → Option ℤ
  | .number (.unsigned value) => if value.toNat < 2 ^ 63 then some value.toNat else none
  | .number (.negative value) => some value.toInt
  | _ => none

def asArray : Json → Option (List Json)
  | .array items => some items
  | _ => none

/-- `as_str().unwrap_or("")`. -/
def textOf (value : Json) : String := value.asStr.getD ""

def kindOf (value : Json) : String := textOf (value.field "kind")

end Values

def ident (text : String) : Bool :=
  text ≠ "" && text.utf8ByteSize ≤ 100 &&
    text.toList.all (fun char => char.isAlphanum || char = '-' || char = '_' || char = '.')

/-- `trim().is_empty()`. -/
def isBlank (text : String) : Bool := text.toList.all Queue.isWhitespace

/-- `is_absolute`, where a path begins at the root. -/
def isAbsolute (path : String) : Bool := path.startsWith "/"

mutual

def stepIsInference : Json → Bool
  | .object fields =>
      match kindOf (.object fields) with
      | "wake" => true
      | "subagent" => true
      | "foreach" => innerIsInference fields
      | _ => false
  | _ => false

/-- The field `step` of a `foreach`. -/
def innerIsInference : List (String × Json) → Bool
  | [] => false
  | (name, value) :: fields =>
      if name = "step" then stepIsInference value else innerIsInference fields

end

/-- A `wake` and a `subagent` need a model, and so does a `pipeline` with such a step. -/
def actionIsInference (action : Json) : Bool :=
  match kindOf action with
  | "wake" => true
  | "subagent" => true
  | "pipeline" => ((asArray (action.field "steps")).map (·.any stepIsInference)).getD false
  | _ => false

def jobControls : List String := ["grace_seconds", "max_age_seconds"]

def validateControl (name : String) (value : Json) : Checked Unit := do
  if name ∉ jobControls then
    fail ("unknown_job_control:" ++ name)
  let some seconds := asU64 value
    | fail ("job_control_must_be_whole_seconds:" ++ name)
  let floor := if name = "max_age_seconds" then 1 else 0
  if seconds < floor || 86400 < seconds then
    fail ("job_control_out_of_range:" ++ name)

def validateControls (job : Json) : Checked Unit := do
  let some controls := job.field? "controls"
    | pure ()
  let some map := controls.asObject
    | fail "job_controls_must_be_an_object"
  match kindOf (job.field "action") with
  | "run" => pure ()
  | "pipeline" => pure ()
  | _ => fail "job_controls_need_a_deterministic_action"
  map.forM (fun control => validateControl control.1 control.2)
  match (controls.field? "grace_seconds").bind asU64, (controls.field? "max_age_seconds").bind asU64 with
  | some grace, some maxAge =>
      if maxAge < grace then
        fail "job_control_grace_exceeds_max_age_seconds"
  | _, _ => pure ()

/-- Between the two bounds, ends included. -/
def within (low high : ℕ) (value : Json) : Bool :=
  match asU64 value with
  | some number => low ≤ number && number ≤ high
  | none => false

def checkTimeout (action : Json) : Checked Unit := do
  if let some timeout := action.field? "timeout_seconds" then
    if !within 1 86400 timeout then
      fail "invalid_action_timeout"

def validateWake (action : Json) : Checked Unit := do
  if textOf (action.field "session") = "" || isBlank (textOf (action.field "prompt")) then
    fail "wake_needs_session_and_prompt"
  if let some skill := (action.field "skill").asStr then
    if !ident skill then
      fail "invalid_skill_name"
  if let some profile := (action.field? "profile").bind Json.asStr then
    if !ident profile then
      fail "invalid_action_profile"

def validateSubagent (action : Json) : Checked Unit := do
  if !(((action.field? "profile").bind Json.asStr).map ident).getD false then
    fail "subagent_needs_profile"
  if isBlank (textOf (action.field "prompt")) then
    fail "subagent_needs_prompt"
  checkTimeout action

def validateRun (action : Json) : Checked Unit := do
  if !isAbsolute (textOf (action.field "script")) then
    fail "run_needs_absolute_allowlisted_script"

def isName (value : Json) : Bool := (value.asStr.map ident).getD false

def runStep (number : ℕ) (step : Json) : Checked Unit := do
  if !isAbsolute (textOf (step.field "script")) then
    fail s!"step_{number}_run_needs_absolute_script"
  if let some name := step.field? "returns" then
    if !isName name then
      fail s!"step_{number}_returns_must_be_a_name"

/-- What the loop starts is what spends the money, so it is a `subagent`. -/
def foreachStep (number : ℕ) (step : Json) : Checked Unit := do
  if !isName (step.field "from") then
    fail s!"step_{number}_foreach_needs_from"
  if !isName (step.field "key") then
    fail s!"step_{number}_foreach_needs_key"
  if !within 1 64 (step.field "max") then
    fail s!"step_{number}_foreach_max_out_of_range"
  let inner := step.field "step"
  if (inner.field "kind").asStr ≠ some "subagent" then
    fail s!"step_{number}_foreach_step_must_be_a_subagent"
  validateSubagent inner
  checkTimeout inner

def validateStep (number : ℕ) (step : Json) : Checked Unit :=
  match kindOf step with
  | "run" => runStep number step
  | "foreach" => foreachStep number step
  | "subagent" => do
      validateSubagent step
      checkTimeout step
  | "wake" => fail s!"step_{number}_wake_not_allowed_in_pipeline"
  | _ => fail s!"step_{number}_unknown_kind"

def validateSteps : ℕ → List Json → Checked Unit
  | _, [] => pure ()
  | number, step :: steps => do
      validateStep number step
      validateSteps (number + 1) steps

def validatePipeline (action : Json) : Checked Unit := do
  let steps := (asArray (action.field "steps")).getD []
  if steps.isEmpty then
    fail "pipeline_needs_steps"
  if 32 < steps.length then
    fail "pipeline_too_many_steps"
  validateSteps 1 steps

def validateKind (action : Json) : Checked Unit :=
  match kindOf action with
  | "wake" => validateWake action
  | "subagent" => validateSubagent action
  | "run" => validateRun action
  | "pipeline" => validatePipeline action
  | _ => fail "job_action_must_be_wake_or_run"

def validateAction (action : Json) : Checked Unit := do
  validateKind action
  checkTimeout action

def validateTrigger (trigger : Json) : Checked Unit :=
  match kindOf trigger with
  | "event" => if ident (textOf (trigger.field "topic")) then pure () else fail "event_topic_required"
  | "schedule" =>
      if within 1 31536000 (trigger.field "every_seconds") then pure ()
      else fail "invalid_schedule_interval"
  | "file" =>
      if isAbsolute (textOf (trigger.field "path")) then pure ()
      else fail "file_trigger_needs_absolute_directory"
  | _ => fail "unknown_job_trigger"

/-- What a definition must be; `serde` writes it out. -/
def validate (serde : Serde) (job : Json) : Checked Unit := do
  if !ident (textOf (job.field "id")) then
    fail "invalid_job_id"
  if textOf (job.field "name") = "" then
    fail "job_name_required"
  if 32768 < (serde.print job).utf8ByteSize then
    fail "job_definition_too_large"
  validateTrigger (job.field "trigger")
  validateAction (job.field "action")
  validateControls job

end WasmAgent.Jobs
