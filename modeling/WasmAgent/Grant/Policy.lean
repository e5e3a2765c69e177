import Std.Data.ExtTreeMap
import WasmAgent.Core.Reading
import WasmAgent.Core.Survival

/-!
# The grant policy

What a policy file says of a component's capabilities: the targets they may be used on, the
rates they may be used at, and whether a person has to approve.
-/

namespace WasmAgent.Grant

open Std.ExtTreeMap Std WasmAgent.Core

inductive Tok where
  | lit (chars : List Char)
  | star
  deriving DecidableEq

inductive Kind where
  | exact (text : String)
  | base (text : String)
  | glob (tokens : List Tok)
  deriving DecidableEq

/-- A target pattern: one target, all with a prefix, or a glob. -/
structure Pattern where
  raw : String
  kind : Kind
  deriving DecidableEq

structure PatternError where
  why : String
  deriving DecidableEq

def maxPatternLen : ℕ := 512

def isControl (char : Char) : Bool := char.toNat < 0x20 || (0x7f ≤ char.toNat && char.toNat < 0xa0)

namespace Pattern

/-- The tokens of a glob, after those already read and the literal being read. -/
def globTokens : List Char → List Tok → List Char → List Tok
  | [], tokens, lit => if lit.isEmpty then tokens else tokens ++ [.lit lit]
  | char :: chars, tokens, lit =>
      if char = '*' then
        let tokens := if lit.isEmpty then tokens else tokens ++ [.lit lit]
        globTokens chars (if tokens.getLast? = some .star then tokens else tokens ++ [.star]) []
      else globTokens chars tokens (lit ++ [char])

def parse (raw : String) : Except PatternError Pattern :=
  if raw.isEmpty then .error ⟨"empty pattern (use \"*\" to match any target)"⟩
  else if maxPatternLen < raw.length then
    .error ⟨"longer than " ++ toString maxPatternLen ++ " characters"⟩
  else if raw.toList.any isControl then .error ⟨"contains a control character"⟩
  else
    let stars := raw.toList.count '*'
    if stars = 0 then .ok ⟨raw, .exact raw⟩
    else if stars = 1 ∧ raw.toList.getLast? = some '*' then
      .ok ⟨raw, .base (String.ofList raw.toList.dropLast)⟩
    else .ok ⟨raw, .glob (globTokens raw.toList [] [])⟩

/-- The matching loop.  `star` is what follows the last star and the text it started at. -/
def globMatch : ℕ → List Tok → List Char → Option (List Tok × List Char) → Bool
  | 0, _, _, _ => false
  | _ + 1, tokens, [], _ => (tokens.dropWhile (· = .star)).isEmpty
  | fuel + 1, tokens, text@(_ :: _), star =>
      let again := match star with
        | none => false
        | some (_, []) => false
        | some (after, _ :: rest) => globMatch fuel after rest (some (after, rest))
      match tokens with
      | .lit lit :: more =>
          if lit.isPrefixOf text then globMatch fuel more (text.drop lit.length) star else again
      | .star :: more => globMatch fuel more text (some (more, text))
      | [] => again

def hits (pattern : Pattern) (target : String) : Bool :=
  match pattern.kind with
  | .exact wanted => wanted == target
  | .base text => text.toList.isPrefixOf target.toList
  | .glob tokens =>
      globMatch ((target.length + 1) * (tokens.length + 1) + 1) tokens target.toList none

end Pattern

structure PolicyError where
  why : String
  deriving DecidableEq

inductive Effect where
  | allow
  | deny
  deriving DecidableEq

/-- A token bucket, in the unit the operator thinks in. -/
structure RateLimit where
  perMinute : UInt32
  burst : Option UInt32
  deriving DecidableEq

namespace RateLimit

def capacity (rate : RateLimit) : UInt64 := (rate.burst.getD rate.perMinute).toUInt64

def check (rate : RateLimit) (place : String) : Except PolicyError Unit :=
  if rate.perMinute = 0 then .error ⟨place ++ ".per_minute must be greater than 0"⟩
  else if rate.burst = some 0 then .error ⟨place ++ ".burst must be greater than 0"⟩
  else .ok ()

end RateLimit

structure TargetRate where
  pattern : Pattern
  perMinute : UInt32
  burst : Option UInt32
  exemptFromGlobal : Bool
  deriving DecidableEq

def TargetRate.limit (override : TargetRate) : RateLimit := ⟨override.perMinute, override.burst⟩

/-- What a rule says about one capability. -/
structure Rule where
  effect : Effect
  allow : List Pattern
  deny : List Pattern
  sensitive : Option Bool
  requireApproval : Bool
  rate : Option RateLimit
  perTarget : Option RateLimit
  targetRates : List TargetRate
  dailyCap : Option UInt32
  deriving DecidableEq

structure ComponentPolicy where
  capabilities : ExtTreeMap String Rule

structure PolicySet where
  version : UInt32
  sensitiveCapabilities : List String
  components : ExtTreeMap String ComponentPolicy

def defaultSensitive : List String :=
  ["credentials.read", "net.dial", "net.bind", "http.request", "whatsapp.send", "exec.run",
    "kv.write", "wasi.filesystem", "wasi.env", "wasi.stdin", "wasi.sockets", "wasi.keyvalue",
    "wasi.config", "wasi.import"]

def schemaVersion : UInt32 := 1

def checkName (place name : String) : Except PolicyError Unit :=
  if name.isEmpty then .error ⟨place ++ " must not be empty"⟩
  else if name.toList.any isControl then
    .error ⟨place ++ " must not contain control characters"⟩
  else if 128 < (utf8 name).length then .error ⟨place ++ " longer than 128 bytes"⟩
  else .ok ()

def checkRate (rate : Option RateLimit) (place : String) : Except PolicyError Unit :=
  match rate with
  | none => .ok ()
  | some rate => rate.check place

def checkRule (place capability : String) (rule : Rule) : Except PolicyError Unit := do
  checkName place capability
  if rule.effect = .deny ∧ (!rule.allow.isEmpty || !rule.deny.isEmpty) then
    .error ⟨place ++ ": effect \"deny\" already refuses everything; drop allow/deny"⟩
  else
    checkRate rule.rate (place ++ ".rate")
    checkRate rule.perTarget (place ++ ".per_target")
    rule.targetRates.zipIdx.forM fun (override, i) =>
      override.limit.check (place ++ ".target_rates[" ++ toString i ++ "]")
    if rule.dailyCap = some 0 then .error ⟨place ++ ".daily_cap must be greater than 0"⟩
    else .ok ()

namespace PolicySet

/-- An empty policy: what is sensitive by default is denied, nothing else. -/
def empty : PolicySet := ⟨schemaVersion, [], ∅⟩

def validate (set : PolicySet) : Except PolicyError Unit := do
  if set.version ≠ schemaVersion then
    .error ⟨"version " ++ toString set.version ++ " (this build speaks " ++
      toString schemaVersion ++ ")"⟩
  else
    set.sensitiveCapabilities.forM (checkName "sensitive_capabilities[]")
    set.components.toList.forM fun (component, policy) => do
      checkName "components key" component
      policy.capabilities.toList.forM fun (capability, rule) =>
        checkRule ("components." ++ component ++ ".capabilities." ++ capability) capability rule

def rule (set : PolicySet) (component capability : String) : Option Rule :=
  set.components[component]?.bind (·.capabilities[capability]?)

def isSensitive (set : PolicySet) (component capability : String) : Bool :=
  match (set.rule component capability).bind (·.sensitive) with
  | some flag => flag
  | none =>
      defaultSensitive.contains capability || set.sensitiveCapabilities.contains capability

def isAudited (set : PolicySet) (component capability : String) : Bool :=
  set.isSensitive component capability

end PolicySet

/-- A policy that was checked when it was loaded. -/
structure Policy where
  set : PolicySet
  valid : set.validate = .ok ()

/-- The rate has room for a token, and refills. -/
structure RateLimit.Sound (rate : RateLimit) : Prop where
  capacity : 0 < rate.capacity.toNat
  perMinute : 0 < rate.perMinute.toNat

structure Rule.Sound (rule : Rule) : Prop where
  rate : ∀ rate ∈ rule.rate, rate.Sound
  perTarget : ∀ rate ∈ rule.perTarget, rate.Sound
  targetRates : ∀ override ∈ rule.targetRates, override.limit.Sound
  dailyCap : rule.dailyCap ≠ some 0

theorem forM_eq_ok {α Fault : Type} {items : List α} {check : α → Except Fault Unit} :
    items.forM check = .ok () ↔ ∀ item ∈ items, check item = .ok () := by
  induction items with
  | nil =>
    apply Iff.intro
    · intro _ item hitem
      cases hitem
    · intro _
      rfl
  | cons first rest ih =>
    change (check first >>= fun _ => rest.forM check) = .ok () ↔ _
    rw [bind_eq_ok, List.forall_mem_cons, ← ih]
    apply Iff.intro
    · rintro ⟨⟨⟩, hfst, hrest⟩
      exact ⟨hfst, hrest⟩
    · intro hall
      exact ⟨(), hall.1, hall.2⟩

theorem RateLimit.check_sound {rate : RateLimit} {place : String}
    (hchk : rate.check place = .ok ()) : rate.Sound := by
  rw [RateLimit.check] at hchk
  split at hchk
  · cases hchk
  rename_i hmin
  split at hchk
  · cases hchk
  rename_i hburst
  have hpos : 0 < rate.perMinute.toNat := Nat.pos_of_ne_zero (fun h => hmin (UInt32.toNat_inj.mp h))
  refine ⟨?_, hpos⟩
  rw [RateLimit.capacity, UInt32.toNat_toUInt64]
  cases hkind : rate.burst with
  | none => exact hpos
  | some burst =>
    apply Nat.pos_of_ne_zero
    intro hzero
    have hnone : burst = 0 := UInt32.toNat_inj.mp hzero
    rw [hkind, hnone] at hburst
    exact hburst rfl

theorem checkRate_sound {rate : Option RateLimit} {place : String}
    (hchk : checkRate rate place = .ok ()) : ∀ limit ∈ rate, limit.Sound := by
  rintro limit hlim
  cases hlim
  exact RateLimit.check_sound hchk

theorem checkName_clean {place name : String} (hchk : checkName place name = .ok ()) :
    ∀ char ∈ name.toList, isControl char = false := by
  rw [checkName] at hchk
  split at hchk
  · cases hchk
  split at hchk
  · cases hchk
  rename_i hcln
  rw [Bool.not_eq_true, List.any_eq_false] at hcln
  intro char hchar
  exact Bool.eq_false_iff.mpr (hcln char hchar)

theorem checkRule_sound {place capability : String} {rule : Rule}
    (hchk : checkRule place capability rule = .ok ()) :
    checkName place capability = .ok () ∧ rule.Sound := by
  rw [checkRule, bind_eq_ok] at hchk
  obtain ⟨⟨⟩, hname, hchk⟩ := hchk
  split at hchk
  · cases hchk
  obtain ⟨⟨⟩, hrate, hchk⟩ := bind_eq_ok.mp hchk
  obtain ⟨⟨⟩, htgt, hchk⟩ := bind_eq_ok.mp hchk
  obtain ⟨⟨⟩, hover, hchk⟩ := bind_eq_ok.mp hchk
  split at hchk
  · cases hchk
  rename_i hcap
  refine ⟨hname, checkRate_sound hrate, checkRate_sound htgt, ?_, hcap⟩
  intro override hmem
  obtain ⟨i, hi, hget⟩ := List.getElem_of_mem hmem
  apply RateLimit.check_sound
  apply forM_eq_ok.mp hover (override, i)
  rw [List.mem_zipIdx_iff_getElem?]
  exact List.getElem?_eq_some_iff.mpr ⟨hi, hget⟩

namespace Policy

theorem rule_sound (policy : Policy) {component capability : String} {rule : Rule}
    (hrule : policy.set.rule component capability = some rule) :
    rule.Sound ∧ (∀ char ∈ component.toList, isControl char = false) ∧
      ∀ char ∈ capability.toList, isControl char = false := by
  have hvld := policy.valid
  rw [PolicySet.validate] at hvld
  split at hvld
  · cases hvld
  obtain ⟨⟨⟩, -, hcom⟩ := bind_eq_ok.mp hvld
  rw [PolicySet.rule, Option.bind_eq_some_iff] at hrule
  obtain ⟨rules, hrules, hrule⟩ := hrule
  have hcomp := forM_eq_ok.mp hcom (component, rules) (mem_toList_iff_getElem?_eq_some.mpr hrules)
  obtain ⟨⟨⟩, hname, hcap⟩ := bind_eq_ok.mp hcomp
  have hchkd := checkRule_sound (forM_eq_ok.mp hcap (capability, rule)
    (mem_toList_iff_getElem?_eq_some.mpr hrule))
  exact ⟨hchkd.2, checkName_clean hname, checkName_clean hchkd.1⟩

end Policy

end WasmAgent.Grant
