import Mathlib.Data.List.TakeWhile
import WasmAgent.Bus.Event

/-!
# Who may publish and subscribe where

The default policy: a component publishes and subscribes inside its own namespace, and
elsewhere where a grant names the pattern.  A topic is in the namespace its first segment
names; a pattern is in the namespace its path begins with.  The two agree for owners whose
name is one segment.
-/

namespace WasmAgent.Bus

open List WasmAgent.Core

/-- The first segment: the component namespace that owns the topic. -/
def Topic.nameSpace (topic : Topic) : String :=
  String.ofList (topic.text.toList.takeWhile (· != '.'))

namespace Pattern

/-- Reads `a.b`, `a.*` or `*`. -/
def parse (text : String) : Except TopicError Pattern :=
  if text = "*" then .ok (under "")
  else if ".*".toList.isSuffixOf text.toList then
    let base := String.ofList (text.toList.take (text.toList.length - 2))
    if base.toList.contains '*' then .error .badWildcard
    else (Topic.parse base).map (fun topic => under topic.text)
  else if text.toList.contains '*' then .error .badWildcard
  else (Topic.parse text).map exact

def covers : Pattern → Pattern → Bool
  | exact wanted, exact other => wanted == other
  | exact _, under _ => false
  | under base, exact topic => (under base).accepts topic
  | under base, under other => base.isEmpty || other == base || covered (utf8 base) (utf8 other)

end Pattern

/-- Which door. -/
inductive AccessAction where
  | publish
  | subscribe
  deriving DecidableEq

structure Grant where
  component : String
  action : AccessAction
  pattern : Pattern
  deriving DecidableEq

/-- The default policy: own namespace, plus explicit grants. -/
structure NamespaceAcl where
  grants : List Grant

def ownNamespaceCovers (owner : String) : Pattern → Bool
  | .exact topic => topic.nameSpace == owner
  | .under base => base == owner || Pattern.covered (utf8 owner) (utf8 base)

namespace NamespaceAcl

def new : NamespaceAcl := ⟨[]⟩

def grant (acl : NamespaceAcl) (component : String) (action : AccessAction) (pattern : String) :
    Except TopicError NamespaceAcl :=
  match Pattern.parse pattern with
  | .error fault => .error fault
  | .ok pattern =>
      if component.isEmpty then .error .empty
      else .ok ⟨acl.grants ++ [⟨component, action, pattern⟩]⟩

def grantBoth (acl : NamespaceAcl) (component pattern : String) : Except TopicError NamespaceAcl :=
  match acl.grant component .publish pattern with
  | .error fault => .error fault
  | .ok acl => acl.grant component .subscribe pattern

def granted (acl : NamespaceAcl) (component : String) (action : AccessAction)
    (pattern : Pattern) : Bool :=
  acl.grants.any fun grant =>
    grant.component == component && grant.action == action && grant.pattern.covers pattern

def mayPublish (acl : NamespaceAcl) (source : String) (topic : Topic) : Bool :=
  if source.isEmpty then false
  else if topic.nameSpace == source then true
  else acl.granted source .publish (.exact topic)

def maySubscribe (acl : NamespaceAcl) (owner : String) (pattern : Pattern) : Bool :=
  if owner.isEmpty then false
  else if ownNamespaceCovers owner pattern then true
  else acl.granted owner .subscribe pattern

/-- The policy as the bus asks it. -/
def access (acl : NamespaceAcl) : Access where
  mayPublish := acl.mayPublish
  maySubscribe := acl.maySubscribe

def Reaches (acl : NamespaceAcl) (owner : String) (topic : Topic) : Prop :=
  ∃ grant ∈ acl.grants, grant.component = owner ∧ grant.action = .subscribe ∧
    grant.pattern.accepts topic = true

def Sound (acl : NamespaceAcl) (owner : String) (pattern : Pattern) : Prop :=
  acl.maySubscribe owner pattern = true → ∀ topic, pattern.accepts topic = true →
    new.mayPublish owner topic = true ∨ acl.Reaches owner topic

def Escapes (acl : NamespaceAcl) (owner : String) : Pattern → Prop
  | .exact _ => False
  | .under base =>
      '.' ∈ owner.toList ∧ (base = owner ∨ Pattern.covered (utf8 owner) (utf8 base) = true) ∧
        ∃ topic, (Pattern.under base).accepts topic = true ∧ ¬ acl.Reaches owner topic

end NamespaceAcl

variable {topic : Topic} {pattern : Pattern}

namespace Pattern

theorem covered_iff {base path : String} :
    covered (utf8 base) (utf8 path) = true ↔ ∃ rest, path = base ++ "." ++ rest := by
  have hdot : utf8 "." = [46] := by decide
  rw [covered, Bool.and_eq_true, Bool.and_eq_true, decide_eq_true_eq, isPrefixOf_iff_prefix,
    beq_iff_eq]
  apply Iff.intro
  · rintro ⟨⟨-, hbeg⟩, hnext⟩
    obtain ⟨rest, rfl⟩ := utf8_begins hbeg
    rw [utf8_append, getElem?_append_right (Nat.le_refl _), Nat.sub_self] at hnext
    have hrest : utf8 "." <+: utf8 rest := by
      rw [hdot]
      cases hbs : utf8 rest with
      | nil =>
        rw [hbs] at hnext
        cases hnext
      | cons byte bytes =>
        rw [hbs] at hnext
        cases hnext
        exact ⟨bytes, rfl⟩
    obtain ⟨rest, rfl⟩ := utf8_begins hrest
    exact ⟨rest, (String.append_assoc ..).symm⟩
  rintro ⟨rest, rfl⟩
  rw [String.append_assoc, utf8_append, utf8_append, hdot]
  refine ⟨⟨?_, prefix_append _ _⟩, ?_⟩
  · rw [length_append, length_append]
    exact Nat.lt_add_of_pos_right (Nat.add_pos_left Nat.one_pos _)
  · rw [getElem?_append_right (Nat.le_refl _), Nat.sub_self]
    rfl

theorem covered_trans {base middle path : String} (hfst : covered (utf8 base) (utf8 middle) = true)
    (hsnd : covered (utf8 middle) (utf8 path) = true) : covered (utf8 base) (utf8 path) = true := by
  obtain ⟨first, rfl⟩ := covered_iff.mp hfst
  obtain ⟨second, rfl⟩ := covered_iff.mp hsnd
  apply covered_iff.mpr
  refine ⟨first ++ "." ++ second, ?_⟩
  iterate 5 rw [String.append_assoc]

theorem accepts_under {base : String} :
    (under base).accepts topic = true ↔
      base = "" ∨ covered (utf8 base) (utf8 topic.text) = true := by
  rw [accepts, Bool.or_eq_true, String.isEmpty_iff]

theorem accepts_of_covers {other : Pattern} (hcov : pattern.covers other = true)
    (haccs : other.accepts topic = true) : pattern.accepts topic = true := by
  cases pattern with
  | exact wanted =>
    cases other with
    | exact asked =>
      have hsame : wanted = asked := by simpa [covers] using hcov
      rw [hsame]
      exact haccs
    | under asked => cases hcov
  | under base =>
    cases other with
    | exact asked =>
      have hsame : asked = topic := by simpa [accepts] using haccs
      rw [← hsame]
      exact hcov
    | under asked =>
      rw [covers, Bool.or_eq_true, Bool.or_eq_true, String.isEmpty_iff, beq_iff_eq] at hcov
      apply accepts_under.mpr
      rcases hcov with (hemp | hsame) | hcover
      · exact .inl hemp
      · rw [← hsame]
        exact accepts_under.mp haccs
      rcases accepts_under.mp haccs with hemp | hunder
      · -- Nothing is longer than a prefix and also empty.
        obtain ⟨rest, hrest⟩ := covered_iff.mp hcover
        have hlist := congrArg String.toList (hemp.symm.trans hrest)
        simp at hlist
      · exact .inr (covered_trans hcover hunder)

end Pattern

theorem Topic.dot_notMem_nameSpace (topic : Topic) : '.' ∉ topic.nameSpace.toList := by
  intro hdot
  rw [Topic.nameSpace, String.toList_ofList] at hdot
  have hkept := all_eq_true.mp all_takeWhile '.' hdot
  cases hkept

variable {owner : String}

/-- What lies under a path of one segment has that segment for its namespace. -/
theorem Topic.nameSpace_of_covered (hcov : Pattern.covered (utf8 owner) (utf8 topic.text) = true)
    (hdot : '.' ∉ owner.toList) : topic.nameSpace = owner := by
  obtain ⟨rest, hrest⟩ := Pattern.covered_iff.mp hcov
  have hks : owner.toList.takeWhile (· != '.') = owner.toList := by
    apply takeWhile_eq_self_iff.mpr
    intro char hchar
    rw [bne_iff_ne]
    rintro rfl
    exact hdot hchar
  rw [Topic.nameSpace, hrest, String.toList_append, String.toList_append, append_assoc,
    takeWhile_append_of_pos (fun char hchar => takeWhile_eq_self_iff.mp hks char hchar)]
  change String.ofList (owner.toList ++ []) = owner
  rw [append_nil, String.ofList_toList]

namespace NamespaceAcl

theorem new_mayPublish :
    new.mayPublish owner topic = true ↔ owner ≠ "" ∧ topic.nameSpace = owner := by
  rw [mayPublish]
  split
  · next hemp =>
    rw [String.isEmpty_iff] at hemp
    exact ⟨(nofun), fun h => absurd hemp h.1⟩
  rename_i hnmd
  rw [String.isEmpty_iff] at hnmd
  split
  · next hsame => exact ⟨fun _ => ⟨hnmd, beq_iff_eq.mp hsame⟩, fun _ => rfl⟩
  · next hoth =>
    exact ⟨(nofun), fun h => absurd (beq_iff_eq.mpr h.2) hoth⟩

variable {acl : NamespaceAcl}

theorem maySubscribe_iff :
    acl.maySubscribe owner pattern = true ↔
      owner ≠ "" ∧ (ownNamespaceCovers owner pattern = true ∨
        acl.granted owner .subscribe pattern = true) := by
  rw [maySubscribe]
  split
  · next hemp =>
    rw [String.isEmpty_iff] at hemp
    exact ⟨(nofun), fun h => absurd hemp h.1⟩
  rename_i hnmd
  rw [String.isEmpty_iff] at hnmd
  split
  · next hown => exact ⟨fun _ => ⟨hnmd, .inl hown⟩, fun _ => rfl⟩
  · next hoth =>
    exact ⟨fun h => ⟨hnmd, .inr h⟩, fun h => h.2.resolve_left hoth⟩

theorem reaches_of_granted (hgrd : acl.granted owner .subscribe pattern = true)
    (haccs : pattern.accepts topic = true) : acl.Reaches owner topic := by
  rw [granted, any_eq_true] at hgrd
  obtain ⟨grant, hgrant, hcov⟩ := hgrd
  rw [Bool.and_eq_true, Bool.and_eq_true, beq_iff_eq, beq_iff_eq] at hcov
  exact ⟨grant, hgrant, hcov.1.1, hcov.1.2, Pattern.accepts_of_covers hcov.2 haccs⟩

theorem own_or_escapes (howner : owner ≠ "") (hown : ownNamespaceCovers owner pattern = true)
    (haccs : pattern.accepts topic = true) (hrchs : ¬ acl.Reaches owner topic) :
    topic.nameSpace = owner ∨ acl.Escapes owner pattern := by
  cases pattern with
  | exact wanted =>
    have hsame : wanted = topic := by simpa [Pattern.accepts] using haccs
    rw [← hsame]
    exact Or.inl (beq_iff_eq.mp hown)
  | under base =>
    rw [ownNamespaceCovers, Bool.or_eq_true, beq_iff_eq] at hown
    by_cases hdot : '.' ∈ owner.toList
    · exact Or.inr ⟨hdot, hown, topic, haccs, hrchs⟩
    apply Or.inl
    apply Topic.nameSpace_of_covered ?_ hdot
    rcases hown with hsame | hbelow
    · rcases Pattern.accepts_under.mp haccs with hemp | hcov
      · exact absurd (hsame.symm.trans hemp) howner
      · rw [← hsame]
        exact hcov
    rcases Pattern.accepts_under.mp haccs with hemp | hcov
    · obtain ⟨rest, hrest⟩ := Pattern.covered_iff.mp hbelow
      have hlist := congrArg String.toList (hemp.symm.trans hrest)
      simp at hlist
    · exact Pattern.covered_trans hbelow hcov

/-- Covering is sound, and the default policy lets an owner subscribe to what is neither in
its namespace nor granted exactly when the owner's name has a separator, the pattern asks
for what is under the name, and a topic there is not granted. -/
theorem subscribe_sound_iff (acl : NamespaceAcl) (owner : String) (pattern : Pattern) :
    (∀ other : Pattern, pattern.covers other = true →
      ∀ topic, other.accepts topic = true → pattern.accepts topic = true) ∧
    (acl.Sound owner pattern ↔ ¬ acl.Escapes owner pattern) := by
  apply And.intro
  · intro other hcovers topic
    exact Pattern.accepts_of_covers hcovers
  apply Iff.intro
  · intro hsound hescapes
    cases pattern with
    | exact wanted => exact hescapes
    | under base =>
      obtain ⟨hdotted, hbelow, topic, haccepts, hreaches⟩ := hescapes
      have howner : owner ≠ "" := by
        rintro rfl
        cases hdotted
      have hown : ownNamespaceCovers owner (.under base) = true := by
        rw [ownNamespaceCovers, Bool.or_eq_true, beq_iff_eq]
        exact hbelow
      rcases hsound (maySubscribe_iff.mpr ⟨howner, .inl hown⟩) topic haccepts with hmine | hgrant
      · rw [← (new_mayPublish.mp hmine).2] at hdotted
        exact topic.dot_notMem_nameSpace hdotted
      · exact hreaches hgrant
  intro hinside hmay topic haccepts
  obtain ⟨howner, hown | hgranted⟩ := maySubscribe_iff.mp hmay
  · by_cases hreaches : acl.Reaches owner topic
    · exact .inr hreaches
    · rcases own_or_escapes howner hown haccepts hreaches with hmine | hescapes
      · exact .inl (new_mayPublish.mpr ⟨howner, hmine⟩)
      · exact absurd hescapes hinside
  · exact .inr (reaches_of_granted hgranted haccepts)

def deep : Topic := ⟨"a.b.c", by decide +kernel⟩

/-- An owner named `a.b` subscribes to `a.b.*` with no grant; `a.b.c` is of the namespace `a`. -/
theorem dotted_owner_escapes :
    Pattern.parse "a.b.*" = .ok (.under "a.b") ∧
      new.maySubscribe "a.b" (.under "a.b") = true ∧
      ∃ topic, (Pattern.under "a.b").accepts topic = true ∧ topic.nameSpace = "a" ∧
        new.mayPublish "a.b" topic = false ∧ ¬ new.Reaches "a.b" topic ∧
        ¬ new.Sound "a.b" (.under "a.b") := by
  have haccepts : (Pattern.under "a.b").accepts deep = true := by decide +kernel
  have hpublish : new.mayPublish "a.b" deep = false := by decide +kernel
  have hmay : new.maySubscribe "a.b" (.under "a.b") = true := by decide +kernel
  have hreaches : ¬ new.Reaches "a.b" deep := fun ⟨_, hgrant, _⟩ => by cases hgrant
  refine ⟨by decide +kernel, hmay, deep, haccepts, by decide +kernel, hpublish, hreaches,
    fun hsound => ?_⟩
  rcases hsound hmay _ haccepts with hmine | hgrant
  · cases hpublish.symm.trans hmine
  · exact hreaches hgrant

end NamespaceAcl

end WasmAgent.Bus
