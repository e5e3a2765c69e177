import WasmAgent.Core.Maps
import WasmAgent.Mesh.Admission

/-!
# Replay protection

A signed call is admitted once: what is recorded about it outlives its freshness, as long as the
request is spelled the same way.
-/

namespace WasmAgent.Mesh

open List Std.ExtTreeMap Std WasmAgent.Core

section Messages

variable {separator : Char}

theorem takeWhile_reverse {rest : List Char} (hrest : separator ∉ rest) (start : List Char) :
    ((start ++ separator :: rest).reverse.takeWhile (· ≠ separator)).reverse = rest := by
  rw [reverse_append, reverse_cons, append_assoc, takeWhile_append_of_pos]
  · rw [singleton_append, takeWhile_cons_of_neg, append_nil, reverse_reverse]
    rw [decide_eq_true_eq, not_not]
  intro char hchar
  rw [decide_eq_true_eq]
  rintro rfl
  exact hrest (mem_reverse.mp hchar)

theorem last_separator_inj {start other rest more : List Char} (hrest : separator ∉ rest)
    (hmore : separator ∉ more) (heq : start ++ separator :: rest = other ++ separator :: more) :
    start = other ∧ rest = more := by
  have hlast : rest = more := by
    rw [← takeWhile_reverse hrest start, heq, takeWhile_reverse hmore]
  rw [hlast] at heq
  exact ⟨append_cancel_right heq, hlast⟩

theorem bar_notMem_hex (bytes : List UInt8) : '|' ∉ (hex bytes).toList := by
  have hdigit : ∀ digit < 16, Nat.digitChar digit ≠ '|' := by decide
  rw [hex, String.toList_ofList]
  intro hmem
  obtain ⟨byte, -, hbyte⟩ := mem_flatMap.mp hmem
  have hbound := byte.toNat_lt
  rw [hexDigits, mem_pair] at hbyte
  rcases hbyte with hhigh | hlow
  · exact hdigit (byte.toNat / 16) (by omega) hhigh.symm
  · exact hdigit (byte.toNat % 16) (Nat.mod_lt _ (by decide)) hlow.symm

theorem bar_notMem_toString (number : ℕ) : '|' ∉ (toString number).toList := by
  rw [Nat.toString_eq_repr, Nat.toList_repr]
  intro hmem
  exact absurd (Nat.isDigit_of_mem_toDigits (by decide) (by decide) hmem) (by decide)

theorem toList_callMessage (fromNodeId : String) (ts : UInt64) (body : String) :
    (MeshCall.callMessage fromNodeId ts body).toList =
      ((MeshCall.callDomain ++ "|").toList ++ fromNodeId.toList) ++
        '|' :: (toString ts.toNat).toList ++ '|' :: (sha256Hex body).toList := by
  have hbar : "|".toList = ['|'] := rfl
  rw [MeshCall.callMessage, String.toList_append, String.toList_append, String.toList_append,
    String.toList_append, hbar, ← append_cons, String.toList_append, ← append_cons]

theorem callMessage_ts {first second : String} {ts late : UInt64} {body other : String}
    (heq : MeshCall.callMessage first ts body = MeshCall.callMessage second late other) :
    ts = late := by
  have hlist := congrArg String.toList heq
  rw [toList_callMessage, toList_callMessage] at hlist
  obtain ⟨hsta, -⟩ := last_separator_inj (bar_notMem_hex _) (bar_notMem_hex _) hlist
  obtain ⟨-, hdig⟩ := last_separator_inj (bar_notMem_toString _) (bar_notMem_toString _) hsta
  have hsame := congrArg State.parseU64 (String.toList_inj.mp hdig)
  rw [State.parseU64_toString, State.parseU64_toString] at hsame
  exact Option.some.inj hsame

end Messages

variable {authentic : Authentic}

section Keys

variable {crates : Crates}

theorem checkNode_ok {seen reached : List String} {node : RosterNode}
    (hok : checkNode seen node = .ok reached) : deriveNodeId node.publicKey = some node.nodeId := by
  rw [checkNode] at hok
  obtain ⟨_, -, hok⟩ := bind_eq_ok.mp hok
  obtain ⟨_, -, hok⟩ := bind_eq_ok.mp hok
  split at hok
  · cases hok
  · next hsame => exact not_not.mp hsame

theorem foldlM_checkNode {nodes : List RosterNode} {seen reached : List String}
    (hok : nodes.foldlM checkNode seen = .ok reached) :
    ∀ node ∈ nodes, deriveNodeId node.publicKey = some node.nodeId := by
  induction nodes generalizing seen with
  | nil => exact fun node hnode => absurd hnode not_mem_nil
  | cons first rest ih =>
    rw [foldlM_cons] at hok
    obtain ⟨middle, hfst, hrest⟩ := bind_eq_ok.mp hok
    exact forall_mem_cons.mpr ⟨checkNode_ok hfst, ih hrest⟩

variable {roster : Roster}

theorem Roster.validate_nodes (hok : roster.validate = .ok ()) :
    ∃ reached, roster.nodes.foldlM checkNode [] = .ok reached := by
  rw [Roster.validate] at hok
  split at hok
  · cases hok
  split at hok
  · cases hok
  split at hok
  · cases hok
  cases hnodes : roster.nodes.foldlM checkNode [] with
  | error fault =>
    rw [hnodes] at hok
    cases hok
  | ok reached => exact ⟨reached, rfl⟩

theorem Roster.validate_ok (hok : roster.validate = .ok ()) :
    ∀ node ∈ roster.nodes, deriveNodeId node.publicKey = some node.nodeId := by
  obtain ⟨reached, hnodes⟩ := Roster.validate_nodes hok
  exact foldlM_checkNode hnodes

theorem Roster.verify_ok {signatures : Signatures} {fleetKey : String} {now : UInt64}
    (hok : Roster.verify signatures roster fleetKey now = .ok ()) : roster.validate = .ok () := by
  rw [Roster.verify] at hok
  split at hok
  · cases hok
  obtain ⟨_, -, hok⟩ := bind_eq_ok.mp hok
  split at hok
  · cases hok
  split at hok
  · cases hok
  · split at hok
    · cases hok
    · exact hok

theorem Roster.node_mem {selector : String} {node : RosterNode}
    (hnode : roster.node selector = some node) : node ∈ roster.nodes := by
  rw [Roster.node] at hnode
  cases hid : roster.nodes.find? fun node => node.nodeId = selector with
  | some found =>
    rw [hid] at hnode
    cases hnode
    exact mem_of_find?_eq_some hid
  | none =>
    rw [hid] at hnode
    exact mem_of_find?_eq_some hnode

variable {arrival : Arrival} (hok : authenticate crates arrival = .ok authentic)
include hok

theorem authenticate_ok :
    deriveNodeId authentic.caller.publicKey = some authentic.caller.nodeId ∧
      authentic.signature = (arrival.inbound.header "x-wa-sig").getD "" ∧
      crates.signatures.verify authentic.caller.publicKey
        (MeshCall.callMessage authentic.call.fromNodeId authentic.ts arrival.inbound.body)
          authentic.signature = true := by
  rw [authenticate] at hok
  dsimp only at hok
  split at hok
  · cases hok
  split at hok
  · cases hok
  rename_i roster policy hfs
  split at hok
  · cases hok
  rename_i hros
  obtain ⟨call, hcall, hok⟩ := bind_eq_ok.mp hok
  split at hok
  · cases hok
  obtain ⟨caller, hcal, hok⟩ := bind_eq_ok.mp hok
  split at hok
  · cases hok
  obtain ⟨ts, hts, hok⟩ := bind_eq_ok.mp hok
  split at hok
  · cases hok
  rename_i hver
  cases hok
  refine ⟨?_, rfl, ?_⟩
  · apply Roster.validate_ok (Roster.verify_ok hros)
    cases hnode : roster.node call.fromNodeId with
    | none =>
      rw [hnode] at hcal
      cases hcal
    | some found =>
      rw [hnode] at hcal
      cases hcal
      exact Roster.node_mem hnode
  · rwa [Bool.not_eq_true', Bool.not_eq_false] at hver

theorem authenticate_files : arrival.files = .ok (authentic.roster, authentic.policy) := by
  rw [authenticate] at hok
  dsimp only at hok
  split at hok
  · cases hok
  split at hok
  · cases hok
  rename_i roster policy hfs
  split at hok
  · cases hok
  obtain ⟨call, -, hok⟩ := bind_eq_ok.mp hok
  split at hok
  · cases hok
  obtain ⟨caller, -, hok⟩ := bind_eq_ok.mp hok
  split at hok
  · cases hok
  obtain ⟨ts, -, hok⟩ := bind_eq_ok.mp hok
  split at hok
  · cases hok
  · cases hok
    exact hfs

omit hok

theorem legacy_allowed (inbound : Inbound) (why : String) :
    (legacy crates inbound why).allowed? = none := by
  rw [legacy]
  split
  · rfl
  · rfl

theorem bind_eq_error {Fault First Next : Type} {first : Except Fault First}
    {next : First → Except Fault Next} {fault : Fault} :
    (first >>= next) = .error fault ↔
      first = .error fault ∨ ∃ value, first = .ok value ∧ next value = .error fault := by
  cases first with
  | error found =>
    apply Iff.intro
    · intro hflt
      exact .inl (congrArg Except.error (Except.error.inj hflt))
    · rintro (hflt | ⟨value, hval, -⟩)
      · exact congrArg Except.error (Except.error.inj hflt)
      · cases hval
  | ok value =>
    apply Iff.intro
    · exact fun hflt => .inr ⟨value, rfl, hflt⟩
    rintro (hflt | ⟨other, hoth, hflt⟩)
    · cases hflt
    · cases hoth
      exact hflt

theorem orAnswer_error {Value : Type} {value : Option Value} {answer found : Admission}
    (herr : orAnswer value answer = .error found) : found = answer := by
  cases value with
  | none => exact (Except.error.inj herr).symm
  | some value => cases herr

/-- No request is admitted before its signature is checked. -/
theorem authenticate_error {answer : Admission}
    (herr : authenticate crates arrival = .error answer) : answer.allowed? = none := by
  rw [authenticate] at herr
  dsimp only at herr
  split at herr
  · cases herr
    rfl
  split at herr
  · cases herr
    exact legacy_allowed _ _
  split at herr
  · cases herr
    exact legacy_allowed _ _
  rcases bind_eq_error.mp herr with hcall | ⟨call, -, herr⟩
  · rw [orAnswer_error hcall]
    rfl
  split at herr
  · cases herr
    rfl
  rcases bind_eq_error.mp herr with hcal | ⟨caller, -, herr⟩
  · rw [orAnswer_error hcal]
    rfl
  split at herr
  · cases herr
    rfl
  rcases bind_eq_error.mp herr with hts | ⟨ts, -, herr⟩
  · rw [orAnswer_error hts]
    rfl
  split at herr
  · cases herr
    rfl
  · cases herr

end Keys

variable {recorded : UInt64}

section Windows

variable {seen : Seen} {key : String} {now : UInt64} (hkey : seen[key]? = some recorded)
variable (hrcnt : now.toNat < recorded.toNat + replayWindowSeconds)
include hkey hrcnt

theorem getElem?_retained : (retained now seen)[key]? = some recorded := by
  rw [retained, getElem?_filter', hkey, Option.filter_some, if_pos]
  apply decide_eq_true
  have hwin : 0 < replayWindowSeconds := Nat.succ_pos _
  omega

theorem contains_retained : (retained now seen).contains key = true := by
  rw [contains_eq_isSome_getElem?, getElem?_retained hkey hrcnt]
  rfl

theorem isReplayed_of_recent : (isReplayed seen key now).1 = true := by
  rw [isReplayed]
  rw [if_pos (contains_retained hkey hrcnt)]

theorem getElem?_isReplayed (other : String) :
    (isReplayed seen other now).2[key]? = some recorded := by
  rw [isReplayed]
  split
  · exact getElem?_retained hkey hrcnt
  rename_i hoth
  rw [getElem?_insert_of_ne, getElem?_retained hkey hrcnt]
  rintro rfl
  exact hoth (contains_retained hkey hrcnt)

omit hrcnt hkey

theorem getElem?_of_not_replayed (hnew : (isReplayed seen key now).1 = false) :
    (isReplayed seen key now).2[key]? = some now := by
  rw [isReplayed] at hnew ⊢
  split at hnew
  · cases hnew
  · next hoth =>
    rw [if_neg hoth]
    exact getElem?_insert_self

end Windows

section Decisions

variable {crates : Crates} {arrival : Arrival} {seen : Seen} {message : String}

def Arrival.signed? (crates : Crates) (arrival : Arrival) : Option String :=
  (authenticate crates arrival).toOption.map fun authentic =>
    MeshCall.callMessage authentic.call.fromNodeId authentic.ts arrival.inbound.body

def Arrival.spelling (arrival : Arrival) : String := (arrival.inbound.header "x-wa-sig").getD ""

def admits (crates : Crates) (message : String) (arrival : Arrival) (seen : Seen) : Bool :=
  (decide crates arrival seen).1.allowed?.isSome && arrival.signed? crates = some message

/-- How often the message is admitted. -/
def admissions (crates : Crates) (message : String) : List Arrival → Seen → ℕ
  | [], _ => 0
  | arrival :: arrivals, seen =>
      (if admits crates message arrival seen then 1 else 0) +
        admissions crates message arrivals (decide crates arrival seen).2

def Steady (crates : Crates) (arrivals : List Arrival) : Prop :=
  arrivals.Pairwise fun earlier later =>
    earlier.signed? crates = later.signed? crates → (earlier.signed? crates).isSome = true →
      earlier.spelling = later.spelling ∧ later.now.toNat < earlier.now.toNat + replayWindowSeconds

/-- The clock does not go back. -/
def Forward (arrivals : List Arrival) : Prop :=
  arrivals.Pairwise fun earlier later => earlier.now ≤ later.now

theorem signed_eq_some :
    arrival.signed? crates = some message ↔
      ∃ authentic, authenticate crates arrival = .ok authentic ∧
        MeshCall.callMessage authentic.call.fromNodeId authentic.ts arrival.inbound.body =
          message := by
  rw [Arrival.signed?]
  cases hok : authenticate crates arrival with
  | error answer =>
    apply iff_of_false
    · exact nofun
    · rintro ⟨authentic, haut, -⟩
      cases haut
  | ok authentic =>
    apply Iff.intro
    · intro hsome
      exact ⟨authentic, rfl, Option.some.inj hsome⟩
    · rintro ⟨other, hoth, hmsg⟩
      cases hoth
      exact congrArg some hmsg

def Authentic.key (authentic : Authentic) : String :=
  replayKey authentic.caller.nodeId authentic.ts authentic.signature

theorem key_eq {other : Arrival} {first second : Authentic}
    (hfst : authenticate crates arrival = .ok first)
    (hsnd : authenticate crates other = .ok second)
    (hmsg : MeshCall.callMessage first.call.fromNodeId first.ts arrival.inbound.body =
      MeshCall.callMessage second.call.fromNodeId second.ts other.inbound.body)
    (hspel : arrival.spelling = other.spelling) : first.key = second.key := by
  obtain ⟨hder, hsig, hver⟩ := authenticate_ok hfst
  obtain ⟨hotherDerived, hotherSignature, hotherVerify⟩ := authenticate_ok hsnd
  rw [← hmsg] at hotherVerify
  have hkeys := (Signatures.verify_unhex hver hotherVerify).1
  have hids : first.caller.nodeId = second.caller.nodeId := by
    rw [deriveNodeId, hkeys] at hder
    rw [deriveNodeId, hder] at hotherDerived
    exact Option.some.inj hotherDerived
  rw [Authentic.key, Authentic.key, hids, callMessage_ts hmsg, hsig, hotherSignature]
  exact congrArg _ hspel

theorem getElem?_decide {key : String} (hkey : seen[key]? = some recorded)
    (hrcnt : arrival.now.toNat < recorded.toNat + replayWindowSeconds) :
    (decide crates arrival seen).2[key]? = some recorded := by
  rw [decide]
  split
  · exact hkey
  split
  · exact hkey
  dsimp only
  split
  · exact getElem?_isReplayed hkey hrcnt _
  · exact getElem?_isReplayed hkey hrcnt _

theorem getElem?_of_admits (hok : authenticate crates arrival = .ok authentic)
    (hadm : admits crates message arrival seen = true) :
    (isReplayed seen authentic.key arrival.now).1 = false ∧
      (decide crates arrival seen).2[authentic.key]? = some arrival.now := by
  have halwd := (Bool.and_eq_true_iff.mp hadm).1
  rw [decide, hok] at halwd ⊢
  dsimp only at halwd ⊢
  split at halwd
  · cases halwd
  rename_i hfre
  rw [if_neg hfre]
  split at halwd
  · cases halwd
  rename_i hnew
  rw [Bool.not_eq_true] at hnew
  rw [if_neg (by rw [hnew]; exact Bool.false_ne_true)]
  exact ⟨hnew, getElem?_of_not_replayed hnew⟩

variable {arrivals : List Arrival}

theorem admissions_of_unsigned
    (huns : ∀ arrival ∈ arrivals, arrival.signed? crates ≠ some message) (seen : Seen) :
    admissions crates message arrivals seen = 0 := by
  induction arrivals generalizing seen with
  | nil => rfl
  | cons arrival arrivals ih =>
    obtain ⟨hfst, hrest⟩ := forall_mem_cons.mp huns
    rw [admissions, admits, decide_eq_false hfst, Bool.and_false, if_neg Bool.false_ne_true,
      Nat.zero_add]
    exact ih hrest _

theorem admissions_of_recorded {key : String} (hkey : seen[key]? = some recorded)
    (hfwd : Forward arrivals)
    (hcard : ∀ arrival ∈ arrivals, ∀ authentic, authenticate crates arrival = .ok authentic →
      arrival.signed? crates = some message → authentic.key = key ∧
        arrival.now.toNat < recorded.toNat + replayWindowSeconds) :
    admissions crates message arrivals seen = 0 := by
  induction arrivals generalizing seen with
  | nil => rfl
  | cons arrival arrivals ih =>
    obtain ⟨hltr, hrest⟩ := pairwise_cons.mp hfwd
    obtain ⟨hfst, hcarriedRest⟩ := forall_mem_cons.mp hcard
    have hnot : admits crates message arrival seen = false := by
      rw [← Bool.not_eq_true]
      intro hadm
      have hsig := of_decide_eq_true (Bool.and_eq_true_iff.mp hadm).2
      obtain ⟨authentic, hok, -⟩ := signed_eq_some.mp hsig
      obtain ⟨hsame, hrcnt⟩ := hfst authentic hok hsig
      have hrpd := (getElem?_of_admits hok hadm).1
      rw [hsame, isReplayed_of_recent hkey hrcnt] at hrpd
      cases hrpd
    rw [admissions, hnot, if_neg Bool.false_ne_true, Nat.zero_add]
    by_cases hrcnt : arrival.now.toNat < recorded.toNat + replayWindowSeconds
    · exact ih (getElem?_decide hkey hrcnt) hrest hcarriedRest
    · -- The record may be gone, but then no request that carries the message is left.
      apply admissions_of_unsigned
      intro later hlaterMem hsig
      obtain ⟨authentic, hok, -⟩ := signed_eq_some.mp hsig
      have hrecentLater := (hcarriedRest later hlaterMem authentic hok hsig).2
      have hclock := UInt64.le_iff_toNat_le.mp (hltr later hlaterMem)
      omega

theorem admissions_le_one (hfwd : Forward arrivals) (hsteady : Steady crates arrivals)
    (seen : Seen) : admissions crates message arrivals seen ≤ 1 := by
  induction arrivals generalizing seen with
  | nil => exact Nat.zero_le 1
  | cons arrival arrivals ih =>
    obtain ⟨hltr, hrestForward⟩ := pairwise_cons.mp hfwd
    obtain ⟨hapart, hrestSteady⟩ := pairwise_cons.mp hsteady
    rw [admissions]
    cases hadm : admits crates message arrival seen with
    | false =>
      rw [if_neg Bool.false_ne_true, Nat.zero_add]
      exact ih hrestForward hrestSteady _
    | true =>
      have hsig := of_decide_eq_true (Bool.and_eq_true_iff.mp hadm).2
      obtain ⟨authentic, hok, hmsg⟩ := signed_eq_some.mp hsig
      have hrecd := (getElem?_of_admits hok hadm).2
      have hnone := admissions_of_recorded hrecd hrestForward (by
        intro later hmem other hoth hcard
        obtain ⟨found, hfnd, hcar⟩ := signed_eq_some.mp hcard
        cases hfnd.symm.trans hoth
        obtain ⟨hspel, hrcnt⟩ := hapart later hmem (hsig.trans hcard.symm) (by rw [hsig]; rfl)
        exact ⟨(key_eq hok hoth (hmsg.trans hcar.symm) hspel).symm, hrcnt⟩)
      rw [if_pos rfl, hnone]

end Decisions

section Captured

def fleetKey : String := "f1f1f1f1f1f1f1f1f1f1f1f1f1f1f1f1f1f1f1f1f1f1f1f1f1f1f1f1f1f1f1f1"

def laptop : RosterNode :=
  ⟨"02d449a31fbb267c8f352e9968a79e3e",
    "1111111111111111111111111111111111111111111111111111111111111111", "laptop", 0, [], 0⟩

def oracle : RosterNode :=
  ⟨"9f72ea0cf49536e3c66c787f705186df",
    "2222222222222222222222222222222222222222222222222222222222222222", "oracle", 1, [], 0⟩

def fleetRoster : Roster := ⟨1, "home", 0, 0, [laptop, oracle], "f5f5f5f5f5f5f5f5"⟩

def fleetPolicy : MeshPolicy := ⟨fleetKey, []⟩

def readsStatus : MeshCall := ⟨1, "r1", laptop.nodeId, oracle.nodeId, "status", .object [], "", []⟩

def readsStatusText : String :=
  "\x7b\"schema\":1,\"request_id\":\"r1\"," ++
    "\"from_node_id\":\"02d449a31fbb267c8f352e9968a79e3e\"," ++
    "\"to_node_id\":\"9f72ea0cf49536e3c66c787f705186df\",\"capability\":\"status\"," ++
    "\"args\":\x7b\x7d,\"inner_body\":\"\",\"inner_headers\":[]\x7d"

def readsStatusMessage : String :=
  "mesh-call-v1|02d449a31fbb267c8f352e9968a79e3e|1000|" ++
    "be29fec41ef6e62177216372953f44f8ced8272ea524021259ef6fe44f851518"

def fleetCrates : Crates where
  signatures := ⟨fun message =>
    if message = utf8 fleetRoster.canonical then
      some (List.replicate 32 0xf1, List.replicate 8 0xf5)
    else if message = utf8 readsStatusMessage then
      some (List.replicate 32 0x11, List.replicate 8 0xab)
    else none⟩
  readCall text := if text = readsStatusText then some readsStatus else none

/-- The call arrives at a time, with the signature spelled in one way. -/
def arrivesAt (now : UInt64) (spelling : String) : Arrival where
  inbound := ⟨[("X-WA-Mesh", "1"), ("X-WA-Node", laptop.nodeId), ("X-WA-Pub", laptop.publicKey),
    ("X-WA-Ts", "1000"), ("X-WA-Sig", spelling)], readsStatusText, .direct⟩
  now := now
  files := .ok (fleetRoster, fleetPolicy)
  nodeId := oracle.nodeId

def lowerCase : String := "abababababababab"

def upperCase : String := "ABABABABABABABAB"

end Captured

end WasmAgent.Mesh
