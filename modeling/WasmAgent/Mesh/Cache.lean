import WasmAgent.Mesh.Calling
import WasmAgent.Mesh.Push
import WasmAgent.Mesh.Replay

/-!
# The cache of peers

A caller keeps the addresses at which nodes were reached.  Who a node is, the roster says; its
addresses come first, and behind them come those that were announced or that answered.
-/

namespace WasmAgent.Mesh

open List Std.ExtTreeMap Std WasmAgent.Core

/-- Where the word on a peer is from, the weakest first. -/
inductive Source where
  | learned
  | rendezvous
  | roster
  deriving DecidableEq

structure CachedPeer where
  nodeId : String
  name : String
  level : UInt8
  publicKey : String
  addresses : List String
  source : Source
  lastOkMs : UInt64
  lastError : String
  deriving DecidableEq

abbrev PeerCache := ExtTreeMap String CachedPeer compare

def pushAddress (entry : CachedPeer) (address : String) : CachedPeer :=
  if trimmed address = "" ∨ trimmed address ∈ entry.addresses then entry
  else if maxCachedAddresses ≤ entry.addresses.length then entry
  else { entry with addresses := entry.addresses ++ [trimmed address] }

def fromRoster (node : RosterNode) (known : Option CachedPeer) : CachedPeer :=
  let entry := known.getD ⟨node.nodeId, node.name, node.level, node.publicKey, [], .roster, 0, ""⟩
  node.addresses.foldl pushAddress
    { entry with
      name := node.name
      level := node.level
      publicKey := node.publicKey
      source := .roster }

/-- What the rendezvous announces of a node. -/
structure Announcement where
  nodeId : String
  name : String
  publicKey : String
  endpoints : List String

def Announcement.read (node : Json) : Option Announcement :=
  let nodeId := (node.field "node_id").asStr.getD ""
  if nodeId = "" ∨ nodeId.toList.any (fun char => (hexDigit char).isNone) then none
  else some ⟨nodeId, (node.field "name").asStr.getD "", (node.field "public_key").asStr.getD "",
    match node.field "endpoints" with
    | .array endpoints => endpoints.filterMap Json.asStr
    | _ => []⟩

/-- The nodes of an answer to `/nodes`, which is an object or the list itself. -/
def announcements (payload : Json) : List Announcement :=
  match payload.field "nodes", payload with
  | .array nodes, _ => nodes.filterMap Announcement.read
  | _, .array nodes => nodes.filterMap Announcement.read
  | _, _ => []

def fromRendezvous (now : UInt64) (node : Announcement) (known : Option CachedPeer) : CachedPeer :=
  let entry := known.getD ⟨node.nodeId, node.name, 0, node.publicKey, [], .rendezvous, now, ""⟩
  node.endpoints.foldl pushAddress
    { entry with
      name := if node.name = "" then entry.name else node.name
      -- The roster has the last word on a key.
      publicKey := if entry.source ≠ .roster ∧ node.publicKey ≠ "" then node.publicKey
        else entry.publicKey
      source := if entry.source = .learned then .rendezvous else entry.source }

def fromSuccess (nodeId address : String) (now : UInt64) : Option CachedPeer → CachedPeer
  | some entry =>
      let entry := { entry with lastOkMs := now, lastError := "" }
      if address ∈ entry.addresses then entry else pushAddress entry address
  | none => ⟨nodeId, "", 0, "", [address], .learned, now, ""⟩

namespace PeerCache

def mergeRoster (roster : Roster) (cache : PeerCache) : PeerCache :=
  roster.nodes.foldl (fun cache node =>
    cache.insert node.nodeId (fromRoster node cache[node.nodeId]?)) cache

def mergeRendezvous (payload : Json) (now : UInt64) (cache : PeerCache) : PeerCache :=
  (announcements payload).foldl (fun cache node =>
    cache.insert node.nodeId (fromRendezvous now node cache[node.nodeId]?)) cache

def recordSuccess (nodeId address : String) (now : UInt64) (cache : PeerCache) : PeerCache :=
  cache.insert nodeId (fromSuccess nodeId address now cache[nodeId]?)

def recordFailure (nodeId error : String) (cache : PeerCache) : PeerCache :=
  match cache[nodeId]? with
  | some entry =>
      cache.insert nodeId { entry with lastError := String.ofList (error.toList.take 160) }
  | none => cache

def called (failures : List String) (outcome : Outcome) (now : UInt64) (cache : PeerCache) :
    PeerCache :=
  match outcome with
  | .ok node _ _ address _ _ _ _ =>
      recordSuccess node.nodeId address now
        (failures.foldl (fun cache error => recordFailure node.nodeId error cache) cache)
  | .refused node _ _ _ _ | .unreachable node _ _ | .relayFailed node _ _ =>
      failures.foldl (fun cache error => recordFailure node.nodeId error cache) cache
  | .denied _ _ _ | .unknown _ | .unavailable _ _ => cache

end PeerCache

def Client.reading (client : Client) (cache : PeerCache) : Client :=
  { client with cached := fun nodeId => (cache[nodeId]?).elim [] (·.addresses) }

inductive CacheStep where
  | mergeRoster (roster : Roster)
  | mergeRendezvous (payload : Json) (now : UInt64)
  | recordSuccess (nodeId address : String) (now : UInt64)
  | recordFailure (nodeId error : String)
  | called (failures : List String) (outcome : Outcome) (now : UInt64)

namespace CacheStep

def run (cache : PeerCache) : CacheStep → PeerCache
  | mergeRoster roster => PeerCache.mergeRoster roster cache
  | mergeRendezvous payload now => PeerCache.mergeRendezvous payload now cache
  | recordSuccess nodeId address now => PeerCache.recordSuccess nodeId address now cache
  | recordFailure nodeId error => PeerCache.recordFailure nodeId error cache
  | called failures outcome now => PeerCache.called failures outcome now cache

def isMerge : CacheStep → Bool
  | mergeRoster _ => true
  | _ => false

def isDirect : CacheStep → Bool
  | called _ (.ok _ _ _ _ _ transport _ _) _ => transport = "direct"
  | _ => true

def Lists (nodeId address : String) : CacheStep → Prop
  | mergeRoster roster => ∃ node ∈ roster.nodes, node.nodeId = nodeId ∧
      ∃ raw ∈ node.addresses, trimmed raw = address
  | _ => False

def Announces (nodeId address : String) : CacheStep → Prop
  | mergeRendezvous payload _ => ∃ node ∈ announcements payload, node.nodeId = nodeId ∧
      ∃ raw ∈ node.endpoints, trimmed raw = address
  | _ => False

def Answers (nodeId address : String) : CacheStep → Prop
  | recordSuccess other raw _ => other = nodeId ∧ (raw = address ∨ trimmed raw = address)
  | called _ (.ok node _ _ raw _ transport _ _) _ => transport = "direct" ∧
      node.nodeId = nodeId ∧ (raw = address ∨ trimmed raw = address)
  | _ => False

end CacheStep

/-- The roster's addresses by rank, then others that are stated, each once and few in all. -/
def OwnFirst (node : RosterNode) (stated : String → Prop) (addresses : List String) : Prop :=
  ∃ listed further, addresses = listed ++ further ∧
    listed.Pairwise (fun left right => addressRank left ≤ addressRank right) ∧
    (∀ address, address ∈ listed ↔ address ∈ node.addresses) ∧
    addresses.Nodup ∧ addresses.length ≤ maxCachedAddresses ∧ ∀ address ∈ further, stated address

/-- The roster says who a node is and what comes first, and what follows has been announced of
this node or has answered for it. -/
structure Own (client : Client) (cache : PeerCache) (steps : List CacheStep) (node : RosterNode) :
    Prop where
  who : ∃ entry, cache[node.nodeId]? = some entry ∧ entry.level = node.level ∧
    entry.publicKey = node.publicKey
  addresses : OwnFirst node
    (fun address => ∃ step ∈ steps,
      step.Announces node.nodeId address ∨ step.Answers node.nodeId address)
    ((client.reading cache).addresses node)

section Entries

variable {reason : String → Prop} {entry : CachedPeer} {address : String} {raws : List String}

structure Entitled (reason : String → Prop) (entry : CachedPeer) : Prop where
  nodup : entry.addresses.Nodup
  stated : ∀ address ∈ entry.addresses, reason address

def SameWho (entry other : CachedPeer) : Prop :=
  other.level = entry.level ∧ other.publicKey = entry.publicKey ∧ other.source = entry.source

theorem pushAll_who (raws : List String) (entry : CachedPeer) :
    SameWho entry (raws.foldl pushAddress entry) := by
  apply foldlRecOn (motive := SameWho entry)
  · exact ⟨rfl, rfl, rfl⟩
  intro reached hrch raw _
  rw [pushAddress]
  split
  · exact hrch
  · split
    · exact hrch
    · exact hrch

theorem Entitled.push (hentl : Entitled reason entry) (hreas : reason (trimmed address)) :
    Entitled reason (pushAddress entry address) := by
  rw [pushAddress]
  split
  · exact hentl
  rename_i hnew
  split
  · exact hentl
  constructor
  · apply nodup_append.mpr
    refine ⟨hentl.nodup, nodup_singleton _, ?_⟩
    intro old hold new hthis hsame
    rw [mem_singleton.mp hthis] at hsame
    exact hnew (.inr (hsame ▸ hold))
  intro other hoth
  rcases mem_append.mp hoth with hold | hthis
  · exact hentl.stated other hold
  · exact mem_singleton.mp hthis ▸ hreas

theorem Entitled.pushAll (hentl : Entitled reason entry)
    (hreas : ∀ raw ∈ raws, reason (trimmed raw)) :
    Entitled reason (raws.foldl pushAddress entry) := by
  apply foldlRecOn (motive := Entitled reason)
  · exact hentl
  · intro reached hrch raw hraw
    exact hrch.push (hreas raw hraw)

theorem Entitled.of_addresses {other : CachedPeer} (hentl : Entitled reason entry)
    (hsame : other.addresses = entry.addresses) : Entitled reason other :=
  ⟨hsame ▸ hentl.nodup, hsame ▸ hentl.stated⟩

theorem Entitled.of_none (hnone : entry.addresses = []) : Entitled reason entry :=
  ⟨hnone ▸ nodup_nil, fun _ hmem => absurd (hnone ▸ hmem) not_mem_nil⟩

end Entries

section Caches

variable {reason : String → String → Prop} {cache : PeerCache} {node : RosterNode}

def Stated (reason : String → String → Prop) (cache : PeerCache) : Prop :=
  ∀ (nodeId : String) (entry : CachedPeer), cache[nodeId]? = some entry →
    Entitled (reason nodeId) entry

def Held (node : RosterNode) (cache : PeerCache) : Prop :=
  ∃ entry, cache[node.nodeId]? = some entry ∧ entry.level = node.level ∧
    entry.publicKey = node.publicKey ∧ entry.source = .roster

variable {nodeId : String}

theorem Stated.insert {entry : CachedPeer} (hstat : Stated reason cache)
    (hent : Entitled (reason nodeId) entry) : Stated reason (cache.insert nodeId entry) := by
  intro other found hfnd
  rcases getElem?_insert_cases hfnd with ⟨rfl, rfl⟩ | ⟨-, hold⟩
  · exact hent
  · exact hstat other found hold

theorem Held.insert {entry : CachedPeer} (hheld : Held node cache)
    (hsame : nodeId = node.nodeId → ∀ known, cache[nodeId]? = some known →
      known.source = .roster → SameWho known entry) : Held node (cache.insert nodeId entry) := by
  obtain ⟨found, hfnd, hlevel, hkey, hsrc⟩ := hheld
  by_cases hid : nodeId = node.nodeId
  · subst hid
    obtain ⟨hsameLevel, hsameKey, hsameSource⟩ := hsame rfl found hfnd hsrc
    exact ⟨entry, getElem?_insert_self, hsameLevel.trans hlevel, hsameKey.trans hkey,
      hsameSource.trans hsrc⟩
  · exact ⟨found, (getElem?_insert_of_ne hid).trans hfnd, hlevel, hkey, hsrc⟩

theorem Stated.recordFailures (hstat : Stated reason cache) (failures : List String) :
    Stated reason (failures.foldl
      (fun cache error => PeerCache.recordFailure nodeId error cache) cache) := by
  apply foldlRecOn (motive := Stated reason)
  · exact hstat
  intro reached hrch error _
  rw [PeerCache.recordFailure]
  split
  · next entry hent =>
    exact hrch.insert ((hrch nodeId entry hent).of_addresses rfl)
  · exact hrch

theorem Held.recordFailures (hheld : Held node cache) (failures : List String) :
    Held node (failures.foldl
      (fun cache error => PeerCache.recordFailure nodeId error cache) cache) := by
  apply foldlRecOn (motive := Held node)
  · exact hheld
  intro reached hrch error _
  rw [PeerCache.recordFailure]
  split
  · next entry hent =>
    apply hrch.insert
    intro _ known hknw _
    cases hent.symm.trans hknw
    exact ⟨rfl, rfl, rfl⟩
  · exact hrch

variable {now : UInt64}

theorem Stated.recordSuccess {nodeId address : String} (hstat : Stated reason cache)
    (hraw : reason nodeId address) (htrim : reason nodeId (trimmed address)) :
    Stated reason (PeerCache.recordSuccess nodeId address now cache) := by
  apply hstat.insert
  cases hent : cache[nodeId]? with
  | none =>
    refine ⟨nodup_singleton _, ?_⟩
    intro other hoth
    exact mem_singleton.mp hoth ▸ hraw
  | some entry =>
    have hentl := hstat nodeId entry hent
    rw [fromSuccess]
    split
    · exact hentl.of_addresses rfl
    · exact Entitled.push (hentl.of_addresses rfl) htrim

theorem Held.recordSuccess {nodeId address : String} (hheld : Held node cache) :
    Held node (PeerCache.recordSuccess nodeId address now cache) := by
  apply hheld.insert
  intro _ known hknw _
  rw [hknw, fromSuccess]
  split
  · exact ⟨rfl, rfl, rfl⟩
  · exact pushAll_who [address] { known with lastOkMs := now, lastError := "" }

theorem Stated.mergeRoster {roster : Roster} (hstat : Stated reason cache)
    (hreas : ∀ node ∈ roster.nodes, ∀ raw ∈ node.addresses, reason node.nodeId (trimmed raw)) :
    Stated reason (PeerCache.mergeRoster roster cache) := by
  apply foldlRecOn (motive := Stated reason)
  · exact hstat
  intro reached hrch node hnode
  apply hrch.insert
  apply Entitled.pushAll _ (hreas node hnode)
  cases hknw : reached[node.nodeId]? with
  | none => exact Entitled.of_none rfl
  | some known => exact (hrch _ known hknw).of_addresses rfl

theorem Stated.mergeRendezvous {payload : Json} (hstat : Stated reason cache)
    (hreas : ∀ node ∈ announcements payload, ∀ raw ∈ node.endpoints,
      reason node.nodeId (trimmed raw)) :
    Stated reason (PeerCache.mergeRendezvous payload now cache) := by
  apply foldlRecOn (motive := Stated reason)
  · exact hstat
  intro reached hrch node hnode
  apply hrch.insert
  apply Entitled.pushAll _ (hreas node hnode)
  cases hknw : reached[node.nodeId]? with
  | none => exact Entitled.of_none rfl
  | some known => exact (hrch _ known hknw).of_addresses rfl

/-- An announcement changes nothing that the roster says. -/
theorem Held.mergeRendezvous {payload : Json} (hheld : Held node cache) :
    Held node (PeerCache.mergeRendezvous payload now cache) := by
  apply foldlRecOn (motive := Held node)
  · exact hheld
  intro reached hrch announced _
  apply hrch.insert
  intro _ known hknw hsrc
  rw [hknw, fromRendezvous]
  obtain ⟨hlevel, hkey, hfrom⟩ := pushAll_who announced.endpoints _
  refine ⟨hlevel, hkey.trans ?_, hfrom.trans ?_⟩
  · exact if_neg fun hweak => hweak.1 hsrc
  · apply if_neg
    intro hlear
    cases hsrc.symm.trans hlear

theorem held_mergeRoster {nodes : List RosterNode} (hdist : (nodes.map (·.nodeId)).Nodup)
    (hnode : node ∈ nodes ∨ Held node cache ∧ node.nodeId ∉ nodes.map (·.nodeId)) :
    Held node (nodes.foldl (fun cache node =>
      cache.insert node.nodeId (fromRoster node cache[node.nodeId]?)) cache) := by
  induction nodes generalizing cache with
  | nil =>
    rcases hnode with hmem | hheld
    · exact absurd hmem not_mem_nil
    · exact hheld.1
  | cons first rest ih =>
    rw [map_cons, nodup_cons] at hdist
    apply ih hdist.2
    rcases hnode with hmem | ⟨hheld, hoth⟩
    · rcases mem_cons.mp hmem with rfl | hltr
      · obtain ⟨hlevel, hkey, hsrc⟩ := pushAll_who node.addresses _
        exact .inr ⟨⟨_, getElem?_insert_self, hlevel, hkey, hsrc⟩, hdist.1⟩
      · exact .inl hltr
    · rw [map_cons, mem_cons, not_or] at hoth
      exact .inr ⟨hheld.insert fun hsame => absurd hsame.symm hoth.1, hoth.2⟩

end Caches

section Steps

variable {reason : String → String → Prop} {cache : PeerCache} {node : RosterNode}

def CacheStep.Gives (nodeId address : String) (step : CacheStep) : Prop :=
  step.Lists nodeId address ∨ step.Announces nodeId address ∨ step.Answers nodeId address

theorem Stated.step (hstat : Stated reason cache) (step : CacheStep) (hdir : step.isDirect = true)
    (hreas : ∀ nodeId address, step.Gives nodeId address → reason nodeId address) :
    Stated reason (step.run cache) := by
  cases step with
  | mergeRoster roster =>
    apply hstat.mergeRoster
    intro node hnode raw hraw
    exact hreas _ _ (.inl ⟨node, hnode, rfl, raw, hraw, rfl⟩)
  | mergeRendezvous payload now =>
    apply hstat.mergeRendezvous
    intro node hnode raw hraw
    exact hreas _ _ (.inr (.inl ⟨node, hnode, rfl, raw, hraw, rfl⟩))
  | recordSuccess nodeId address now =>
    exact hstat.recordSuccess (hreas _ _ (.inr (.inr ⟨rfl, .inl rfl⟩)))
      (hreas _ _ (.inr (.inr ⟨rfl, .inr rfl⟩)))
  | recordFailure nodeId error => exact hstat.recordFailures [error]
  | called failures outcome now =>
    cases outcome with
    | ok target verdict verb address addrClass transport status body =>
      have hover : transport = "direct" := of_decide_eq_true hdir
      exact (hstat.recordFailures failures).recordSuccess
        (hreas _ _ (.inr (.inr ⟨hover, rfl, .inl rfl⟩)))
        (hreas _ _ (.inr (.inr ⟨hover, rfl, .inr rfl⟩)))
    | refused | unreachable | relayFailed => exact hstat.recordFailures failures
    | denied | unknown | unavailable => exact hstat

theorem Held.step (hheld : Held node cache) (step : CacheStep) (hoth : step.isMerge = false) :
    Held node (step.run cache) := by
  cases step with
  | mergeRoster roster => cases hoth
  | mergeRendezvous payload now => exact hheld.mergeRendezvous
  | recordSuccess nodeId address now => exact hheld.recordSuccess
  | recordFailure nodeId error => exact hheld.recordFailures [error]
  | called failures outcome now =>
    cases outcome with
    | ok => exact (hheld.recordFailures failures).recordSuccess
    | refused | unreachable | relayFailed => exact hheld.recordFailures failures
    | denied | unknown | unavailable => exact hheld

def cacheAfter (steps : List CacheStep) : PeerCache := steps.foldl CacheStep.run ∅

theorem stated_cacheAfter {steps : List CacheStep} (hdir : ∀ step ∈ steps, step.isDirect = true) :
    Stated (fun nodeId address => ∃ step ∈ steps, step.Gives nodeId address)
      (cacheAfter steps) := by
  apply foldlRecOn (motive := Stated _)
  · intro nodeId entry hent
    rw [getElem?_empty] at hent
    cases hent
  · intro reached hrch step hstep
    exact hrch.step step (hdir step hstep) fun _ _ hgives => ⟨step, hstep, hgives⟩

end Steps

section Rosters

theorem checkNode_fits {seen reached : List String} {node : RosterNode}
    (hok : checkNode seen node = .ok reached) :
    node.nodeId ∉ seen ∧ reached = node.nodeId :: seen ∧ node.addresses.length ≤ maxAddresses := by
  rw [checkNode] at hok
  obtain ⟨_, -, hok⟩ := bind_eq_ok.mp hok
  obtain ⟨_, -, hok⟩ := bind_eq_ok.mp hok
  split at hok
  · cases hok
  split at hok
  · cases hok
  split at hok
  · cases hok
  split at hok
  · cases hok
  split at hok
  · cases hok
  rename_i hfew
  obtain ⟨_, -, hok⟩ := bind_eq_ok.mp hok
  split at hok
  · cases hok
  · next hnew =>
    cases hok
    exact ⟨hnew, rfl, Nat.not_lt.mp hfew⟩

theorem foldlM_fits {nodes : List RosterNode} {seen reached : List String}
    (hok : nodes.foldlM checkNode seen = .ok reached) :
    (nodes.map (·.nodeId)).Nodup ∧ ∀ node ∈ nodes, node.nodeId ∉ seen ∧
      node.addresses.length ≤ maxAddresses := by
  induction nodes generalizing seen with
  | nil => exact ⟨nodup_nil, nofun⟩
  | cons first rest ih =>
    rw [foldlM_cons] at hok
    obtain ⟨middle, hfst, hrest⟩ := bind_eq_ok.mp hok
    obtain ⟨hnew, rfl, hfew⟩ := checkNode_fits hfst
    obtain ⟨hdist, hltr⟩ := ih hrest
    constructor
    · rw [map_cons, nodup_cons]
      refine ⟨?_, hdist⟩
      intro hmem
      obtain ⟨node, hnode, hsame⟩ := mem_map.mp hmem
      exact (hltr node hnode).1 (hsame ▸ mem_cons_self)
    · refine forall_mem_cons.mpr ⟨⟨hnew, hfew⟩, ?_⟩
      intro node hnode
      exact ⟨fun hseen => (hltr node hnode).1 (mem_cons_of_mem _ hseen), (hltr node hnode).2⟩

end Rosters

section Addresses

theorem foldl_distinct (addresses ordered : List String) :
    ∃ added, addresses.foldl
        (fun ordered address => if address ∈ ordered then ordered else ordered ++ [address])
        ordered = ordered ++ added ∧
      added.Sublist addresses ∧ (ordered.Nodup → (ordered ++ added).Nodup) ∧
      ∀ address, address ∈ ordered ++ added ↔ address ∈ ordered ∨ address ∈ addresses := by
  induction addresses generalizing ordered with
  | nil => exact ⟨[], (append_nil _).symm, .slnil, by simp, by simp⟩
  | cons first rest ih =>
    rw [foldl_cons]
    split
    · next hknw =>
      obtain ⟨added, hfold, hsub, hndp, hmem⟩ := ih ordered
      refine ⟨added, hfold, hsub.cons _, hndp, ?_⟩
      intro address
      rw [hmem, mem_cons]
      constructor
      · exact fun hin => hin.imp_right .inr
      rintro (hin | rfl | hin)
      · exact .inl hin
      · exact .inl hknw
      · exact .inr hin
    rename_i hnew
    obtain ⟨added, hfold, hsub, hndp, hmem⟩ := ih (ordered ++ [first])
    rw [append_assoc] at hfold hndp hmem
    refine ⟨first :: added, hfold, hsub.cons_cons _, ?_, ?_⟩
    · intro hordd
      apply hndp
      apply nodup_append.mpr
      refine ⟨hordd, nodup_singleton _, ?_⟩
      intro old hold new hthis hsame
      rw [mem_singleton.mp hthis] at hsame
      exact hnew (hsame ▸ hold)
    · intro address
      rw [← singleton_append, hmem, mem_append, mem_singleton, mem_cons, or_assoc]

variable {client : Client} {cache : PeerCache} {node : RosterNode}

theorem ownFirst_addresses (hfew : node.addresses.length ≤ maxAddresses)
    (hndp : ∀ entry, cache[node.nodeId]? = some entry → entry.addresses.Nodup) :
    OwnFirst node
      (fun address => address ∉ node.addresses ∧
        ∃ entry, cache[node.nodeId]? = some entry ∧ address ∈ entry.addresses)
      ((client.reading cache).addresses node) := by
  obtain ⟨listed, hfold, hsub, hdist, hmem⟩ := foldl_distinct (byRank node.addresses) []
  rw [nil_append] at hfold hdist hmem
  have hlst : ∀ address, address ∈ listed ↔ address ∈ node.addresses := by
    intro address
    rw [hmem, byRank, mem_insertionSort]
    exact or_iff_right not_mem_nil
  have hroom : listed.length ≤ maxCachedAddresses := by
    have hlen := hsub.length_le
    rw [byRank, length_insertionSort] at hlen
    exact Nat.le_trans hlen hfew
  have hsrt : (byRank node.addresses).Pairwise
      (fun left right => addressRank left ≤ addressRank right) := by
    have : Std.Total (fun left right => addressRank left ≤ addressRank right) :=
      ⟨fun left right => Nat.le_total _ _⟩
    have : IsTrans String (fun left right => addressRank left ≤ addressRank right) :=
      ⟨fun _ _ _ => Nat.le_trans⟩
    exact pairwise_insertionSort _ _
  let cached := ((cache[node.nodeId]?).elim [] (·.addresses)).filter (· ∉ listed)
  have hcac : ∀ address ∈ cached, address ∉ listed ∧
      ∃ entry, cache[node.nodeId]? = some entry ∧ address ∈ entry.addresses := by
    intro address hadd
    obtain ⟨hold, hoth⟩ := mem_filter.mp hadd
    refine ⟨of_decide_eq_true hoth, ?_⟩
    cases hent : cache[node.nodeId]? with
    | none =>
      rw [hent] at hold
      exact absurd hold not_mem_nil
    | some entry =>
      rw [hent] at hold
      exact ⟨entry, rfl, hold⟩
  have honce : cached.Nodup := by
    apply Nodup.filter
    cases hent : cache[node.nodeId]? with
    | none => exact nodup_nil
    | some entry => exact hndp entry hent
  have htkn : ∀ address ∈ (byRank cached).take (maxCachedAddresses - listed.length),
      address ∈ cached :=
    fun address hadd => (mem_insertionSort _).mp (mem_of_mem_take hadd)
  have hspl : (client.reading cache).addresses node =
      listed ++ (byRank cached).take (maxCachedAddresses - listed.length) := by
    rw [Client.addresses, hfold]
    exact take_append.trans (congrArg (· ++ _) (take_of_length_le hroom))
  refine ⟨listed, _, hspl, hsrt.sublist hsub, hlst, ?_, length_take_le _ _, ?_⟩
  · rw [hspl]
    apply nodup_append.mpr
    refine ⟨hdist nodup_nil, ?_, ?_⟩
    · exact ((perm_insertionSort _ cached).nodup_iff.mpr honce).sublist (take_sublist _ _)
    · intro first hfst other hoth hsame
      exact (hcac other (htkn other hoth)).1 (hsame ▸ hfst)
  · intro address hadd
    obtain ⟨hoth, hent⟩ := hcac address (htkn address hadd)
    exact ⟨fun hin => hoth ((hlst address).mpr hin), hent⟩

end Addresses

/-- Once a roster was merged, and as long as no call is answered through the relay and the roster
lists all that rosters listed for its nodes, the cache holds each node's own addresses. -/
theorem cache_holds_own (client : Client) (before after : List CacheStep) (roster : Roster)
    (hvalid : roster.validate = .ok ()) (hlast : ∀ step ∈ after, step.isMerge = false)
    (hdirect : ∀ step ∈ before ++ .mergeRoster roster :: after, step.isDirect = true)
    (hkept : ∀ node ∈ roster.nodes, ∀ step ∈ before ++ .mergeRoster roster :: after,
      ∀ address, step.Lists node.nodeId address → address ∈ node.addresses) :
    ∀ node ∈ roster.nodes,
      Own client (cacheAfter (before ++ .mergeRoster roster :: after))
        (before ++ .mergeRoster roster :: after) node := by
  intro node hnode
  obtain ⟨reached, hchecked⟩ := Roster.validate_nodes hvalid
  obtain ⟨hdistinct, hfits⟩ := foldlM_fits hchecked
  have hstated := stated_cacheAfter hdirect
  have hheld : Held node (cacheAfter (before ++ .mergeRoster roster :: after)) := by
    rw [cacheAfter, foldl_append, foldl_cons]
    apply foldlRecOn (motive := Held node)
    · exact held_mergeRoster hdistinct (.inl hnode)
    · intro cache hcache step hstep
      exact hcache.step step (hlast step hstep)
  obtain ⟨entry, hentry, hlevel, hkey, -⟩ := hheld
  refine ⟨⟨entry, hentry, hlevel, hkey⟩, ?_⟩
  obtain ⟨listed, further, hsplit, hsorted, hlisted, hnodup, hroom, hfurther⟩ :=
    @ownFirst_addresses client _ node (hfits node hnode).2
      fun entry hentry => (hstated _ entry hentry).nodup
  refine ⟨listed, further, hsplit, hsorted, hlisted, hnodup, hroom, ?_⟩
  intro address haddress
  obtain ⟨hother, entry, hentry, hmem⟩ := hfurther address haddress
  obtain ⟨step, hstep, hgives⟩ := (hstated _ entry hentry).stated address hmem
  rcases hgives with hlists | hgiven
  · exact absurd (hkept node hnode step hstep address hlists) hother
  · exact ⟨step, hstep, hgiven⟩

section Carried

def oracleAddress : String := "oracle.example.net:8891"

def announcedSteps : List CacheStep :=
  [.mergeRendezvous (.object [("nodes", .array [.object [
      ("node_id", .string oracle.nodeId), ("name", .string "oracle"),
      ("public_key", .string "33"), ("endpoints", .array [.string oracleAddress])]])]) 5,
    .called ["connect_failed"]
      (.ok oracle ⟨true, "", ""⟩ .read oracleAddress "public" "direct" 200 "") 7]

theorem cache_holds_own_announced :
    Own laptopClient (cacheAfter ([] ++ .mergeRoster fleetRoster :: announcedSteps))
      ([] ++ .mergeRoster fleetRoster :: announcedSteps) oracle := by
  refine cache_holds_own laptopClient [] announcedSteps fleetRoster (by decide +kernel) ?_ ?_ ?_
    oracle (by decide)
  · decide
  · decide
  intro node hnode step hstep address hlists
  rcases mem_cons.mp hstep with rfl | hlater
  · obtain ⟨listed, hlisted, -, raw, hraw, -⟩ := hlists
    have hempty : ∀ node ∈ fleetRoster.nodes, node.addresses = [] := by decide
    exact absurd (hempty listed hlisted ▸ hraw) not_mem_nil
  simp [announcedSteps] at hlater
  rcases hlater with rfl | rfl
  · cases hlists
  · cases hlists

def relayedSteps : List CacheStep :=
  [.mergeRoster fleetRoster,
    .called ["no_address"]
      (.ok oracle ⟨true, "", ""⟩ .read "https://relay.example.net" "relay" "relay" 200 "") 7]

/-- The relay's address is taken for one of the oracle's. -/
theorem relay_taken_for_peer :
    ¬ Own laptopClient (cacheAfter relayedSteps) relayedSteps oracle := by
  rintro ⟨-, listed, further, hsplit, -, hlisted, -, -, hfurther⟩
  have haddresses : (laptopClient.reading (cacheAfter relayedSteps)).addresses oracle =
      ["https://relay.example.net"] := by decide +kernel
  have hnone : listed = [] := eq_nil_iff_forall_not_mem.mpr fun address hin =>
    not_mem_nil ((hlisted address).mp hin)
  rw [haddresses, hnone, nil_append] at hsplit
  obtain ⟨step, hstep, hgiven⟩ := hfurther "https://relay.example.net" (hsplit ▸ mem_cons_self)
  simp [relayedSteps] at hstep
  rcases hstep with rfl | rfl
  · rcases hgiven with hannounced | hanswered
    · cases hannounced
    · cases hanswered
  · rcases hgiven with hannounced | ⟨hdirect, -⟩
    · cases hannounced
    · exact absurd hdirect (by decide)

end Carried

end WasmAgent.Mesh
