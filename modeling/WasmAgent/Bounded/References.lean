import WasmAgent.Bounded.Collection
import WasmAgent.Bounded.ReadingBack
import WasmAgent.Bounded.Traces

/-!
# Who needs a blob

A blob is needed by the records that refer to it and by the files that declare it.  As long
as nothing fails halfway and no file that declares blobs goes by itself, the counts say how
many need each blob, and a collection removes what nobody needs.
-/

namespace WasmAgent.Bounded

open List Option WasmAgent.Core

def declares (file : StoredFile) : List BlobKey :=
  match parseHeader file.bytes with
  | .ok (header, _) => header.blobs.map BlobRef.key
  | .error _ => []

def Node.needs (node : Node) (key : BlobKey) : ℕ :=
  (references node.ring.records).count key + node.dir.files.countP (fun file => key ∈ declares file)

/-- `ReplayHeader::release_blobs`. -/
def releaseBlobs (index : BlobKey → Answer) : List BlobRef → Effect BlobStore Error Unit
  | [] => return ()
  | blob :: blobs => do
      let _ ← BlobStore.release (index blob.key) blob.key
      releaseBlobs index blobs

def RecordRing.onBlobs {Value : Type} (effect : Effect BlobStore Error Value) :
    Effect RecordRing Error Unit := do
  let ring ← Effect.read
  match ring.blobs with
  | some store => RecordRing.onStore store effect >>= fun _ => return ()
  | none => return ()

def discard (disk : RemoveDisk) (index : BlobKey → Answer) (name : String) :
    Effect Node Error Unit := do
  let node ← Effect.read
  let file ← Effect.lift (node.dir.read name)
  match parseHeader file with
  | .error _ => return ()
  | .ok (header, _) =>
      let _ ← Node.onDir (BoundedDir.remove disk name)
      Node.onRing (RecordRing.onBlobs (releaseBlobs index header.blobs))

inductive Action where
  | push (disk : PushDisk) (call : NewRecord)
  | expire (now : Instant)
  | clear
  | save (disk : SaveDisk) (opts : SaveOptions) (now : Instant)
  | discard (disk : RemoveDisk) (index : BlobKey → Answer) (name : String)
  | expireFiles (disk : ExpireDisk) (maxAge : ℕ) (now : Instant)
  | gc (disk : BlobStore.GcDisk) (now : Instant) (ttl : ℕ)

def act (zstd : Zstd) (node : Node) : Action → Node
  | .push disk call => (Node.onRing (RecordRing.push disk call) node).2
  | .expire now => { node with ring := node.ring.expire now }
  | .clear => { node with ring := node.ring.clear }
  | .save disk opts now => (save zstd disk opts now node).2
  | .discard disk index name => (discard disk index name node).2
  | .expireFiles disk maxAge now => (Node.onDir (BoundedDir.expire disk maxAge now) node).2
  | .gc disk now ttl => (Node.onRing (RecordRing.onBlobs (BlobStore.gc disk now ttl)) node).2

structure Kept (node : Node) : Prop where
  counts : ∀ key, node.ring.refs.count key = node.needs key
  stored : ∀ key, 0 < node.needs key → node.ring.has key = true
  distinct : ∀ file ∈ node.dir.files, (declares file).Nodup

def PushProper (disk : PushDisk) (call : NewRecord) (ring : RecordRing) : Prop :=
  (RecordRing.PushFails disk call ring → Saturated ring (RecordRing.pushTakes disk call ring)) ∧
    (¬ RecordRing.PushFails disk call ring → ∀ key,
      ring.refs.count key + (RecordRing.pushTakes disk call ring).count key ≤ u32Max)

structure SaveFits (disk : SaveDisk) (node : Node) (file : Bytes) : Prop where
  file : file.length ≤ usizeMax
  body : (node.ring.records.flatMap Record.bytes).length ≤ usizeMax
  table : (referencedBlobs node.ring.records).length ≤ u32Max
  room : ∀ key ∈ saveCounts disk node, node.ring.refs.count key < u32Max

def SaveProper (zstd : Zstd) (disk : SaveDisk) (opts : SaveOptions) (now : Instant)
    (node : Node) : Prop :=
  (SaveBlocked disk opts node → Saturated node.ring (saveCounts disk node)) ∧
    (¬ SaveBlocked disk opts node → ∀ file, savedFile zstd opts now node.ring = .ok file →
      (∀ victim ∈ node.dir.planned (fileName node.dir opts (millis now)) file.length,
        declares victim = []) ∧
      (¬ BoundedDir.Placed disk.write node.dir (fileName node.dir opts (millis now)) file.length →
        Saturated node.ring (saveCounts disk node)) ∧
      (BoundedDir.Placed disk.write node.dir (fileName node.dir opts (millis now)) file.length →
        SaveFits disk node file))

def DiscardProper (disk : RemoveDisk) (index : BlobKey → Answer) (name : String)
    (node : Node) : Prop :=
  ∀ file header start, node.dir.file? name = some file →
    parseHeader file.bytes = .ok (header, start) → disk.remove = .ok () → header.blobs ≠ [] →
    disk.observe = .ok () ∧ ∀ blob ∈ header.blobs.dropLast, index blob.key = .ok ()

/-- Nothing fails halfway, and no file that declares blobs goes by itself. -/
def Proper (zstd : Zstd) (node : Node) : Action → Prop
  | .push disk call => PushProper disk call node.ring
  | .save disk opts now => SaveProper zstd disk opts now node
  | .discard disk index name => DiscardProper disk index name node
  | .expireFiles _ maxAge now => ∀ file ∈ node.dir.expired maxAge now, declares file = []
  | _ => True

inductive Run (zstd : Zstd) : Node → Node → Prop where
  | start (node : Node) : Run zstd node node
  | step {before node : Node} (action : Action) : Run zstd before node →
      Proper zstd node action → Run zstd before (act zstd node action)

section Counting

variable {node after : Node} {zstd : Zstd}

/-- Nothing is needed where there is nothing. -/
theorem kept_of_fresh (hrecs : node.ring.records = []) (hfs : node.dir.files = [])
    (hrefs : node.ring.refs = Tally.zero) : Kept node := by
  have hneeds : ∀ key, node.needs key = 0 := by
    intro key
    rw [Node.needs, hrecs, hfs]
    rfl
  constructor
  · intro key
    rw [hneeds, hrefs]
    rfl
  · intro key hneed
    rw [hneeds] at hneed
    cases hneed
  · rw [hfs]
    nofun

theorem countP_filter_of_declares_nil {files : List StoredFile} {test : StoredFile → Bool}
    (hgone : ∀ file ∈ files, test file = false → declares file = []) (key : BlobKey) :
    (files.filter test).countP (fun file => key ∈ declares file) =
      files.countP (fun file => key ∈ declares file) := by
  rw [countP_filter]
  apply countP_congr
  intro file hfile
  rw [Bool.and_eq_true, decide_eq_true_iff]
  constructor
  · exact fun hboth => hboth.1
  intro hdec
  refine ⟨hdec, ?_⟩
  by_contra htest
  rw [hgone file hfile (Bool.eq_false_iff.mpr htest)] at hdec
  cases hdec

variable (hkept : Kept node)
include hkept

theorem Kept.of_filtered {left : BoundedDir} {test : StoredFile → Bool}
    (hfs : left.files = node.dir.files.filter test)
    (hgone : ∀ file ∈ node.dir.files, test file = false → declares file = []) :
    Kept { node with dir := left } := by
  have hneeds : ∀ key, Node.needs { node with dir := left } key = node.needs key := by
    intro key
    rw [Node.needs, Node.needs, hfs, countP_filter_of_declares_nil hgone]
  constructor
  · intro key
    rw [hneeds]
    exact hkept.counts key
  · intro key
    rw [hneeds]
    exact hkept.stored key
  · intro file hfile
    rw [hfs] at hfile
    exact hkept.distinct file (mem_of_mem_filter hfile)

omit hkept in
theorem count_exchange {tally : Tally BlobKey u32Max} {taken dropped left : List BlobKey}
    {held : List BlobKey} {files : ℕ} {key : BlobKey}
    (hcnt : tally.count key = held.count key + files)
    (hroom : tally.count key + taken.count key ≤ u32Max)
    (hsame : (held ++ taken).count key = (dropped ++ left).count key) :
    ((tally.raiseAll taken).lowerAll dropped).count key = left.count key + files := by
  rw [count_append, count_append] at hsame
  rw [Tally.count_lowerAll, Tally.count_raiseAll, Nat.min_eq_left hroom]
  omega

theorem Kept.of_exchange {ring : RecordRing} {taken dropped : List BlobKey}
    (hrefs : ring.refs = (node.ring.refs.raiseAll taken).lowerAll dropped)
    (hroom : ∀ key, node.ring.refs.count key + taken.count key ≤ u32Max)
    (hrecs : references node.ring.records ++ taken = dropped ++ references ring.records)
    (hhas : ∀ key, ring.has key = (node.ring.has key || decide (key ∈ taken))) :
    Kept { node with ring := ring } := by
  constructor
  · intro key
    rw [hrefs]
    exact count_exchange (hkept.counts key) (hroom key) (congrArg (count key) hrecs)
  · intro key hneed
    rw [hhas, Bool.or_eq_true, decide_eq_true_iff]
    by_cases htkn : key ∈ taken
    · exact .inr htkn
    refine .inl (hkept.stored key ?_)
    have hsame := congrArg (count key) hrecs
    rw [count_append, count_append, count_eq_zero_of_not_mem htkn] at hsame
    change 0 < (references ring.records).count key + node.dir.files.countP _ at hneed
    rw [Node.needs]
    omega
  · exact hkept.distinct

theorem kept_of_push {disk : PushDisk} {call : NewRecord}
    (hprop : PushProper disk call node.ring) : Kept (act zstd node (.push disk call)) := by
  have hrun := RecordRing.push_run disk call node.ring
  change Kept { node with ring := (RecordRing.push disk call node.ring).2 }
  generalize (RecordRing.push disk call node.ring).2 = ring at hrun
  by_cases hfls : RecordRing.PushFails disk call node.ring
  · obtain ⟨hsame, hrefs⟩ := hrun.undone hfls
    have hrecs : ring.records = node.ring.records := by rw [hsame]
    have hstill : ring.refs = node.ring.refs :=
      hrefs.trans (Tally.raiseAll_eq_self_iff.mpr (hprop.1 hfls))
    have hneeds : ∀ key, Node.needs { node with ring := ring } key = node.needs key := by
      intro key
      rw [Node.needs, Node.needs, hrecs]
    constructor
    · intro key
      rw [hneeds, ← hkept.counts, hstill]
    · intro key hneed
      rw [hneeds] at hneed
      rw [hrun.has, hkept.stored key hneed, Bool.true_or]
    · exact hkept.distinct
  obtain ⟨record, dropped, hrecs, htkn, hrefs⟩ := hrun.pushed hfls
  refine hkept.of_exchange hrefs (hprop.2 hfls) ?_ hrun.has
  rw [← htkn, ← references_append, ← hrecs, references_append, references_cons]
  exact congrArg (references node.ring.records ++ ·) (append_nil _).symm

theorem kept_of_dropWhile (test : RecordRing → Record → Bool) (steps : ℕ) :
    Kept { node with ring := RecordRing.dropWhile test steps node.ring } := by
  obtain ⟨dropped, hrecs, hrefs⟩ := RecordRing.dropWhile_run test steps node.ring
  apply @Kept.of_exchange node hkept _ [] (references dropped) hrefs
  · intro key
    exact node.ring.refs.bounded key
  · rw [append_nil, ← references_append, ← hrecs]
  · intro key
    rw [RecordRing.has_dropWhile, decide_eq_false not_mem_nil, Bool.or_false]

end Counting

section Saving

variable {node : Node} {zstd : Zstd} {disk : SaveDisk} {opts : SaveOptions} {now : Instant}
variable {file : Bytes}

theorem saveCounts_of_kept (hkept : Kept node) (hopen : ¬ SaveBlocked disk opts node) :
    saveCounts disk node = referencedBlobs node.ring.records := by
  have hcoun : ¬ RecordRing.CountFails disk.index node.ring
      (referencedBlobs node.ring.records) := fun hfls => hopen (.inr (.inl hfls))
  have hall : ∀ key ∈ referencedBlobs node.ring.records, node.ring.has key = true := by
    intro key hkey
    apply hkept.stored
    exact Nat.lt_of_lt_of_le (count_pos_iff.mpr (mem_referencedBlobs.mp hkey))
      (Nat.le_add_right _ _)
  have henc : Encodable node.ring := by
    by_contra hoth
    exact hopen (.inl hoth)
  obtain ⟨body, hbody⟩ := henc
  rw [saveCounts, hbody]
  generalize referencedBlobs node.ring.records = keys at hcoun hall
  induction keys with
  | nil => rfl
  | cons key keys ih =>
    have hkey := hall key mem_cons_self
    have hidx : disk.index key = .ok () := by
      by_contra hoth
      exact hcoun ⟨key, mem_cons_self, hkey, hoth⟩
    rw [RecordRing.counted, if_pos hkey, hidx]
    refine congrArg (key :: ·) (ih (fun hfls => ?_) (fun other hoth =>
      hall other (mem_cons_of_mem _ hoth)))
    obtain ⟨found, hfnd, hsto⟩ := hfls
    exact hcoun ⟨found, mem_cons_of_mem _ hfnd, hsto⟩

theorem declares_saved (hfile : savedFile zstd opts now node.ring = .ok file)
    (hfits : SaveFits disk node file) (name : String) :
    declares ⟨name, file, now⟩ = referencedBlobs node.ring.records := by
  obtain ⟨start, hpar, -⟩ := opened_saved hfile hfits.file hfits.body hfits.table
  rw [declares, hpar]
  change (declared node.ring).map BlobRef.key = _
  rw [declared, List.map_map]
  exact List.map_id _

theorem has_takeRefs (disk : BlobKey → Answer) (keys : List BlobKey) :
    Effect.Spares RecordRing.has (RecordRing.takeRefs disk keys) := by
  have hone : ∀ key, Effect.Spares RecordRing.has (RecordRing.takeRef disk key) := by
    intro key ring
    cases hhas : ring.has key with
    | false => rw [RecordRing.takeRef_missing hhas]
    | true =>
      obtain ⟨after, htake, -, -, hsame⟩ := @RecordRing.takeRef_stored disk ring key hhas
      rw [htake]
      funext other
      exact hsame other
  induction keys with
  | nil => exact Effect.Spares.pure _
  | cons key keys ih =>
    apply Effect.Spares.bind Effect.Spares.read
    intro ring
    apply (hone key).bind
    intro missing
    apply ih.bind
    intro found
    exact Effect.Spares.pure _

theorem has_save (zstd : Zstd) (disk : SaveDisk) (opts : SaveOptions) (now : Instant) :
    Effect.Spares (fun node : Node => node.ring.has) (save zstd disk opts now) := by
  have hdir : ∀ {Value : Type} (effect : Effect BoundedDir Error Value),
      Effect.Spares (fun node : Node => node.ring.has) (Node.onDir effect) :=
    fun _ _ => rfl
  apply Effect.Spares.bind Effect.Spares.read
  intro node
  apply Effect.Spares.bind (Effect.Spares.lift _)
  intro body
  apply Effect.Spares.bind
  · intro node
    exact has_takeRefs disk.index (referencedBlobs _) node.ring
  intro found
  apply Effect.Spares.bind
  · apply Effect.Spares.bind (Effect.Spares.lift _)
    intro _
    apply Effect.Spares.bind (Effect.Spares.lift _)
    intro file
    apply (hdir _).bind
    intro _
    apply Effect.Spares.bind
    · rw [pinSaved]
      split
      · exact hdir _
      · exact Effect.Spares.pure _
    · intro _
      exact Effect.Spares.pure _
  · intro written
    exact Effect.Spares.pure _

theorem kept_of_save (hkept : Kept node) (hprop : SaveProper zstd disk opts now node) :
    Kept (act zstd node (.save disk opts now)) := by
  have hrun := save_run zstd disk opts now node
  have hhas : ∀ key, (save zstd disk opts now node).2.ring.has key = node.ring.has key :=
    fun key => congrFun (has_save zstd disk opts now node) key
  change Kept (save zstd disk opts now node).2
  cases hsave : save zstd disk opts now node with
  | mk answer after =>
    rw [hsave] at hrun hhas
    have hrecs : after.ring.records = node.ring.records := by rw [hrun.same]
    -- nothing counted, and files that declare nothing gone
    have hfail : Saturated node.ring (saveCounts disk node) → ∀ test : StoredFile → Bool,
        after.dir.files = node.dir.files.filter test →
        (∀ file ∈ node.dir.files, test file = false → declares file = []) → Kept after := by
      intro hsat test hfs hgone
      have hrefs := hrun.refs.trans (Tally.raiseAll_eq_self_iff.mpr hsat)
      have hneeds : ∀ key, after.needs key = node.needs key := by
        intro key
        rw [Node.needs, Node.needs, hrecs, hfs, countP_filter_of_declares_nil hgone]
      constructor
      · intro key
        rw [hneeds, ← hkept.counts, hrefs]
      · intro key
        rw [hneeds, hhas]
        exact hkept.stored key
      · intro file hfile
        rw [hfs] at hfile
        exact hkept.distinct file (mem_of_mem_filter hfile)
    by_cases hblk : SaveBlocked disk opts node
    · apply hfail (hprop.1 hblk) (fun _ => true)
      · rw [(hrun.blocked hblk).2, filter_true]
      · intro file _ hoth
        cases hoth
    obtain ⟨file, hfile, hwrote⟩ := hrun.written hblk
    obtain ⟨hvict, hunp, hfits⟩ := hprop.2 hblk file hfile
    generalize hname : fileName node.dir opts (millis now) = name at hvict hunp hfits
    by_cases hplcd : BoundedDir.Placed disk.write node.dir name file.length
    · rw [← hname] at hplcd
      obtain ⟨hfs, -, -⟩ := hwrote.placed hplcd
      rw [hname] at hplcd hfs
      have hsaved := declares_saved hfile (hfits hplcd) name
      have hcoun := saveCounts_of_kept hkept hblk
      have hfree : ∀ other ∈ node.dir.files, other.name ≠ name := by
        intro other hoth hsame
        have hnew := not_exists_fileName node.dir opts (millis now)
        rw [hname, BoundedDir.exists, hplcd.valid, Bool.true_and, BoundedDir.isFile,
          BoundedDir.file?, isSome_eq_false_iff, isNone_iff_eq_none,
          find?_eq_none] at hnew
        exact hnew other hoth (decide_eq_true hsame)
      have hlt : after.dir.files = node.dir.files.filter (fun other =>
          other.name ∉ (node.dir.planned name file.length).map StoredFile.name) ++
            [⟨name, file, now⟩] := by
        rw [hfs]
        change (node.dir.eraseAll _).files.filter _ ++ _ = _
        rw [BoundedDir.files_eraseAll, filter_eq_self.mpr]
        intro other hoth
        exact decide_eq_true (hfree other (mem_of_mem_filter hoth))
      have hgone : ∀ other ∈ node.dir.files, decide (other.name ∉
          (node.dir.planned name file.length).map StoredFile.name) = false →
          declares other = [] := by
        intro other hoth hvic
        rw [decide_eq_false_iff_not, not_not] at hvic
        obtain ⟨victim, hplnd, hsame⟩ := List.mem_map.mp hvic
        have hboth : victim = other := inj_on_of_nodup_map node.dir.distinct
          (BoundedDir.mem_of_mem_planned hplnd).1 hoth hsame
        rw [← hboth]
        exact hvict victim hplnd
      have hneeds : ∀ key, after.needs key =
          node.needs key + (referencedBlobs node.ring.records).count key := by
        intro key
        rw [Node.needs, Node.needs, hrecs, hlt, countP_append,
          countP_filter_of_declares_nil hgone, countP_singleton, hsaved, Nat.add_assoc,
          (nodup_referencedBlobs node.ring.records).count]
        by_cases hkey : key ∈ referencedBlobs node.ring.records
        · rw [if_pos hkey, if_pos (decide_eq_true hkey)]
        · rw [if_neg hkey, decide_eq_false hkey, if_neg Bool.noConfusion]
      constructor
      · intro key
        have hone := nodup_iff_count_le_one.mp (nodup_referencedBlobs node.ring.records) key
        rw [hrun.refs, Tally.count_raiseAll, hcoun, hneeds, ← hkept.counts]
        apply Nat.min_eq_left
        by_cases hkey : key ∈ referencedBlobs node.ring.records
        · have hroom := (hfits hplcd).room key (by rwa [hcoun])
          omega
        · rw [count_eq_zero_of_not_mem hkey]
          exact node.ring.refs.bounded key
      · intro key hneed
        rw [hhas]
        apply hkept.stored
        rw [hneeds] at hneed
        by_cases hkey : key ∈ referencedBlobs node.ring.records
        · exact Nat.lt_of_lt_of_le (count_pos_iff.mpr (mem_referencedBlobs.mp hkey))
            (Nat.le_add_right _ _)
        · rwa [count_eq_zero_of_not_mem hkey] at hneed
      intro other hoth
      rw [hlt] at hoth
      cases mem_append.mp hoth with
      | inl hoth => exact hkept.distinct other (mem_of_mem_filter hoth)
      | inr hoth =>
        rw [mem_singleton.mp hoth, hsaved]
        exact nodup_referencedBlobs node.ring.records
    · rw [← hname] at hplcd
      obtain ⟨-, gone, hgone, hdir, -⟩ := hwrote.unplaced hplcd
      rw [hname] at hplcd hgone
      apply hfail (hunp hplcd) (fun other => other.name ∉ gone.map StoredFile.name)
      · rw [hdir, BoundedDir.files_eraseAll]
      intro other hoth hvic
      rw [decide_eq_false_iff_not, not_not] at hvic
      obtain ⟨victim, hvic, hsame⟩ := List.mem_map.mp hvic
      have hplnd := hgone.subset hvic
      have hboth : victim = other := inj_on_of_nodup_map node.dir.distinct
        (BoundedDir.mem_of_mem_planned hplnd).1 hoth hsame
      rw [← hboth]
      exact hvict victim hplnd

end Saving

section Deleting

variable {node : Node} {zstd : Zstd} {name : String}

/-- The keys that a release gets to: up to the first whose index cannot be written. -/
def released (index : BlobKey → Answer) : List BlobRef → List BlobKey
  | [] => []
  | blob :: blobs =>
      blob.key :: match index blob.key with
        | .ok _ => released index blobs
        | .error _ => []

variable (index : BlobKey → Answer)

theorem releaseBlobs_run (blobs : List BlobRef) (store : BlobStore) :
    (releaseBlobs index blobs store).2 =
      { store with refs := store.refs.lowerAll (released index blobs) } := by
  induction blobs generalizing store with
  | nil => rfl
  | cons blob blobs ih =>
    rw [releaseBlobs, released]
    cases hidx : index blob.key with
    | error why => rfl
    | ok _ => exact ih { store with refs := store.refs.lower blob.key }

theorem released_eq_map {index : BlobKey → Answer} {blobs : List BlobRef}
    (hidx : ∀ blob ∈ blobs.dropLast, index blob.key = .ok ()) :
    released index blobs = blobs.map BlobRef.key := by
  induction blobs with
  | nil => rfl
  | cons blob blobs ih =>
    cases blobs with
    | nil =>
      rw [released]
      cases index blob.key <;> rfl
    | cons next rest =>
      rw [released, hidx blob mem_cons_self]
      exact congrArg (blob.key :: ·) (ih (fun other hoth => hidx other (mem_cons_of_mem _ hoth)))

theorem onBlobs_releaseBlobs (blobs : List BlobRef) (ring : RecordRing) :
    (RecordRing.onBlobs (releaseBlobs index blobs) ring).2.records = ring.records ∧
      (RecordRing.onBlobs (releaseBlobs index blobs) ring).2.refs =
        ring.refs.lowerAll (released index blobs) ∧
      (RecordRing.onBlobs (releaseBlobs index blobs) ring).2.has = ring.has := by
  have hrun : RecordRing.onBlobs (releaseBlobs index blobs) ring =
      (match ring.blobs with
        | some store => RecordRing.onStore store (releaseBlobs index blobs) >>= fun _ => return ()
        | none => return () : Effect RecordRing Error Unit) ring := rfl
  rw [hrun]
  cases hstr : ring.blobs with
  | none =>
    have hrefs : ring.refs = Tally.zero := by rw [RecordRing.refs, hstr]
    rw [hrefs, RecordRing.lowerAll_zero]
    exact ⟨rfl, hrefs, rfl⟩
  | some store =>
    have hlt : ((RecordRing.onStore store (releaseBlobs index blobs) >>= fun _ => return () :
        Effect RecordRing Error Unit) ring).2 =
          { ring with blobs := some (releaseBlobs index blobs store).2 } := by
      rw [Effect.bind_run, RecordRing.onStore, Effect.within]
      cases (releaseBlobs index blobs store).1 <;> rfl
    have hrefs : ring.refs = store.refs := by rw [RecordRing.refs, hstr]
    have hhas : ring.has = store.has := by
      funext key
      rw [RecordRing.has, hstr]
    rw [hlt, releaseBlobs_run, hrefs, hhas]
    refine ⟨rfl, rfl, ?_⟩
    funext key
    exact BlobStore.has_of_files rfl key

theorem remove_run (disk : RemoveDisk) (dir : BoundedDir) (hvld : validName name = true)
    (hfile : dir.isFile name = true) :
    (disk.remove ≠ .ok () → (∃ fault, (dir.remove disk name).1 = .error fault) ∧
        (dir.remove disk name).2.files = dir.files) ∧
      (disk.remove = .ok () →
        ((∃ removed, (dir.remove disk name).1 = .ok removed) ↔ disk.observe = .ok ()) ∧
        (dir.remove disk name).2.files = dir.files.filter (fun file => file.name ≠ name)) := by
  have hthere : dir.remove disk name = (do
      perform disk.remove
      Effect.write (BoundedDir.erase name)
      perform disk.observe
      return true : Effect BoundedDir Error Bool)
        { dir with pins := dir.pins.filter (· ≠ name) } := by
    rw [BoundedDir.remove, hvld]
    change (if dir.isFile name then _ else _ : Effect BoundedDir Error Bool) _ = _
    rw [if_pos hfile]
  rw [hthere]
  cases hrem : disk.remove with
  | error why => exact ⟨fun _ => ⟨⟨.io why, rfl⟩, rfl⟩, nofun⟩
  | ok _ =>
    refine ⟨fun hoth => absurd rfl hoth, fun _ => ?_⟩
    cases hobs : disk.observe with
    | ok _ => exact ⟨⟨fun _ => rfl, fun _ => ⟨true, rfl⟩⟩, rfl⟩
    | error why =>
      refine ⟨⟨fun hok => ?_, nofun⟩, rfl⟩
      cases hok.choose_spec

theorem countP_named {files : List StoredFile} {file : StoredFile}
    (hdist : (files.map StoredFile.name).Nodup) (hfile : file ∈ files)
    (test : StoredFile → Bool) : files.countP test =
      (files.filter (fun other => other.name ≠ file.name)).countP test +
        if test file then 1 else 0 := by
  induction files with
  | nil => cases hfile
  | cons other files ih =>
    rw [map_cons, nodup_cons] at hdist
    rw [countP_cons]
    cases mem_cons.mp hfile with
    | inl hsame =>
      have hrest : files.filter (fun other => other.name ≠ file.name) = files := by
        apply filter_eq_self.mpr
        intro kept hkept
        rw [decide_eq_true_iff, hsame]
        intro hname
        apply hdist.1
        rw [← hname]
        exact List.mem_map_of_mem hkept
      rw [filter_cons_of_neg, hrest, hsame]
      rw [decide_eq_true_iff, hsame]
      exact fun hoth => hoth rfl
    | inr hfile =>
      have hoth : other.name ≠ file.name := by
        intro hname
        apply hdist.1
        rw [hname]
        exact List.mem_map_of_mem hfile
      rw [filter_cons_of_pos (by rwa [decide_eq_true_iff]), countP_cons, ih hdist.2 hfile]
      omega

theorem Kept.of_released (hkept : Kept node) {file : StoredFile} (hfile : file ∈ node.dir.files)
    {ring : RecordRing} {left : BoundedDir} (hrecs : ring.records = node.ring.records)
    (hrefs : ring.refs = node.ring.refs.lowerAll (declares file)) (hhas : ring.has = node.ring.has)
    (hfs : left.files = node.dir.files.filter (fun other => other.name ≠ file.name)) :
    Kept ⟨ring, left⟩ := by
  have hneeds : ∀ key, node.needs key = Node.needs ⟨ring, left⟩ key +
      (declares file).count key := by
    intro key
    rw [Node.needs, Node.needs, hrecs, hfs, countP_named node.dir.distinct hfile,
      (hkept.distinct file hfile).count, Nat.add_assoc]
    congr 2
    exact if_congr (decide_eq_true_iff) rfl rfl
  constructor
  · intro key
    rw [hrefs, Tally.count_lowerAll, hkept.counts, hneeds]
    exact Nat.add_sub_cancel _ _
  · intro key hneed
    rw [hhas]
    apply hkept.stored
    rw [hneeds]
    exact Nat.lt_of_lt_of_le hneed (Nat.le_add_right _ _)
  · intro other hoth
    rw [hfs] at hoth
    exact hkept.distinct other (mem_of_mem_filter hoth)

theorem read_ok {dir : BoundedDir} {bytes : Bytes} (hread : dir.read name = .ok bytes) :
    validName name = true ∧ ∃ file, dir.file? name = some file ∧ file.bytes = bytes ∧
      file ∈ dir.files ∧ file.name = name := by
  rw [BoundedDir.read] at hread
  cases hvld : validName name with
  | false =>
    rw [hvld] at hread
    cases hread
  | true =>
    rw [hvld] at hread
    cases hfnd : dir.file? name with
    | none =>
      rw [hfnd] at hread
      cases hread
    | some file =>
      rw [hfnd] at hread
      cases hread
      have hnmd := find?_some hfnd
      exact ⟨rfl, file, rfl, rfl, mem_of_find?_eq_some hfnd, of_decide_eq_true hnmd⟩

theorem kept_of_discard (hkept : Kept node) {disk : RemoveDisk} {index : BlobKey → Answer}
    (hprop : DiscardProper disk index name node) :
    Kept (act zstd node (.discard disk index name)) := by
  change Kept (discard disk index name node).2
  have hrun : discard disk index name node = (Effect.lift (node.dir.read name) >>= fun bytes =>
      match parseHeader bytes with
      | .error _ => return ()
      | .ok (header, _) => Node.onDir (BoundedDir.remove disk name) >>= fun _ =>
          Node.onRing (RecordRing.onBlobs (releaseBlobs index header.blobs)) :
            Effect Node Error Unit) node := rfl
  rw [hrun]
  cases hread : node.dir.read name with
  | error fault => exact hkept
  | ok bytes =>
    obtain ⟨hvld, file, hfnd, rfl, hfile, rfl⟩ := read_ok hread
    change Kept ((match parseHeader file.bytes with
      | .error _ => return ()
      | .ok (header, _) => Node.onDir (BoundedDir.remove disk file.name) >>= fun _ =>
          Node.onRing (RecordRing.onBlobs (releaseBlobs index header.blobs)) :
            Effect Node Error Unit) node).2
    cases hpar : parseHeader file.bytes with
    | error stop => exact hkept
    | ok found =>
      obtain ⟨header, start⟩ := found
      have hdec : declares file = header.blobs.map BlobRef.key := by
        rw [declares, hpar]
      have hthere : node.dir.isFile file.name = true := by
        rw [BoundedDir.isFile, hfnd]
        rfl
      obtain ⟨hfls, hremov⟩ := remove_run disk node.dir hvld hthere
      change Kept ((Node.onDir (BoundedDir.remove disk file.name) >>= fun _ =>
        Node.onRing (RecordRing.onBlobs (releaseBlobs index header.blobs)) :
          Effect Node Error Unit) node).2
      cases hrem : BoundedDir.remove disk file.name node.dir with
      | mk answer left =>
        rw [hrem] at hfls hremov
        have hon : Node.onDir (BoundedDir.remove disk file.name) node =
            (answer, { node with dir := left }) := by
          rw [Node.onDir, Effect.within, hrem]
        have hblobs := onBlobs_releaseBlobs index header.blobs node.ring
        by_cases hgone : disk.remove = .ok ()
        · obtain ⟨hans, hfs⟩ := hremov hgone
          have hrel : header.blobs = [] ∨ disk.observe = .ok () ∧
              released index header.blobs = declares file := by
            by_cases hnone : header.blobs = []
            · exact .inl hnone
            · obtain ⟨hobs, hidx⟩ := hprop file header start hfnd hpar hgone hnone
              exact .inr ⟨hobs, (released_eq_map hidx).trans hdec.symm⟩
          cases answer with
          | error fault =>
            have hnone : header.blobs = [] := by
              apply hrel.resolve_right
              intro hoth
              cases (hans.mpr hoth.1).choose_spec
            rw [Effect.bind_of_error hon]
            apply hkept.of_released hfile rfl _ rfl hfs
            rw [hdec, hnone]
            rfl
          | ok removed =>
            rw [Effect.bind_of_ok hon]
            apply hkept.of_released hfile hblobs.1 _ hblobs.2.2 hfs
            rw [hblobs.2.1]
            cases hrel with
            | inl hnone =>
              rw [hdec, hnone]
              rfl
            | inr hoth => rw [hoth.2]
        obtain ⟨⟨fault, hflt⟩, hfs⟩ := hfls hgone
        rw [show answer = .error fault from hflt] at hon
        rw [Effect.bind_of_error hon]
        apply @Kept.of_filtered node hkept left (fun _ => true)
        · rw [filter_true]
          exact hfs
        · intro other _ hoth
          cases hoth

theorem expireAll_run (disk : ExpireDisk) (files : List StoredFile) (dir : BoundedDir) :
    ∃ gone, gone <+: files ∧ (BoundedDir.expireAll disk files dir).2.files =
      dir.files.filter (fun file => file.name ∉ gone.map StoredFile.name) := by
  induction files generalizing dir with
  | nil =>
    exact ⟨[], List.prefix_rfl,
      (List.filter_eq_self.mpr (fun _ _ => decide_eq_true List.not_mem_nil)).symm⟩
  | cons file files ih =>
    rw [BoundedDir.expireAll]
    cases hrem : disk.remove file.name with
    | error why =>
      exact ⟨[], List.nil_prefix,
        (List.filter_eq_self.mpr (fun _ _ => decide_eq_true List.not_mem_nil)).symm⟩
    | ok _ =>
      obtain ⟨gone, hgone, hfs⟩ := ih { dir with
        files := dir.files.filter (fun other => other.name ≠ file.name)
        distinct := dir.distinct.sublist (List.Sublist.map _ List.filter_sublist) }
      refine ⟨file :: gone, List.cons_prefix_cons.mpr ⟨rfl, hgone⟩, hfs.trans ?_⟩
      rw [List.filter_filter]
      apply List.filter_congr
      intro other _
      rw [List.map_cons, ← Bool.decide_and, decide_eq_decide, List.mem_cons, not_or]
      exact and_comm

theorem kept_of_expireFiles (hkept : Kept node) {disk : ExpireDisk} {maxAge : ℕ} {now : Instant}
    (hprop : ∀ file ∈ node.dir.expired maxAge now, declares file = []) :
    Kept (act zstd node (.expireFiles disk maxAge now)) := by
  have hgone : ∃ gone, gone <+: node.dir.expired maxAge now ∧
      (BoundedDir.expire disk maxAge now node.dir).2.files =
        node.dir.files.filter (fun file => file.name ∉ gone.map StoredFile.name) := by
    cases hlist : disk.list with
    | error why =>
      refine ⟨[], nil_prefix, ?_⟩
      rw [BoundedDir.expire, hlist]
      exact (filter_eq_self.mpr (fun _ _ => decide_eq_true not_mem_nil)).symm
    | ok _ =>
      obtain ⟨gone, hgone, hfs⟩ := expireAll_run disk (node.dir.expired maxAge now) node.dir
      refine ⟨gone, hgone, ?_⟩
      have hlt : (BoundedDir.expire disk maxAge now node.dir).2 =
          (BoundedDir.expireAll disk (node.dir.expired maxAge now) node.dir).2 := by
        rw [BoundedDir.expire, hlist]
        change ((BoundedDir.expireAll disk (node.dir.expired maxAge now) >>= fun _ =>
          if node.dir.expired maxAge now = [] then _ else _ :
            Effect BoundedDir Error (List String)) node.dir).2 = _
        rw [Effect.bind_run]
        cases BoundedDir.expireAll disk (node.dir.expired maxAge now) node.dir with
        | mk answer left =>
          cases answer with
          | error fault => rfl
          | ok _ =>
            change ((if node.dir.expired maxAge now = [] then _ else _ :
              Effect BoundedDir Error (List String)) left).2 = left
            split
            · rfl
            · cases disk.observe <;> rfl
      rw [hlt]
      exact hfs
  obtain ⟨gone, hgone, hfs⟩ := hgone
  apply hkept.of_filtered hfs
  intro file hfile hvic
  rw [decide_eq_false_iff_not, not_not] at hvic
  obtain ⟨victim, hvic, hsame⟩ := List.mem_map.mp hvic
  have hexp := hgone.subset hvic
  have hmem : victim ∈ node.dir.files := by
    rw [BoundedDir.expired, mem_filter, BoundedDir.entries, mem_mergeSort] at hexp
    exact hexp.1
  have hboth : victim = file := inj_on_of_nodup_map node.dir.distinct hmem hfile hsame
  rw [← hboth]
  exact hprop victim (hgone.subset hvic)

end Deleting

section Running

variable {node before after : Node} {zstd : Zstd}

theorem onBlobs_run {Value : Type} (effect : Effect BlobStore Error Value) {ring : RecordRing}
    {store : BlobStore} (hstr : ring.blobs = some store) :
    (RecordRing.onBlobs effect ring).2 = { ring with blobs := some (effect store).2 } := by
  have hrun : RecordRing.onBlobs effect ring = (match ring.blobs with
    | some store => RecordRing.onStore store effect >>= fun _ => return ()
    | none => return () : Effect RecordRing Error Unit) ring := rfl
  rw [hrun, hstr]
  change ((RecordRing.onStore store effect >>= fun _ => return () :
    Effect RecordRing Error Unit) ring).2 = _
  rw [Effect.bind_run, RecordRing.onStore, Effect.within]
  cases (effect store).1 <;> rfl

/-- A collection removes nothing that is needed, and what nobody needs if it is free to. -/
def CollectsUnneeded (node : Node) : Prop :=
  ∀ store, node.ring.blobs = some store → ∀ disk now ttl,
    (∀ key, 0 < node.needs key → (BlobStore.gc disk now ttl store).2.has key = true) ∧
    ∀ report, (BlobStore.gc disk now ttl store).1 = .ok report → ∀ key file,
      node.needs key = 0 → store.isPinned key = false → store.file? key = some file →
      disk.aged key = true → ttl ≤ since now file.modified →
      (BlobStore.gc disk now ttl store).2.has key = false

theorem Kept.collectsUnneeded (hkept : Kept node) : CollectsUnneeded node := by
  intro store hstr disk now ttl
  have hrefs : node.ring.refs = store.refs := by rw [RecordRing.refs, hstr]
  have hhas : node.ring.has = store.has := by
    funext key
    rw [RecordRing.has, hstr]
  have hswept := BlobStore.gc_run disk now ttl store
  constructor
  · intro key hneed
    have hcntd : store.refcount key ≠ 0 := by
      rw [BlobStore.refcount, ← hrefs, hkept.counts]
      exact Nat.ne_of_gt hneed
    rw [hswept.spared key (fun hdue => hcntd hdue.2.1), ← hhas]
    exact hkept.stored key hneed
  intro report hrep key file hunn hunp hfile haged hold
  apply hswept.removed report hrep key
  refine ⟨hunp, ?_, file, hfile, haged, hold⟩
  rw [BlobStore.refcount, ← hrefs, hkept.counts, hunn]

theorem kept_of_gc (hkept : Kept node) (disk : BlobStore.GcDisk) (now : Instant) (ttl : ℕ) :
    Kept (act zstd node (.gc disk now ttl)) := by
  change Kept { node with ring := (RecordRing.onBlobs (BlobStore.gc disk now ttl) node.ring).2 }
  cases hstr : node.ring.blobs with
  | none =>
    have hsame : (RecordRing.onBlobs (BlobStore.gc disk now ttl) node.ring).2 = node.ring := by
      change ((match node.ring.blobs with
        | some store => RecordRing.onStore store (BlobStore.gc disk now ttl) >>= fun _ => return ()
        | none => return () : Effect RecordRing Error Unit) node.ring).2 = _
      rw [hstr]
      rfl
    rw [hsame]
    exact hkept
  | some store =>
    have hrefs : node.ring.refs = store.refs := by rw [RecordRing.refs, hstr]
    have hhas : node.ring.has = store.has := by
      funext key
      rw [RecordRing.has, hstr]
    have hswept := BlobStore.gc_run disk now ttl store
    have hcntd : ∀ key, 0 < store.refs.count key → store.has key = true := by
      intro key hpos
      rw [← hhas]
      apply hkept.stored
      rwa [← hkept.counts, hrefs]
    rw [onBlobs_run _ hstr]
    constructor
    · intro key
      change (BlobStore.gc disk now ttl store).2.refs.count key = node.needs key
      rw [hswept.refs hcntd, ← hkept.counts, hrefs]
    · intro key hneed
      exact (hkept.collectsUnneeded store hstr disk now ttl).1 key hneed
    · exact hkept.distinct

theorem kept_of_act (hkept : Kept node) {action : Action} (hprop : Proper zstd node action) :
    Kept (act zstd node action) := by
  cases action with
  | push disk call => exact kept_of_push hkept hprop
  | expire | clear => exact kept_of_dropWhile hkept _ _
  | save disk opts now => exact kept_of_save hkept hprop
  | discard disk index name => exact kept_of_discard hkept hprop
  | expireFiles disk maxAge now => exact kept_of_expireFiles hkept hprop
  | gc disk now ttl => exact kept_of_gc hkept disk now ttl

/-- In a run of proper actions each blob is counted as often as it is needed, and a collection
can tell what is needed from what is not. -/
theorem references_counted (hkept : Kept before) (hrun : Run zstd before after) :
    (∀ key, after.ring.refs.count key = after.needs key) ∧ CollectsUnneeded after := by
  have hafter : Kept after := by
    induction hrun with
    | start => exact hkept
    | step action _ hproper ih => exact kept_of_act ih hproper
  exact ⟨hafter.counts, hafter.collectsUnneeded⟩

/-- Nothing recorded, nothing stored, and room for nothing. -/
def freshNode : Node where
  ring := ⟨⟨1000, 1000, 0, true⟩, [], 0, 0, some ⟨[], [], Tally.zero⟩⟩
  dir := ⟨[], [], 0, List.nodup_nil⟩

/-- A call whose arguments are stored. -/
def storedPush : Action :=
  .push ⟨⟨.ok (), .ok ()⟩, ⟨.ok (), .ok ()⟩, 0⟩ ⟨"i", "f", [7], none, 0, 0⟩

/-- Its one blob is counted for the record that refers to it. -/
theorem references_counted_storedPush : (∀ key, (act Zstd.rawFrames freshNode
    storedPush).ring.refs.count key = (act Zstd.rawFrames freshNode storedPush).needs key) ∧
      CollectsUnneeded (act Zstd.rawFrames freshNode storedPush) := by
  apply @references_counted freshNode _ Zstd.rawFrames
  · exact kept_of_fresh rfl rfl rfl
  refine Run.step storedPush (Run.start freshNode) ⟨?_, ?_⟩
  · intro hfails
    cases hfails with
    | inl hother => exact absurd (by decide) hother
    | inr hfails =>
      cases hfails with
      | inl hother => exact absurd hother (by decide +kernel)
      | inr hother => cases hother.choose_spec.1
  intro _ key
  have hlength : (RecordRing.pushTakes ⟨⟨.ok (), .ok ()⟩, ⟨.ok (), .ok ()⟩, 0⟩
      ⟨"i", "f", [7], none, 0, 0⟩ freshNode.ring).length ≤ u32Max := by
    decide +kernel
  change 0 + _ ≤ _
  rw [Nat.zero_add]
  exact Nat.le_trans count_le_length hlength

/-- The quota refuses the file: one record needs the blob, and it is counted twice. -/
theorem refused_save_counts_twice :
    ([storedPush, .save soundDisk ⟨.manual, "", false⟩ 0].foldl (act Zstd.rawFrames)
      freshNode).needs (BlobKey.of [7]) = 1 ∧
      ([storedPush, .save soundDisk ⟨.manual, "", false⟩ 0].foldl (act Zstd.rawFrames)
        freshNode).ring.refs.count (BlobKey.of [7]) = 2 := by
  decide +kernel

end Running

end WasmAgent.Bounded
