import WasmAgent.Queue.Runs

/-!
# Progress streams

The chunks of a job are numbered from zero in the order they were appended.  A poll
returns those from its `after` on, that one included: a reader that passes the number
after the last one it has seen gets each chunk once, and one that passes the last number
it has seen gets that chunk again.
-/

namespace WasmAgent.Queue

open List Option Std WasmAgent.Core WasmAgent.Core.Program

structure ProgressEntry where
  seq : ℕ
  bytes : Bytes
  deriving DecidableEq, Repr

/-- The body of the scan of `progress_since`. -/
def pickEntry (after limit : ℕ) (entries : List ProgressEntry) (chunk : ℕ × Bytes) :
    List ProgressEntry :=
  if chunk.1 < after ∨ limit ≤ entries.length then
    entries
  else
    entries ++ [⟨chunk.1, chunk.2⟩]

/-- The progress entries from `after` on, at most `limit`. -/
def progressSince (id : JobId) (after limit : ℕ) : Operation (List ProgressEntry) := do
  let chunks ← query (.chunks id)
  return (chunks.foldl (pickEntry after limit) []).insertionSort
    (fun left right => left.seq ≤ right.seq)

/-- All entries of a job, in the order of their numbers. -/
def streamOf (store : Store) (id : JobId) : List ProgressEntry :=
  (kv.answer (Query.chunks id) store).map (fun chunk => ⟨chunk.1, chunk.2⟩)

section Scans

variable {store : Store} {id : JobId} {entry : ProgressEntry}

theorem mem_streamOf :
    entry ∈ streamOf store id ↔ store.chunks[(⟨id, entry.seq⟩ : ChunkKey)]? = some entry.bytes := by
  rw [streamOf, List.mem_map]
  constructor
  · intro hent
    obtain ⟨chunk, hchunk, rfl⟩ := hent
    obtain ⟨found, hfnd, rfl⟩ := List.mem_map.mp hchunk
    rw [List.mem_filter, decide_eq_true_iff, ExtTreeMap.mem_toList_iff_getElem?_eq_some] at hfnd
    rw [← hfnd.2]
    exact hfnd.1
  intro hent
  refine ⟨(entry.seq, entry.bytes), List.mem_map.mpr ⟨(⟨id, entry.seq⟩, entry.bytes), ?_, rfl⟩, rfl⟩
  rw [List.mem_filter, decide_eq_true_iff, ExtTreeMap.mem_toList_iff_getElem?_eq_some]
  exact ⟨hent, rfl⟩

theorem streamOf_sorted (store : Store) (id : JobId) :
    (streamOf store id).Pairwise (fun left right => left.seq < right.seq) := by
  rw [streamOf, pairwise_map]
  change ((store.chunks.toList.filter (fun entry => entry.1.id = id)).map
    (fun entry => (entry.1.seq, entry.2))).Pairwise _
  rw [pairwise_map]
  have hordd := store.chunks.ordered_keys_toList.filter (fun entry => entry.1.id = id)
  apply hordd.imp_of_mem
  intro left right hlt hrt hbef
  rw [mem_filter, decide_eq_true_iff] at hlt hrt
  rw [ChunkKey.order, compareLex, compareOn, compareOn, hlt.2, hrt.2, ReflOrd.compare_self] at hbef
  exact Nat.compare_eq_lt.mp hbef

/-- Two streams with the same entries are equal. -/
theorem eq_of_seq_sorted {left right : List ProgressEntry}
    (hleft : left.Pairwise (fun before after => before.seq < after.seq))
    (hrt : right.Pairwise (fun before after => before.seq < after.seq))
    (hsame : ∀ entry, entry ∈ left ↔ entry ∈ right) : left = right := by
  have hndp : ∀ {entries : List ProgressEntry},
      entries.Pairwise (fun before after => before.seq < after.seq) → entries.Nodup := by
    intro entries hsrt
    apply hsrt.imp
    intro before after hlt heq
    rw [heq] at hlt
    exact lt_irrefl _ hlt
  have hperm : left.Perm right := (perm_ext_iff_of_nodup (hndp hleft) (hndp hrt)).mpr hsame
  apply hperm.eq_of_pairwise _ hleft hrt
  intro before after _ _ hlt hgt
  exact absurd hgt (not_lt_of_gt hlt)

theorem foldl_pickEntry (after limit : ℕ) (chunks : List (ℕ × Bytes))
    (entries : List ProgressEntry) :
    chunks.foldl (pickEntry after limit) entries =
      entries ++ (((chunks.map (fun chunk => (⟨chunk.1, chunk.2⟩ : ProgressEntry))).filter
        (fun entry => after ≤ entry.seq)).take (limit - entries.length)) := by
  induction chunks generalizing entries with
  | nil =>
    rw [map_nil, filter_nil, take_nil, append_nil]
    rfl
  | cons chunk chunks ih =>
    rw [foldl_cons, ih, pickEntry, map_cons, filter_cons]
    by_cases hbef : chunk.1 < after
    · rw [if_pos (.inl hbef), decide_eq_false (Nat.not_le_of_gt hbef)]
      rfl
    rw [decide_eq_true (Nat.not_lt.mp hbef), if_pos rfl]
    by_cases hfull : limit ≤ entries.length
    · rw [if_pos (.inr hfull), Nat.sub_eq_zero_of_le hfull, take_zero, take_zero]
    · have hroom : limit - entries.length = limit - (entries.length + 1) + 1 := by omega
      rw [if_neg (not_or.mpr ⟨hbef, hfull⟩), length_append, length_singleton, hroom,
        take_succ_cons, append_assoc, singleton_append]

theorem progressSince_result (after limit : ℕ) :
    (progressSince id after limit).result kv store =
      ((streamOf store id).filter (fun entry => after ≤ entry.seq)).take limit := by
  change (foldl (pickEntry after limit) [] (kv.answer (Query.chunks id) store)).insertionSort
    _ = _
  rw [foldl_pickEntry, nil_append, length_nil, Nat.sub_zero]
  apply List.Pairwise.insertionSort_eq
  apply List.Pairwise.sublist (take_sublist _ _)
  apply List.Pairwise.sublist filter_sublist
  exact (streamOf_sorted store id).imp (fun hlt => hlt.le)

end Scans

/-- A job with its chunks: as many as its record says, numbered from zero. -/
def Streams (store : Store) (id : JobId) : Prop :=
  ∃ job, store.jobs[id]? = some job ∧
    (streamOf store id).map ProgressEntry.seq = List.range job.progressEntries.toNat

section Numbers

variable {store : Store} {id : JobId}

theorem filter_le_of_numbered {entries : List ProgressEntry} {start : ℕ} (after : ℕ)
    (hnrs : entries.map ProgressEntry.seq = range' start entries.length) :
    entries.filter (fun entry => after ≤ entry.seq) = entries.drop (after - start) := by
  induction entries generalizing start with
  | nil => rw [filter_nil, drop_nil]
  | cons entry entries ih =>
    rw [map_cons, length_cons, range'_succ, List.cons.injEq] at hnrs
    rw [filter_cons, ih hnrs.2, hnrs.1]
    by_cases hle : after ≤ start
    · rw [decide_eq_true hle, if_pos rfl, Nat.sub_eq_zero_of_le hle,
        Nat.sub_eq_zero_of_le (Nat.le_succ_of_le hle), drop_zero, drop_zero]
    · have hmore : after - start = after - (start + 1) + 1 := by omega
      rw [decide_eq_false hle, if_neg Bool.false_ne_true, hmore, drop_succ_cons]

theorem Streams.numbers (hstr : Streams store id) :
    (streamOf store id).map ProgressEntry.seq = range (streamOf store id).length := by
  obtain ⟨job, _, hnrs⟩ := hstr
  have hlen := congrArg length hnrs
  rw [length_map, length_range] at hlen
  rw [hnrs, hlen]

theorem Streams.poll (hstr : Streams store id) (after limit : ℕ) :
    (progressSince id after limit).result kv store =
      ((streamOf store id).drop after).take limit := by
  rw [progressSince_result, filter_le_of_numbered after (hstr.numbers.trans
    range_eq_range'), Nat.sub_zero]

end Numbers

section Appends

variable {policy : Policy} {store : Store} {id other : JobId} {chunk : Bytes} {now : Millis}

theorem progress_outcome (policy : Policy) (store : Store) (now : Millis) (other : JobId)
    (chunk : Bytes) :
    (∃ refusal, (progress policy now other chunk).result kv store = .error refusal ∧
        (progress policy now other chunk).final kv store = store) ∨
      ∃ job, store.jobs[other]? = some job ∧ job.progressEntries < policy.maxProgressEntries ∧
        (progress policy now other chunk).result kv store = .ok job.progressEntries.toNat ∧
        (progress policy now other chunk).final kv store =
          kv.apply (.putJob (job.withChunk chunk now))
            (kv.apply (.putChunk ⟨other, job.progressEntries.toNat⟩ chunk) store) := by
  simp only [progress, load, query_bind, result_ask, final_ask]
  rw [answer_job]
  cases hjob : store.jobs[other]? with
  | none => exact .inl ⟨_, rfl, rfl⟩
  | some job =>
    dsimp only
    by_cases hfull : policy.maxProgressEntries ≤ job.progressEntries ∨
        policy.maxProgressBytes < saturatingAddU64 job.progressBytes chunk.length
    · rw [if_pos hfull]
      exact .inl ⟨_, rfl, rfl⟩
    · rw [if_neg hfull]
      exact .inr ⟨job, rfl, UInt32.not_le.mp (not_or.mp hfull).1, rfl, rfl⟩

theorem withChunk_entries {job : Job} {limit : UInt32} (hroom : job.progressEntries < limit) :
    (job.withChunk chunk now).progressEntries.toNat = job.progressEntries.toNat + 1 := by
  have hlt : job.progressEntries.toNat < limit.toNat := UInt32.lt_iff_toNat_lt.mp hroom
  have hlim := limit.toNat_lt
  change (job.progressEntries + 1).toNat = _
  rw [UInt32.toNat_add, UInt32.toNat_one, Nat.mod_eq_of_lt]
  omega

theorem chunks_putJob (job : Job) (key : ChunkKey) :
    (kv.apply (.putJob job) store).chunks[key]? = store.chunks[key]? := rfl

theorem chunks_putChunk (added key : ChunkKey) :
    (kv.apply (.putChunk added chunk) store).chunks[key]? =
      if added = key then some chunk else store.chunks[key]? := by
  change (store.chunks.insert added chunk)[key]? = _
  rw [ExtTreeMap.getElem?_insert]
  simp

theorem streamOf_append (hnrs : (streamOf store id).map ProgressEntry.seq =
      range (streamOf store id).length) (job : Job) :
    streamOf (kv.apply (.putJob job)
        (kv.apply (.putChunk ⟨id, (streamOf store id).length⟩ chunk) store)) id =
      streamOf store id ++ [⟨(streamOf store id).length, chunk⟩] := by
  have hbelow : ∀ entry ∈ streamOf store id, entry.seq < (streamOf store id).length := by
    intro entry hent
    rw [← mem_range, ← hnrs]
    exact List.mem_map_of_mem hent
  apply eq_of_seq_sorted (streamOf_sorted _ _)
  · rw [pairwise_append]
    refine ⟨streamOf_sorted store id, pairwise_singleton _ _, ?_⟩
    intro entry hent last hlast
    rw [mem_singleton.mp hlast]
    exact hbelow entry hent
  intro entry
  rw [mem_streamOf, chunks_putJob, chunks_putChunk, mem_append, mem_singleton, mem_streamOf]
  split
  · next hkey =>
    have hseq : (streamOf store id).length = entry.seq := congrArg ChunkKey.seq hkey
    constructor
    · intro hbs
      cases hbs
      exact .inr (by rw [hseq])
    intro hent
    rcases hent with hent | hent
    · have hlt := hbelow entry (mem_streamOf.mpr hent)
      omega
    · rw [hent]
  rename_i hkey
  rw [or_iff_left]
  intro hent
  apply hkey
  rw [hent]

theorem streamOf_append_other (hoth : other ≠ id) (job : Job) (seq : ℕ) :
    streamOf (kv.apply (.putJob job) (kv.apply (.putChunk ⟨other, seq⟩ chunk) store)) id =
      streamOf store id := by
  apply eq_of_seq_sorted (streamOf_sorted _ _) (streamOf_sorted _ _)
  intro entry
  rw [mem_streamOf, chunks_putJob, chunks_putChunk, if_neg, mem_streamOf]
  intro hkey
  exact hoth (congrArg ChunkKey.id hkey)

def appended (policy : Policy) (now : Millis) (other : JobId) (chunk : Bytes) (id : JobId)
    (store : Store) : List ProgressEntry :=
  match (progress policy now other chunk).result kv store with
  | .ok seq => if other = id then [⟨seq, chunk⟩] else []
  | .error _ => []

theorem Streams.append (hstreams : Streams store id) (policy : Policy) (now : Millis)
    (other : JobId) (chunk : Bytes) :
    Streams ((progress policy now other chunk).final kv store) id ∧
      streamOf ((progress policy now other chunk).final kv store) id =
        streamOf store id ++ appended policy now other chunk id store := by
  rcases progress_outcome policy store now other chunk with
    ⟨refusal, hres, hfin⟩ | ⟨job, hjob, hroom, hres, hfin⟩
  · rw [appended, hres, hfin, append_nil]
    exact ⟨hstreams, rfl⟩
  rw [appended, hres, hfin]
  have hid : job.id = other := store.jobs_id other job hjob
  by_cases hsame : other = id
  · subst hsame
    have hnrs := hstreams.numbers
    obtain ⟨found, hfnd, hcnt⟩ := hstreams
    obtain rfl : job = found := some_inj.mp (hjob.symm.trans hfnd)
    have hlen : job.progressEntries.toNat = (streamOf store other).length := by
      have hleng := congrArg length hcnt
      rw [length_map, length_range] at hleng
      exact hleng.symm
    have hstr := @streamOf_append store other chunk hnrs (job.withChunk chunk now)
    dsimp only
    rw [if_pos rfl, hlen, hstr]
    refine ⟨⟨job.withChunk chunk now, ?_, ?_⟩, rfl⟩
    · rw [jobs_apply]
      dsimp only
      rw [if_pos (show (job.withChunk chunk now).id = other from hid)]
    · rw [hstr, map_append, hnrs, withChunk_entries hroom, hlen, range_succ]
      rfl
  dsimp only
  rw [if_neg hsame, streamOf_append_other hsame, append_nil]
  obtain ⟨found, hfnd, hcnt⟩ := hstreams
  refine ⟨⟨found, ?_, ?_⟩, rfl⟩
  · rw [jobs_apply, jobs_apply]
    dsimp only
    rw [if_neg (show (job.withChunk chunk now).id ≠ id from fun heq => hsame (hid ▸ heq)), hfnd]
  · rw [streamOf_append_other hsame, hcnt]

end Appends

/-! ## One reader -/

structure Reading where
  store : Store
  received : List ProgressEntry

/-- What the reader passes as `after`: the last number it has seen, zero at first. -/
def Reading.after (reading : Reading) : ℕ :=
  (reading.received.getLast?.map ProgressEntry.seq).getD 0

inductive StreamStep where
  | append (now : Millis) (other : JobId) (chunk : Bytes)
  | poll (limit : ℕ)

section Runs

variable (policy : Policy) (id : JobId)

def StreamStep.next : StreamStep → Reading → Reading
  | append now other chunk, reading =>
      { reading with store := (progress policy now other chunk).final kv reading.store }
  | poll limit, reading =>
      { reading with
        received := reading.received ++
          (progressSince id reading.after limit).result kv reading.store }

/-- The store and the reader after a run. -/
def readAll (steps : List StreamStep) (reading : Reading) : Reading :=
  steps.foldl (fun current step => step.next policy id current) reading

def StreamStep.Right : StreamStep → Reading → Prop
  | append now other chunk, reading =>
      streamOf ((progress policy now other chunk).final kv reading.store) id =
        streamOf reading.store id ++ appended policy now other chunk id reading.store
  | poll limit, reading =>
      (progressSince id reading.after limit).result kv reading.store =
        ((streamOf reading.store id).drop reading.received.length).take limit

/-- Every step of a run does what it is meant to do, and the entries are numbered from
zero all the time. -/
def Delivered : List StreamStep → Reading → Prop
  | [], reading =>
      (streamOf reading.store id).map ProgressEntry.seq =
        List.range (streamOf reading.store id).length
  | step :: steps, reading =>
      (streamOf reading.store id).map ProgressEntry.seq =
          List.range (streamOf reading.store id).length ∧
        step.Right policy id reading ∧ Delivered steps (step.next policy id reading)

def AsksOnce : List StreamStep → Reading → Prop
  | [], _ => True
  | .append now other chunk :: steps, reading =>
      AsksOnce steps (StreamStep.next policy id (.append now other chunk) reading)
  | .poll limit :: steps, reading =>
      (limit = 0 ∨ reading.received = []) ∧
        AsksOnce steps (StreamStep.next policy id (.poll limit) reading)

end Runs

section Readers

variable {policy : Policy} {id : JobId} {reading : Reading}

structure Reading.Sound (reading : Reading) (id : JobId) : Prop where
  streams : Streams reading.store id
  received : reading.received <+: streamOf reading.store id

variable (hsound : reading.Sound id)
include hsound

theorem Reading.after_of_nonempty (hsome : reading.received ≠ []) :
    reading.after + 1 = reading.received.length := by
  obtain ⟨rest, hrest⟩ := hsound.received
  have hnrs := hsound.streams.numbers
  have hlast : reading.received.getLast? = some (reading.received.getLast hsome) :=
    getLast?_eq_some_getLast hsome
  have hpos : 0 < reading.received.length := length_pos_iff.mpr hsome
  have hplace : (streamOf reading.store id)[reading.received.length - 1]? =
      some (reading.received.getLast hsome) := by
    rw [← hrest, getElem?_append_left (Nat.sub_lt hpos Nat.one_pos), ← getLast?_eq_getElem?, hlast]
  have hseq : ((streamOf reading.store id).map ProgressEntry.seq)[reading.received.length - 1]? =
      some (reading.received.getLast hsome).seq := by
    rw [getElem?_map, hplace]
    rfl
  rw [hnrs, getElem?_range] at hseq
  · rw [Reading.after, hlast, map_some, getD_some, ← some_inj.mp hseq]
    exact Nat.sub_add_cancel hpos
  · have hlen := congrArg length hrest
    rw [length_append] at hlen
    omega

theorem Reading.Sound.poll_right_iff (limit : ℕ) :
    (StreamStep.poll limit).Right policy id reading ↔ limit = 0 ∨ reading.received = [] := by
  rw [StreamStep.Right, hsound.streams.poll]
  by_cases hemp : reading.received = []
  · rw [Reading.after, hemp]
    exact iff_of_true rfl (.inr rfl)
  have haft := Reading.after_of_nonempty hsound hemp
  obtain ⟨rest, hrest⟩ := hsound.received
  have hplace : reading.after < (streamOf reading.store id).length := by
    have hlen := congrArg length hrest
    rw [length_append] at hlen
    omega
  rw [or_iff_left hemp, drop_eq_getElem_cons hplace, haft]
  cases limit with
  | zero => exact iff_of_true rfl rfl
  | succ limit =>
    apply iff_of_false _ (Nat.succ_ne_zero limit)
    intro hsame
    have hnrs := hsound.streams.numbers
    have hndp : (streamOf reading.store id).Nodup := by
      apply List.Nodup.of_map ProgressEntry.seq
      rw [hnrs]
      exact nodup_range
    have hagain : (streamOf reading.store id)[reading.after] ∈
        (streamOf reading.store id).drop reading.received.length := by
      apply take_subset (limit + 1)
      rw [← hsame, take_succ_cons]
      exact mem_cons_self
    rw [← haft] at hagain
    have hspl : ((streamOf reading.store id).drop reading.after).Nodup :=
      hndp.sublist (drop_sublist _ _)
    rw [drop_eq_getElem_cons hplace, nodup_cons] at hspl
    exact hspl.1 hagain

theorem Reading.Sound.append (now : Millis) (other : JobId)
    (chunk : Bytes) : ((StreamStep.append now other chunk).next policy id reading).Sound id := by
  obtain ⟨hstreams, hstr⟩ := hsound.streams.append policy now other chunk
  refine ⟨hstreams, ?_⟩
  change reading.received <+: streamOf ((progress policy now other chunk).final kv reading.store) id
  rw [hstr]
  exact hsound.received.trans (prefix_append _ _)

theorem Reading.Sound.polled {limit : ℕ} (hrt : (StreamStep.poll limit).Right policy id reading) :
    ((StreamStep.poll limit).next policy id reading).Sound id := by
  refine ⟨hsound.streams, ?_⟩
  change reading.received ++ (progressSince id reading.after limit).result kv reading.store <+:
    streamOf reading.store id
  rw [show (progressSince id reading.after limit).result kv reading.store = _ from hrt]
  obtain ⟨rest, hrest⟩ := hsound.received
  rw [← hrest, drop_left]
  exact prefix_append_right_inj _ |>.mpr ( take_prefix limit rest)

theorem delivered_iff (steps : List StreamStep) :
    Delivered policy id steps reading ↔ AsksOnce policy id steps reading := by
  induction steps generalizing reading with
  | nil => exact iff_of_true hsound.streams.numbers trivial
  | cons step steps ih =>
    rw [Delivered, and_iff_right hsound.streams.numbers]
    cases step with
    | append now other chunk =>
      rw [AsksOnce, ih (hsound.append now other chunk)]
      exact and_iff_right (hsound.streams.append policy now other chunk).2
    | poll limit =>
      rw [AsksOnce, hsound.poll_right_iff]
      apply and_congr_right
      intro hasks
      exact ih (hsound.polled (hsound.poll_right_iff limit |>.mpr hasks))

omit hsound

theorem Delivered.received_prefix {steps : List StreamStep} (hsound : reading.Sound id)
    (hdel : Delivered policy id steps reading) : (readAll policy id steps reading).Sound id := by
  induction steps generalizing reading with
  | nil => exact hsound
  | cons step steps ih =>
    obtain ⟨_, hrt, hrest⟩ := hdel
    cases step with
    | append now other chunk => exact ih (hsound.append now other chunk) hrest
    | poll limit => exact ih (hsound.polled hrt) hrest

def oneJob : Store := (enqueue Policy.default 0 (EnqueueRequest.new "stt" [])).final kv Store.empty

theorem oneJob_streams : Streams oneJob 1 := by
  refine ⟨(EnqueueRequest.new "stt" []).job Policy.default 0 1, by decide +kernel, ?_⟩
  decide +kernel

end Readers

end WasmAgent.Queue
