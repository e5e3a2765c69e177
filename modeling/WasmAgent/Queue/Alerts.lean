import WasmAgent.Queue.Filing
import WasmAgent.Queue.Freshness

/-!
# Alerts and their batches

An alert is recorded once, waits, and leaves the waiting ones in a batch or by its age.
What a run recorded, sent and discarded is read off the writes of its operations.
-/

namespace WasmAgent.Queue

open List Option Std.ExtTreeMap Std WasmAgent.Core WasmAgent.Core.Program

variable {write : Write}

section Tables

variable {store : Store} {alert changed : Alert} {key : AlertKey}

def Keyed (store : Store) : Prop :=
  ∀ (key : AlertKey) (alert : Alert), store.alerts[key]? = some alert → alert.key = key

variable (hkeyed : Keyed store)
include hkeyed

theorem Keyed.apply (write : Write) : Keyed (kv.apply write store) := by
  intro key alert halert
  rw [alerts_apply] at halert
  split at halert
  · split at halert
    · next hsame =>
      cases halert
      exact hsame
    · exact hkeyed key alert halert
  · exact hkeyed key alert halert

theorem Keyed.applyAll (writes : List Write) : Keyed (kv.applyAll writes store) := by
  induction writes generalizing store with
  | nil => exact hkeyed
  | cons write writes ih => exact ih (hkeyed.apply write)

/-- The alerts that wait for a batch, by key. -/
def pending (store : Store) : List Alert :=
  (kv.answer Query.alerts store).filter (fun alert => alert.state = .ready)

theorem mem_alerts :
    alert ∈ kv.answer Query.alerts store ↔ store.alerts[alert.key]? = some alert := by
  change alert ∈ store.alerts.toList.map Prod.snd ↔ _
  rw [List.mem_map]
  constructor
  · rintro ⟨⟨key, found⟩, hent, rfl⟩
    rw [ExtTreeMap.mem_toList_iff_getElem?_eq_some] at hent
    rwa [hkeyed key found hent]
  · intro halert
    exact ⟨(alert.key, alert), ExtTreeMap.mem_toList_iff_getElem?_eq_some.mpr halert, rfl⟩

theorem mem_pending :
    alert ∈ pending store ↔ store.alerts[alert.key]? = some alert ∧ alert.state = .ready := by
  rw [pending, List.mem_filter, mem_alerts hkeyed, decide_eq_true_iff]

theorem alerts_nodup : (kv.answer Query.alerts store).Nodup := by
  have hkeys : (store.alerts.toList.map Prod.fst).Nodup := by
    rw [map_fst_toList_eq_keys]
    exact nodup_keys
  apply List.Nodup.map_on _ (List.Nodup.of_map _ hkeys)
  rintro ⟨key, alert⟩ hent ⟨other, found⟩ hother hsame
  rw [mem_toList_iff_getElem?_eq_some] at hent hother
  obtain rfl : alert = found := hsame
  rw [← hkeyed key alert hent, ← hkeyed other alert hother]

theorem pending_nodup : (pending store).Nodup := (alerts_nodup hkeyed).filter _

theorem eq_of_pending {other : Alert} (halert : alert ∈ pending store)
    (hother : other ∈ pending store) (hkeys : alert.key = other.key) : alert = other := by
  rw [mem_pending hkeyed] at halert hother
  rw [hkeys, hother.1] at halert
  exact (some_inj.mp halert.1).symm

theorem mem_pending_putAlert (hsetd : changed.state ≠ .ready) :
    alert ∈ pending (kv.apply (.putAlert changed) store) ↔
      alert ∈ pending store ∧ alert.key ≠ changed.key := by
  rw [mem_pending (hkeyed.apply _), mem_pending hkeyed, alerts_apply]
  dsimp only
  by_cases hkey : changed.key = alert.key
  · rw [if_pos hkey]
    constructor
    · rintro ⟨hsame, hrdy⟩
      cases hsame
      exact absurd hrdy hsetd
    · rintro ⟨_, hother⟩
      exact absurd hkey.symm hother
  · rw [if_neg hkey, and_iff_left (fun hsame => hkey hsame.symm)]

theorem mem_pending_putAlerts {changes : List Alert}
    (hsetd : ∀ changed ∈ changes, changed.state ≠ .ready) :
    alert ∈ pending (kv.applyAll (changes.map .putAlert) store) ↔
      alert ∈ pending store ∧ alert.key ∉ changes.map Alert.key := by
  induction changes generalizing store with
  | nil => exact (and_iff_left not_mem_nil).symm
  | cons changed changes ih =>
    rw [forall_mem_cons] at hsetd
    rw [map_cons, Machine.applyAll_cons, ih (hkeyed.apply _) hsetd.2,
      mem_pending_putAlert hkeyed hsetd.1, map_cons, mem_cons, not_or, and_assoc]

theorem pending_file (hrdy : alert.state = .ready) (hnew : store.alerts[alert.key]? = none) :
    (pending (kv.applyAll [.putCounter .alertSeq (saturatingAddU64 alert.seq 1), .putAlert alert]
      store)).Perm (pending store ++ [alert]) := by
  have haft := hkeyed.applyAll
    [.putCounter .alertSeq (saturatingAddU64 alert.seq 1), .putAlert alert]
  have hfre : alert ∉ pending store := by
    rw [mem_pending hkeyed, hnew]
    nofun
  rw [perm_ext_iff_of_nodup (pending_nodup haft)]
  · intro other
    rw [mem_pending haft, mem_append, mem_singleton, mem_pending hkeyed,
      Machine.applyAll_cons, Machine.applyAll_cons, Machine.applyAll_nil, alerts_apply,
      alerts_apply]
    dsimp only
    by_cases hkey : alert.key = other.key
    · rw [if_pos hkey, ← hkey, hnew]
      constructor
      · rintro ⟨hsame, _⟩
        exact .inr (some_inj.mp hsame).symm
      · rintro (⟨hnone, _⟩ | rfl)
        · cases hnone
        · exact ⟨rfl, hrdy⟩
    · rw [if_neg hkey, or_iff_left]
      rintro rfl
      exact hkey rfl
  · rw [nodup_append_comm, singleton_append, nodup_cons]
    exact ⟨hfre, pending_nodup hkeyed⟩

omit hkeyed

theorem pending_silent (hsil : write.Silent) (store : Store) :
    pending (kv.apply write store) = pending store := by
  cases write with
  | putAlert => exact hsil.elim
  | putCounter counter value =>
    cases counter with
    | id => rfl
    | alertSeq => exact hsil.elim
  | _ => rfl

theorem alertLast_silent (hsil : write.Silent) (store : Store) :
    (kv.apply write store).alertLast = store.alertLast := by
  cases write with
  | putAlertLast => exact hsil.elim
  | putCounter counter value => cases counter <;> rfl
  | _ => rfl

end Tables

section Batches

variable {policy : Policy} {now : Millis} {store : Store}

/-- The alert as it was recorded, as it is handed out, and as it is when it is too old. -/
def Alert.recorded (alert : Alert) : Alert := { alert with state := .ready }

def Alert.delivered (alert : Alert) : Alert := { alert with state := .sent }

def Alert.discarded (alert : Alert) : Alert := { alert with state := .dropped }

/-- Nobody could deliver the alert for too long. -/
def Alert.outlived (policy : Policy) (now : Millis) (alert : Alert) : Bool :=
  alert.atMs < saturatingSub now policy.alerts.maxAgeMs

/-- The waiting alerts among some, too old or not. -/
def outlivedAmong (policy : Policy) (now : Millis) (alerts : List Alert) : List Alert :=
  (alerts.filter (fun alert => alert.state = .ready)).filter (Alert.outlived policy now)

def freshAmong (policy : Policy) (now : Millis) (alerts : List Alert) : List Alert :=
  (alerts.filter (fun alert => alert.state = .ready)).filter
    (fun alert => !alert.outlived policy now)

theorem sortAlerts_goes (alerts : List Alert) (found : List Alert × ℕ) (store : Store) :
    (alerts.foldlM (sortAlert policy now) found).writes kv store =
        (outlivedAmong policy now alerts).map (fun alert => .putAlert alert.discarded) ∧
      (alerts.foldlM (sortAlert policy now) found).result kv store =
        (found.1 ++ freshAmong policy now alerts,
          found.2 + (outlivedAmong policy now alerts).length) := by
  induction alerts generalizing found store with
  | nil =>
    refine ⟨rfl, ?_⟩
    change found = (found.1 ++ [], found.2)
    rw [append_nil]
  | cons alert alerts ih =>
    rw [foldlM_cons, writes_bind, result_bind, sortAlert]
    by_cases hrdy : alert.state = .ready
    · rw [if_neg (not_not.mpr hrdy)]
      by_cases hold : alert.atMs < saturatingSub now policy.alerts.maxAgeMs
      · have hout : alert.outlived policy now = true := decide_eq_true hold
        have hspl : outlivedAmong policy now (alert :: alerts) =
              alert :: outlivedAmong policy now alerts ∧
            freshAmong policy now (alert :: alerts) = freshAmong policy now alerts := by
          simp [outlivedAmong, freshAmong, hrdy, hout]
        obtain ⟨hwrs, hres⟩ :=
          ih (found.1, found.2 + 1) (kv.apply (.putAlert alert.discarded) store)
        rw [if_pos hold, hspl.1, hspl.2]
        refine ⟨congrArg (Write.putAlert alert.discarded :: ·) hwrs, hres.trans ?_⟩
        rw [length_cons, Nat.add_assoc, Nat.add_comm 1]
      have hyng : alert.outlived policy now = false := decide_eq_false hold
      have hspl : outlivedAmong policy now (alert :: alerts) = outlivedAmong policy now alerts ∧
          freshAmong policy now (alert :: alerts) = alert :: freshAmong policy now alerts := by
        simp [outlivedAmong, freshAmong, hrdy, hyng]
      obtain ⟨hwrs, hres⟩ := ih (found.1 ++ [alert], found.2) store
      rw [if_neg hold, hspl.1, hspl.2]
      refine ⟨hwrs, hres.trans ?_⟩
      rw [append_assoc]
      rfl
    have hspl : outlivedAmong policy now (alert :: alerts) = outlivedAmong policy now alerts ∧
        freshAmong policy now (alert :: alerts) = freshAmong policy now alerts := by
      simp [outlivedAmong, freshAmong, hrdy]
    rw [if_pos hrdy, hspl.1, hspl.2]
    exact ih found store

theorem sendAlerts_goes (alerts items : List Alert) (store : Store) :
    (alerts.foldlM sendAlert items).writes kv store =
        alerts.map (fun alert => .putAlert alert.delivered) ∧
      (alerts.foldlM sendAlert items).result kv store = items ++ alerts.map Alert.delivered := by
  induction alerts generalizing items store with
  | nil => exact ⟨rfl, (append_nil items).symm⟩
  | cons alert alerts ih =>
    rw [foldlM_cons, writes_bind, result_bind, sendAlert]
    obtain ⟨hwrs, hres⟩ :=
      ih (items ++ [alert.delivered]) (kv.apply (.putAlert alert.delivered) store)
    refine ⟨congrArg (Write.putAlert alert.delivered :: ·) hwrs, hres.trans ?_⟩
    rw [append_assoc]
    rfl

instance : Std.Total Alert.before where
  total left right := by
    rcases Int.lt_trichotomy left.atMs right.atMs with hearlier | hsame | hlater
    · exact .inl (.inl hearlier)
    · rcases Nat.le_total left.seq right.seq with hseq | hseq
      · exact .inl (.inr ⟨hsame, hseq⟩)
      · exact .inr (.inr ⟨hsame.symm, hseq⟩)
    · exact .inr (.inl hlater)

instance : IsTrans Alert Alert.before where
  trans first second third hfirst hsecond := by
    change first.atMs < third.atMs ∨ first.atMs = third.atMs ∧ first.seq ≤ third.seq
    rcases hfirst with hfirst | ⟨hfirst, hseqs⟩
    · rcases hsecond with hsecond | ⟨hsecond, _⟩
      · exact .inl (Int.lt_trans hfirst hsecond)
      · exact .inl (hsecond ▸ hfirst)
    · rcases hsecond with hsecond | ⟨hsecond, hlater⟩
      · exact .inl (hfirst ▸ hsecond)
      · exact .inr ⟨hfirst.trans hsecond, hseqs.trans hlater⟩

/-- What a call of `next_alerts` does with the waiting alerts: it writes off some, hands out
some, and leaves the rest; nothing is handed out by a call that returns no batch. -/
structure Called (policy : Policy) (now : Millis) (store : Store) (old items rest : List Alert) :
    Prop where
  waiting : (items ++ old ++ rest).Perm (pending store)
  writes : ∃ closing : List Write, (∀ write ∈ closing, write = .putAlertLast now) ∧
    (nextAlerts policy now).writes kv store =
      (old.map Alert.discarded ++ items.map Alert.delivered).map .putAlert ++ closing
  result : (nextAlerts policy now).result kv store = none ∧ items = [] ∧
      ((nextAlerts policy now).final kv store).alertLast = store.alertLast ∨
    (nextAlerts policy now).result kv store =
        some ⟨items.map Alert.delivered, rest.length, old.length⟩ ∧
      ((nextAlerts policy now).final kv store).alertLast = some now ∧
      ¬ store.alertLast.any (saturatingSub now policy.alerts.minGapMs < ·)
  few : items.length ≤ max policy.alerts.batchMax 1
  order : items ≠ [] → (items ++ rest).Pairwise Alert.before

theorem alertLast_putAlerts (alerts : List Alert) (change : Alert → Alert) (store : Store) :
    (kv.applyAll (alerts.map (fun alert => .putAlert (change alert))) store).alertLast =
      store.alertLast := by
  induction alerts generalizing store with
  | nil => rfl
  | cons alert alerts ih => exact ih _

theorem split_pending (policy : Policy) (now : Millis) (store : Store) :
    (outlivedAmong policy now (kv.answer Query.alerts store) ++
      freshAmong policy now (kv.answer Query.alerts store)).Perm (pending store) :=
  filter_append_perm _ _

theorem nextAlerts_called (policy : Policy) (now : Millis) (store : Store) :
    ∃ old items rest, Called policy now store old items rest := by
  have hspl := split_pending policy now store
  obtain ⟨hwrs, hres⟩ := @sortAlerts_goes policy now (kv.answer Query.alerts store) ([], 0) store
  rw [List.nil_append, Nat.zero_add] at hres
  by_cases hblk : (kv.answer Query.alertLast store).any
      (saturatingSub now policy.alerts.minGapMs < ·) = true
  · have hquiet : (nextAlerts policy now).writes kv store = [] := by
      rw [nextAlerts, query_bind, writes_ask, if_pos hblk]
      rfl
    have hnone : (nextAlerts policy now).result kv store = none := by
      rw [nextAlerts, query_bind, result_ask, if_pos hblk]
      rfl
    refine ⟨[], [], pending store, .refl _, ⟨[], List.forall_mem_nil _, hquiet⟩, ?_,
      Nat.zero_le _, fun hsome => absurd rfl hsome⟩
    rw [final, hquiet]
    exact .inl ⟨hnone, rfl, rfl⟩
  by_cases hfre : freshAmong policy now (kv.answer Query.alerts store) = []
  · have hold : (nextAlerts policy now).writes kv store =
        (outlivedAmong policy now (kv.answer Query.alerts store)).map
          (fun alert => .putAlert alert.discarded) := by
      rw [nextAlerts, query_bind, writes_ask, if_neg hblk, query_bind, writes_ask, writes_bind,
        hwrs, hres, hfre]
      exact List.append_nil _
    have hnone : (nextAlerts policy now).result kv store = none := by
      rw [nextAlerts, query_bind, result_ask, if_neg hblk, query_bind, result_ask, result_bind,
        hres, hfre]
      rfl
    refine ⟨outlivedAmong policy now (kv.answer Query.alerts store), [], [], ?_,
      ⟨[], List.forall_mem_nil _, ?_⟩, ?_, Nat.zero_le _, fun hsome => absurd rfl hsome⟩
    · rwa [hfre] at hspl
    · rw [hold, List.map_nil, List.append_nil, List.append_nil, List.map_map]
      rfl
    · rw [final, hold]
      exact .inl ⟨hnone, rfl, alertLast_putAlerts _ _ _⟩
  have hsome : ¬ (freshAmong policy now (kv.answer Query.alerts store)).isEmpty = true := by
    rwa [List.isEmpty_iff]
  have hsrt := List.perm_insertionSort Alert.before
    (freshAmong policy now (kv.answer Query.alerts store))
  have hpairs := List.pairwise_insertionSort Alert.before
    (freshAmong policy now (kv.answer Query.alerts store))
  have hcnt := @List.length_insertionSort Alert Alert.before _
    (freshAmong policy now (kv.answer Query.alerts store))
  have hbat : (nextAlerts policy now).writes kv store =
        (outlivedAmong policy now (kv.answer Query.alerts store)).map
          (fun alert => .putAlert alert.discarded) ++
        ((((freshAmong policy now (kv.answer Query.alerts store)).insertionSort Alert.before).take
            (max policy.alerts.batchMax 1)).map (fun alert => .putAlert alert.delivered) ++
          [.putAlertLast now]) ∧
      (nextAlerts policy now).result kv store =
        some ⟨(((freshAmong policy now (kv.answer Query.alerts store)).insertionSort
            Alert.before).take (max policy.alerts.batchMax 1)).map Alert.delivered,
          (freshAmong policy now (kv.answer Query.alerts store)).length -
            max policy.alerts.batchMax 1,
          (outlivedAmong policy now (kv.answer Query.alerts store)).length⟩ := by
    rw [nextAlerts, query_bind, writes_ask, result_ask, if_neg hblk, query_bind, writes_ask,
      result_ask, writes_bind, result_bind, hwrs, hres, if_neg hsome, writes_bind,
      result_bind]
    obtain ⟨hsent, hitems⟩ := sendAlerts_goes
      (((freshAmong policy now (kv.answer Query.alerts store)).insertionSort Alert.before).take
        (max policy.alerts.batchMax 1)) [] (final kv
          ((kv.answer Query.alerts store).foldlM (sortAlert policy now) ([], 0)) store)
    rw [hsent, hitems]
    exact ⟨rfl, rfl⟩
  generalize (freshAmong policy now (kv.answer Query.alerts store)).insertionSort
    Alert.before = sorted at hsrt hpairs hcnt hbat
  obtain ⟨hbat, hret⟩ := hbat
  refine ⟨outlivedAmong policy now (kv.answer Query.alerts store),
    sorted.take (max policy.alerts.batchMax 1), sorted.drop (max policy.alerts.batchMax 1), ?_,
    ⟨[.putAlertLast now], ?_, ?_⟩, ?_, List.length_take_le _ _, ?_⟩
  · apply List.Perm.trans _ hspl
    rw [List.append_assoc]
    apply (List.perm_append_comm_assoc _ _ _).trans
    rw [List.take_append_drop]
    exact List.Perm.append_left _ hsrt
  · intro write hwr
    exact List.mem_singleton.mp hwr
  · rw [hbat, List.map_append, List.map_map, List.map_map, List.append_assoc]
    rfl
  · rw [List.length_drop, hcnt]
    refine .inr ⟨hret, ?_, hblk⟩
    rw [final, hbat, ← List.append_assoc, Machine.applyAll_append]
    rfl
  · intro _
    rwa [List.take_append_drop]

end Batches

section Runs

variable {policy : Policy}

def writtenAs (state : AlertState) (writes : List Write) : List Alert :=
  writes.filterMap fun
    | .putAlert alert => if alert.state = state then some alert else none
    | _ => none

/-- A call of `next_alerts`: what it returned, what it wrote off and what still waits. -/
structure AlertCall where
  now : Millis
  batch : Option AlertBatch
  dropped : List Alert
  left : List Alert

def AlertCall.items (call : AlertCall) : List Alert := (call.batch.map AlertBatch.items).getD []

structure AlertLog where
  store : Store
  recorded : List Alert
  calls : List AlertCall

def alertCall (policy : Policy) (now : Millis) (store : Store) : AlertCall where
  now := now
  batch := (nextAlerts policy now).result kv store
  dropped := writtenAs .dropped ((nextAlerts policy now).writes kv store)
  left := pending ((nextAlerts policy now).final kv store)

def Op.alertCalls (policy : Policy) (store : Store) : Op → List AlertCall
  | .nextAlerts now => [alertCall policy now store]
  | _ => []

def AlertLog.after (policy : Policy) (log : AlertLog) (op : Op) : AlertLog where
  store := (op.program policy).final kv log.store
  recorded := log.recorded ++ writtenAs .ready ((op.program policy).writes kv log.store)
  calls := log.calls ++ op.alertCalls policy log.store

def alertLog (policy : Policy) (ops : List Op) : AlertLog :=
  ops.foldl (AlertLog.after policy) ⟨Store.empty, [], []⟩

namespace AlertLog

def items (log : AlertLog) : List Alert := log.calls.flatMap AlertCall.items

/-- What all calls wrote off, in order. -/
def dropped (log : AlertLog) : List Alert := log.calls.flatMap AlertCall.dropped

def times (log : AlertLog) : List Millis :=
  (log.calls.filter (fun call => call.batch.isSome)).map AlertCall.now

end AlertLog

/-- Strictly before, in the order alerts are sent in. -/
def Alert.sooner (left right : Alert) : Prop :=
  left.atMs < right.atMs ∨ left.atMs = right.atMs ∧ left.seq < right.seq

structure Accounted (policy : Policy) (log : AlertLog) : Prop where
  once : ((log.items ++ log.dropped).map Alert.recorded ++ pending log.store).Perm log.recorded
  keys : (log.recorded.map Alert.key).Nodup
  counted : ∀ call ∈ log.calls, ∀ batch, call.batch = some batch →
    batch.dropped = call.dropped.length
  few : ∀ call ∈ log.calls, call.items.length ≤ max policy.alerts.batchMax 1
  order : ∀ call ∈ log.calls, call.items.Pairwise Alert.before ∧
    ∀ item ∈ call.items, ∀ alert ∈ call.left, item.before alert
  apart : log.times.IsChain (fun last now => last + policy.alerts.minGapMs ≤ now ∨ last ≤ i64Min)
  inOrder : log.recorded.Pairwise Alert.sooner → (log.items.map Alert.recorded).Sublist log.recorded

structure Tracked (settled recorded : List Alert) (store : Store) : Prop where
  keyed : Keyed store
  known : ∀ alert ∈ recorded, store.alerts[alert.key]? ≠ none
  keys : (recorded.map Alert.key).Nodup
  once : (settled.map Alert.recorded ++ pending store).Perm recorded

section Tracking

variable {settled recorded : List Alert} {store : Store}

theorem writtenAs_append (state : AlertState) (first second : List Write) :
    writtenAs state (first ++ second) = writtenAs state first ++ writtenAs state second :=
  filterMap_append

theorem writtenAs_silent (state : AlertState) (hsil : write.Silent) :
    writtenAs state [write] = [] := by
  cases write with
  | putAlert => exact hsil.elim
  | _ => rfl

variable (htrk : Tracked settled recorded store)
include htrk

theorem Tracked.silent (hsil : write.Silent) : Tracked settled recorded (kv.apply write store) where
  keyed := htrk.keyed.apply write
  known := by
    intro alert halert
    rw [alerts_apply]
    split
    · exact hsil.elim
    · exact htrk.known alert halert
  keys := htrk.keys
  once := by
    rw [pending_silent hsil]
    exact htrk.once

theorem Tracked.file {alert : Alert}
    (hrdy : alert.state = .ready) (hnew : store.alerts[alert.key]? = none) :
    Tracked settled (recorded ++ [alert])
      (kv.applyAll [.putCounter .alertSeq (saturatingAddU64 alert.seq 1), .putAlert alert]
        store) where
  keyed := htrk.keyed.applyAll _
  known := by
    intro other hother
    rw [Machine.applyAll_cons, Machine.applyAll_cons, Machine.applyAll_nil, alerts_apply,
      alerts_apply]
    dsimp only
    split
    · nofun
    rename_i hkey
    rcases mem_append.mp hother with hold | hsame
    · exact htrk.known other hold
    · exact absurd (congrArg Alert.key (mem_singleton.mp hsame)).symm hkey
  keys := by
    rw [map_append, map_singleton, nodup_append_comm, singleton_append, nodup_cons]
    refine ⟨?_, htrk.keys⟩
    intro hkey
    obtain ⟨other, hother, hsame⟩ := List.mem_map.mp hkey
    exact htrk.known other hother (hsame ▸ hnew)
  once := by
    apply (List.Perm.append_left _ (pending_file htrk.keyed hrdy hnew)).trans
    rw [← append_assoc]
    exact htrk.once.append_right _

theorem Tracked.files {writes : List Write} (hfs : Chain kv Filing store writes) :
    Tracked settled (recorded ++ writtenAs .ready writes) (kv.applyAll writes store) ∧
      (kv.applyAll writes store).alertLast = store.alertLast := by
  induction hfs generalizing recorded with
  | nil store => exact ⟨by rwa [writtenAs, filterMap_nil, append_nil], rfl⟩
  | block writes rest hfil _ ih =>
    rw [writtenAs_append, ← append_assoc, Machine.applyAll_append]
    cases hfil with
    | silent write hsil =>
      rw [writtenAs_silent _ hsil, append_nil]
      obtain ⟨hrest, hlast⟩ := ih (htrk.silent hsil)
      exact ⟨hrest, hlast.trans (alertLast_silent hsil _)⟩
    | file alert hrdy hnew hseq =>
      have hfiled : writtenAs .ready
          [.putCounter .alertSeq (saturatingAddU64 alert.seq 1), .putAlert alert] = [alert] := by
        simp [writtenAs, hrdy]
      rw [hfiled]
      exact ih (htrk.file hrdy hnew)

omit htrk

theorem writtenAs_putAlerts {state : AlertState} {changes : List Alert}
    (hst : ∀ changed ∈ changes, changed.state = state) (other : AlertState) :
    writtenAs other (changes.map .putAlert) = if state = other then changes else [] := by
  induction changes with
  | nil => exact (ite_self _).symm
  | cons changed changes ih =>
    rw [forall_mem_cons] at hst
    have hrest := ih hst.2
    rw [writtenAs] at hrest ⊢
    rw [map_cons, filterMap_cons, hrest]
    dsimp only
    rw [hst.1]
    by_cases hsame : state = other
    · rw [if_pos hsame, if_pos hsame, if_pos hsame]
    · rw [if_neg hsame, if_neg hsame, if_neg hsame]

theorem alerts_putAlerts_ne_none {changes : List Alert} {key : AlertKey}
    (hfnd : store.alerts[key]? ≠ none) :
    (kv.applyAll (changes.map .putAlert) store).alerts[key]? ≠ none := by
  induction changes generalizing store with
  | nil => exact hfnd
  | cons changed changes ih =>
    apply ih
    rw [alerts_apply]
    dsimp only
    split
    · nofun
    · exact hfnd

theorem applyAll_closing {now : Millis} {closing : List Write}
    (hclo : ∀ write ∈ closing, write = .putAlertLast now) (store : Store) :
    (kv.applyAll closing store).alerts = store.alerts := by
  induction closing generalizing store with
  | nil => rfl
  | cons write closing ih =>
    rw [forall_mem_cons] at hclo
    rw [Machine.applyAll_cons, ih hclo.2, hclo.1]
    rfl

theorem writtenAs_closing {now : Millis} {closing : List Write}
    (hclo : ∀ write ∈ closing, write = .putAlertLast now) (state : AlertState) :
    writtenAs state closing = [] := by
  induction closing with
  | nil => rfl
  | cons write closing ih =>
    rw [forall_mem_cons] at hclo
    rw [hclo.1]
    exact ih hclo.2

variable {now : Millis} {old items rest : List Alert}
variable (hcld : Called policy now store old items rest)
include hcld

theorem Called.dropped :
    writtenAs .dropped ((nextAlerts policy now).writes kv store) = old.map Alert.discarded := by
  obtain ⟨closing, hclo, hwrs⟩ := hcld.writes
  rw [hwrs, map_append, writtenAs_append, writtenAs_append, writtenAs_closing hclo,
    @writtenAs_putAlerts .dropped _ (List.forall_mem_map.mpr fun _ _ => rfl),
    @writtenAs_putAlerts .sent _ (List.forall_mem_map.mpr fun _ _ => rfl)]
  simp

theorem Called.records_nothing :
    writtenAs .ready ((nextAlerts policy now).writes kv store) = [] := by
  obtain ⟨closing, hclo, hwrs⟩ := hcld.writes
  rw [hwrs, map_append, writtenAs_append, writtenAs_append, writtenAs_closing hclo,
    @writtenAs_putAlerts .dropped _ (List.forall_mem_map.mpr fun _ _ => rfl),
    @writtenAs_putAlerts .sent _ (List.forall_mem_map.mpr fun _ _ => rfl)]
  rfl

theorem Called.pending (hkeyed : Keyed store) :
    (Queue.pending ((nextAlerts policy now).final kv store)).Perm rest := by
  obtain ⟨closing, hclo, hwrs⟩ := hcld.writes
  have hsetd : ∀ changed ∈ old.map Alert.discarded ++ items.map Alert.delivered,
      changed.state ≠ .ready := by
    intro changed hchan
    rcases List.mem_append.mp hchan with hold | hitem
    · obtain ⟨alert, _, rfl⟩ := List.mem_map.mp hold
      nofun
    · obtain ⟨alert, _, rfl⟩ := List.mem_map.mp hitem
      nofun
  have hkeys : (old.map Alert.discarded ++ items.map Alert.delivered).map Alert.key =
      (old ++ items).map Alert.key := by
    rw [List.map_append, List.map_append, List.map_map, List.map_map]
    rfl
  have hpnd : Queue.pending ((nextAlerts policy now).final kv store) =
      Queue.pending (kv.applyAll
        ((old.map Alert.discarded ++ items.map Alert.delivered).map .putAlert) store) := by
    rw [final, hwrs, Machine.applyAll_append]
    change List.filter _ (List.map Prod.snd (kv.applyAll closing _).alerts.toList) = _
    rw [applyAll_closing hclo]
    rfl
  have hndp := hcld.waiting.nodup_iff.mpr (pending_nodup hkeyed)
  rw [List.nodup_append'] at hndp
  rw [hpnd, List.perm_ext_iff_of_nodup (pending_nodup (hkeyed.applyAll _)) hndp.2.1]
  intro alert
  rw [mem_pending_putAlerts hkeyed hsetd, hkeys, ← hcld.waiting.mem_iff, List.mem_append]
  constructor
  · rintro ⟨hsettledOrRest, hother⟩
    apply hsettledOrRest.resolve_left
    intro hgone
    apply hother
    apply List.mem_map_of_mem
    exact List.mem_append.mpr (List.mem_append.mp hgone).symm
  intro hrest
  refine ⟨.inr hrest, ?_⟩
  intro hkey
  obtain ⟨other, hother, hsame⟩ := List.mem_map.mp hkey
  have hgone : other ∈ items ++ old := List.mem_append.mpr (List.mem_append.mp hother).symm
  have hwts : alert ∈ Queue.pending store := hcld.waiting.subset (List.mem_append_right _ hrest)
  have hwait : other ∈ Queue.pending store := hcld.waiting.subset (List.mem_append_left _ hgone)
  rw [eq_of_pending hkeyed hwait hwts hsame] at hgone
  exact hndp.2.2 hgone hrest

omit hcld in
theorem Tracked.called (htrk : Tracked settled recorded store)
    (hcld : Called policy now store old items rest) :
    Tracked (settled ++ (items.map Alert.delivered ++ old.map Alert.discarded)) recorded
      ((nextAlerts policy now).final kv store) where
  keyed := htrk.keyed.applyAll _
  known := by
    intro alert halert
    obtain ⟨closing, hclo, hwrs⟩ := hcld.writes
    rw [final, hwrs, Machine.applyAll_append, applyAll_closing hclo]
    exact alerts_putAlerts_ne_none (htrk.known alert halert)
  keys := htrk.keys
  once := by
    have hrdy : ∀ alert ∈ items ++ old, alert.recorded = alert := by
      intro alert halert
      have hwts := hcld.waiting.subset (List.mem_append_left rest halert)
      rw [mem_pending htrk.keyed] at hwts
      rw [Alert.recorded, ← hwts.2]
    have hback : (items.map Alert.delivered ++ old.map Alert.discarded).map Alert.recorded =
        items ++ old := by
      rw [List.map_append, List.map_map, List.map_map]
      change items.map Alert.recorded ++ old.map Alert.recorded = _
      rw [← List.map_append]
      exact (List.map_congr_left hrdy).trans (List.map_id _)
    rw [List.map_append, hback, List.append_assoc]
    apply List.Perm.trans _ htrk.once
    apply List.Perm.append_left
    exact (List.Perm.append_left _ (hcld.pending htrk.keyed)).trans hcld.waiting

omit hcld in
theorem Tracked.congr {others : List Alert} (htrk : Tracked settled recorded store)
    (hsame : settled.Perm others) : Tracked others recorded store :=
  { htrk with once := ((hsame.map _).symm.append_right _).trans htrk.once }

theorem Called.items_call : (alertCall policy now store).items = items.map Alert.delivered := by
  rw [AlertCall.items, alertCall]
  rcases hcld.result with ⟨hnone, hemp, _⟩ | ⟨hsome, _⟩
  · rw [hnone, hemp]
    rfl
  · rw [hsome]
    rfl

theorem Called.counted_call
    (batch : AlertBatch) (hbat : (alertCall policy now store).batch = some batch) :
    batch.dropped = (alertCall policy now store).dropped.length := by
  rw [alertCall] at hbat ⊢
  rw [hcld.dropped, length_map]
  rcases hcld.result with ⟨hnone, _⟩ | ⟨hsome, _⟩
  · rw [hnone] at hbat
    cases hbat
  · rw [hsome] at hbat
    cases hbat
    rfl

theorem Called.order_call (hkeyed : Keyed store) :
    (alertCall policy now store).items.Pairwise Alert.before ∧
      ∀ item ∈ (alertCall policy now store).items, ∀ alert ∈ (alertCall policy now store).left,
        item.before alert := by
  rw [hcld.items_call, pairwise_map]
  by_cases hemp : items = []
  · rw [hemp]
    exact ⟨List.Pairwise.nil, by nofun⟩
  obtain ⟨hitems, _, hrest⟩ := pairwise_append.mp (hcld.order hemp)
  refine ⟨hitems, ?_⟩
  intro item hitem alert halert
  obtain ⟨sent, hsent, rfl⟩ := List.mem_map.mp hitem
  exact hrest sent hsent alert ((hcld.pending hkeyed).subset halert)

omit hcld

theorem apart_of_open {last now gap : Millis} (hopen : ¬ saturatingSub now gap < last) :
    last + gap ≤ now ∨ last ≤ i64Min := by
  rw [saturatingSub, clampI64] at hopen
  have hle := Int.not_lt.mp hopen
  rcases Int.le_total i64Min (min i64Max (now - gap)) with hlow | hlow
  · rw [max_eq_right hlow] at hle
    have hdiff : last ≤ now - gap := hle.trans (min_le_right _ _)
    exact .inl (Int.add_le_of_le_sub_right hdiff)
  · rw [max_eq_left hlow] at hle
    exact .inr hle

end Tracking

section Order

variable {recorded : List Alert}

theorem Alert.before.not_sooner {left right : Alert} (hbef : left.before right) :
    ¬ right.sooner left := by
  rintro (hlt | ⟨hsame, hlt⟩)
  · rcases hbef with hother | ⟨hother, _⟩
    · exact Int.lt_asymm hlt hother
    · exact Int.lt_irrefl _ (hother ▸ hlt)
  · rcases hbef with hother | ⟨_, hother⟩
    · exact Int.lt_irrefl _ (hsame ▸ hother)
    · exact absurd hlt (Nat.not_lt.mpr hother)

theorem sooner_of_before (hrecd : recorded.Pairwise Alert.sooner) {left right : Alert}
    (hleft : left ∈ recorded) (hrt : right ∈ recorded) (hne : left ≠ right)
    (hbef : left.before right) : left.sooner right := by
  have heit : recorded.Pairwise
      (fun one other => one.sooner other ∨ other.sooner one) := hrecd.imp .inl
  have hsym : Std.Symm (fun one other : Alert => one.sooner other ∨ other.sooner one) :=
    ⟨fun _ _ => Or.symm⟩
  exact (heit.forall hleft hrt hne).resolve_right hbef.not_sooner

theorem Called.strict {now : Millis} {store : Store} {old items rest : List Alert}
    (hcld : Called policy now store old items rest) (hkeyed : Keyed store)
    (hrecd : recorded.Pairwise Alert.sooner)
    (hknw : ∀ alert ∈ Queue.pending store, alert ∈ recorded) :
    items.Pairwise Alert.sooner ∧ ∀ item ∈ items, ∀ alert ∈ rest, item.sooner alert := by
  by_cases hemp : items = []
  · rw [hemp]
    exact ⟨List.Pairwise.nil, by nofun⟩
  have hndp : (items ++ rest).Nodup := by
    have hall := hcld.waiting.nodup_iff.mpr (pending_nodup hkeyed)
    rw [append_assoc] at hall
    exact List.Nodup.sublist ((sublist_append_right _ _).append_left items) hall
  have hmem : ∀ alert ∈ items ++ rest, alert ∈ recorded := by
    intro alert halert
    apply hknw
    apply hcld.waiting.subset
    rw [append_assoc, mem_append, mem_append]
    exact (mem_append.mp halert).imp_right .inr
  have hstr : (items ++ rest).Pairwise Alert.sooner := by
    apply List.Pairwise.imp_of_mem _ ((hcld.order hemp).and hndp)
    intro left right hleft hrt hboth
    exact sooner_of_before hrecd (hmem left hleft) (hmem right hrt) hboth.2 hboth.1
  obtain ⟨hitems, _, hahead⟩ := pairwise_append.mp hstr
  exact ⟨hitems, hahead⟩

instance : Std.Antisymm Alert.sooner where
  antisymm left right hforth hback := by
    rcases hforth with hlt | ⟨hsame, hlt⟩
    · rcases hback with hother | ⟨hother, _⟩
      · exact absurd hlt (Int.lt_asymm hother)
      · exact absurd (hother ▸ hlt) (Int.lt_irrefl _)
    · rcases hback with hother | ⟨_, hother⟩
      · exact absurd (hsame ▸ hother) (Int.lt_irrefl _)
      · exact absurd hlt (Nat.lt_asymm hother)

end Order

/-- The account of a run with what the next step relies on. -/
structure Tallied (policy : Policy) (log : AlertLog) : Prop where
  tracked : Tracked (log.items ++ log.dropped) log.recorded log.store
  last : log.store.alertLast = log.times.getLast?
  counted : ∀ call ∈ log.calls, ∀ batch, call.batch = some batch →
    batch.dropped = call.dropped.length
  few : ∀ call ∈ log.calls, call.items.length ≤ max policy.alerts.batchMax 1
  order : ∀ call ∈ log.calls, call.items.Pairwise Alert.before ∧
    ∀ item ∈ call.items, ∀ alert ∈ call.left, item.before alert
  apart : log.times.IsChain (fun last now => last + policy.alerts.minGapMs ≤ now ∨ last ≤ i64Min)
  inOrder : log.recorded.Pairwise Alert.sooner →
    (log.items.map Alert.recorded).Pairwise Alert.sooner ∧
      ∀ item ∈ log.items, ∀ alert ∈ pending log.store, item.sooner alert

theorem tallied_empty (policy : Policy) : Tallied policy ⟨Store.empty, [], []⟩ where
  tracked := ⟨by nofun, by nofun, nodup_nil, .refl _⟩
  last := rfl
  counted := by nofun
  few := by nofun
  order := by nofun
  apart := isChain_nil
  inOrder _ := ⟨List.Pairwise.nil, by nofun⟩

variable {log : AlertLog} (htal : Tallied policy log)
include htal

theorem Tallied.files {op : Op}
    (hother : ∀ now, op ≠ .nextAlerts now) : Tallied policy (log.after policy op) := by
  obtain ⟨htrk, hlast⟩ := htal.tracked.files (Op.files policy hother log.store)
  have hcalls : (log.after policy op).calls = log.calls := by
    cases op with
    | nextAlerts now => exact absurd rfl (hother now)
    | _ => exact append_nil _
  have hitems : (log.after policy op).items = log.items := congrArg (flatMap _) hcalls
  have hdrp : (log.after policy op).dropped = log.dropped := congrArg (flatMap _) hcalls
  have htimes : (log.after policy op).times = log.times := by
    rw [AlertLog.times, hcalls]
    rfl
  refine ⟨?_, ?_, ?_, ?_, ?_, ?_, ?_⟩
  · rw [hitems, hdrp]
    exact htrk
  · rw [htimes, ← htal.last]
    exact hlast
  · rw [hcalls]
    exact htal.counted
  · rw [hcalls]
    exact htal.few
  · rw [hcalls]
    exact htal.order
  · rw [htimes]
    exact htal.apart
  rw [hitems]
  intro hsrt
  have hboth := pairwise_append.mp hsrt
  obtain ⟨hsent, hsoon⟩ := htal.inOrder hboth.1
  refine ⟨hsent, ?_⟩
  intro item hitem alert halert
  have hitemRecorded : item.recorded ∈ log.recorded := by
    apply htal.tracked.once.subset
    apply mem_append_left
    rw [map_append]
    exact mem_append_left _ (List.mem_map_of_mem hitem)
  rcases mem_append.mp (htrk.once.subset (mem_append_right _ halert)) with
    hold | hnew
  · -- an alert recorded earlier waits now only if it waited before
    rcases mem_append.mp (htal.tracked.once.mem_iff.mpr hold) with hsetd | hwait
    · have hndp := htrk.once.nodup_iff.mpr (List.Nodup.of_map _ htrk.keys)
      exact absurd halert ((nodup_append'.mp hndp).2.2 hsetd)
    · exact hsoon item hitem alert hwait
  · exact hboth.2.2 _ hitemRecorded alert hnew

theorem Tallied.called (now : Millis) : Tallied policy (log.after policy (.nextAlerts now)) := by
  obtain ⟨old, items, rest, hcld⟩ := nextAlerts_called policy now log.store
  have htrk := htal.tracked.called hcld
  have hpnd := hcld.pending htal.tracked.keyed
  have hwrs : (Op.program policy (.nextAlerts now)).writes kv log.store =
      (nextAlerts policy now).writes kv log.store := discard_writes _ _
  have hstr : (log.after policy (.nextAlerts now)).store =
      (nextAlerts policy now).final kv log.store := discard_final _ _
  have hrecd : (log.after policy (.nextAlerts now)).recorded = log.recorded := by
    change log.recorded ++ writtenAs .ready _ = _
    rw [hwrs, hcld.records_nothing, append_nil]
  have hcalls : (log.after policy (.nextAlerts now)).calls =
      log.calls ++ [alertCall policy now log.store] := rfl
  have hitems : (log.after policy (.nextAlerts now)).items =
      log.items ++ items.map Alert.delivered := by
    rw [AlertLog.items, hcalls, flatMap_append, flatMap_singleton, hcld.items_call]
    rfl
  have hdrp : (log.after policy (.nextAlerts now)).dropped =
      log.dropped ++ old.map Alert.discarded := by
    rw [AlertLog.dropped, hcalls, flatMap_append, flatMap_singleton, alertCall, hcld.dropped]
    rfl
  have hnew : ∀ {holds : AlertCall → Prop}, (∀ earlier ∈ log.calls, holds earlier) →
      holds (alertCall policy now log.store) →
      ∀ made ∈ (log.after policy (.nextAlerts now)).calls, holds made := by
    intro holds hearlier hhld made hmade
    rw [hcalls, mem_append, mem_singleton] at hmade
    rcases hmade with hmade | rfl
    · exact hearlier made hmade
    · exact hhld
  have htimes : (log.after policy (.nextAlerts now)).times =
      log.times ++ ((alertCall policy now log.store).batch.map fun _ => now).toList := by
    rw [AlertLog.times, hcalls, filter_append, map_append, AlertLog.times]
    congr 1
    cases hbat : (alertCall policy now log.store).batch with
    | none =>
      rw [filter_cons_of_neg (by rw [hbat]; decide)]
      rfl
    | some batch =>
      rw [filter_cons_of_pos (by rw [hbat]; rfl)]
      rfl
  refine ⟨?_, ?_, hnew htal.counted hcld.counted_call, ?_,
    hnew htal.order (hcld.order_call htal.tracked.keyed), ?_, ?_⟩
  · rw [hitems, hdrp, hrecd, hstr]
    apply htrk.congr
    rw [append_assoc, append_assoc]
    exact List.Perm.append_left _ (perm_append_comm_assoc _ _ _)
  · rw [hstr, htimes]
    rcases hcld.result with ⟨hnone, _, hlast⟩ | ⟨hsome, hlast, _⟩
    · rw [hlast, htal.last, alertCall, hnone]
      exact congrArg getLast? (append_nil _).symm
    · rw [hlast, alertCall, hsome]
      exact getLast?_concat.symm
  · apply hnew htal.few
    rw [hcld.items_call, length_map]
    exact hcld.few
  · rw [htimes]
    rcases hcld.result with ⟨hnone, _⟩ | ⟨hsome, _, hopen⟩
    · rw [alertCall, hnone]
      change (log.times ++ []).IsChain _
      rw [append_nil]
      exact htal.apart
    rw [alertCall, hsome]
    apply htal.apart.append (isChain_singleton now)
    intro last hlast next hnext
    cases hnext
    rw [← htal.last] at hlast
    rw [hlast] at hopen
    exact apart_of_open (by simpa using hopen)
  rw [hrecd, hitems, hstr]
  intro hsrt
  obtain ⟨hsent, hsoon⟩ := htal.inOrder hsrt
  have hknw : ∀ alert ∈ pending log.store, alert ∈ log.recorded :=
    fun alert halert => htal.tracked.once.subset (mem_append_right _ halert)
  have hrest : ∀ alert ∈ rest, alert ∈ pending log.store :=
    fun alert halert => hcld.waiting.subset (mem_append_right _ halert)
  have hhan : ∀ alert ∈ items, alert ∈ pending log.store := fun alert halert =>
    hcld.waiting.subset (mem_append_left _ (mem_append_left _ halert))
  obtain ⟨hnew, hahead⟩ := hcld.strict htal.tracked.keyed hsrt hknw
  constructor
  · rw [map_append, pairwise_append]
    refine ⟨hsent, ?_, ?_⟩
    · rw [pairwise_map, pairwise_map]
      exact hnew
    intro item hitem other hother
    obtain ⟨earlier, hearlier, rfl⟩ := List.mem_map.mp hitem
    obtain ⟨_, hdel, rfl⟩ := List.mem_map.mp hother
    obtain ⟨alert, halert, rfl⟩ := List.mem_map.mp hdel
    exact hsoon earlier hearlier alert (hhan alert halert)
  intro item hitem alert halert
  have hleft := hpnd.subset halert
  rcases mem_append.mp hitem with hold | hsentNow
  · exact hsoon item hold alert (hrest alert hleft)
  · obtain ⟨handed, hhere, rfl⟩ := List.mem_map.mp hsentNow
    exact hahead handed hhere alert hleft

theorem Tallied.after (op : Op) : Tallied policy (log.after policy op) := by
  by_cases hcalls : ∃ now, op = .nextAlerts now
  · obtain ⟨now, rfl⟩ := hcalls
    exact htal.called now
  · rw [not_exists] at hcalls
    exact htal.files hcalls

omit htal

theorem tallied_run (policy : Policy) (ops : List Op) : Tallied policy (alertLog policy ops) := by
  induction ops using reverseRecOn with
  | nil => exact tallied_empty policy
  | append_singleton ops op ih =>
    rw [alertLog, foldl_append]
    exact ih.after op

/-- In every run each recorded alert waits, is an item of one batch or was written off by one
call, and the batches are bounded, spaced and in order. -/
theorem alerts_accounted (policy : Policy) (ops : List Op) :
    Accounted policy (alertLog policy ops) := by
  obtain ⟨htracked, _, hcounted, hfew, horder, hapart, hinOrder⟩ := tallied_run policy ops
  refine ⟨htracked.once, htracked.keys, hcounted, hfew, horder, hapart, ?_⟩
  intro hsorted
  apply sublist_of_subperm_of_pairwise _ (hinOrder hsorted).1 hsorted
  have hpart : (((alertLog policy ops).items).map Alert.recorded).Sublist
      (((alertLog policy ops).items ++ (alertLog policy ops).dropped).map Alert.recorded ++
        pending (alertLog policy ops).store) := by
    rw [map_append, append_assoc]
    exact sublist_append_left _ _
  exact hpart.subperm.trans htracked.once.subperm

def expiring (now : Millis) : List Op :=
  [.enqueue now { EnqueueRequest.new "stt" [] with freshForMs := some 1 }, .expireStale (now + 1)]

def emptyBatches : Policy :=
  { Policy.default with alerts := { Policy.default.alerts with batchMax := 0 } }

/-- A lone alert that is too old is in no batch and in no count; a clock that went back puts the
later alert first; a batch of at most none holds one; at the least instant two batches are
returned at once. -/
theorem lone_old_alert_uncounted :
    (pending (alertLog Policy.default (expiring 0 ++ [.nextAlerts 21600002])).store = [] ∧
      (alertLog Policy.default (expiring 0 ++ [.nextAlerts 21600002])).recorded.length = 1 ∧
      (alertLog Policy.default (expiring 0 ++ [.nextAlerts 21600002])).calls.filterMap
        AlertCall.batch = []) ∧
    (alertLog Policy.default (expiring 100 ++ expiring 0 ++ [.nextAlerts 200])).items.map
      Alert.seq = [2, 1] ∧
    (alertLog emptyBatches (expiring 0 ++ [.nextAlerts 1])).items.length = 1 ∧
    (alertLog Policy.default
      (expiring i64Min ++ [.nextAlerts i64Min] ++ expiring i64Min ++ [.nextAlerts i64Min])).times =
        [i64Min, i64Min] := by
  refine ⟨⟨?_, ?_, ?_⟩, ?_, ?_, ?_⟩
  · decide +kernel
  · decide +kernel
  · decide +kernel
  · decide +kernel
  · decide +kernel
  · decide +kernel

end Runs

end WasmAgent.Queue
