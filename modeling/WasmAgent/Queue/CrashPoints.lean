import WasmAgent.Queue.Runs

/-!
# Where an operation may stop

Every live record is in the index, at every stop of an operation that does not
fall between two writes about one job while its stored record is live.
-/

namespace WasmAgent.Queue

open List WasmAgent.Core WasmAgent.Core.Program

variable {policy : Policy} {store : Store} {writes : List Write}

def Together (last next : Write) (store : Store) : Prop :=
  ∃ id job, last.about = some id ∧ next.about = some id ∧ store.jobs[id]? = some job ∧ job.Live

theorem Job.live_of_ownKey {job : Job} {key : IndexKey} (hown : job.ownKey = some key) :
    job.Live := by
  by_contra hlive
  have hterm : job.state.isTerminal := by
    cases hst : job.state with
    | ready => exact absurd (.inl hst) hlive
    | leased => exact absurd (.inr hst) hlive
    | done | dead | expired => rfl
  rw [ownKey_of_terminal hterm] at hown
  cases hown

theorem hasKeys_of_same {before after : Store} (hjobs : after.jobs = before.jobs)
    (hidx : after.index = before.index) (hkeys : HasKeys before) : HasKeys after := by
  intro key hask
  rw [Asked, hjobs] at hask
  rw [hidx]
  exact hkeys key hask

theorem hasKeys_of_dead {id : JobId} {before after : Store}
    (hsame : SameElsewhere id before after) (hkeys : HasKeys before)
    (hdead : ∀ job, after.jobs[id]? = some job → ¬ job.Live) : HasKeys after := by
  intro key hask
  by_cases hid : key.id = id
  · obtain ⟨job, hjob, hown⟩ := hask
    rw [hid] at hjob
    exact absurd (Job.live_of_ownKey hown) (hdead job hjob)
  · rw [hsame.index key hid]
    exact hkeys key ((asked_iff_of_same hsame hid).mp hask)

def Blocky (id : JobId) (writes : List Write) : Prop :=
  ∃ pre body, writes = pre ++ body ∧ (∀ change ∈ pre, change.about = none) ∧
    ∀ change ∈ body, change.about = some id

theorem Blocky.sameElsewhere {id : JobId} (hbloc : Blocky id writes) (count : ℕ)
    (store : Store) : SameElsewhere id store (kv.applyAll (writes.take count) store) := by
  obtain ⟨pre, body, rfl, hpre, hbody⟩ := hbloc
  apply SameElsewhere.writes
  intro change hchg
  rcases mem_append.mp (mem_of_mem_take hchg) with hely | hlate
  · exact .inl (hpre change hely)
  · exact .inr (hbody change hlate)

theorem Blocky.hasKeys_take {id : JobId} (hbloc : Blocky id writes) (hkeys : HasKeys store)
    (hwhole : HasKeys (kv.applyAll writes store)) (count : ℕ) :
    HasKeys (kv.applyAll (writes.take count) store) ∨ Splits kv Together writes count store := by
  have hsame := hbloc.sameElsewhere count store
  obtain ⟨pre, body, rfl, hpre, hbody⟩ := hbloc
  rcases Nat.lt_or_ge pre.length count with hins | hbef
  · by_cases hpast : (pre ++ body).length ≤ count
    · rw [take_of_length_le hpast]
      exact .inl hwhole
    · by_cases hlive : ∃ job, (kv.applyAll ((pre ++ body).take count) store).jobs[id]? = some job ∧
          job.Live
      · right
        obtain ⟨job, hjob, hlive⟩ := hlive
        have hlen : count - pre.length < body.length := by
          rw [length_append] at hpast
          omega
        obtain ⟨done, hdone⟩ : ∃ done, count - pre.length = done + 1 :=
          ⟨count - pre.length - 1, by omega⟩
        have htake : (pre ++ body).take count = pre ++ body.take done ++ [body[done]] := by
          rw [take_append, take_of_length_le (Nat.le_of_lt hins), hdone,
            take_succ_eq_append_getElem (by omega), append_assoc]
        have hdrop : pre ++ body = pre ++ body.take done ++
            body[done] :: body[done + 1] :: body.drop (done + 2) := by
          rw [append_assoc, append_cancel_left_eq]
          conv_lhs => rw [← take_append_drop done body]
          rw [drop_eq_getElem_cons (by omega), drop_eq_getElem_cons (by omega)]
        refine ⟨pre ++ body.take done, body[done], body[done + 1], body.drop (done + 2), hdrop,
          ?_, id, job, hbody _ (getElem_mem _), hbody _ (getElem_mem _), ?_, hlive⟩
        · rw [length_append, length_take_of_le (by omega)]
          omega
        · rwa [← htake]
      · left
        apply hasKeys_of_dead hsame hkeys
        intro job hjob hjobLive
        exact hlive ⟨job, hjob, hjobLive⟩
  left
  have hnone : ∀ change ∈ (pre ++ body).take count, change.about = none := by
    rw [take_append_of_le_length hbef]
    intro change hchg
    exact hpre change (mem_of_mem_take hchg)
  obtain ⟨hjobs, hidx⟩ := same_of_about_none _ hnone store
  exact hasKeys_of_same hjobs hidx hkeys

theorem Move.blocky (hmove : Move policy store writes) : ∃ id, Blocky id writes := by
  cases hmove with
  | aside write haside =>
    refine ⟨0, [write], [], rfl, ?_, ?_⟩
    · intro change hchg
      rw [mem_singleton.mp hchg]
      cases write <;> first | rfl | exact haside.elim
    · intro change hchg
      cases hchg
  | drop key => exact ⟨key.id, [], _, rfl, by simp, by simp [Write.about]⟩
  | append job chunk now =>
    exact ⟨job.id, [_], [_], rfl, by simp [Write.about],
      by simp [Write.about, (job.same_withChunk chunk now).id]⟩
  | extend job instant now =>
    exact ⟨job.id, [], _, rfl, by simp, by simp [Write.about, (job.same_heldUntil instant now).id]⟩
  | lease job key worker now leaseMs _ _ hkey =>
    exact ⟨job.id, [], _, rfl, by simp,
      by simp [Write.about, (job.same_leasedTo worker now leaseMs).id, hkey.id, indexKey]⟩
  | settle job result now =>
    exact ⟨job.id, [], _, rfl, by simp,
      by simp [Write.about, (job.same_settledWith result now).id, indexKey]⟩
  | back job job' key _ _ hkey hret =>
    exact ⟨job.id, [], _, rfl, by simp, by simp [Write.about, hkey.id, hret.same.id, indexKey]⟩
  | endReady job job' _ _ hended =>
    exact ⟨job.id, [], _, rfl, by simp, by simp [Write.about, hended.same.id, indexKey]⟩
  | endLease job job' key _ _ hkey hended =>
    exact ⟨job.id, [], _, rfl, by simp, by simp [Write.about, hkey.id, hended.same.id, indexKey]⟩
  | reap job =>
    exact ⟨job.id, releaseWrites store job, _, rfl, about_releaseWrites,
      by simp [Write.about, indexKey]⟩

theorem Creation.blocky (hcrn : Creation policy store writes) : ∃ id, Blocky id writes := by
  obtain ⟨now, request, -, -, -, -, job, -⟩ := hcrn
  refine ⟨job.id, .putCounter .id _ :: claimWrites job, _, rfl, ?_, ?_⟩
  · intro change hchg
    rcases mem_cons.mp hchg with rfl | hclm
    · rfl
    · exact about_claimWrites change hclm
  · simp [Write.about, indexKey]

theorem Revival.blocky (hrev : Revival policy store writes) : ∃ id, Blocky id writes := by
  obtain ⟨job, now, options, -, -⟩ := hrev
  exact ⟨job.id, [], _, rfl, by simp,
    by simp [Write.about, (job.same_revived policy now options).id, indexKey]⟩

/-- A step that does not stop between two writes about one job while its stored
record is live. -/
def KeepsKeys (policy : Policy) (store : Store) (op : Op) (count : ℕ) : Prop :=
  op = .repair ∨ ¬ Splits kv Together ((op.program policy).writes kv store) count store

theorem Op.hasKeys_stopped (op : Op) (count : ℕ) (hks : KeepsKeys policy store op count)
    (hkeys : HasKeys store) : HasKeys ((op.program policy).stopped kv count store) := by
  by_cases hop : op = .repair
  · subst hop
    unfold stopped Op.program
    rw [discard_writes]
    exact mended_take repair_goes.chain (fun _ _ hcur hmend => hmend.hasKeys hcur) hkeys count
  have hblc : ∀ current block taken, HasKeys current → op.Allowed policy store current block →
      HasKeys (kv.applyAll (block.take taken) current) ∨
        Splits kv Together block taken current := by
    intro current block taken hcur halwd
    cases op with
    | enqueue now request =>
      obtain ⟨id, hbloc⟩ := halwd.2.blocky
      obtain ⟨_, record, hsets⟩ := halwd.2.settles
      exact hbloc.hasKeys_take hcur (hsets.hasKeys hcur) taken
    | requeue now id options =>
      obtain ⟨id, hbloc⟩ := halwd.2.blocky
      obtain ⟨_, record, hsets⟩ := halwd.2.settles
      exact hbloc.hasKeys_take hcur (hsets.hasKeys hcur) taken
    | _ =>
      obtain ⟨id, hbloc⟩ := Move.blocky halwd
      obtain ⟨_, record, hsets⟩ := Move.settles halwd hcur
      exact hbloc.hasKeys_take hcur (hsets.hasKeys hcur) taken
  rcases (op.goes policy store hop).chain.invariant_unless_splits hblc hkeys count with
    hstp | hspl
  · exact hstp
  · exact absurd hspl (hks.resolve_left hop)

end WasmAgent.Queue
