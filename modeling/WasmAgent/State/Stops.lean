import WasmAgent.State.Loading
import WasmAgent.State.Outcomes
import WasmAgent.State.Standing

/-!
# Wherever a migration is stopped

Every write of a migration takes a namespace from where it stands to where it may
stand, so a migration that is stopped leaves it standing; one that ends well leaves
it at rest at the target.
-/

namespace WasmAgent.State

open List Std WasmAgent.Core

section Writes

variable {terms : Terms} {state : Tracked} {version toVersion : UInt32} {pending : PendingStep}
  {changes : List Change} {change : Change} {done : ℕ} {journal : Journal}

theorem Idle.standing (hidle : Idle terms state version) : Standing terms state :=
  ⟨version, .idle hidle⟩

theorem Rests.standing (hrsts : Rests terms state version) : Standing terms state :=
  hrsts.idle.standing

theorem Underway.standing (hund : Underway terms state version pending changes done) :
    Standing terms state :=
  ⟨version, .underway pending changes done hund⟩

theorem Committed.standing (hcomm : Committed terms state version pending changes) :
    Standing terms state :=
  ⟨version, .committed pending changes hcomm⟩

theorem Idle.begin (hidle : Idle terms state version)
    (hlist : state.store.get Key.pending = some (encodeChanges changes))
    (hlsb : Listable changes) (hjrn : journal.pendingStep = some pending)
    (hagrd : Agreed terms pending) (hstas : pending.fromVersion = version)
    (happ : pending.applied = 0)
    (halt : ∀ change ∈ changes, change.Alters state.landed.user)
    (hgood : terms.good pending.toVersion (Core.Change.applyAll changes state.landed.user))
    (hmade : ∀ applied, terms.made { pending with applied := applied } state.landed.user
      (Core.Change.applyAll changes state.landed.user)) :
    Underway terms (tracked.apply (.put Key.journal (terms.crates.printJournal journal)) state)
      version pending changes 0 := by
  have hland : (tracked.apply (.put Key.journal (terms.crates.printJournal journal))
      state).landed = state.landed :=
    landed_put_other (show Key.journal ≠ Key.schemaVersion by decide)
  have hoth : Key.journal ∉ identityKeys := by
    decide
  refine ⟨hidle.lands.frame hoth, ⟨⟨journal, ?_, hjrn⟩, ?_, hlsb⟩, hagrd, hstas,
    Nat.le_of_eq happ, Nat.zero_le _, ?_, ?_, ?_, ?_⟩
  · exact get_put_self _ _
  · rw [get_put_other (show Key.journal ≠ Key.pending by decide), hlist]
  · rw [user_put_reserved (show isReserved Key.journal = true by decide), hland, take_zero]
    exact hidle.user
  · rwa [hland]
  · rwa [hland]
  · rwa [hland]

theorem Underway.make {made index : ℕ}
    (hund : Underway terms state version pending changes (max made index))
    (hidx : index < changes.length) :
    Underway terms (tracked.apply changes[index] state) version pending changes
      (max made (index + 1)) := by
  have hmem : changes[index] ∈ changes := getElem_mem hidx
  have hpln := hund.written.listable.plain _ hmem
  have hoth : changes[index].key ∉ identityKeys := not_mem_identityKeys hpln
  have hland : (tracked.apply changes[index] state).landed = state.landed :=
    tracked_landed_other _ (ne_of_plain hpln (by decide))
  have hins := hund.inside
  refine ⟨hund.lands.frame hoth, hund.written.frame (ne_of_plain hpln (by decide))
    (ne_of_plain hpln (by decide)), hund.agreed, hund.starts, ?_, ?_, ?_, ?_, ?_, ?_⟩
  · exact Nat.le_trans hund.applied (by omega)
  · omega
  · rw [tracked_store, Namespace.user_apply _ hpln, hund.user, hland]
    exact Core.Change.apply_applyAll_take hund.written.listable.nodup hidx made
  · rw [hland]
    exact hund.alters
  · rw [hland]
    exact hund.good
  · rw [hland]
    exact hund.made

theorem Underway.note {applied : ℕ}
    (hund : Underway terms state version pending changes done)
    (hjrn : journal.pendingStep = some { pending with applied := applied })
    (happ : applied ≤ done) :
    Underway terms (tracked.apply (.put Key.journal (terms.crates.printJournal journal)) state)
      version { pending with applied := applied } changes done := by
  have hland : (tracked.apply (.put Key.journal (terms.crates.printJournal journal))
      state).landed = state.landed :=
    landed_put_other (show Key.journal ≠ Key.schemaVersion by decide)
  have hoth : Key.journal ∉ identityKeys := by
    decide
  refine ⟨hund.lands.frame hoth, ⟨⟨journal, ?_, hjrn⟩, ?_,
    hund.written.listable⟩, ⟨hund.agreed.adjacent, hund.agreed.named⟩,
    hund.starts, happ, hund.inside, ?_, ?_, ?_, ?_⟩
  · exact get_put_self _ _
  · rw [get_put_other (show Key.journal ≠ Key.pending by decide), hund.written.list]
  · rw [user_put_reserved (show isReserved Key.journal = true by decide), hland]
    exact hund.user
  · rw [hland]
    exact hund.alters
  · rw [hland]
    exact hund.good
  · rw [hland]
    exact hund.made

theorem Underway.commit (hund : Underway terms state version pending changes changes.length) :
    Committed terms
        (tracked.apply (.put Key.schemaVersion (decimal pending.toVersion.toNat)) state)
        pending.toVersion pending changes ∧
      (tracked.apply (.put Key.schemaVersion (decimal pending.toVersion.toNat))
          state).landed.user =
        Core.Change.applyAll changes state.landed.user := by
  have hland : (tracked.apply (.put Key.schemaVersion (decimal pending.toVersion.toNat))
      state).landed = (tracked.apply (.put Key.schemaVersion (decimal pending.toVersion.toNat))
      state).store := tracked_landed_schema state rfl
  have hnmd : Named (tracked.apply (.put Key.schemaVersion (decimal pending.toVersion.toNat))
      state).store pending.toVersion terms.component := hund.lands.store.commit
  have huser : (tracked.apply (.put Key.schemaVersion (decimal pending.toVersion.toNat))
      state).store.user = Core.Change.applyAll changes state.landed.user := by
    rw [user_put_reserved (show isReserved Key.schemaVersion = true by decide), hund.user,
      take_length]
  refine ⟨⟨⟨hnmd, ?_, ?_⟩, hund.written.frame
    (show Key.schemaVersion ≠ Key.journal by decide)
    (show Key.schemaVersion ≠ Key.pending by decide), hund.agreed, rfl, ?_⟩, ?_⟩
  · rw [hland]
    exact hnmd
  · rw [hland, huser]
    exact hund.good
  · rw [hland]
  · rw [hland, huser]

theorem Rests.commit (hrsts : Rests terms state version)
    (hgood : terms.good toVersion state.landed.user) :
    Rests terms (tracked.apply (.put Key.schemaVersion (decimal toVersion.toNat)) state)
        toVersion ∧
      (tracked.apply (.put Key.schemaVersion (decimal toVersion.toNat)) state).landed.user =
        state.landed.user := by
  have hland : (tracked.apply (.put Key.schemaVersion (decimal toVersion.toNat)) state).landed =
      (tracked.apply (.put Key.schemaVersion (decimal toVersion.toNat)) state).store :=
    tracked_landed_schema state rfl
  have hnmd : Named (tracked.apply (.put Key.schemaVersion (decimal toVersion.toNat))
      state).store toVersion terms.component := hrsts.idle.lands.store.commit
  have huser : (tracked.apply (.put Key.schemaVersion (decimal toVersion.toNat))
      state).store.user = state.landed.user := by
    rw [user_put_reserved (show isReserved Key.schemaVersion = true by decide), hrsts.idle.user]
  refine ⟨⟨⟨⟨hnmd, ?_, ?_⟩, ?_, ?_⟩, ?_⟩, ?_⟩
  · rw [hland]
    exact hnmd
  · rw [hland, huser]
    exact hgood
  · rw [hland]
  · rw [get_put_other (show Key.schemaVersion ≠ Key.journal by decide), hrsts.idle.journal]
  · rw [get_put_other (show Key.schemaVersion ≠ Key.pending by decide), hrsts.pending]
  · rw [hland, huser]

theorem Rests.refresh (hrsts : Rests terms state version)
    (hrfr : Refreshes version terms.component change) :
    Rests terms (tracked.apply change state) version ∧
      (tracked.apply change state).landed.user = state.landed.user := by
  have hnmd : Named (tracked.apply change state).store version terms.component :=
    hrsts.idle.lands.store.refreshed hrfr
  obtain ⟨key, text, rfl, hrsv, hjrn, hpnd, -⟩ := hrfr
  have huser : (tracked.apply (.put key (utf8 text)) state).store.user = state.store.user :=
    user_put_reserved hrsv
  have hland : Named (tracked.apply (.put key (utf8 text)) state).landed version
      terms.component ∧
      (tracked.apply (.put key (utf8 text)) state).landed.user = state.landed.user := by
    by_cases hsch : key = Key.schemaVersion
    · have hnew : (tracked.apply (.put key (utf8 text)) state).landed =
          (tracked.apply (.put key (utf8 text)) state).store := tracked_landed_schema state hsch
      rw [hnew]
      exact ⟨hnmd, huser.trans hrsts.idle.user⟩
    have hold : (tracked.apply (.put key (utf8 text)) state).landed = state.landed :=
      tracked_landed_other state hsch
    rw [hold]
    exact ⟨hrsts.idle.lands.landed, rfl⟩
  refine ⟨⟨⟨⟨hnmd, hland.1, ?_⟩, ?_, ?_⟩, ?_⟩, hland.2⟩
  · rw [hland.2]
    exact hrsts.idle.lands.good
  · rw [huser, hland.2]
    exact hrsts.idle.user
  · rw [get_put_other hjrn, hrsts.idle.journal]
  · rw [get_put_other hpnd, hrsts.pending]

end Writes

section Calls

variable {terms : Terms} {state : Tracked} {version toVersion : UInt32} {pending : PendingStep}
  {changes : List Change} {done : ℕ} {journal : Journal} {now : UInt64}

variable (hund : Underway terms state version pending changes changes.length)
include hund

theorem commit_survives :
    Survives tracked (Standing terms)
      (fun outcome final => outcome = .ok () ∧
        Committed terms final pending.toVersion pending changes ∧
        final.landed.user = Core.Change.applyAll changes state.landed.user)
      (Meta.setSchemaVersion pending.toVersion now) state := by
  obtain ⟨hcomm, hland⟩ := hund.commit
  have hstam : Committed terms (tracked.apply (.put Key.updatedAt (decimal now.toNat)) _)
      pending.toVersion pending changes := hcomm.frame
    (show isReserved Key.updatedAt = true by decide)
    (show Key.updatedAt ∉ identityKeys by decide)
    (show Key.updatedAt ≠ Key.journal by decide) (show Key.updatedAt ≠ Key.pending by decide)
  rw [Meta.setSchemaVersion, Meta.schemaWrites, writeAll, writeAll, writeAll]
  apply Survives.writeBind hund.standing
  apply Survives.writeBind hcomm.standing
  exact Survives.pure hstam.standing ⟨rfl, hstam, hland⟩

omit hund in
theorem clear_survives (hcomm : Committed terms state version pending changes) :
    Survives tracked (Standing terms)
      (fun outcome final => outcome = .ok () ∧ Rests terms final version ∧
        final.landed.user = state.landed.user)
      clearJournal state := by
  have hidle := hcomm.clear
  have hclear : Idle terms (tracked.apply (.del Key.pending) _) version := hidle.frame
    (show isReserved Key.pending = true by decide)
    (show Key.pending ∉ identityKeys by decide) (fun _ => rfl)
  have hnone : (tracked.apply (.del Key.pending)
      (tracked.apply (.del Key.journal) state)).store.get Key.pending = none := by
    rw [tracked_store, Namespace.get_apply]
    exact if_pos rfl
  rw [clearJournal, writeAll, writeAll, writeAll]
  apply Survives.writeBind hcomm.standing
  apply Survives.writeBind hidle.standing
  exact Survives.pure hclear.standing ⟨rfl, ⟨hclear, hnone⟩, rfl⟩

theorem land_survives :
    Survives tracked (Standing terms)
      (fun outcome final => outcome = .ok () ∧ Rests terms final pending.toVersion ∧
        final.landed.user = Core.Change.applyAll changes state.landed.user)
      (do Meta.setSchemaVersion pending.toVersion now; clearJournal : Call Unit) state := by
  apply Survives.tryBind
  apply (commit_survives hund).weaken
  rintro outcome middle ⟨rfl, hcomm, hland⟩
  constructor
  · intro fault hflt
    cases hflt
  intro _ _
  apply (clear_survives hcomm).weaken
  rintro outcome final ⟨rfl, hrsts, hsame⟩
  exact ⟨rfl, hrsts, hsame.trans hland⟩

omit hund

theorem move_survives (hrsts : Rests terms state version)
    (hgood : terms.good toVersion state.landed.user) :
    Survives tracked (Standing terms)
      (fun outcome final => outcome = .ok () ∧ Rests terms final toVersion ∧
        final.landed.user = state.landed.user)
      (Meta.setSchemaVersion toVersion now) state := by
  obtain ⟨hmoved, hland⟩ := hrsts.commit hgood
  have hstam : Rests terms (tracked.apply (.put Key.updatedAt (decimal now.toNat))
      (tracked.apply (.put Key.schemaVersion (decimal toVersion.toNat)) state)) toVersion := by
    refine ⟨hmoved.idle.frame (show isReserved Key.updatedAt = true by decide)
      (show Key.updatedAt ∉ identityKeys by decide)
      (fun hkey => absurd hkey (show Key.updatedAt ≠ Key.journal by decide)), ?_⟩
    rw [get_put_other (show Key.updatedAt ≠ Key.pending by decide), hmoved.pending]
  rw [Meta.setSchemaVersion, Meta.schemaWrites, writeAll, writeAll, writeAll]
  apply Survives.writeBind hrsts.standing
  apply Survives.writeBind hmoved.standing
  exact Survives.pure hstam.standing ⟨rfl, hstam, hland⟩

variable {migrator : Migrator} (hcrates : migrator.crates = terms.crates)

include hcrates

theorem applyChanges_survives {made index : ℕ} {left : List Change}
    (hund : Underway terms state version pending changes (max made index))
    (hjrn : journal.pendingStep = some pending) (hlt : changes.drop index = left) :
    Survives tracked (Standing terms)
      (fun outcome final => outcome = .ok () ∧ (∃ applied, Underway terms final version
          { pending with applied := applied } changes changes.length) ∧
        final.landed.user = state.landed.user)
      (migrator.applyChanges changes.length journal index left) state := by
  induction left generalizing state pending journal index with
  | nil =>
    have hend : max made index = changes.length := by
      have hins := hund.inside
      have hpast := drop_eq_nil_iff.mp hlt
      omega
    rw [hend] at hund
    exact Survives.pure hund.standing ⟨rfl, ⟨pending.applied, hund⟩, rfl⟩
  | cons change left ih =>
    have hidx : index < changes.length := by
      rw [← drop_eq_nil_iff.not.trans Nat.not_le, hlt]
      exact cons_ne_nil _ _
    have hspl := drop_eq_getElem_cons hidx
    rw [hlt, List.cons.injEq] at hspl
    obtain ⟨rfl, hrest⟩ := hspl
    have hmade := hund.make hidx
    have hland : (tracked.apply changes[index] state).landed = state.landed :=
      tracked_landed_other _ (ne_of_plain
        (hund.written.listable.plain _ (getElem_mem hidx)) (by decide))
    apply Survives.writeBind hund.standing
    split
    · have hchkd : (Migrator.checkpoint journal (index + 1)).pendingStep =
          some { pending with applied := index + 1 } := by
        rw [Migrator.checkpoint, hjrn]
        rfl
      have hnoted := hmade.note hchkd (Nat.le_max_right made (index + 1))
      rw [writeJournal, hcrates]
      apply Survives.writeBind hmade.standing
      apply (ih hnoted hchkd hrest.symm).weaken
      rintro outcome final ⟨rfl, hend, hsame⟩
      refine ⟨rfl, hend, hsame.trans ?_⟩
      rw [landed_put_other (show Key.journal ≠ Key.schemaVersion by decide), hland]
    · apply (ih hmade hjrn hrest.symm).weaken
      rintro outcome final ⟨rfl, hend, hsame⟩
      exact ⟨rfl, hend, hsame.trans (by rw [hland])⟩

theorem replay_survives {applied : ℕ}
    (hund : Underway terms state version pending changes done)
    (hjrn : journal.pendingStep = some { pending with applied := applied })
    (happ : applied ≤ done) :
    Survives tracked (Standing terms)
      (fun outcome final => outcome = .ok () ∧ Rests terms final pending.toVersion ∧
        final.landed.user = Core.Change.applyAll changes state.landed.user)
      (migrator.replay journal applied pending.toVersion now changes) state := by
  have hnoted := hund.note hjrn happ
  rw [Migrator.replay, writeJournal, hcrates]
  apply Survives.writeBind hund.standing
  apply Survives.tryBind
  rw [← Nat.max_eq_left happ] at hnoted
  apply (applyChanges_survives hcrates hnoted hjrn rfl).weaken
  rintro outcome middle ⟨rfl, ⟨checked, hmade⟩, hsame⟩
  constructor
  · intro fault hflt
    cases hflt
  intro _ _
  apply (land_survives hmade).weaken
  rintro outcome final ⟨rfl, hrsts, hland⟩
  refine ⟨rfl, hrsts, hland.trans ?_⟩
  rw [hsame, landed_put_other (show Key.journal ≠ Key.schemaVersion by decide)]

/-- A step that the terms allow, and that makes no key of the engine's own. -/
structure Sound (terms : Terms) (planned : PlannedStep) (batch next : Batch) : Prop where
  plain : Plain next.entries
  good : terms.good planned.toVersion next.entries
  named : ∀ applied, terms.named ⟨planned.fromVersion, planned.toVersion, planned.step.name,
    planned.direction, applied⟩
  made : ∀ applied, terms.made ⟨planned.fromVersion, planned.toVersion, planned.step.name,
    planned.direction, applied⟩ batch.entries next.entries

structure Taken (terms : Terms) (version : UInt32) (planned : PlannedStep)
    (batch next : Batch) : Prop where
  starts : planned.fromVersion = version
  adjacent : ∀ applied, Adjacent ⟨planned.fromVersion, planned.toVersion, planned.step.name,
    planned.direction, applied⟩
  sound : Sound terms planned batch next

variable {target : UInt32} {planned : PlannedStep}

theorem applyStep_survives {batch next : Batch} (hrsts : Rests terms state version)
    (hbat : batch.entries = state.landed.user) (hlsb : Listable changes)
    (hnext : Core.Change.applyAll changes state.landed.user = next.entries)
    (halt : ∀ change ∈ changes, change.Alters state.landed.user)
    (htkn : Taken terms version planned batch next) :
    Survives tracked (Standing terms)
      (IfOk (fun _ final => (∃ applied, Underway terms final version
          ⟨version, planned.toVersion, planned.step.name, planned.direction, applied⟩ changes
          changes.length) ∧ final.landed.user = state.landed.user))
      (migrator.applyStep target now version planned changes) state := by
  have hlst : Idle terms (tracked.apply (.put Key.pending (encodeChanges changes)) state)
      version := hrsts.idle.frame (show isReserved Key.pending = true by decide)
    (show Key.pending ∉ identityKeys by decide)
    (fun hkey => absurd hkey (show Key.pending ≠ Key.journal by decide))
  have hland : (tracked.apply (.put Key.pending (encodeChanges changes)) state).landed =
      state.landed := landed_put_other (show Key.pending ≠ Key.schemaVersion by decide)
  have hstas := htkn.starts
  subst hstas
  have hjrn : (migrator.stepJournal target now planned.fromVersion planned).pendingStep =
      some ⟨planned.fromVersion, planned.toVersion, planned.step.name, planned.direction, 0⟩ := rfl
  have hbegun : Underway terms _ _ _ changes (max 0 0) :=
    hlst.begin (get_put_self _ _) hlsb hjrn ⟨htkn.adjacent 0, htkn.sound.named⟩ rfl rfl
      (by rwa [hland]) (by rw [hland, hnext]; exact htkn.sound.good)
      (by rw [hland, hnext, ← hbat]; exact htkn.sound.made)
  apply Survives.checkBind hrsts.standing (fun fault _ => IfOk.failed fault _)
  intro _ _
  apply Survives.writeBind hrsts.standing
  rw [writeJournal, hcrates]
  apply Survives.writeBind hlst.standing
  apply (applyChanges_survives hcrates hbegun hjrn rfl).weaken
  rintro outcome final ⟨rfl, hmade, hsame⟩
  refine IfOk.ok ⟨hmade, hsame.trans ?_⟩
  rw [landed_put_other (show Key.journal ≠ Key.schemaVersion by decide), hland]

theorem carry_survives {batch next : Batch} (hrsts : Rests terms state version)
    (hbat : batch.entries = state.landed.user) (htkn : Taken terms version planned batch next) :
    Survives tracked (Standing terms)
      (IfOk (fun _ final => Rests terms final planned.toVersion ∧ final.landed.user = next.entries))
      (migrator.carry target now version planned (diff batch next).2) state := by
  have hpln : Plain batch.entries := by
    rw [hbat]
    exact state.landed.plain_user
  have hlsb := listable_diff hpln htkn.sound.plain
  have hnext : Core.Change.applyAll (diff batch next).2 state.landed.user = next.entries := by
    rw [← hbat, applyAll_diff]
  have halt : ∀ change ∈ (diff batch next).2, change.Alters state.landed.user := by
    intro change hchg
    rw [← hbat]
    exact (Core.Change.of_mem_difference hchg).2
  rw [Migrator.carry]
  split
  · apply Survives.okBind
    apply (applyStep_survives hcrates hrsts hbat hlsb hnext halt htkn).weaken
    intro outcome middle hmade value hval
    obtain ⟨⟨applied, hund⟩, hsame⟩ := hmade value hval
    apply (land_survives hund).weaken
    rintro outcome final ⟨rfl, hend, hland⟩
    exact IfOk.ok ⟨hend, hland.trans (by rw [hsame, hnext])⟩
  rename_i hnone
  rw [Decidable.not_not] at hnone
  have hsame : state.landed.user = next.entries := by
    rw [← hnext, hnone]
    rfl
  apply (move_survives hrsts (by rw [hsame]; exact htkn.sound.good)).weaken
  rintro outcome final ⟨rfl, hend, hland⟩
  exact IfOk.ok ⟨hend, hland.trans hsame⟩

omit hcrates in
theorem Registry.Offers.adjacent {registry : Registry} (hofs : registry.Offers planned)
    (applied : ℕ) :
    Adjacent ⟨planned.fromVersion, planned.toVersion, planned.step.name, planned.direction,
      applied⟩ := by
  have hnext := hofs.next
  obtain ⟨step, direction⟩ := planned
  cases direction with
  | up => exact Or.inl hnext.symm
  | down => exact Or.inr hnext.symm

variable {progress : Migrator.Progress}

theorem walk_survives {allowDowngrade : Bool} {registry : Registry} {steps : List PlannedStep}
    (hrsts : Rests terms state progress.version)
    (hbat : progress.batch.entries = state.landed.user)
    (hplan : registry.plan progress.version target allowDowngrade = .ok steps)
    (hsound : Along (fun planned batch next => Sound terms planned batch next) steps progress.batch) :
    
    
    Survives tracked (Standing terms)
      (IfOk (fun walked final => Rests terms final target ∧ walked.version = target ∧
        walked.batch.entries = final.landed.user))
      (migrator.walk target now steps progress) state := by
  induction steps generalizing state progress with
  | nil =>
    rw [Registry.plan_nil hplan] at hrsts
    exact Survives.pure hrsts.standing (IfOk.ok ⟨hrsts, Registry.plan_nil hplan, hbat⟩)
  | cons planned rest ih =>
    obtain ⟨hofs, hfrom, -, hrest⟩ := Registry.plan_cons hplan
    apply Survives.checkBind hrsts.standing (fun fault _ => IfOk.failed fault _)
    intro next hnext
    obtain ⟨htkn, halong⟩ := hsound next hnext
    apply Survives.okBind
    apply (carry_survives hcrates hrsts hbat ⟨hfrom, hofs.adjacent, htkn⟩).weaken
    intro outcome middle hcard value hval
    obtain ⟨hmid, hland⟩ := hcard value hval
    exact ih hmid hland.symm hrest halong

theorem resume_survives_underway (hund : Underway terms state version pending changes done)
    (hjrn : journal.pendingStep = some pending) (hbat : progress.batch.entries = state.store.user) :
    Survives tracked (Standing terms)
      (IfOk (fun resumed final => Idle terms final resumed.version ∧
        resumed.batch.entries = final.landed.user))
      (migrator.resume journal pending now progress) state := by
  have hlsb := hund.written.listable
  have hcra := hund.standing
  apply Survives.checkBind hcra (fun fault _ => IfOk.failed fault _)
  intro step _
  apply Survives.tryAskBind hcra (fun fault _ => IfOk.failed fault _)
  intro listed hlst
  obtain rfl := hund.written.of_pendingChanges hlst
  apply Survives.tryAskBind hcra (fun fault _ => IfOk.failed fault _)
  intro found hfnd
  obtain ⟨known, hknw, hver, -⟩ := hund.lands.store.read
  change Meta.read state.store = .ok found at hfnd
  rw [hknw] at hfnd
  cases hfnd
  have hnot : known.schemaVersion ≠ pending.toVersion := by
    rw [hver, ← hund.starts]
    exact hund.agreed.adjacent.ne
  dsimp only
  rw [if_neg hnot, if_neg (fun hoth => hoth (hver.trans hund.starts.symm))]
  apply Survives.checkBind hcra (fun fault _ => IfOk.failed fault _)
  rintro ⟨batch, counts⟩ hrpd
  have happ : min pending.applied listed.length ≤ done :=
    Nat.le_trans (Nat.min_le_left _ _) hund.applied
  obtain ⟨replayed, counted, hok, hents⟩ := @applyToBatch_ok progress.batch
    (listed.drop (min pending.applied listed.length))
    (fun change hchg => hlsb.plain change (mem_of_mem_drop hchg))
    (fun change hchg => hlsb.fits change (mem_of_mem_drop hchg)) .zero
  rw [hrpd] at hok
  cases hok
  rw [hbat, hund.user, Core.Change.applyAll_again _ _ happ] at hents
  apply Survives.okBind
  apply (replay_survives hcrates hund _ happ).weaken
  · rintro outcome final ⟨rfl, hrsts, hland⟩
    apply IfOk.ok
    exact Survives.pure hrsts.standing (IfOk.ok ⟨hrsts.idle, hents.trans hland.symm⟩)
  · rw [Migrator.checkpoint, hjrn]
    rfl

omit hcrates in
theorem resume_survives_committed (hcomm : Committed terms state version pending changes)
    (hbat : progress.batch.entries = state.store.user) :
    Survives tracked (Standing terms)
      (IfOk (fun resumed final => Idle terms final resumed.version ∧
        resumed.batch.entries = final.landed.user))
      (migrator.resume journal pending now progress) state := by
  have hcra := hcomm.standing
  apply Survives.checkBind hcra (fun fault _ => IfOk.failed fault _)
  intro step _
  apply Survives.tryAskBind hcra (fun fault _ => IfOk.failed fault _)
  intro listed hlst
  apply Survives.tryAskBind hcra (fun fault _ => IfOk.failed fault _)
  intro found hfnd
  obtain ⟨known, hknw, hver, -⟩ := hcomm.lands.store.read
  change Meta.read state.store = .ok found at hfnd
  rw [hknw] at hfnd
  cases hfnd
  dsimp only
  rw [if_pos (hver.trans hcomm.ends.symm)]
  apply Survives.okBind
  apply (clear_survives hcomm).weaken
  rintro outcome final ⟨rfl, hrsts, hland⟩
  apply IfOk.ok
  apply Survives.pure hrsts.standing
  apply IfOk.ok
  rw [hver]
  exact ⟨hrsts.idle, by rw [hbat, hcomm.user, hland]⟩

omit hcrates in
theorem pickUp_survives (hstep : journal.pendingStep = some pending)
    (hrsm : Survives tracked (Standing terms)
      (IfOk (fun resumed final => Idle terms final resumed.version ∧
        resumed.batch.entries = final.landed.user))
      (migrator.resume journal pending now progress) state) :
    Survives tracked (Standing terms)
      (IfOk (fun finished final => Idle terms final finished.version ∧
        finished.batch.entries = final.landed.user))
      (migrator.pickUp journal now progress) state := by
  rw [Migrator.pickUp, hstep]
  apply Survives.okBind
  apply hrsm.weaken
  intro outcome final hend resumed hok
  exact Survives.pure (hend resumed hok).1.standing (IfOk.ok (hend resumed hok))

theorem finish_survives {progress : Migrator.Progress} (hstds : Stands terms state version)
    (hver : progress.version = version) (hbat : progress.batch.entries = state.store.user) :
    Survives tracked (Standing terms)
      (IfOk (fun finished final => Idle terms final finished.version ∧
        finished.batch.entries = final.landed.user))
      (migrator.finish now progress) state := by
  have hcra : Standing terms state := ⟨version, hstds⟩
  rw [Migrator.finish, hcrates]
  apply Survives.tryAskBind hcra (fun fault _ => IfOk.failed fault _)
  intro found hfnd
  change readJournal terms.crates state.store = .ok found at hfnd
  cases hstds with
  | idle hidle =>
    rw [readJournal_none hidle.journal] at hfnd
    cases hfnd
    apply Survives.pure hcra
    apply IfOk.ok
    rw [hver, hbat]
    exact ⟨hidle, hidle.user⟩
  | underway pending changes done hund =>
    obtain ⟨record, rfl, hstep⟩ := hund.written.of_readJournal hfnd
    exact pickUp_survives hstep (resume_survives_underway hcrates hund hstep hbat)
  | committed pending changes hcomm =>
    obtain ⟨record, rfl, hstep⟩ := hcomm.written.of_readJournal hfnd
    exact pickUp_survives hstep (resume_survives_committed hcomm hbat)

/-- Dropping a list that no journal names. -/
theorem dropStray_survives (hidle : Idle terms state version) :
    Survives tracked (Standing terms)
      (IfOk (fun _ final => Rests terms final version ∧ final.landed = state.landed))
      migrator.dropStray state := by
  rw [Migrator.dropStray, hcrates]
  apply Survives.askBind
  split
  · apply Survives.tryAskBind hidle.standing (fun fault _ => IfOk.failed fault _)
    intro found hfnd
    change readJournal terms.crates state.store = .ok found at hfnd
    rw [readJournal_none hidle.journal] at hfnd
    cases hfnd
    have hdrp : Idle terms (tracked.apply (.del Key.pending) state) version :=
      hidle.frame (show isReserved Key.pending = true by decide)
        (show Key.pending ∉ identityKeys by decide) (fun _ => rfl)
    have hnone : (tracked.apply (.del Key.pending) state).store.get Key.pending = none := by
      rw [tracked_store, Namespace.get_apply]
      exact if_pos rfl
    exact Survives.put hidle.standing (Survives.done hdrp.standing (IfOk.ok ⟨⟨hdrp, hnone⟩, rfl⟩))
  rename_i hnone
  have hpnd : state.store.get Key.pending = none := by
    rwa [Option.not_isSome_iff_eq_none] at hnone
  exact Survives.pure hidle.standing (IfOk.ok ⟨⟨hidle, hpnd⟩, rfl⟩)

omit hcrates in
theorem refresh_survives {writes : List Change} (hrsts : Rests terms state version)
    (hrfr : ∀ change ∈ writes, Refreshes version terms.component change) :
    Survives tracked (Standing terms)
      (IfOk (fun _ final => Rests terms final version ∧
        final.landed.user = state.landed.user)) (writeAll writes) state := by
  induction writes generalizing state with
  | nil => exact Survives.pure hrsts.standing (IfOk.ok ⟨hrsts, rfl⟩)
  | cons change writes ih =>
    obtain ⟨hchan, hland⟩ := hrsts.refresh (hrfr change mem_cons_self)
    apply Survives.writeBind hrsts.standing
    apply (ih hchan (fun other hoth =>
      hrfr other (mem_cons_of_mem _ hoth))).weaken
    intro outcome final hend value hval
    obtain ⟨hsetd, hsame⟩ := hend value hval
    exact ⟨hsetd, hsame.trans hland⟩

omit hcrates in
/-- Recording the build that moved the data. -/
theorem sign_survives {found : Meta} (hrsts : Rests terms state progress.version)
    (hinfo : migrator.info.validate = .ok ()) (hfnd : found.Valid)
    (hown : found.component = terms.component) :
    Survives tracked (Standing terms)
      (IfOk (fun _ final => Rests terms final progress.version ∧
        final.landed.user = state.landed.user)) (migrator.sign found now progress) state := by
  rw [Migrator.sign]
  split
  · have hvld : (migrator.record found now progress.version).Valid := by
      obtain ⟨-, hsem, hdig⟩ := ComponentInfo.validate_ok_iff.mp hinfo
      obtain ⟨hident, -, -⟩ := ComponentInfo.validate_ok_iff.mp hfnd
      rw [Meta.Valid, Migrator.record, ComponentInfo.validate, hident, hsem, hdig]
      rfl
    apply refresh_survives hrsts
    intro change hchg
    have hrfr := Meta.refreshes_of_mem_writes hvld hchg
    rwa [Migrator.record, hown] at hrfr
  · exact Survives.pure hrsts.standing (IfOk.ok ⟨hrsts, rfl⟩)

def SoundPath (terms : Terms) (migrator : Migrator) (target : UInt32) (store : Namespace) : Prop :=
  ∀ start progress steps, start.batch.entries = store.user →
    Named store start.version terms.component →
    migrator.finishOutcome store start = .ok progress →
    migrator.plan progress.version target = .ok steps →
    Along (fun planned batch next => Sound terms planned batch next) steps progress.batch

theorem migrate_survives {target : UInt32} (hstds : Stands terms state version)
    (hsound : SoundPath terms migrator target state.store) :
    Survives tracked (Standing terms)
      (IfOk (fun _ final => Rests terms final target)) (migrator.migrate target now) state := by
  have hcra : Standing terms state := ⟨version, hstds⟩
  have hnmd : Named state.store version terms.component := by
    cases hstds with
    | idle hidle => exact hidle.lands.store
    | underway _ _ _ hund => exact hund.lands.store
    | committed _ _ hcomm => exact hcomm.lands.store
  apply Survives.tryAskBind hcra (fun fault _ => IfOk.failed fault _)
  rintro ⟨found, snapshot⟩ hprp
  obtain ⟨hopd, -, -, htkn⟩ := Migrator.prepare_ok_iff.mp hprp
  obtain ⟨hinfo, hread, -⟩ := Migrator.openMeta_ok_iff.mp hopd
  obtain ⟨hver, hown⟩ := hnmd.of_read_eq hread
  apply Survives.checkBind hcra (fun fault _ => IfOk.failed fault _)
  intro _ _
  apply Survives.checkBind hcra (fun fault _ => IfOk.failed fault _)
  intro batch hbat
  obtain ⟨filled, hfil, hents⟩ := Snapshot.batch_of_take htkn
  rw [hbat] at hfil
  cases hfil
  apply Survives.okBind
  apply (finish_survives hcrates hstds hver hents).withResult.weaken
  rintro outcome middle ⟨hres, hfinis⟩ progress hprog
  rw [Program.result_project tracked_projects] at hres
  have hfns : migrator.finishOutcome state.store _ = .ok progress :=
    (Migrator.finish_result now _).symm.trans (hres.symm.trans hprog)
  obtain ⟨hidle, hsetd⟩ := hfinis progress hprog
  apply Survives.okBind
  apply (dropStray_survives hcrates hidle).weaken
  intro dropped left hdrp _ hval
  obtain ⟨hrsts, hland⟩ := hdrp _ hval
  apply Survives.checkBind hrsts.standing (fun fault _ => IfOk.failed fault _)
  intro steps hplan
  apply Survives.okBind
  have hpath := hsound _ progress steps hents (hver ▸ hnmd) hfns hplan
  apply (walk_survives hcrates hrsts (hsetd.trans (by rw [hland])) hplan hpath).weaken
  intro walked reached hwal walkedTo hwalkedTo
  obtain ⟨hend, hat, -⟩ := hwal walkedTo hwalkedTo
  apply Survives.okBind
  rw [← hat] at hend
  apply (sign_survives hend hinfo (Meta.of_read hread).2 hown).weaken
  intro signed final hsig _ hok
  have hfin := (hsig _ hok).1
  rw [hat] at hfin
  exact Survives.pure hfin.standing (IfOk.ok hfin)

end Calls

end WasmAgent.State
