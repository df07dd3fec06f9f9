import Quorum.Proofs.Storage.Effect

/-! # Files agree with memory

Along every run the files hold the log, the hard state and the current snapshot that
memory holds. This is shown once for each operation, from what the operation does to
usable files, and carried along the run. A reopening then finds all of it again.
-/

namespace Quorum

variable {σ : Type} {machine : StateMachine σ} {store next : Store σ}

/-- A state machine whose snapshots can be restored. That it takes one is not asked. -/
def StateMachine.Recoverable (machine : StateMachine σ) : Prop :=
  ∀ state bytes, machine.snapshot state = .ok bytes → bytes.Fits →
    ∃ restored, machine.restore bytes = .ok restored

theorem Memory.recoverable : Memory.machine.Recoverable := by
  rintro state _ ⟨⟩ hfits
  exact ⟨state, Memory.restore_snapshot hfits⟩

/-- A snapshot whose file fits in memory is restored from the state that was taken. -/
theorem Store.restores_nextSnapshot {state : Bytes} {restored : σ}
    (hfits : (Snapshot.format.write (store.nextSnapshot state)).Fits)
    (hrestore : machine.restore state = .ok restored) :
    Restores machine (store.nextSnapshot state) restored := by
  have hdata := Binary.Format.fits_of_write_bytes hfits.of_append.2
  exact ⟨_, decodeStored_write SnapshotContent.lossless_format hdata, hrestore⟩

theorem Store.fits_state_of_nextSnapshot {state : Bytes}
    (hfits : (Snapshot.format.write (store.nextSnapshot state)).Fits) : state.Fits := by
  have hdata := Binary.Format.fits_of_write_bytes hfits.of_append.2
  exact Binary.Format.fits_of_write_bytes hdata.of_append.2.of_append.2

/-- What an operation that was reported done made of a store. -/
def Operation.Effect (machine : StateMachine σ) (store next : Store σ) : Operation → Prop
  | .saveVote vote => next = store.withHardState { store.hardState with vote := some vote }
  | .saveCommitted committed => next = store.withHardState { store.hardState with committed }
  | .append entries => ∃ slot, Store.HoldsLog slot (store.log.insertAll entries) ∧
      next = { store with
        log := store.log.insertAll entries
        volume := { store.volume with log := slot } }
  | .deleteSince id => next = store.withLog (store.log.below id.index)
  | .purge id => next = store.purged id
  | .apply entries => next = (store.applyAll machine entries).1
  | .build => ∃ state, machine.snapshot store.state = .ok state ∧
      (Snapshot.format.write (store.nextSnapshot state)).Fits ∧
      next = { store.withSnapshot (store.nextSnapshot state) with built := store.built + 1 }
  | .install snapshot => ∃ state, Store.Restores machine snapshot state ∧
      next = store.installed snapshot state

namespace Store

/-- Memory and files agree on all that a restart keeps. -/
structure Durable (machine : StateMachine σ) (store : Store σ) : Prop where
  log : HoldsLog store.volume.log store.log
  hardState : HoldsHardState store.volume.hardState store.hardState
  snapshot : ∀ slot ∈ store.volume.snapshot, HoldsSnapshot machine slot store.current

namespace Durable

theorem usable (h : Durable machine store) : store.volume.Usable where
  log := h.log.usable
  hardState := h.hardState.usable
  snapshot := fun slot hslot => (h.snapshot slot hslot).usable

/-! ## Operations -/

/-- An operation that is reported done had its effect, and no other. -/
theorem effect (h : Durable machine store) {operation : Operation}
    (hsized : operation.Sized machine store)
    (hdone : operation.perform machine store = (next, .ok ())) :
    operation.Effect machine store next := by
  have husable := h.usable
  cases operation with
  | saveVote vote =>
      rw [Operation.perform, saveVote_eq husable] at hdone
      exact (Prod.mk.inj hdone).1.symm
  | saveCommitted committed =>
      rw [Operation.perform, saveCommitted_eq husable] at hdone
      exact (Prod.mk.inj hdone).1.symm
  | append entries =>
      by_cases hentries : entries = []
      · subst hentries
        obtain ⟨rfl, _⟩ := Prod.mk.inj hdone
        exact ⟨store.volume.log, h.log, rfl⟩
      · rw [Operation.perform, append_eq husable hentries] at hdone
        exact ⟨_, h.log.append hsized, (Prod.mk.inj hdone).1.symm⟩
  | deleteSince id =>
      rw [Operation.perform, deleteSince_eq husable] at hdone
      exact (Prod.mk.inj hdone).1.symm
  | purge id =>
      rw [Operation.perform, purge_eq husable (hasNext_of_purge hdone)] at hdone
      exact (Prod.mk.inj hdone).1.symm
  | apply entries => exact (Prod.mk.inj hdone).1.symm
  | build =>
      simp only [Operation.perform, Operation.Sized, buildSnapshot_eq husable] at hdone hsized
      cases hstate : machine.snapshot store.state with
      | error failure => simp [hstate, Except.map] at hdone
      | ok state =>
          simp only [hstate] at hdone hsized
          exact ⟨state, hstate, hsized _ rfl, (Prod.mk.inj hdone).1.symm⟩
  | install snapshot =>
      obtain ⟨state, hstate⟩ := restores_of_installSnapshot hdone
      rw [Operation.perform,
        installSnapshot_eq husable hstate (hasNext_of_installSnapshot hdone)] at hdone
      exact ⟨state, hstate, (Prod.mk.inj hdone).1.symm⟩

theorem withHardState (h : Durable machine store) (hardState : HardState) :
    Durable machine (store.withHardState hardState) where
  log := h.log
  hardState := holdsHardState_holding hardState
  snapshot := h.snapshot

/-- A log that is written again holds nothing that was not in the file before. -/
theorem withLog_filter (h : Durable machine store) (test : Entry → Bool) :
    Durable machine (store.withLog (store.log.filter test)) where
  log := holdsLog_holding fun entry hentry => h.log.fits entry (Log.mem_of_mem_filter hentry)
  hardState := h.hardState
  snapshot := h.snapshot

theorem purged (h : Durable machine store) (id : LogId) : Durable machine (store.purged id) :=
  (h.withLog_filter _).withHardState _

theorem withSnapshot (h : Durable machine store) {snapshot : Snapshot} {state : σ}
    (hfits : (Snapshot.format.write snapshot).Fits) (hstate : Restores machine snapshot state) :
    Durable machine (store.withSnapshot snapshot) where
  log := h.log
  hardState := h.hardState
  snapshot := by
    intro slot hslot
    obtain ⟨before, _, rfl⟩ := Option.map_eq_some_iff.mp hslot
    exact holdsSnapshot_holding hfits hstate

theorem atSnapshot (h : Durable machine store) (snapshot : Snapshot) (state : σ) :
    Durable machine (store.atSnapshot snapshot state) where
  log := h.log
  hardState := h.hardState
  snapshot := h.snapshot

/-- What an operation leaves in the files agrees with what it leaves in memory. -/
theorem of_effect (hmachine : machine.Recoverable) (h : Durable machine store)
    {operation : Operation} (hsized : operation.Sized machine store)
    (heffect : operation.Effect machine store next) : Durable machine next := by
  cases operation with
  | saveVote vote =>
      obtain rfl := heffect
      exact h.withHardState _
  | saveCommitted committed =>
      obtain rfl := heffect
      exact h.withHardState _
  | append entries =>
      obtain ⟨slot, hslot, rfl⟩ := heffect
      exact ⟨hslot, h.hardState, h.snapshot⟩
  | deleteSince id =>
      obtain rfl := heffect
      exact h.withLog_filter _
  | purge id =>
      obtain rfl := heffect
      exact h.purged id
  | apply entries =>
      obtain rfl := heffect
      rw [applyAll_eq_resume]
      exact ⟨h.log, h.hardState, h.snapshot⟩
  | build =>
      obtain ⟨state, hstate, hfits, rfl⟩ := heffect
      obtain ⟨restored, hrestore⟩ := hmachine _ _ hstate (fits_state_of_nextSnapshot hfits)
      have hnext := h.withSnapshot hfits (restores_nextSnapshot hfits hrestore)
      exact ⟨hnext.log, hnext.hardState, hnext.snapshot⟩
  | install snapshot =>
      obtain ⟨state, hstate, rfl⟩ := heffect
      have hnext := (h.atSnapshot snapshot state).withSnapshot hsized hstate
      unfold installed
      split
      next => exact hnext
      next id hid => exact hnext.purged id

/-! ## Reopening -/

/-- What is found in the files of the snapshot: the current one, if it has a file. -/
theorem loadSnapshot (h : Durable machine store) :
    ∃ recovered, Store.loadSnapshot machine store.volume.snapshot = .ok recovered ∧
      (store.volume.snapshot.isSome → recovered.map Prod.fst = store.current) ∧
      ∀ snapshot state, recovered = some (snapshot, state) → Restores machine snapshot state := by
  cases hsnapshot : store.volume.snapshot with
  | none => exact ⟨none, rfl, by simp, by simp⟩
  | some slot =>
      obtain ⟨recovered, hload, hcurrent, hrestores⟩ := (h.snapshot slot hsnapshot).loadSnapshot
      exact ⟨recovered, hload, fun _ => hcurrent, hrestores⟩

end Durable
end Store

namespace Setup

variable {setup : Setup σ}

/-- Opening the files of a store again finds log and hard state, and changes no file. -/
theorem open_durable (h : store.Durable setup.machine) {recovered : Option (Snapshot × σ)}
    (hrecovered : Store.loadSnapshot setup.machine store.volume.snapshot = .ok recovered) :
    setup.open store.volume = (store.volume,
      .ok (setup.store store.volume store.log store.hardState recovered)) :=
  open_eq h.hardState.loaded h.log.loadLog rfl hrecovered

theorem durable_store (h : store.Durable setup.machine) {recovered : Option (Snapshot × σ)}
    (hrecovered : Store.loadSnapshot setup.machine store.volume.snapshot = .ok recovered) :
    (setup.store store.volume store.log store.hardState recovered).Durable setup.machine where
  log := by
    rw [store_volume, store_log]
    exact h.log
  hardState := by
    rw [store_volume, store_hardState]
    exact h.hardState
  snapshot := by
    intro slot hslot
    rw [store_volume] at hslot
    obtain ⟨found, hfound, hcurrent, _⟩ := h.loadSnapshot
    obtain rfl : recovered = found := by simpa [hrecovered] using hfound
    rw [store_current, hcurrent (by rw [hslot]; rfl)]
    exact h.snapshot slot hslot

/-- What a reopening that was reported done made of a store. -/
theorem eq_of_open (h : store.Durable setup.machine) {volume : Volume}
    (hdone : setup.open store.volume = (volume, .ok next)) :
    ∃ recovered, Store.loadSnapshot setup.machine store.volume.snapshot = .ok recovered ∧
      next = setup.store store.volume store.log store.hardState recovered := by
  obtain ⟨recovered, hrecovered, _⟩ := h.loadSnapshot
  rw [open_durable h hrecovered] at hdone
  exact ⟨recovered, hrecovered, (Except.ok.inj (Prod.mk.inj hdone).2).symm⟩

/-- The store on files for which nothing was written yet. -/
def first (setup : Setup σ) : Store σ :=
  setup.store (.empty setup.useSnapshot) .empty {} none

theorem open_empty (setup : Setup σ) :
    setup.open (.empty setup.useSnapshot) = (.empty setup.useSnapshot, .ok setup.first) := by
  obtain ⟨machine, fresh, group, logPath, useSnapshot⟩ := setup
  cases useSnapshot <;> rfl

theorem eq_first_of_open {volume : Volume}
    (hdone : setup.open (.empty setup.useSnapshot) = (volume, .ok store)) :
    store = setup.first := by
  rw [open_empty] at hdone
  exact (Except.ok.inj (Prod.mk.inj hdone).2).symm

theorem durable_first (setup : Setup σ) : setup.first.Durable setup.machine where
  log := ⟨⟨rfl, by simp [first, Volume.empty], by simp [first, Volume.empty]⟩,
    [], rfl, by simp, rfl⟩
  hardState := ⟨⟨rfl, by simp [first, Volume.empty], by simp [first, Volume.empty]⟩, rfl⟩
  snapshot := by
    intro slot hslot
    obtain ⟨machine, fresh, group, logPath, useSnapshot⟩ := setup
    cases useSnapshot with
    | false => cases hslot
    | true =>
        cases hslot
        exact ⟨⟨rfl, by simp, by simp⟩, fun _ => rfl, by simp [first]⟩

end Setup

/-! ## Runs -/

/-- No operation makes or removes the place of the snapshot's file. -/
theorem Operation.Effect.snapshot_isSome {operation : Operation}
    (h : operation.Effect machine store next) :
    next.volume.snapshot.isSome = store.volume.snapshot.isSome := by
  cases operation with
  | append entries =>
      obtain ⟨_, _, rfl⟩ := h
      rfl
  | apply entries =>
      obtain rfl := h
      rw [Store.applyAll_eq_resume]
      rfl
  | build =>
      obtain ⟨_, _, _, rfl⟩ := h
      exact Option.isSome_map
  | install snapshot =>
      obtain ⟨_, _, rfl⟩ := h
      unfold Store.installed
      split <;> exact Option.isSome_map
  | saveVote | saveCommitted | deleteSince | purge =>
      obtain rfl := h
      rfl

section

variable {setup : Setup σ} {allowed : Store σ → Operation → Prop} {events : List Event}

/-- Along every run the files agree with memory. -/
theorem Run.durable (hmachine : setup.machine.Recoverable)
    (hsized : ∀ store operation, allowed store operation → operation.Sized setup.machine store)
    (hrun : Run setup allowed events store) : store.Durable setup.machine := by
  induction hrun with
  | start hdone =>
      obtain rfl := Setup.eq_first_of_open hdone
      exact setup.durable_first
  | perform before hallowed hdone ih =>
      have hstep := hsized _ _ hallowed
      exact ih.of_effect hmachine hstep (ih.effect hstep hdone)
  | reopen before hdone ih =>
      obtain ⟨recovered, hrecovered, rfl⟩ := Setup.eq_of_open ih hdone
      exact Setup.durable_store ih hrecovered

theorem Run.snapshot_isSome (hmachine : setup.machine.Recoverable)
    (hsized : ∀ store operation, allowed store operation → operation.Sized setup.machine store)
    (hrun : Run setup allowed events store) :
    store.volume.snapshot.isSome = setup.useSnapshot := by
  induction hrun with
  | start hdone =>
      obtain rfl := Setup.eq_first_of_open hdone
      obtain ⟨machine, fresh, group, logPath, useSnapshot⟩ := setup
      cases useSnapshot <;> rfl
  | perform before hallowed hdone ih =>
      have hdurable := before.durable hmachine hsized
      rw [(hdurable.effect (hsized _ _ hallowed) hdone).snapshot_isSome]
      exact ih
  | reopen before hdone ih =>
      obtain ⟨recovered, _, rfl⟩ := Setup.eq_of_open (before.durable hmachine hsized) hdone
      rw [Setup.store_volume]
      exact ih

end
end Quorum
