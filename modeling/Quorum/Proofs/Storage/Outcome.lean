import Quorum.Proofs.Storage.Effect

/-! # What is left of a snapshot's way

A snapshot is built and installed step by step, and each file that is written on the way may
fail. Of any files it is said here what is left: memory as far as the steps came, and a file
of the snapshot that holds either the new one or what it held before.
-/

namespace Quorum

variable {σ : Type} {machine : StateMachine σ} {store next : Store σ} {snapshot : Snapshot}

/-- Whether the file of a snapshot can be written, if it has a place. -/
def Volume.TakesSnapshot (volume : Volume) : Prop :=
  ∀ slot ∈ volume.snapshot, slot.Usable

namespace Store

/-! ## Files -/

/-- What the file of the snapshot is read as, if there is a place for it. -/
def readSnapshot (store : Store σ) : Option (Except IoCause (Option Bytes)) :=
  store.volume.snapshot.map Slot.read

/-- A snapshot is written just if its file is usable or has no place. Nothing but its file is
touched, and if it could not be written what is read there stays. -/
theorem writeSnapshot_cases (store : Store σ) (snapshot : Snapshot) :
    (store.volume.TakesSnapshot ∧ ∃ slot, store.writeSnapshot snapshot =
      ({ store with volume := { store.volume with snapshot := slot } }, .ok ()) ∧
      slot.map Slot.read = store.volume.snapshot.map fun _ =>
        .ok (some (Snapshot.format.write snapshot))) ∨
    (¬ store.volume.TakesSnapshot ∧ ∃ slot error, store.writeSnapshot snapshot =
      ({ store with volume := { store.volume with snapshot := slot } }, .error error) ∧
      slot.map Slot.read = store.readSnapshot) := by
  unfold writeSnapshot readSnapshot
  split
  next hnone =>
    refine .inl ⟨by simp [Volume.TakesSnapshot, hnone], none, ?_, by rw [hnone]; rfl⟩
    rw [← hnone]
  next slot hslot =>
    have hplace : store.volume.TakesSnapshot ↔ slot.Usable := by
      simp [Volume.TakesSnapshot, hslot]
    rcases slot.replace_cases (Snapshot.format.write snapshot) with
      ⟨husable, hreplace⟩ | ⟨husable, after, cause, hreplace, hread⟩
    · exact .inl ⟨hplace.mpr husable, _, by rw [hreplace], by rw [hslot]; rfl⟩
    · refine .inr ⟨mt hplace.mp husable, some after, _, by rw [hreplace], ?_⟩
      rw [hslot]
      exact congrArg some hread

/-- Writing a snapshot changes no more than its file, whose place stays where it is. -/
theorem writeSnapshot_spec (store : Store σ) (snapshot : Snapshot) :
    ∃ slot, (store.writeSnapshot snapshot).1 =
        { store with volume := { store.volume with snapshot := slot } } ∧
      slot.map Slot.read = match (store.writeSnapshot snapshot).2 with
        | .ok _ => store.volume.snapshot.map fun _ => .ok (some (Snapshot.format.write snapshot))
        | .error _ => store.readSnapshot := by
  rcases store.writeSnapshot_cases snapshot with
    ⟨-, slot, hdone, hread⟩ | ⟨-, slot, error, hfail, hread⟩
  · rw [hdone]
    exact ⟨slot, rfl, hread⟩
  · rw [hfail]
    exact ⟨slot, rfl, hread⟩

/-- A purge touches the log and the hard state and their files, done or not. -/
theorem purge_spec (store : Store σ) (id : LogId) :
    ∃ log hardState logSlot hardSlot, (store.purge id).1 =
        { store with
          log
          hardState
          volume := { store.volume with log := logSlot, hardState := hardSlot } } ∧
      (id.HasNext → log = store.log.since (id.index + 1)) ∧
      (hardState = store.hardState ∨
        hardState = { store.hardState with lastPurged := some id }) := by
  by_cases hnext : id.HasNext
  · rw [purge_of_hasNext hnext]
    unfold dropThrough rewriteLog persistHardState
    dsimp only
    rcases store.volume.log.replace (Record.frames (store.log.since (id.index + 1)).records) with
      ⟨slot, cause | _⟩
    · exact ⟨_, store.hardState, slot, store.volume.hardState, rfl, fun _ => rfl, .inl rfl⟩
    · exact ⟨_, _, slot, _, rfl, fun _ => rfl, .inr rfl⟩
  · rw [purge_of_not_hasNext hnext]
    exact ⟨store.log, store.hardState, store.volume.log, store.volume.hardState, rfl,
      fun h => absurd h hnext, .inl rfl⟩

/-! ## Building -/

/-- A build ends where the state cannot be taken or the file cannot be written, or is done. -/
theorem buildSnapshot_cases (machine : StateMachine σ) (store : Store σ) :
    (∃ error, store.buildSnapshot machine = (store, .error (.failed error))) ∨
    ∃ state, machine.snapshot store.state = .ok state ∧
      ((∃ slot error, store.buildSnapshot machine =
          ({ store with
              built := store.built + 1
              volume := { store.volume with snapshot := slot } }, .error (.failed error)) ∧
          slot.map Slot.read = store.readSnapshot) ∨
        ∃ slot, store.buildSnapshot machine =
          ({ store with
              built := store.built + 1
              current := some (store.nextSnapshot state)
              volume := { store.volume with snapshot := slot } },
            .ok (store.nextSnapshot state)) ∧
          slot.map Slot.read = store.volume.snapshot.map fun _ =>
            .ok (some (Snapshot.format.write (store.nextSnapshot state)))) := by
  unfold buildSnapshot
  simp only [finishBuild, buildStep]
  cases hstate : machine.snapshot store.state with
  | error failure => exact .inl ⟨⟨.readStateMachine, .failed failure⟩, by simp [finishBuild]⟩
  | ok state =>
      refine .inr ⟨state, rfl, ?_⟩
      let numbered : Store σ := { store with built := store.built + 1 }
      rcases numbered.writeSnapshot_cases (store.nextSnapshot state) with
        ⟨-, slot, hwrite, hread⟩ | ⟨-, slot, error, hwrite, hread⟩
      · refine .inr ⟨slot, ?_, hread⟩
        simp only [numbered, nextSnapshot] at hwrite
        simp [finishBuild, buildStep, hwrite, nextSnapshot]
      · refine .inl ⟨slot, error, ?_, hread⟩
        simp only [numbered, nextSnapshot] at hwrite
        simp [finishBuild, buildStep, hwrite]

/-- A build that was finished made the snapshot of what was applied last. -/
theorem of_buildSnapshot (h : store.buildSnapshot machine = (next, .ok snapshot)) :
    ∃ state, machine.snapshot store.state = .ok state ∧ snapshot = store.nextSnapshot state ∧
      next.progress = store.progress ∧ next.current = some snapshot := by
  rcases store.buildSnapshot_cases machine with
    ⟨error, hfail⟩ | ⟨state, hstate, ⟨slot, error, hfail, -⟩ | ⟨slot, hdone, -⟩⟩
  · cases hfail.symm.trans h
  · cases hfail.symm.trans h
  · cases hdone.symm.trans h
    exact ⟨state, hstate, rfl, rfl, rfl⟩

/-! ## Installing -/

/-- The store as a snapshot leaves it before the log is purged, with whatever in the place of
the snapshot's file. -/
def published (store : Store σ) (snapshot : Snapshot) (state : σ) (slot : Option Slot) :
    Store σ :=
  { store.atSnapshot snapshot state with
    current := some snapshot
    volume := { store.volume with snapshot := slot } }

/-- How far an installation comes: the snapshot cannot be read, or its file cannot be written,
or the log is purged, unless the snapshot covers nothing. -/
inductive Installation (machine : StateMachine σ) (store : Store σ) (snapshot : Snapshot) :
    Store σ → Except (Halt StorageError) Unit → Prop where
  | unread {error : StorageError} (hunread : ∀ state, ¬ Restores machine snapshot state) :
      Installation machine store snapshot store (.error (.failed error))
  | unfiled {state : σ} {slot : Option Slot} {error : StorageError}
      (hstate : Restores machine snapshot state) (hfile : ¬ store.volume.TakesSnapshot)
      (hread : slot.map Slot.read = store.readSnapshot) :
      Installation machine store snapshot { store.atSnapshot snapshot state with
        volume := { store.volume with snapshot := slot } } (.error (.failed error))
  | whole {state : σ} {slot : Option Slot} (hstate : Restores machine snapshot state)
      (hread : slot.map Slot.read = store.volume.snapshot.map fun _ =>
        .ok (some (Snapshot.format.write snapshot)))
      (hlast : snapshot.description.lastLogId = none) :
      Installation machine store snapshot (store.published snapshot state slot) (.ok ())
  | purging {state : σ} {slot : Option Slot} {id : LogId} {next : Store σ}
      {result : Except (Halt StorageError) Unit} (hstate : Restores machine snapshot state)
      (hfile : store.volume.TakesSnapshot)
      (hread : slot.map Slot.read = store.volume.snapshot.map fun _ =>
        .ok (some (Snapshot.format.write snapshot)))
      (hlast : snapshot.description.lastLogId = some id)
      (hpurge : (store.published snapshot state slot).purge id = (next, result)) :
      Installation machine store snapshot next result

theorem installation_of_install {result : Except (Halt StorageError) Unit}
    (h : store.installSnapshot machine snapshot = (next, result)) :
    Installation machine store snapshot next result := by
  unfold installSnapshot at h
  split at h
  next failure hcontent =>
    cases h
    exact .unread fun state ⟨_, hfound, _⟩ => nomatch hcontent.symm.trans hfound
  next content hcontent =>
    split at h
    next failure hstate =>
      cases h
      refine .unread fun state ⟨_, hfound, hrestore⟩ => ?_
      obtain rfl := Except.ok.inj (hcontent.symm.trans hfound)
      exact nomatch hstate.symm.trans hrestore
    next state hstate =>
      have hrestores : Restores machine snapshot state := ⟨content, hcontent, hstate⟩
      rcases (store.atSnapshot snapshot state).writeSnapshot_cases snapshot with
        ⟨hfile, slot, hwrite, hread⟩ | ⟨hfile, slot, error, hwrite, hread⟩
      · simp only [hwrite] at h
        split at h
        next hlast =>
          cases h
          exact .whole hrestores hread hlast
        next id hlast => exact .purging hrestores hfile hread hlast h
      · simp only [hwrite] at h
        cases h
        exact .unfiled hrestores hfile hread

/-- What is left of a store where a snapshot was installed. It may be that purging the log
failed or broke off after that. -/
structure Installed (store next : Store σ) (snapshot : Snapshot) (state : σ) : Prop where
  progress : next.progress =
    ⟨state, snapshot.description.lastLogId, snapshot.description.lastMembership⟩
  current : next.current = some snapshot
  log : (∀ id ∈ snapshot.description.lastLogId, id.HasNext) →
    next.log = snapshot.description.lastLogId.elim store.log fun id =>
      store.log.since (id.index + 1)
  purged : next.hardState.lastPurged = store.hardState.lastPurged ∨
    next.hardState.lastPurged = snapshot.description.lastLogId
  file : next.readSnapshot = store.volume.snapshot.map fun _ =>
    .ok (some (Snapshot.format.write snapshot))

/-- What is left where it was not: at most the state machine is that of the snapshot. -/
structure NotInstalled (store next : Store σ) (snapshot : Snapshot) : Prop where
  applied : next.lastApplied = store.lastApplied ∨
    next.lastApplied = snapshot.description.lastLogId
  current : next.current = store.current
  hardState : next.hardState = store.hardState
  file : next.readSnapshot = store.readSnapshot

/-- The log is purged last, and done or not, the snapshot stays installed. -/
theorem installed_of_purge {state : σ} {slot : Option Slot} {id : LogId}
    (hlast : snapshot.description.lastLogId = some id)
    (hread : slot.map Slot.read = store.volume.snapshot.map fun _ =>
      .ok (some (Snapshot.format.write snapshot))) :
    Installed store ((store.published snapshot state slot).purge id).1 snapshot state := by
  obtain ⟨log, hardState, logSlot, hardSlot, hpurge, hcut, hpurged⟩ :=
    (store.published snapshot state slot).purge_spec id
  rw [hpurge]
  refine ⟨rfl, rfl, fun hnext => ?_, ?_, hread⟩
  · rw [hlast]
    exact hcut (hnext id hlast)
  · rw [hlast]
    rcases hpurged with rfl | rfl
    · exact .inl rfl
    · exact .inr rfl

theorem installSnapshot_cases (machine : StateMachine σ) (store : Store σ)
    (snapshot : Snapshot) :
    (∃ state, Restores machine snapshot state ∧
      Installed store (store.installSnapshot machine snapshot).1 snapshot state) ∨
    ((store.installSnapshot machine snapshot).2 ≠ .ok () ∧
      NotInstalled store (store.installSnapshot machine snapshot).1 snapshot) := by
  rcases hinstall : store.installSnapshot machine snapshot with ⟨next, result⟩
  cases installation_of_install hinstall with
  | unread => exact .inr ⟨by simp, .inl rfl, rfl, rfl, rfl⟩
  -- The state machine is that of the snapshot already when the file fails.
  | unfiled _ _ hread => exact .inr ⟨by simp, .inr rfl, rfl, rfl, hread⟩
  | whole hstate hread hlast =>
      refine .inl ⟨_, hstate, rfl, rfl, fun _ => ?_, .inl rfl, hread⟩
      rw [hlast]
      rfl
  | purging hstate _ hread hlast hpurge =>
      refine .inl ⟨_, hstate, ?_⟩
      rw [← congrArg Prod.fst hpurge]
      exact installed_of_purge hlast hread

end Store
end Quorum
