import Quorum.Proofs.Storage.Run

/-! # What operations do to usable files

While no directory stands in a file's place, every write is done and each operation leaves
one determined store: memory as the operation changes it and the files it writes with
exactly that content. Opening files that can be read makes one determined store as well.
-/

namespace Quorum

/-- Whether all files can be read and replaced. -/
structure Volume.Usable (volume : Volume) : Prop where
  log : volume.log.Usable
  hardState : volume.hardState.Usable
  snapshot : ∀ slot ∈ volume.snapshot, slot.Usable

/-- How far the applying of entries has come. -/
structure Progress (σ : Type) where
  state : σ
  lastApplied : Option LogId := none
  lastMembership : StoredMembership := {}

namespace Store

variable {σ : Type} {machine : StateMachine σ} {store : Store σ}

/-! ## Stores with another part -/

/-- The store with a hard state in memory and in its file. -/
def withHardState (store : Store σ) (hardState : HardState) : Store σ :=
  { store with
    hardState
    volume := { store.volume with hardState := .holding (HardState.format.write hardState) } }

/-- The store with a log in memory and in its file, written whole. -/
def withLog (store : Store σ) (log : Log) : Store σ :=
  { store with
    log
    volume := { store.volume with log := .holding (Record.frames log.records) } }

/-- The store with a current snapshot in memory and in its file, if it has one. -/
def withSnapshot (store : Store σ) (snapshot : Snapshot) : Store σ :=
  { store with
    current := some snapshot
    volume := { store.volume with
      snapshot := store.volume.snapshot.map fun _ => .holding (Snapshot.format.write snapshot) } }

def purged (store : Store σ) (id : LogId) : Store σ :=
  (store.withLog (store.log.since (id.index + 1))).withHardState
    { store.hardState with lastPurged := some id }

/-- The snapshot that is built while the state is written as the given bytes. -/
def nextSnapshot (store : Store σ) (state : Bytes) : Snapshot where
  description :=
    { lastLogId := store.lastApplied
      lastMembership := store.lastMembership
      snapshotId := snapshotName store.lastApplied (store.built + 1) }
  data := SnapshotContent.format.write ⟨store.lastApplied, store.lastMembership, state⟩

/-- The store after a snapshot with the given state was installed. -/
def installed (store : Store σ) (snapshot : Snapshot) (state : σ) : Store σ :=
  let next := (store.atSnapshot snapshot state).withSnapshot snapshot
  match snapshot.description.lastLogId with
  | none => next
  | some id => next.purged id

/-! ## Operations -/

theorem saveVote_eq (h : store.volume.Usable) (vote : Vote) :
    store.saveVote vote =
      (store.withHardState { store.hardState with vote := some vote }, .ok ()) := by
  simp only [saveVote, persistHardState, Slot.replace_of_usable h.hardState]
  rfl

theorem saveCommitted_eq (h : store.volume.Usable) (committed : Option LogId) :
    store.saveCommitted committed =
      (store.withHardState { store.hardState with committed }, .ok ()) := by
  simp only [saveCommitted, persistHardState, Slot.replace_of_usable h.hardState]
  rfl

theorem append_eq (h : store.volume.Usable) {entries : List Entry} (hentries : entries ≠ []) :
    store.append entries =
      ({ store with
          log := store.log.insertAll entries
          volume := { store.volume with
            log := { store.volume.log with
              file := .file (store.volume.log.content ++
                Record.frames (entries.map Entry.format.write)) } } }, .ok ()) := by
  have hrecords : entries.map Entry.format.write ≠ [] := mt List.map_eq_nil_iff.mp hentries
  simp only [append, Slot.addRecords_of_ne_nil hrecords, Slot.append_of_usable h.log]

theorem deleteSince_eq (h : store.volume.Usable) (id : LogId) :
    store.deleteSince id = (store.withLog (store.log.below id.index), .ok ()) := by
  simp only [deleteSince, rewriteLog, Slot.replace_of_usable h.log]
  rfl

/-- Where there is no next index, a purge breaks off and does nothing. -/
theorem purge_of_not_hasNext {id : LogId} (hnext : ¬ id.HasNext) :
    store.purge id = (store, .error .overflow) :=
  if_neg hnext

theorem purge_of_hasNext {id : LogId} (hnext : id.HasNext) :
    store.purge id = ((store.dropThrough id).1, reported .writeLogs (store.dropThrough id).2) :=
  if_pos hnext

theorem hasNext_of_purge {id : LogId} {next : Store σ} (h : store.purge id = (next, .ok ())) :
    id.HasNext := by
  by_cases hnext : id.HasNext
  · exact hnext
  · rw [purge_of_not_hasNext hnext] at h
    cases h

theorem dropThrough_eq (h : store.volume.Usable) (id : LogId) :
    store.dropThrough id = (store.purged id, .ok ()) := by
  simp only [dropThrough, rewriteLog, persistHardState, Slot.replace_of_usable h.log,
    Slot.replace_of_usable h.hardState]
  rfl

theorem purge_eq (h : store.volume.Usable) {id : LogId} (hnext : id.HasNext) :
    store.purge id = (store.purged id, .ok ()) := by
  rw [purge_of_hasNext hnext, dropThrough_eq h]
  rfl

theorem writeSnapshot_eq (h : store.volume.Usable) (snapshot : Snapshot) :
    store.writeSnapshot snapshot =
      ({ store.withSnapshot snapshot with current := store.current }, .ok ()) := by
  unfold writeSnapshot withSnapshot
  split
  next hnone =>
    rw [hnone, Option.map_none, ← hnone]
  next slot hslot =>
    rw [Slot.replace_of_usable (h.snapshot slot hslot), hslot]
    rfl

/-- A build reads, numbers and writes in one go if nothing comes between its steps. -/
theorem buildSnapshot_eq (h : store.volume.Usable) :
    store.buildSnapshot machine =
      match machine.snapshot store.state with
      | .ok state =>
          ({ store.withSnapshot (store.nextSnapshot state) with built := store.built + 1 },
            .ok (store.nextSnapshot state))
      | .error failure => (store, .error (.failed ⟨.readStateMachine, .failed failure⟩)) := by
  have hnumbered : ({ store with built := store.built + 1 } : Store σ).volume.Usable := h
  unfold buildSnapshot
  simp only [finishBuild, buildStep]
  cases machine.snapshot store.state with
  | error failure => simp [finishBuild]
  | ok state =>
      simp only [finishBuild, buildStep, writeSnapshot_eq hnumbered]
      rfl

theorem usable_withSnapshot (h : store.volume.Usable) (snapshot : Snapshot) :
    (store.withSnapshot snapshot).volume.Usable where
  log := h.log
  hardState := h.hardState
  snapshot := by
    intro slot hslot
    obtain ⟨before, _, rfl⟩ := Option.map_eq_some_iff.mp hslot
    exact Slot.usable_holding _

/-- An install ends with a purge, if the snapshot covers anything. -/
theorem installSnapshot_of_restores (h : store.volume.Usable) {snapshot : Snapshot} {state : σ}
    (hstate : Restores machine snapshot state) :
    store.installSnapshot machine snapshot =
      match snapshot.description.lastLogId with
      | none => ((store.atSnapshot snapshot state).withSnapshot snapshot, .ok ())
      | some id => ((store.atSnapshot snapshot state).withSnapshot snapshot).purge id := by
  obtain ⟨content, hcontent, hrestore⟩ := hstate
  have hstarted : (store.atSnapshot snapshot state).volume.Usable := h
  simp only [installSnapshot, hcontent, hrestore, writeSnapshot_eq hstarted]
  rfl

theorem installSnapshot_eq (h : store.volume.Usable) {snapshot : Snapshot} {state : σ}
    (hstate : Restores machine snapshot state)
    (hnext : ∀ id ∈ snapshot.description.lastLogId, id.HasNext) :
    store.installSnapshot machine snapshot = (store.installed snapshot state, .ok ()) := by
  rw [installSnapshot_of_restores h hstate, installed]
  cases hlast : snapshot.description.lastLogId with
  | none => rfl
  | some id => exact purge_eq (usable_withSnapshot (by exact h) snapshot) (hnext id hlast)

theorem restores_of_installSnapshot {next : Store σ} {snapshot : Snapshot}
    (h : store.installSnapshot machine snapshot = (next, .ok ())) :
    ∃ state, Restores machine snapshot state := by
  unfold installSnapshot at h
  split at h
  next => simp at h
  next content hcontent =>
    split at h
    next => simp at h
    next state hstate => exact ⟨state, content, hcontent, hstate⟩

/-- A snapshot that was installed covers no place without a next index. -/
theorem hasNext_of_installSnapshot {next : Store σ} {snapshot : Snapshot}
    (h : store.installSnapshot machine snapshot = (next, .ok ())) :
    ∀ id ∈ snapshot.description.lastLogId, id.HasNext := by
  intro id hid
  rw [Option.mem_def] at hid
  unfold installSnapshot at h
  split at h
  next => simp at h
  next content hcontent =>
    split at h
    next => simp at h
    next state hstate =>
      split at h
      next => simp at h
      next =>
        simp only [hid] at h
        exact hasNext_of_purge h

/-! ## Applying -/

def progress (store : Store σ) : Progress σ :=
  ⟨store.state, store.lastApplied, store.lastMembership⟩

def resume (store : Store σ) (progress : Progress σ) : Store σ :=
  { store with
    state := progress.state
    lastApplied := progress.lastApplied
    lastMembership := progress.lastMembership }

theorem applyEntry_eq_resume (entry : Entry) :
    (store.applyEntry machine entry).1 =
      store.resume (store.applyEntry machine entry).1.progress := by
  unfold applyEntry
  split
  next => rfl
  next data =>
    unfold feed
    split
    next => rfl
    next =>
      dsimp only
      split <;> rfl
  next => rfl

/-- Applying entries touches no file, and of memory nothing but the progress. -/
theorem applyAll_eq_resume (entries : List Entry) :
    (store.applyAll machine entries).1 =
      store.resume (store.applyAll machine entries).1.progress := by
  induction entries generalizing store with
  | nil => rfl
  | cons entry rest ih =>
      obtain ⟨progress, hentry⟩ : ∃ progress, (store.applyEntry machine entry).1 =
          store.resume progress := ⟨_, applyEntry_eq_resume entry⟩
      have hrest := @ih (store.applyEntry machine entry).1
      rw [applyAll, hrest, hentry]
      rfl

/-! ## Opening -/

end Store

namespace Setup

variable {σ : Type} {setup : Setup σ} {volume : Volume} {log : Log} {hardState : HardState}
  {recovered : Option (Snapshot × σ)}

/-- The store made of what was found in its files. -/
def store (setup : Setup σ) (volume : Volume) (log : Log) (hardState : HardState) :
    Option (Snapshot × σ) → Store σ
  | none =>
      { group := setup.group, logPath := setup.logPath, volume, log, hardState
        state := setup.fresh }
  | some (snapshot, state) =>
      Store.atSnapshot
        { group := setup.group, logPath := setup.logPath, volume, log, hardState, state
          current := some snapshot } snapshot state

@[simp] theorem store_volume : (setup.store volume log hardState recovered).volume = volume := by
  cases recovered <;> rfl

@[simp] theorem store_log : (setup.store volume log hardState recovered).log = log := by
  cases recovered <;> rfl

@[simp] theorem store_hardState :
    (setup.store volume log hardState recovered).hardState = hardState := by
  cases recovered <;> rfl

@[simp] theorem store_current :
    (setup.store volume log hardState recovered).current = recovered.map Prod.fst := by
  cases recovered <;> rfl

theorem open_eq {mended : Volume} {torn : Bool}
    (hhard : Store.loadHardState volume.hardState = .ok hardState)
    (hlog : Store.loadLog volume.log = .ok (log, torn))
    (hmend : Store.mendLog volume log torn = (mended, .ok ()))
    (hsnapshot : Store.loadSnapshot setup.machine mended.snapshot = .ok recovered) :
    setup.open volume = (mended, .ok (setup.store mended log hardState recovered)) := by
  simp only [Setup.open, Store.open, hhard, hlog, hmend, hsnapshot]
  cases recovered with
  | none => rfl
  | some found => rfl

/-- Mending writes the log file at most, and only where it is usable. -/
theorem of_mendLog {mended : Volume} {torn : Bool}
    (h : Store.mendLog volume log torn = (mended, .ok ())) :
    ∃ slot, (slot = volume.log ∨ volume.log.Usable ∧ slot.Usable) ∧
      mended = { volume with log := slot } := by
  unfold Store.mendLog at h
  split at h
  next =>
    rcases volume.log.replace_cases (Record.frames log.records) with
      ⟨husable, hdone⟩ | ⟨-, slot, cause, hdone, -⟩
    · rw [hdone] at h
      cases h
      exact ⟨_, .inr ⟨husable, Slot.usable_holding _⟩, rfl⟩
    · simp [hdone] at h
  next =>
    cases h
    exact ⟨volume.log, .inl rfl, rfl⟩

/-- An opening that is done makes its store of what it finds in the files, of which it
writes at most the log. -/
theorem of_open {after : Volume} {next : Store σ} (h : setup.open volume = (after, .ok next)) :
    ∃ slot log hardState recovered, (slot = volume.log ∨ volume.log.Usable ∧ slot.Usable) ∧
      Store.loadHardState volume.hardState = .ok hardState ∧
      Store.loadSnapshot setup.machine volume.snapshot = .ok recovered ∧
      after = { volume with log := slot } ∧
      next = setup.store { volume with log := slot } log hardState recovered := by
  rcases hhard : Store.loadHardState volume.hardState with failure | hardState
  · simp [Setup.open, Store.open, hhard] at h
  rcases hload : Store.loadLog volume.log with failure | ⟨log, torn⟩
  · simp [Setup.open, Store.open, hhard, hload] at h
  rcases hmend : Store.mendLog volume log torn with ⟨mended, failure | _⟩
  · simp [Setup.open, Store.open, hhard, hload, hmend] at h
  obtain ⟨slot, hslot, rfl⟩ := of_mendLog hmend
  rcases hsnapshot : Store.loadSnapshot setup.machine volume.snapshot with failure | recovered
  · simp [Setup.open, Store.open, hhard, hload, hmend, hsnapshot] at h
  rw [open_eq hhard hload hmend hsnapshot] at h
  cases h
  exact ⟨slot, log, hardState, recovered, hslot, rfl, rfl, rfl, rfl⟩

end Setup

namespace Memory

variable {memory : Store Memory}

/-- Of a memory a snapshot is always taken. -/
theorem build_performed (h : memory.volume.Usable) :
    Operation.build.perform machine memory =
      ({ memory.withSnapshot (memory.nextSnapshot memory.state.snapshot) with
          built := memory.built + 1 }, .ok ()) := by
  rw [Operation.perform, Store.buildSnapshot_eq h]
  rfl

theorem build_sized (h : memory.volume.Usable)
    (hfits : (Snapshot.format.write (memory.nextSnapshot memory.state.snapshot)).Fits) :
    Operation.build.Sized machine memory := by
  intro snapshot hsnapshot
  rw [Store.buildSnapshot_eq h] at hsnapshot
  cases hsnapshot
  exact hfits

end Memory

end Quorum
