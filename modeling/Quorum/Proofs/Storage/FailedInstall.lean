import Quorum.Proofs.Storage.FailedWrite

/-! # Failed installations of snapshots

A snapshot is taken over part after part, the state machine first and the log last, and what
was taken over is not given back when a later part fails. An installation that failed has
changed nothing just if it came no further than reading the snapshot, or if every part that it
replaced was the same already.
-/

namespace Quorum

variable {σ : Type} {machine : StateMachine σ} {store next : Store σ} {snapshot : Snapshot}

/-- The parts of memory that an installation replaces. -/
structure Remembered (σ : Type) where
  progress : Progress σ
  current : Option Snapshot
  log : Log
  lastPurged : Option LogId

namespace Store

def remembered (store : Store σ) : Remembered σ where
  progress := store.progress
  current := store.current
  log := store.log
  lastPurged := store.hardState.lastPurged

theorem remembered_eq_iff : next.remembered = store.remembered ↔
    next.progress = store.progress ∧ next.current = store.current ∧ next.log = store.log ∧
      next.hardState.lastPurged = store.hardState.lastPurged := by
  simp only [remembered, Remembered.mk.injEq]

/-- Whether what a failing installation replaces, as far as it comes, is as it is already. It
comes past the state machine if the file of the snapshot can be written. -/
def InstallUnnoticed (machine : StateMachine σ) (store : Store σ) (snapshot : Snapshot) : Prop :=
  ∀ state, Restores machine snapshot state →
    store.progress =
      ⟨state, snapshot.description.lastLogId, snapshot.description.lastMembership⟩ ∧
    (store.volume.TakesSnapshot →
      store.current = some snapshot ∧
        ∀ id ∈ snapshot.description.lastLogId, store.PurgeUnnoticed id)

theorem installUnnoticed_iff {state : σ} (h : Restores machine snapshot state) :
    store.InstallUnnoticed machine snapshot ↔
      store.progress =
        ⟨state, snapshot.description.lastLogId, snapshot.description.lastMembership⟩ ∧
      (store.volume.TakesSnapshot →
        store.current = some snapshot ∧
          ∀ id ∈ snapshot.description.lastLogId, store.PurgeUnnoticed id) := by
  constructor
  · exact fun hunnoticed => hunnoticed state h
  · intro hunnoticed other hother
    obtain rfl := h.unique hother
    exact hunnoticed

end Store

/-- A purge that failed touched nothing but the log and the hard state. -/
theorem Unwritten.of_purge {id : LogId} (h : Unwritten store (.purge id) next) :
    next.progress = store.progress ∧ next.current = store.current ∧
      (next.log = store.log ∧ next.hardState.lastPurged = store.hardState.lastPurged ↔
        store.PurgeUnnoticed id) := by
  rw [Store.PurgeUnnoticed, ← Log.since_eq_self_iff]
  cases h with
  | cut hlog => exact ⟨rfl, rfl, by simp [Store.cut, hlog]⟩
  | marked hlog => exact ⟨rfl, rfl, by simp [Store.cut, Store.marked, hlog, eq_comm]⟩

/-- An installation that fails leaves the state machine, what was applied, the current snapshot,
the log and the mark up to which it was purged as they were just if everything is as it is
already that was replaced before the failure. -/
theorem failed_install_unnoticed_iff {error : StorageError}
    (hfail : store.installSnapshot machine snapshot = (next, .error (.failed error))) :
    next.remembered = store.remembered ↔ store.InstallUnnoticed machine snapshot := by
  cases Store.installation_of_install hfail with
  | unread hunread => exact ⟨fun _ state hstate => absurd hstate (hunread state), fun _ => rfl⟩
  | unfiled hstate hfile =>
      rw [Store.installUnnoticed_iff hstate, Store.remembered_eq_iff]
      exact ⟨fun h => ⟨h.1.symm, fun husable => absurd husable hfile⟩,
        fun h => ⟨h.1.symm, rfl, rfl, rfl⟩⟩
  | @purging state slot id _ _ hstate hfile _ hlast hpurge =>
      have hfailed : (Operation.purge id).perform machine
          (store.published snapshot state slot) = (next, .error (.failed error)) := hpurge
      obtain ⟨hprogress, hcurrent, hunnoticed⟩ :=
        (Unwritten.of_failed (by trivial) hfailed).of_purge
      rw [Store.installUnnoticed_iff hstate, Store.remembered_eq_iff, hprogress, hcurrent]
      constructor
      · rintro ⟨happlied, hsnapshot, hrest⟩
        refine ⟨happlied.symm, fun _ => ⟨hsnapshot.symm, fun id hid => ?_⟩⟩
        obtain rfl := Option.some.inj (hlast.symm.trans hid)
        exact hunnoticed.mp hrest
      · rintro ⟨happlied, hrest⟩
        obtain ⟨hsnapshot, hpurged⟩ := hrest hfile
        exact ⟨happlied.symm, hsnapshot.symm, hunnoticed.mpr (hpurged _ hlast)⟩

/-- A snapshot whose file could not be written is applied, but is not the current one. -/
theorem failed_install_applied :
    let setup := Memory.setup ⟨"db-s"⟩ "raft_log.bin"
    let store : Store Memory := { setup.first with
      volume := { Volume.empty true with snapshot := some { temporary := .directory } } }
    let snapshot : Snapshot :=
      ⟨{ lastLogId := some ⟨1, 1, 5⟩ }, [1, 1, 1, 5, 0, 0, 0, 4, 0, 0, 0, 0]⟩
    store.Reached setup ∧ ∃ next,
      store.installSnapshot Memory.machine snapshot =
        (next, .error (.failed ⟨.writeSnapshot snapshot.description, .io .isDirectory⟩)) ∧
      next.lastApplied = some ⟨1, 1, 5⟩ ∧ next.current = none ∧
      next.remembered ≠ store.remembered := by
  intro setup store snapshot
  let next : Store Memory := { store with lastApplied := some ⟨1, 1, 5⟩ }
  have hfail : store.installSnapshot Memory.machine snapshot =
      (next, .error (.failed ⟨.writeSnapshot snapshot.description, .io .isDirectory⟩)) := rfl
  have hrestores : Store.Restores Memory.machine snapshot {} := ⟨⟨some ⟨1, 1, 5⟩, {}, _⟩, rfl, rfl⟩
  refine ⟨.obstruct (.start setup.open_empty) ⟨rfl, rfl, rfl⟩, next, hfail, rfl, rfl, ?_⟩
  intro hsame
  obtain ⟨happlied, -⟩ := (failed_install_unnoticed_iff hfail).mp hsame {} hrestores
  exact nomatch congrArg Progress.lastApplied happlied

end Quorum
