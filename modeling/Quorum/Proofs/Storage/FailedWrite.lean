import Quorum.Proofs.Storage.Obstruction

/-! # Failed writes

Entries are added to the file of the log before they are added to memory. Every other write
changes memory first, and does not undo that when its file cannot be written: what the store
answers from then on is forgotten by a restart, unless the write would have changed nothing.
-/

namespace Quorum

variable {σ : Type} {store next : Store σ} {operation : Operation}

namespace Log

theorem filter_eq_self_iff {log : Log} {test : Entry → Bool} :
    log.filter test = log ↔ ∀ entry ∈ log.entries, test entry = true := by
  rw [← List.filter_eq_self]
  exact ⟨congrArg entries, fun h => eq_of_entries_eq h⟩

theorem below_eq_self_iff {log : Log} {index : UInt64} :
    log.below index = log ↔ ∀ entry ∈ log.entries, entry.id.index < index := by
  simp only [below, filter_eq_self_iff, decide_eq_true_eq]

theorem since_eq_self_iff {log : Log} {index : UInt64} :
    log.since index = log ↔ ∀ entry ∈ log.entries, index ≤ entry.id.index := by
  simp only [since, filter_eq_self_iff, decide_eq_true_eq]

end Log

/-- Whether what a purge changes in memory, as far as it comes, is as it is already. -/
def Store.PurgeUnnoticed (store : Store σ) (id : LogId) : Prop :=
  (∀ entry ∈ store.log.entries, id.index + 1 ≤ entry.id.index) ∧
    (store.volume.log.Usable → store.hardState.lastPurged = some id)

/-- Whether what a failing write changes in memory is as it is already. -/
def Operation.Unnoticed (store : Store σ) : Operation → Prop
  | .saveVote vote => store.hardState.vote = some vote
  | .saveCommitted committed => store.hardState.committed = committed
  | .append _ => True
  | .deleteSince id => ∀ entry ∈ store.log.entries, entry.id.index < id.index
  | .purge id => store.PurgeUnnoticed id
  | .apply _ | .build | .install _ => True

namespace Unwritten

theorem of_failed {machine : StateMachine σ} (hwrite : operation.IsWrite) {error : StorageError}
    (hfail : operation.perform machine store = (next, .error (.failed error))) :
    Unwritten store operation next := by
  rcases operation.write_cases machine store hwrite with
    ⟨after, hdone, -⟩ | ⟨after, _, hfailed, hafter⟩ | hoverflow
  · cases hdone.symm.trans hfail
  · obtain ⟨rfl, -⟩ := Prod.mk.inj (hfailed.symm.trans hfail)
    exact hafter
  · cases hoverflow.symm.trans hfail

theorem answers_eq_iff (h : Unwritten store operation next) :
    next.answers = store.answers ↔ operation.Unnoticed store := by
  rw [Store.answers_eq_iff]
  cases h with
  | vote | committed => simp [Operation.Unnoticed, HardState.ext_iff, eq_comm]
  | append => simp [Operation.Unnoticed]
  | delete => simp [Operation.Unnoticed, Log.below_eq_self_iff]
  | cut hlog =>
      simp [Operation.Unnoticed, Store.PurgeUnnoticed, Store.cut, hlog, Log.since_eq_self_iff]
  | marked hlog =>
      simp [Operation.Unnoticed, Store.PurgeUnnoticed, Store.cut, Store.marked, hlog,
        Log.since_eq_self_iff, HardState.ext_iff, @eq_comm _ (some _), and_comm]

/-- The files of a store behind which a write failed can be opened. What they answer is what
the store answered before, unless the log file was purged already. -/
theorem exists_open {setup : Setup σ} (hbacked : store.Backed setup.machine)
    (h : Unwritten store operation next) :
    ∃ reopened, setup.open next.volume = (next.volume, .ok reopened) ∧
      (reopened.answers = store.answers ∨ ∃ id, operation = .purge id ∧
        store.volume.log.Usable ∧
        reopened.answers = { store with log := store.log.since (id.index + 1) }.answers) := by
  have hopen {volume : Volume} (hvolume : volume.Alike store.volume) :
      ∃ reopened, setup.open volume = (volume, .ok reopened) ∧
        reopened.answers = store.answers := by
    have hnext : Store.Backed setup.machine { store with volume } := hbacked.of_alike hvolume rfl
    obtain ⟨reopened, hopened, -, hanswers⟩ := hnext.exists_open
    exact ⟨reopened, hopened, hanswers⟩
  cases h with
  | vote hvolume | committed hvolume | delete hvolume | cut _ hvolume =>
      obtain ⟨reopened, hopened, hanswers⟩ := hopen hvolume
      exact ⟨reopened, hopened, .inl hanswers⟩
  | append =>
      obtain ⟨reopened, hopened, hanswers⟩ := hopen ⟨rfl, rfl, rfl⟩
      exact ⟨reopened, hopened, .inl hanswers⟩
  | @marked id volume hlog hvolume =>
      have hcut := hbacked.withLog_filter fun entry => id.index + 1 ≤ entry.id.index
      have hnext : Store.Backed setup.machine
          { store.withLog (store.log.since (id.index + 1)) with volume } :=
        hcut.of_alike hvolume rfl
      obtain ⟨reopened, hopened, -, hanswers⟩ := hnext.exists_open
      exact ⟨reopened, hopened, .inr ⟨id, rfl, hlog, hanswers⟩⟩

end Unwritten

/-- A write that fails leaves the answers of a store as they were just if what it changes in
memory is as it is already, and so the adding of entries always does. The files of a reachable
store can be opened afterwards and answer as the store did before, unless a purge wrote the log
file before it failed; they agree with the store wherever its answers stayed. -/
theorem failed_write_unnoticed_iff {setup : Setup σ} (hmachine : setup.machine.Recoverable)
    (hwrite : operation.IsWrite) {error : StorageError}
    (hfail : operation.perform setup.machine store = (next, .error (.failed error))) :
    (next.answers = store.answers ↔ operation.Unnoticed store) ∧
    (store.Reached setup →
      ∃ reopened, setup.open next.volume = (next.volume, .ok reopened) ∧
        (operation.Unnoticed store → reopened.answers = next.answers) ∧
        (reopened.answers = store.answers ∨ ∃ id, operation = .purge id ∧
          store.volume.log.Usable ∧
          reopened.answers = { store with log := store.log.since (id.index + 1) }.answers)) := by
  have hunwritten := Unwritten.of_failed hwrite hfail
  refine ⟨hunwritten.answers_eq_iff, fun reached => ?_⟩
  have hbacked := reached.backed hmachine
  obtain ⟨reopened, hopen, hreopened⟩ := hunwritten.exists_open hbacked
  refine ⟨reopened, hopen, fun hunnoticed => ?_, hreopened⟩
  -- Where memory has not changed it is still found in the files.
  have hanswers := hunwritten.answers_eq_iff.mpr hunnoticed
  obtain ⟨found, hfound, -, hagree⟩ := (hbacked.of_unwritten hunwritten hanswers).exists_open
  obtain rfl : found = reopened := by simpa [hopen] using hfound.symm
  exact hagree

/-- A vote that could not be written is told until the store is opened again. -/
theorem failed_vote_forgotten :
    let setup := Memory.setup ⟨"db-s"⟩ "raft_log.bin"
    let store : Store Memory := { setup.first with
      volume := { Volume.empty true with hardState := { temporary := .directory } } }
    let vote : Vote := ⟨3, 1, false⟩
    ∃ next reopened,
      (Operation.saveVote vote).perform setup.machine store =
        (next, .error (.failed
          ⟨.writeVote, .failed (.storage "Is a directory (os error 21)")⟩)) ∧
      next.answers.vote = some vote ∧
      setup.open next.volume = (next.volume, .ok reopened) ∧ reopened.answers.vote = none := by
  intro setup store vote
  let next : Store Memory := { store with hardState := { vote := some vote } }
  have hfail : (Operation.saveVote vote).perform setup.machine store =
      (next, .error (.failed
        ⟨.writeVote, .failed (.storage "Is a directory (os error 21)")⟩)) := rfl
  have reached : store.Reached setup := .obstruct (.start setup.open_empty) ⟨rfl, rfl, rfl⟩
  obtain ⟨-, hreopen⟩ := failed_write_unnoticed_iff Memory.recoverable (by trivial) hfail
  obtain ⟨reopened, hopen, -, hanswers⟩ := hreopen reached
  refine ⟨next, reopened, hfail, rfl, hopen, ?_⟩
  rcases hanswers with hanswers | ⟨_, hpurge, -⟩
  · rw [hanswers]
    rfl
  · cases hpurge

end Quorum
