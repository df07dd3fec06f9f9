import Quorum.Proofs.Command.Entry
import Quorum.Proofs.Storage.Durable

/-! # Recovery of the state machine

How far applying has come is determined by what a restart keeps: the current snapshot
holds a state, and the entries stored behind it lead from there to where the state machine
is. No entry that is needed for this is purged or replaced, as long as the store is used
as its contract says.
-/

namespace Quorum

variable {σ : Type} {machine : StateMachine σ} {store next other : Store σ} {entry : Entry}

/-- A state machine whose snapshots restore the very state they were taken of. -/
def StateMachine.Faithful (machine : StateMachine σ) : Prop :=
  ∀ state bytes, machine.snapshot state = .ok bytes → bytes.Fits →
    machine.restore bytes = .ok state

theorem StateMachine.Faithful.recoverable (h : machine.Faithful) : machine.Recoverable :=
  fun state bytes hbytes hfits => ⟨state, h state bytes hbytes hfits⟩

theorem Memory.faithful : Memory.machine.Faithful := by
  rintro state _ ⟨⟩ hfits
  exact Memory.restore_snapshot hfits

/-! ## Progress -/

namespace Store

theorem lastApplied_applyEntry (store : Store σ) (entry : Entry) :
    (store.applyEntry machine entry).1.lastApplied = some entry.id := by
  unfold applyEntry
  split
  next => rfl
  next data =>
    unfold feed
    split
    next => rfl
    next =>
      dsimp only
      split <;> rfl
  next => rfl

/-- What applying an entry leads to depends on the progress before it only. -/
theorem progress_applyEntry (h : store.progress = other.progress) (entry : Entry) :
    (store.applyEntry machine entry).1.progress = (other.applyEntry machine entry).1.progress := by
  simp only [progress, Progress.mk.injEq] at h
  obtain ⟨hstate, happlied, hmembership⟩ := h
  unfold applyEntry
  split
  next => simp only [progress, markApplied, hstate, hmembership]
  next data =>
    unfold feed
    split
    next => simp only [progress, markApplied, hstate, hmembership]
    next =>
      simp only [markApplied, hstate]
      split <;> simp only [progress, hmembership]
  next => simp only [progress, markApplied, noteMembership, hstate]

/-- So do the results of applying. -/
theorem result_applyEntry (h : store.progress = other.progress) (entry : Entry) :
    (store.applyEntry machine entry).2 = (other.applyEntry machine entry).2 := by
  have hstate : store.state = other.state := congrArg Progress.state h
  unfold applyEntry
  split
  next => rfl
  next data =>
    simp only [feed, markApplied, hstate]
    split
    next => rfl
    next => split <;> rfl
  next => rfl

theorem progress_applyAll (h : store.progress = other.progress) (entries : List Entry) :
    (store.applyAll machine entries).1.progress = (other.applyAll machine entries).1.progress := by
  induction entries generalizing store other with
  | nil => exact h
  | cons entry rest ih => exact ih (progress_applyEntry h entry)

theorem results_applyAll (h : store.progress = other.progress) (entries : List Entry) :
    (store.applyAll machine entries).2 = (other.applyAll machine entries).2 := by
  induction entries generalizing store other with
  | nil => rfl
  | cons entry rest ih =>
      exact List.cons_eq_cons.mpr
        ⟨result_applyEntry h entry, ih (progress_applyEntry h entry)⟩

theorem replay_congr (store other : Store σ) (origin : Progress σ) (entries : List Entry) :
    ((store.resume origin).applyAll machine entries).1.progress =
      ((other.resume origin).applyAll machine entries).1.progress :=
  @progress_applyAll σ machine (store.resume origin) (other.resume origin) rfl entries

theorem applyAll_append (store : Store σ) (entries more : List Entry) :
    (store.applyAll machine (entries ++ more)).1 =
      ((store.applyAll machine entries).1.applyAll machine more).1 := by
  induction entries generalizing store with
  | nil => rfl
  | cons entry rest ih => exact ih (store.applyEntry machine entry).1

/-- The result of an entry is that of applying it behind those in front of it. -/
theorem getElem?_results (store : Store σ) (entries : List Entry) (position : Nat) :
    (store.applyAll machine entries).2[position]? = entries[position]?.map fun entry =>
      ((store.applyAll machine (entries.take position)).1.applyEntry machine entry).2 := by
  induction entries generalizing store position with
  | nil => rfl
  | cons first rest ih =>
      cases position with
      | zero => rfl
      | succ position => exact ih (store.applyEntry machine first).1 position

/-- It does not change when more entries are applied behind it. -/
theorem getElem?_results_append (store : Store σ) {entries : List Entry} {position : Nat}
    (h : position < entries.length) (more : List Entry) :
    (store.applyAll machine (entries ++ more)).2[position]? =
      (store.applyAll machine entries).2[position]? := by
  rw [getElem?_results, getElem?_results, List.getElem?_append_left h,
    List.take_append_of_le_length (Nat.le_of_lt h)]

end Store

/-! ## Replaying -/

variable {origin : Progress σ}

/-- The entries stored behind an origin lead from there to where the store is. -/
structure Replays (machine : StateMachine σ) (origin : Progress σ) (store : Store σ) : Prop where
  replayed : ((store.resume origin).applyAll machine
    (store.log.between origin.lastApplied store.lastApplied)).1.progress = store.progress
  reached : store.lastApplied = origin.lastApplied ∨
    ∃ entry ∈ store.log.between origin.lastApplied store.lastApplied,
      store.lastApplied = some entry.id

namespace Replays

theorem refl (machine : StateMachine σ) (store : Store σ) :
    Replays machine store.progress store := by
  refine ⟨?_, .inl rfl⟩
  rw [show store.progress.lastApplied = store.lastApplied from rfl, Log.between_self]
  rfl

/-- What the origin covers was applied. -/
theorem covers (h : Replays machine origin store) {index : UInt64}
    (hcovers : LogId.covers origin.lastApplied index) :
    LogId.covers store.lastApplied index := by
  rcases h.reached with happlied | ⟨entry, hentry, happlied⟩
  · rwa [happlied]
  · rw [happlied, LogId.covers_some]
    refine UInt64.le_of_lt (UInt64.not_le.mp fun hle => ?_)
    exact (Log.mem_between.mp hentry).2.1 (LogId.covers_of_le hle hcovers)

/-- Only the progress and the entries that were applied since the origin matter. -/
theorem congr (h : Replays machine origin store) (hprogress : next.progress = store.progress)
    (hlog : ∀ index, ¬ LogId.covers origin.lastApplied index →
      LogId.covers store.lastApplied index → next.log.get? index = store.log.get? index) :
    Replays machine origin next := by
  have happlied : next.lastApplied = store.lastApplied := congrArg Progress.lastApplied hprogress
  have hbetween := Log.between_congr hlog
  constructor
  · rw [happlied, hbetween, hprogress]
    exact (Store.replay_congr next store origin _).trans h.replayed
  · rw [happlied, hbetween]
    exact h.reached

/-- Applying the next stored entry is applying one entry more since the origin. -/
theorem applyEntry (h : Replays machine origin store) {rest : List Entry}
    (hnext : store.log.after store.lastApplied = entry :: rest) :
    Replays machine origin (store.applyEntry machine entry).1 := by
  have hlog : (store.applyEntry machine entry).1.log = store.log := by
    rw [Store.applyEntry_eq_resume]
    rfl
  have hbetween := Log.between_next hnext fun _ => h.covers
  constructor
  · rw [Store.lastApplied_applyEntry, hlog, hbetween, Store.applyAll_append]
    refine (Store.progress_applyAll ?_ [entry]).trans (Store.progress_applyEntry rfl entry)
    exact (Store.replay_congr _ store origin _).trans h.replayed
  · rw [Store.lastApplied_applyEntry, hlog, hbetween]
    exact .inr ⟨entry, List.mem_append_right _ List.mem_cons_self, rfl⟩

theorem applyAll (h : Replays machine origin store) {entries : List Entry}
    (hentries : entries <+: store.log.after store.lastApplied) :
    Replays machine origin (store.applyAll machine entries).1 := by
  induction entries generalizing store with
  | nil => exact h
  | cons entry rest ih =>
      obtain ⟨more, hmore⟩ := hentries
      have hlog : (store.applyEntry machine entry).1.log = store.log := by
        rw [Store.applyEntry_eq_resume]
        rfl
      refine @ih (store.applyEntry machine entry).1 (h.applyEntry hmore.symm) ?_
      rw [Store.lastApplied_applyEntry, hlog, Log.after_next hmore.symm]
      exact List.prefix_append rest more

end Replays

/-! ## The contract -/

/-- What the caller of a store has to keep to. New entries are behind the last place,
entries are applied in the order of the log without leaving one out, only what was not
applied is deleted and only what the current snapshot covers is purged. -/
def Operation.Lawful (store : Store σ) : Operation → Prop
  | .append entries => ∀ entry ∈ entries, ¬ LogId.covers store.lastLogId entry.id.index
  | .apply entries => entries <+: store.log.after store.lastApplied
  | .deleteSince id => ¬ LogId.covers store.lastApplied id.index
  | .purge id => ∃ snapshot ∈ store.current,
      LogId.covers snapshot.description.lastLogId id.index
  | .saveVote _ | .saveCommitted _ | .build | .install _ => True

/-- The progress of the current snapshot, or that of the first state without one. -/
def Setup.Origin (setup : Setup σ) (origin : Progress σ) : Option Snapshot → Prop
  | none => origin = ⟨setup.fresh, none, {}⟩
  | some snapshot => ∃ state, Store.Restores setup.machine snapshot state ∧
      origin = ⟨state, snapshot.description.lastLogId, snapshot.description.lastMembership⟩

section

variable {setup : Setup σ}

theorem Setup.Origin.unique {otherOrigin : Progress σ} {current : Option Snapshot}
    (h : setup.Origin origin current) (hother : setup.Origin otherOrigin current) :
    origin = otherOrigin := by
  cases current with
  | none => exact h.trans hother.symm
  | some snapshot =>
      obtain ⟨state, hstate, rfl⟩ := h
      obtain ⟨otherState, hotherState, rfl⟩ := hother
      rw [hstate.unique hotherState]

/-- A store that was just opened is at its origin. -/
theorem Setup.origin_store {volume : Volume} {log : Log} {hardState : HardState}
    {recovered : Option (Snapshot × σ)}
    (hrestores : ∀ snapshot state, recovered = some (snapshot, state) →
      Store.Restores setup.machine snapshot state) :
    setup.Origin (setup.store volume log hardState recovered).progress
      (setup.store volume log hardState recovered).current := by
  cases recovered with
  | none => rfl
  | some found => exact ⟨found.2, hrestores found.1 found.2 rfl, rfl⟩

/-- The progress of a store can be made up for from its origin. -/
def Setup.Recovers (setup : Setup σ) (store : Store σ) : Prop :=
  ∃ origin, setup.Origin origin store.current ∧ Replays setup.machine origin store

/-- What was applied since the origin is in the log, so the last place covers it. -/
theorem Replays.covers_lastLogId (h : Replays machine origin store) {index : UInt64}
    (horigin : ¬ LogId.covers origin.lastApplied index)
    (happlied : LogId.covers store.lastApplied index) :
    LogId.covers store.lastLogId index := by
  rcases h.reached with hsame | ⟨entry, hentry, hsome⟩
  · rw [hsame] at happlied
    exact absurd happlied horigin
  · obtain ⟨last, hlast, hle⟩ := Log.le_last (Log.mem_between.mp hentry).1
    rw [hsome, LogId.covers_some] at happlied
    rw [Store.lastLogId, hlast, LogId.covers_some]
    exact UInt64.le_trans happlied hle

/-- An operation that keeps to the contract keeps what is needed for the recovery. -/
theorem Setup.Recovers.of_effect (hmachine : setup.machine.Faithful)
    (h : setup.Recovers store) {operation : Operation} (hlawful : operation.Lawful store)
    (heffect : operation.Effect setup.machine store next) : setup.Recovers next := by
  obtain ⟨origin, horigin, hreplays⟩ := h
  cases operation with
  | saveVote vote =>
      obtain rfl := heffect
      exact ⟨origin, horigin, hreplays.congr rfl fun _ _ _ => rfl⟩
  | saveCommitted committed =>
      obtain rfl := heffect
      exact ⟨origin, horigin, hreplays.congr rfl fun _ _ _ => rfl⟩
  | append entries =>
      obtain ⟨slot, _, rfl⟩ := heffect
      refine ⟨origin, horigin, hreplays.congr rfl fun index hnot hcovers => ?_⟩
      have hlast := hreplays.covers_lastLogId hnot hcovers
      have hnone : entries.reverse.find? (·.id.index = index) = none := by
        refine List.find?_eq_none.mpr fun entry hentry hindex => ?_
        have hbehind := hlawful entry (List.mem_reverse.mp hentry)
        rw [of_decide_eq_true hindex] at hbehind
        exact hbehind hlast
      refine (store.log.get?_insertAll entries index).trans ?_
      rw [hnone, Option.none_or]
  | deleteSince id =>
      obtain rfl := heffect
      refine ⟨origin, horigin, hreplays.congr rfl fun index _ hcovers => ?_⟩
      refine (store.log.get?_below id.index index).trans (if_pos ?_)
      exact UInt64.not_le.mp fun hle => hlawful (LogId.covers_of_le hle hcovers)
  | purge id =>
      obtain rfl := heffect
      obtain ⟨snapshot, hcurrent, hcovered⟩ := hlawful
      refine ⟨origin, horigin, hreplays.congr rfl fun index hnot _ => ?_⟩
      have hbehind : ¬ index ≤ id.index := by
        intro hle
        rw [Option.mem_def.mp hcurrent] at horigin
        obtain ⟨state, _, rfl⟩ := horigin
        exact hnot (LogId.covers_of_le hle hcovered)
      exact store.log.get?_since_of_lt (UInt64.not_le.mp hbehind)
  | apply entries =>
      obtain rfl := heffect
      refine ⟨origin, ?_, hreplays.applyAll hlawful⟩
      rw [Store.applyAll_eq_resume]
      exact horigin
  | build =>
      obtain ⟨bytes, hbytes, hfits, rfl⟩ := heffect
      have hrestore := hmachine _ _ hbytes (Store.fits_state_of_nextSnapshot hfits)
      exact ⟨store.progress, ⟨store.state, Store.restores_nextSnapshot hfits hrestore, rfl⟩,
        (Replays.refl setup.machine store).congr rfl fun _ _ _ => rfl⟩
  | install snapshot =>
      obtain ⟨state, hstate, rfl⟩ := heffect
      refine ⟨_, ?_, .refl _ _⟩
      unfold Store.installed
      split
      next => exact ⟨state, hstate, rfl⟩
      next => exact ⟨state, hstate, rfl⟩

/-! ## Runs in the contract -/

/-- What the contract asks of an operation, and that its bytes are in range. -/
def Operation.InContract (machine : StateMachine σ) (store : Store σ) (operation : Operation) :
    Prop :=
  operation.Sized machine store ∧ operation.Lawful store

variable {events : List Event}

theorem Run.durable_of_inContract (hmachine : setup.machine.Recoverable)
    (hrun : Run setup (Operation.InContract setup.machine) events store) :
    store.Durable setup.machine :=
  hrun.durable hmachine fun _ _ hallowed => hallowed.1

theorem Run.recovers (hmachine : setup.machine.Faithful)
    (hrun : Run setup (Operation.InContract setup.machine) events store) :
    setup.Recovers store := by
  induction hrun with
  | start hdone =>
      obtain rfl := Setup.eq_first_of_open hdone
      exact ⟨_, Setup.origin_store (by simp), .refl setup.machine _⟩
  | perform before hallowed hdone ih =>
      have hdurable := before.durable_of_inContract hmachine.recoverable
      exact ih.of_effect hmachine hallowed.2 (hdurable.effect hallowed.1 hdone)
  | reopen before hdone ih =>
      have hdurable := before.durable_of_inContract hmachine.recoverable
      obtain ⟨found, hfound, rfl⟩ := Setup.eq_of_open hdurable hdone
      obtain ⟨recovered, hrecovered, _, hrestores⟩ := hdurable.loadSnapshot
      obtain rfl : found = recovered := by simpa [hfound] using hrecovered
      exact ⟨_, Setup.origin_store hrestores, .refl setup.machine _⟩

/-- The files of a store that was used in the contract make its progress again: that of
the snapshot after a reopening, and with the stored entries behind it all of it. -/
theorem Run.replays_after_reopening (hmachine : setup.machine.Faithful)
    (hsnapshot : setup.useSnapshot = true)
    (hrun : Run setup (Operation.InContract setup.machine) events store) :
    ∃ reopened, setup.open store.volume = (store.volume, .ok reopened) ∧
      (reopened.applyAll setup.machine
        (reopened.log.between reopened.lastApplied store.lastApplied)).1.progress =
          store.progress := by
  have hdurable := hrun.durable_of_inContract hmachine.recoverable
  have hisSome := hrun.snapshot_isSome hmachine.recoverable fun _ _ hallowed => hallowed.1
  obtain ⟨recovered, hrecovered, hcurrent, hrestores⟩ := hdurable.loadSnapshot
  obtain ⟨origin, horigin, hreplays⟩ := hrun.recovers hmachine
  refine ⟨_, Setup.open_durable hdurable hrecovered, ?_⟩
  have hreopened := @Setup.origin_store σ setup store.volume store.log store.hardState recovered
    hrestores
  rw [Setup.store_current, hcurrent (hisSome.trans hsnapshot)] at hreopened
  obtain rfl := horigin.unique hreopened
  rw [Setup.store_log]
  refine (Store.progress_applyAll ?_ _).trans hreplays.replayed
  rfl

end

/-- A memory recovers: after a reopening of the same files, applying the stored entries
after the restored place up to the one that was applied last makes the memory, that place
and the membership what they were. -/
theorem memory_recovers {group : GroupId} {logPath : String} {events : List Event}
    {store : Store Memory}
    (hrun : Run (Memory.setup group logPath) (Operation.InContract Memory.machine) events store) :
    ∃ reopened replayed, (Memory.setup group logPath).open store.volume =
        (store.volume, .ok reopened) ∧
      (reopened.applyAll Memory.machine
        (reopened.log.between reopened.lastApplied store.lastApplied)).1 = replayed ∧
      replayed.state = store.state ∧ replayed.lastApplied = store.lastApplied ∧
      replayed.lastMembership = store.lastMembership := by
  obtain ⟨reopened, hopen, hprogress⟩ := hrun.replays_after_reopening Memory.faithful rfl
  simp only [Store.progress, Progress.mk.injEq] at hprogress
  exact ⟨reopened, _, hopen, rfl, hprogress⟩

/-- A command is given to the memory with the index and the term of its entry. -/
theorem Store.applyEntry_command (store : Store Memory) (id : LogId) (command : Command) :
    store.applyEntry Memory.machine ⟨id, .normal command.toEntry⟩ =
      ({ store.markApplied id with state := (store.state.apply id.index id.term command).1 },
        (store.state.apply id.index id.term command).2) := by
  simp only [applyEntry, feed, Command.ofEntry_toEntry]
  rfl

/-- Of two increments the snapshot covers the first, and the second is replayed: the memory that
is rebuilt counts both. -/
theorem memory_recovers_around_build :
    let increment (n : Int64) : Command := ⟨.incrCounter, Memory.signedBytes n⟩
    let entries : List Entry := [⟨⟨1, 1, 0⟩, .membership (.ofLists [[1]] [])⟩,
      ⟨⟨1, 1, 1⟩, .normal (increment 1).toEntry⟩, ⟨⟨1, 1, 2⟩, .blank⟩,
      ⟨⟨1, 1, 3⟩, .normal (increment 2).toEntry⟩]
    ∃ store, Run (Memory.setup ⟨"db-s"⟩ "raft_log.bin") (Operation.InContract Memory.machine)
        [.performed (.append entries), .performed (.apply (entries.take 2)), .performed .build,
          .performed (.apply (entries.drop 2))] store ∧
      store.lastApplied = some ⟨1, 1, 3⟩ ∧
      ∃ reopened replayed, (Memory.setup ⟨"db-s"⟩ "raft_log.bin").open store.volume =
          (store.volume, .ok reopened) ∧
        (reopened.applyAll Memory.machine
          (reopened.log.between reopened.lastApplied (some ⟨1, 1, 3⟩))).1 = replayed ∧
        replayed.state = ⟨3, 1, [increment 1, increment 2], 3⟩ ∧
        replayed.lastApplied = some ⟨1, 1, 3⟩ ∧
        replayed.lastMembership = ⟨some ⟨1, 1, 0⟩, .ofLists [[1]] []⟩ := by
  intro increment entries
  let setup := Memory.setup ⟨"db-s"⟩ "raft_log.bin"
  let membership : StoredMembership := ⟨some ⟨1, 1, 0⟩, .ofLists [[1]] []⟩
  have happend : Operation.InContract Memory.machine setup.first (.append entries) := by
    have hnone : setup.first.lastLogId = none := rfl
    refine ⟨show ∀ entry ∈ _, Record.Fits _ by decide +kernel, ?_⟩
    simp [Operation.Lawful, hnone, entries]
  have happly : ∀ (store : Store Memory) (applied : List Entry),
      applied <+: store.log.after store.lastApplied →
      Operation.InContract Memory.machine store (.apply applied) :=
    fun _ _ hprefix => ⟨trivial, hprefix⟩
  have hperform : ∀ (store : Store Memory) (applied : List Entry) (progress : Progress Memory),
      (store.applyAll Memory.machine applied).1.progress = progress →
      (Operation.apply applied).perform Memory.machine store = (store.resume progress, .ok ()) := by
    rintro store applied _ rfl
    exact congrArg (·, Except.ok ()) (store.applyAll_eq_resume applied)
  let appended := (setup.first.append entries).1
  have hfirst : (appended.applyAll Memory.machine (entries.take 2)).1.progress =
      ⟨⟨1, 1, [increment 1], 1⟩, some ⟨1, 1, 1⟩, membership⟩ := by
    have hstate : appended.state = {} := rfl
    simp only [entries, List.take, Store.applyAll, Store.applyEntry_command]
    simp [Store.progress, Store.applyEntry, Store.noteMembership, Store.markApplied, hstate]
    decide
  let applied := appended.resume ⟨⟨1, 1, [increment 1], 1⟩, some ⟨1, 1, 1⟩, membership⟩
  have hrun : Run setup (Operation.InContract Memory.machine)
      [.performed (.append entries), .performed (.apply (entries.take 2))] applied :=
    ((Run.start (Setup.open_empty setup)).perform happend rfl).perform
      (happly appended _ ⟨entries.drop 2, rfl⟩) (hperform appended _ _ hfirst)
  have husable := (hrun.durable_of_inContract Memory.recoverable).usable
  have hbuild : Operation.build.InContract Memory.machine applied :=
    ⟨Memory.build_sized husable (by decide +kernel), trivial⟩
  let built : Store Memory :=
    { applied.withSnapshot (applied.nextSnapshot applied.state.snapshot) with
      built := applied.built + 1 }
  have hlast : (built.applyAll Memory.machine (entries.drop 2)).1.progress =
      ⟨⟨3, 1, [increment 1, increment 2], 3⟩, some ⟨1, 1, 3⟩, membership⟩ := by
    have hstate : built.state = ⟨1, 1, [increment 1], 1⟩ := rfl
    have hmembership : built.lastMembership = membership := rfl
    simp only [entries, List.drop, Store.applyAll, Store.applyEntry_command]
    simp [Store.progress, Store.applyEntry, Store.markApplied, hstate, hmembership]
    decide
  have hrun := (hrun.perform hbuild (Memory.build_performed husable)).perform
    (happly built _ ⟨[], rfl⟩) (hperform built _ _ hlast)
  exact ⟨_, hrun, rfl, memory_recovers hrun⟩

end Quorum
