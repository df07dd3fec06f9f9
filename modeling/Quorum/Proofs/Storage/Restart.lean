import Mathlib.Data.List.Induction
import Quorum.Proofs.Storage.Durable

/-! # Restarts go unnoticed

A run with reopenings anywhere is compared with the run of the same operations without
them. Log and hard state are the same after both, though the state machines and their
snapshots differ, and the log holds at each index what the operations say. No store is
needed to tell what that is, so the log is described by a function of its own.
-/

namespace Quorum

/-! ## The log that operations describe -/

namespace Operation

/-- The entries held at each index after an operation. -/
def describe (held : UInt64 → Option Entry) : Operation → UInt64 → Option Entry
  | .append entries => fun index =>
      (entries.reverse.find? (·.id.index = index)).or (held index)
  | .deleteSince id => fun index => if id.index ≤ index then none else held index
  | .purge id => fun index => if index ≤ id.index then none else held index
  | .install snapshot => fun index =>
      if LogId.covers snapshot.description.lastLogId index then none else held index
  | _ => held

/-- The entries held at each index after some operations on an empty log. -/
def describeAll (operations : List Operation) : UInt64 → Option Entry :=
  operations.foldl describe fun _ => none

/-- The index up to which the log is purged has a next one. -/
def Bounded : Operation → Prop
  | .purge id => id.HasNext
  | .install snapshot => ∀ id ∈ snapshot.description.lastLogId, id.HasNext
  | _ => True

end Operation

variable {σ : Type} {machine : StateMachine σ} {store next other otherNext : Store σ}

namespace Operation

/-- After an operation the log holds what the operation describes. -/
theorem Effect.get? {operation : Operation} (hbounded : operation.Bounded)
    (h : operation.Effect machine store next) :
    next.log.get? = operation.describe store.log.get? := by
  cases operation with
  | saveVote vote =>
      obtain rfl := h
      rfl
  | saveCommitted committed =>
      obtain rfl := h
      rfl
  | append entries =>
      obtain ⟨slot, _, rfl⟩ := h
      funext index
      exact store.log.get?_insertAll entries index
  | deleteSince id =>
      obtain rfl := h
      funext index
      refine (store.log.get?_below id.index index).trans ?_
      simp only [describe, ← UInt64.not_le, ite_not]
  | purge id =>
      obtain rfl := h
      funext index
      exact store.log.get?_since_succ hbounded index
  | apply entries =>
      obtain rfl := h
      rw [Store.applyAll_eq_resume]
      rfl
  | build =>
      obtain ⟨state, _, _, rfl⟩ := h
      rfl
  | install snapshot =>
      obtain ⟨state, _, rfl⟩ := h
      unfold Store.installed
      split
      next hnone =>
        funext index
        simp [describe, LogId.covers, hnone, Store.withSnapshot, Store.atSnapshot]
      next id hid =>
        funext index
        refine (store.log.get?_since_succ (hbounded id hid) index).trans ?_
        simp [describe, LogId.covers, hid]

/-- What an operation leaves of log and hard state depends on nothing else. -/
theorem Effect.congr {operation : Operation} (h : operation.Effect machine store next)
    (hother : operation.Effect machine other otherNext) (hlog : store.log = other.log)
    (hhard : store.hardState = other.hardState) :
    next.log = otherNext.log ∧ next.hardState = otherNext.hardState := by
  cases operation with
  | saveVote vote =>
      obtain rfl := h
      obtain rfl := hother
      simp [Store.withHardState, hlog, hhard]
  | saveCommitted committed =>
      obtain rfl := h
      obtain rfl := hother
      simp [Store.withHardState, hlog, hhard]
  | append entries =>
      obtain ⟨_, _, rfl⟩ := h
      obtain ⟨_, _, rfl⟩ := hother
      simp [hlog, hhard]
  | deleteSince id =>
      obtain rfl := h
      obtain rfl := hother
      simp [Store.withLog, hlog, hhard]
  | purge id =>
      obtain rfl := h
      obtain rfl := hother
      simp [Store.purged, Store.withLog, Store.withHardState, hlog, hhard]
  | apply entries =>
      obtain rfl := h
      obtain rfl := hother
      rw [Store.applyAll_eq_resume, @Store.applyAll_eq_resume σ machine other]
      exact ⟨hlog, hhard⟩
  | build =>
      obtain ⟨_, _, _, rfl⟩ := h
      obtain ⟨_, _, _, rfl⟩ := hother
      exact ⟨hlog, hhard⟩
  | install snapshot =>
      obtain ⟨_, _, rfl⟩ := h
      obtain ⟨_, _, rfl⟩ := hother
      unfold Store.installed
      split
      next => exact ⟨hlog, hhard⟩
      next =>
        simp [Store.purged, Store.withLog, Store.withHardState, Store.withSnapshot,
          Store.atSnapshot, hlog, hhard]

/-- Building and installing aside, every operation is reported done. -/
theorem performed (h : store.Durable machine) {operation : Operation}
    (hbounded : operation.Bounded)
    (hbuild : operation = .build → ∃ next, operation.perform machine store = (next, .ok ()))
    (hinstall : ∀ snapshot, operation = .install snapshot →
      ∃ state, Store.Restores machine snapshot state) :
    ∃ next, operation.perform machine store = (next, .ok ()) := by
  have husable := h.usable
  cases operation with
  | saveVote vote => exact ⟨_, Store.saveVote_eq husable vote⟩
  | saveCommitted committed => exact ⟨_, Store.saveCommitted_eq husable committed⟩
  | append entries =>
      by_cases hentries : entries = []
      · subst hentries
        exact ⟨store, rfl⟩
      · exact ⟨_, Store.append_eq husable hentries⟩
  | deleteSince id => exact ⟨_, Store.deleteSince_eq husable id⟩
  | purge id => exact ⟨_, Store.purge_eq husable hbounded⟩
  | apply entries => exact ⟨_, rfl⟩
  | build => exact hbuild rfl
  | install snapshot =>
      obtain ⟨state, hstate⟩ := hinstall snapshot rfl
      exact ⟨_, Store.installSnapshot_eq husable hstate hbounded⟩

/-- What a run needs of its operations: their bytes and indexes are in range. -/
def InRange (machine : StateMachine σ) (store : Store σ) (operation : Operation) : Prop :=
  operation.Sized machine store ∧ operation.Bounded

/-- Only of a build does it depend on the store whether it is in range. -/
theorem InRange.transfer {operation : Operation} (h : operation.InRange machine store)
    (hbuild : operation = .build → operation.Sized machine other) :
    operation.InRange machine other := by
  refine ⟨?_, h.2⟩
  cases operation with
  | build => exact hbuild rfl
  | saveVote | saveCommitted | append | deleteSince | purge | apply | install => exact h.1

end Operation

/-! ## Two runs -/

section

variable {setup : Setup σ} {events : List Event}

theorem Run.durable_of_inRange (hmachine : setup.machine.Recoverable)
    (hrun : Run setup (Operation.InRange setup.machine) events store) :
    store.Durable setup.machine :=
  hrun.durable hmachine fun _ _ hallowed => hallowed.1

theorem Run.eq_first {allowed : Store σ → Operation → Prop} (hrun : Run setup allowed [] store) :
    store = setup.first := by
  generalize hnil : ([] : List Event) = all at hrun
  cases hrun with
  | start hdone => exact Setup.eq_first_of_open hdone
  | perform => simp at hnil
  | reopen => simp at hnil

/-- Only an operation makes the last step of a run that ends with it. -/
theorem Run.of_concat_performed {allowed : Store σ → Operation → Prop} {operation : Operation}
    (hrun : Run setup allowed (events ++ [.performed operation]) next) :
    ∃ store, Run setup allowed events store ∧ allowed store operation ∧
      operation.perform setup.machine store = (next, .ok ()) := by
  generalize hall : events ++ [.performed operation] = all at hrun
  cases hrun with
  | start => simp at hall
  | perform before hallowed hdone =>
      obtain ⟨rfl, hlast⟩ := List.append_inj' hall rfl
      cases hlast
      exact ⟨_, before, hallowed, hdone⟩
  | reopen => simp at hall

theorem Run.of_concat_reopened {allowed : Store σ → Operation → Prop}
    (hrun : Run setup allowed (events ++ [.reopened]) next) :
    ∃ store volume, Run setup allowed events store ∧
      setup.open store.volume = (volume, .ok next) := by
  generalize hall : events ++ [Event.reopened] = all at hrun
  cases hrun with
  | start => simp at hall
  | perform => simp at hall
  | reopen before hdone =>
      obtain ⟨rfl, -⟩ := List.append_inj' hall rfl
      exact ⟨_, _, before, hdone⟩

/-- Events lead to one store only. -/
theorem Run.unique {allowed : Store σ → Operation → Prop} (hrun : Run setup allowed events store)
    (hother : Run setup allowed events other) : store = other := by
  induction hrun generalizing other with
  | start hdone => rw [Setup.eq_first_of_open hdone, hother.eq_first]
  | perform _ _ hdone ih =>
      obtain ⟨earlier, hearlier, -, hotherDone⟩ := hother.of_concat_performed
      obtain rfl := ih hearlier
      exact (Prod.mk.inj (hdone.symm.trans hotherDone)).1
  | reopen _ hdone ih =>
      obtain ⟨earlier, volume, hearlier, hotherDone⟩ := hother.of_concat_reopened
      obtain rfl := ih hearlier
      exact Except.ok.inj (Prod.mk.inj (hdone.symm.trans hotherDone)).2

theorem Event.operations_performed (events : List Event) (operation : Operation) :
    (events ++ [Event.performed operation]).filterMap operation? =
      events.filterMap operation? ++ [operation] :=
  List.filterMap_append

theorem Event.operations_reopened (events : List Event) :
    (events ++ [Event.reopened]).filterMap operation? = events.filterMap operation? := by
  rw [List.filterMap_append]
  exact List.append_nil _

/-- Log and hard state after a run are those after its operations alone. -/
theorem Run.same_log (hmachine : setup.machine.Recoverable) {operations : List Operation}
    {plain : Store σ}
    (hplain : Run setup (Operation.InRange setup.machine) (operations.map .performed) plain)
    (hrun : Run setup (Operation.InRange setup.machine) events store)
    (hevents : events.filterMap Event.operation? = operations) :
    store.log = plain.log ∧ store.hardState = plain.hardState ∧
      store.log.get? = Operation.describeAll operations := by
  induction hrun generalizing operations plain with
  | start hdone =>
      subst hevents
      obtain rfl := Setup.eq_first_of_open hdone
      obtain rfl := Run.eq_first hplain
      exact ⟨rfl, rfl, Log.get?_empty⟩
  | perform before hallowed hdone ih =>
      subst hevents
      rw [Event.operations_performed, List.map_append] at hplain
      rw [Event.operations_performed]
      obtain ⟨earlier, hearlier, hallowedPlain, hdonePlain⟩ := hplain.of_concat_performed
      obtain ⟨hlog, hhard, hdescribe⟩ := ih hearlier rfl
      have heffect := (before.durable_of_inRange hmachine).effect hallowed.1 hdone
      have heffectPlain :=
        (hearlier.durable_of_inRange hmachine).effect hallowedPlain.1 hdonePlain
      obtain ⟨hnextLog, hnextHard⟩ := heffect.congr heffectPlain hlog hhard
      refine ⟨hnextLog, hnextHard, ?_⟩
      rw [heffect.get? hallowed.2, hdescribe, Operation.describeAll, Operation.describeAll,
        List.foldl_append]
      rfl
  | reopen before hdone ih =>
      obtain ⟨recovered, _, rfl⟩ := Setup.eq_of_open (before.durable_of_inRange hmachine) hdone
      rw [Event.operations_reopened] at hevents
      rw [Setup.store_log, Setup.store_hardState]
      exact ih hplain hevents

/-- Every build among some events is done and makes a snapshot that fits in memory. -/
def Setup.BuildsDone (setup : Setup σ) (events : List Event) : Prop :=
  ∀ earlier store, earlier ++ [.performed .build] <+: events →
    Run setup (Operation.InRange setup.machine) earlier store →
    Operation.build.Sized setup.machine store ∧
      ∃ next, Operation.build.perform setup.machine store = (next, .ok ())

/-- With reopenings anywhere between them the operations of a run can be carried out too,
if its builds can. -/
theorem Run.exists_of_plain (hmachine : setup.machine.Recoverable) {operations : List Operation}
    {plain : Store σ}
    (hplain : Run setup (Operation.InRange setup.machine) (operations.map .performed) plain)
    (hevents : events.filterMap Event.operation? = operations)
    (hbuilds : setup.BuildsDone events) :
    ∃ store, Run setup (Operation.InRange setup.machine) events store := by
  induction events using List.reverseRecOn generalizing operations plain with
  | nil => exact ⟨setup.first, .start setup.open_empty⟩
  | append_singleton earlier event ih =>
      have hprefix : setup.BuildsDone earlier := fun before store hbefore =>
        hbuilds before store (hbefore.trans (List.prefix_append earlier [event]))
      subst hevents
      cases event with
      | reopened =>
          rw [Event.operations_reopened] at hplain
          obtain ⟨store, hrun⟩ := ih hplain rfl hprefix
          have hdurable := hrun.durable_of_inRange hmachine
          obtain ⟨recovered, hrecovered, _⟩ := hdurable.loadSnapshot
          exact ⟨_, .reopen hrun (Setup.open_durable hdurable hrecovered)⟩
      | performed operation =>
          rw [Event.operations_performed, List.map_append] at hplain
          obtain ⟨before, hbefore, hallowed, hdone⟩ := hplain.of_concat_performed
          obtain ⟨store, hrun⟩ := ih hbefore rfl hprefix
          have hbuild : operation = .build → operation.Sized setup.machine store ∧
              ∃ next, operation.perform setup.machine store = (next, .ok ()) := by
            rintro rfl
            exact hbuilds earlier store (List.prefix_refl _) hrun
          obtain ⟨next, hnext⟩ := Operation.performed (hrun.durable_of_inRange hmachine)
            hallowed.2 (fun heq => (hbuild heq).2) (by
              rintro snapshot rfl
              exact Store.restores_of_installSnapshot hdone)
          exact ⟨next, .perform hrun (hallowed.transfer fun heq => (hbuild heq).1) hnext⟩

/-- Reopenings go unnoticed, wherever they are put between the operations of a run: all of
them succeed, log and hard state are as they are without them, the log is what the
operations describe, and a reopening keeps the current snapshot. What a snapshot holds does
depend on reopenings, since each starts with a fresh state machine, so it is asked of the
builds that they are done. -/
theorem reopenings_unnoticed (hmachine : setup.machine.Recoverable)
    (hsnapshot : setup.useSnapshot = true) {operations : List Operation} {plain : Store σ}
    (hplain : Run setup (Operation.InRange setup.machine) (operations.map .performed) plain)
    (hevents : events.filterMap Event.operation? = operations)
    (hbuilds : setup.BuildsDone events) :
    (∃ store, Run setup (Operation.InRange setup.machine) events store) ∧
      ∀ store, Run setup (Operation.InRange setup.machine) events store →
        store.hardState = plain.hardState ∧ store.lastLogId = plain.lastLogId ∧
        store.log = plain.log ∧ store.log.get? = Operation.describeAll operations ∧
        ∃ reopened, setup.open store.volume = (store.volume, .ok reopened) ∧
          reopened.current = store.current := by
  refine ⟨Run.exists_of_plain hmachine hplain hevents hbuilds, ?_⟩
  intro store hrun
  obtain ⟨hlog, hhard, hdescribe⟩ := hplain.same_log hmachine hrun hevents
  have hdurable := hrun.durable_of_inRange hmachine
  have hisSome := hrun.snapshot_isSome hmachine fun _ _ hallowed => hallowed.1
  obtain ⟨recovered, hrecovered, hcurrent, _⟩ := hdurable.loadSnapshot
  refine ⟨hhard, ?_, hlog, hdescribe, _, Setup.open_durable hdurable hrecovered, ?_⟩
  · rw [Store.lastLogId, Store.lastLogId, hlog, hhard]
  · rw [Setup.store_current]
    exact hcurrent (hisSome.trans hsnapshot)

end

theorem reopenings_around_append :
    ∃ store, Run (Memory.setup ⟨"db-s"⟩ "raft_log.bin") (Operation.InRange Memory.machine)
        [.performed .build, .reopened,
          .performed (.append [⟨⟨1, 1, 0⟩, .blank⟩, ⟨⟨1, 1, 1⟩, .normal [7]⟩]), .reopened,
          .performed (.purge ⟨1, 1, 0⟩)] store ∧
      store.hardState.lastPurged = some ⟨1, 1, 0⟩ ∧
      store.log.entries = [⟨⟨1, 1, 1⟩, .normal [7]⟩] := by
  let append : Operation := .append [⟨⟨1, 1, 0⟩, .blank⟩, ⟨⟨1, 1, 1⟩, .normal [7]⟩]
  let purge : Operation := .purge ⟨1, 1, 0⟩
  have husable := (Memory.setup ⟨"db-s"⟩ "raft_log.bin").durable_first.usable
  have hbuild : Operation.build.InRange Memory.machine _ :=
    ⟨Memory.build_sized husable (by decide), trivial⟩
  have happend : ∀ store : Store Memory, append.InRange Memory.machine store := fun _ =>
    ⟨show ∀ entry ∈ _, Record.Fits _ by decide, trivial⟩
  have hpurge : ∀ store : Store Memory, purge.InRange Memory.machine store := fun _ =>
    ⟨trivial, show _ < _ by decide⟩
  have hdone := Memory.build_performed husable
  have hplain := Run.perform (Run.perform (Run.perform (.start (Setup.open_empty _))
    hbuild hdone) (happend _) rfl) (hpurge _) rfl
  have hbuilds : (Memory.setup ⟨"db-s"⟩ "raft_log.bin").BuildsDone
      [.performed .build, .reopened, .performed append, .reopened, .performed purge] := by
    intro earlier store hprefix hbefore
    cases earlier with
    | nil =>
        obtain rfl := hbefore.eq_first
        exact ⟨hbuild.1, _, hdone⟩
    | cons event rest =>
        have hrest := (List.cons_prefix_cons.mp hprefix).2
        have hmem := hrest.subset (List.mem_append_right _ (List.mem_singleton_self _))
        exact absurd hmem (by decide)
  obtain ⟨⟨store, hrun⟩, hall⟩ := @reopenings_unnoticed _ _ _ Memory.recoverable rfl
    [.build, append, purge] _ hplain rfl hbuilds
  obtain ⟨hhard, _, hlog, _⟩ := hall store hrun
  refine ⟨store, hrun, ?_, ?_⟩
  · rw [hhard]
  · rw [hlog]
    rfl

end Quorum
