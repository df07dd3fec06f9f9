import Quorum.Proofs.Command.Entry
import Quorum.Proofs.StateMachine.Sequence
import Quorum.Proofs.Storage.Recovery

/-! # Snapshots built while entries are applied

One task applies entries, step after step, while another builds a snapshot, and their
steps come in any order. A snapshot tells of the entry that was marked last when its build
began, and holds the state of a later moment. Between the mark of an entry and the moment
at which the state machine gets its command, a snapshot can be built that covers the
entry and lacks its command; at any other time it lacks nothing that it covers.
-/

namespace Quorum

variable {σ : Type} {machine : StateMachine σ}

/-! ## Two tasks -/

/-- One step of applying an entry. -/
inductive ApplyStep where
  | mark (id : LogId)
  | feed (id : LogId) (data : Bytes)
  | note (id : LogId) (membership : Membership)
  deriving DecidableEq, Repr

/-- The place of the entry that a step belongs to. -/
def ApplyStep.id : ApplyStep → LogId
  | .mark id | .feed id _ | .note id _ => id

/-- The steps in which an entry is applied. -/
def Entry.steps (entry : Entry) : List ApplyStep :=
  match entry.payload with
  | .blank => [.mark entry.id]
  | .normal data => [.mark entry.id, .feed entry.id data]
  | .membership membership => [.mark entry.id, .note entry.id membership]

theorem Entry.id_of_mem_steps {entry : Entry} {step : ApplyStep} (h : step ∈ entry.steps) :
    step.id = entry.id := by
  unfold steps at h
  split at h
  next =>
    cases List.mem_singleton.mp h
    rfl
  next =>
    rcases List.mem_cons.mp h with rfl | h
    · rfl
    · cases List.mem_singleton.mp h
      rfl
  next =>
    rcases List.mem_cons.mp h with rfl | h
    · rfl
    · cases List.mem_singleton.mp h
      rfl

theorem Entry.normal_of_feed_mem {entry : Entry} {id : LogId} {data : Bytes}
    (h : .feed id data ∈ entry.steps) : entry.payload = .normal data := by
  unfold steps at h
  split at h
  next => simp at h
  next heq =>
    simp only [List.mem_cons, reduceCtorEq, ApplyStep.feed.injEq, List.not_mem_nil, or_false,
      false_or] at h
    rw [heq, h.2]
  next => simp at h

theorem Entry.steps_eq (entry : Entry) :
    entry.steps = .mark entry.id :: entry.steps.tail := by
  unfold steps
  split <;> rfl

def ApplyStep.perform (machine : StateMachine σ) (store : Store σ) : ApplyStep → Store σ
  | .mark id => store.markApplied id
  | .feed id data => (store.feed machine id data).1
  | .note id membership => store.noteMembership id membership

/-- The store after some steps. -/
def Store.after (machine : StateMachine σ) (store : Store σ) (steps : List ApplyStep) : Store σ :=
  steps.foldl (ApplyStep.perform machine) store

theorem Store.after_entry (store : Store σ) (entry : Entry) :
    store.after machine entry.steps = (store.applyEntry machine entry).1 := by
  unfold Entry.steps applyEntry
  cases entry.payload <;> rfl

/-- All steps together apply the entries. -/
theorem Store.after_steps (store : Store σ) (entries : List Entry) :
    store.after machine (entries.flatMap Entry.steps) = (store.applyAll machine entries).1 := by
  induction entries generalizing store with
  | nil => rfl
  | cons entry rest ih =>
      rw [List.flatMap_cons, Store.after, List.foldl_append]
      exact (congrArg (Store.after machine · _) (store.after_entry entry)).trans (ih _)

/-- Whose turn it is. -/
inductive Turn where
  | apply
  | build
  deriving DecidableEq, Repr

/-- A store on which two tasks are at work. -/
structure Overlap (σ : Type) where
  store : Store σ
  pending : List ApplyStep
  build : Store.Build

namespace Overlap

def start (store : Store σ) (entries : List Entry) : Overlap σ :=
  ⟨store, entries.flatMap Entry.steps, .begun⟩

/-- A task takes its next step, if it has one. -/
def turn (machine : StateMachine σ) (overlap : Overlap σ) : Turn → Overlap σ
  | .apply =>
      match overlap.pending with
      | [] => overlap
      | step :: pending => { overlap with store := step.perform machine overlap.store, pending }
  | .build =>
      let (store, build) := overlap.store.buildStep machine overlap.build
      { overlap with store, build }

def run (machine : StateMachine σ) (overlap : Overlap σ) (turns : List Turn) : Overlap σ :=
  turns.foldl (turn machine) overlap

/-- How many turns of applying come before the turn of building that has a number. -/
def appliesBefore : (number : Nat) → List Turn → Nat
  | _, [] => 0
  | number, .apply :: turns => appliesBefore number turns + 1
  | 0, .build :: _ => 0
  | number + 1, .build :: turns => appliesBefore number turns

theorem appliesBefore_le (number : Nat) (turns : List Turn) :
    appliesBefore number turns ≤ appliesBefore (number + 1) turns := by
  induction turns generalizing number with
  | nil => exact Nat.le_refl 0
  | cons turn turns ih =>
      cases turn with
      | apply => exact Nat.succ_le_succ (ih number)
      | build =>
          cases number with
          | zero => exact Nat.zero_le _
          | succ number => exact ih number

/-! ## What a snapshot is made of -/

/-- A build that has read all it needs. -/
def Carries (last : Option LogId) (membership : StoredMembership) (data : Bytes) :
    Store.Build → Prop
  | .begun | .applied _ | .described _ _ => False
  | .taken found members bytes => found = last ∧ members = membership ∧ bytes = data
  | .named snapshot | .written snapshot | .finished snapshot =>
      snapshot.description.lastLogId = last ∧
        snapshot.description.lastMembership = membership ∧ snapshot.data = data
  | .failed _ => True

section

variable {last : Option LogId} {membership : StoredMembership} {data : Bytes}
variable {store : Store σ} {pending : List ApplyStep} {turns : List Turn} {snapshot : Snapshot}

theorem Carries.run {overlap : Overlap σ} (h : Carries last membership data overlap.build)
    (turns : List Turn) : Carries last membership data (overlap.run machine turns).build := by
  induction turns generalizing overlap with
  | nil => exact h
  | cons turn turns ih =>
      refine @ih (overlap.turn machine turn) ?_
      obtain ⟨store, pending, build⟩ := overlap
      cases turn with
      | apply =>
          cases pending with
          | nil => exact h
          | cons => exact h
      | build =>
          cases build with
          | begun | applied | described => exact h.elim
          | taken => exact h
          | named snapshot =>
              simp only [Overlap.turn, Store.buildStep]
              split
              next => exact h
              next => trivial
          | written => exact h
          | finished => exact h
          | failed => trivial

/-- A build that failed stays so. -/
theorem run_failed {error : StorageError} :
    (run machine ⟨store, pending, .failed error⟩ turns).build = .failed error := by
  induction turns generalizing store pending with
  | nil => rfl
  | cons turn turns ih =>
      cases turn with
      | apply =>
          cases pending with
          | nil => exact ih
          | cons => exact ih
      | build => exact ih

/-- The state is that of the moment at which it is taken. -/
theorem described_cut
    (h : (run machine ⟨store, pending, .described last membership⟩ turns).build =
      .finished snapshot) :
    ∃ state, machine.snapshot
        (store.after machine (pending.take (appliesBefore 0 turns))).state = .ok state ∧
      snapshot.description.lastLogId = last ∧ snapshot.description.lastMembership = membership ∧
      snapshot.data = SnapshotContent.format.write ⟨last, membership, state⟩ := by
  induction turns generalizing store pending with
  | nil => contradiction
  | cons turn turns ih =>
      cases turn with
      | apply =>
          cases pending with
          | nil => simpa using ih h
          | cons step pending => exact ih h
      | build =>
          simp only [run, List.foldl_cons, turn, Store.buildStep] at h
          split at h
          next state hstate =>
            let data := SnapshotContent.format.write ⟨last, membership, state⟩
            have hcarries := @Carries.run σ machine last membership data
              ⟨store, pending, .taken last membership data⟩ ⟨rfl, rfl, rfl⟩ turns
            rw [run, h] at hcarries
            exact ⟨state, hstate, hcarries⟩
          next failure _ =>
            have hfailed := @run_failed σ machine store pending turns
              ⟨.readStateMachine, .failed failure⟩
            rw [run, h] at hfailed
            contradiction

/-- The membership is read before the state is taken. -/
theorem applied_cut
    (h : (run machine ⟨store, pending, .applied last⟩ turns).build = .finished snapshot) :
    ∃ state, machine.snapshot
        (store.after machine (pending.take (appliesBefore 1 turns))).state = .ok state ∧
      snapshot.description.lastLogId = last ∧
      snapshot.description.lastMembership =
        (store.after machine (pending.take (appliesBefore 0 turns))).lastMembership ∧
      snapshot.data = SnapshotContent.format.write
        ⟨last, snapshot.description.lastMembership, state⟩ := by
  induction turns generalizing store pending with
  | nil => contradiction
  | cons turn turns ih =>
      cases turn with
      | apply =>
          cases pending with
          | nil => simpa using ih h
          | cons step pending => exact ih h
      | build =>
          obtain ⟨state, hstate, hlast, hmembership, hdata⟩ := described_cut h
          exact ⟨state, hstate, hlast, hmembership, hmembership ▸ hdata⟩

/-- What is read first is what was marked last. -/
theorem begun_cut (h : (run machine ⟨store, pending, .begun⟩ turns).build = .finished snapshot) :
    ∃ state, machine.snapshot
        (store.after machine (pending.take (appliesBefore 2 turns))).state = .ok state ∧
      snapshot.description.lastLogId =
        (store.after machine (pending.take (appliesBefore 0 turns))).lastApplied ∧
      snapshot.description.lastMembership =
        (store.after machine (pending.take (appliesBefore 1 turns))).lastMembership ∧
      snapshot.data = SnapshotContent.format.write
        ⟨snapshot.description.lastLogId, snapshot.description.lastMembership, state⟩ := by
  induction turns generalizing store pending with
  | nil => contradiction
  | cons turn turns ih =>
      cases turn with
      | apply =>
          cases pending with
          | nil => simpa using ih h
          | cons step pending => exact ih h
      | build =>
          obtain ⟨state, hstate, hlast, hmembership, hdata⟩ := applied_cut h
          exact ⟨state, hstate, hlast, hmembership, hlast ▸ hdata⟩

end

/-! ## What it covers -/

theorem lastApplied_perform (store : Store σ) (step : ApplyStep) :
    (step.perform machine store).lastApplied =
      match step with
      | .mark id => some id
      | .feed _ _ | .note _ _ => store.lastApplied := by
  cases step with
  | mark => rfl
  | feed id data =>
      simp only [ApplyStep.perform, Store.feed]
      split
      next => rfl
      next => split <;> rfl
  | note => rfl

variable {store : Store σ}

/-- Steps that mark entries on one side of an index leave it covered or not, as it was. -/
theorem covers_after {index : UInt64} {steps : List ApplyStep}
    (h : ∀ id, .mark id ∈ steps → (index ≤ id.index ↔ LogId.covers store.lastApplied index)) :
    LogId.covers (store.after machine steps).lastApplied index =
      LogId.covers store.lastApplied index := by
  induction steps generalizing store with
  | nil => rfl
  | cons step steps ih =>
      have hstep : LogId.covers (step.perform machine store).lastApplied index =
          LogId.covers store.lastApplied index := by
        rw [lastApplied_perform]
        cases step with
        | mark id =>
            rw [Bool.eq_iff_iff, LogId.covers_some]
            exact h id List.mem_cons_self
        | feed => rfl
        | note => rfl
      rw [← hstep]
      refine ih fun id hmem => ?_
      rw [hstep]
      exact h id (List.mem_cons_of_mem _ hmem)

section

variable {before after : List Entry} {entry : Entry}

/-- The place that was marked last covers an entry if the entry was marked. -/
theorem covers_after_take
    (hbefore : ∀ other ∈ before, other.id.index < entry.id.index)
    (hafter : ∀ other ∈ after, entry.id.index < other.id.index)
    (hbehind : ¬ LogId.covers store.lastApplied entry.id.index) (count : Nat) :
    LogId.covers (store.after machine
        (((before ++ entry :: after).flatMap Entry.steps).take count)).lastApplied
      entry.id.index ↔ (before.flatMap Entry.steps).length < count := by
  rw [List.flatMap_append, List.flatMap_cons]
  by_cases hcount : count ≤ (before.flatMap Entry.steps).length
  · rw [List.take_append_of_le_length hcount, covers_after]
    · exact iff_of_false hbehind (Nat.not_lt.mpr hcount)
    · intro id hmem
      obtain ⟨other, hother, hstep⟩ := List.mem_flatMap.mp (List.mem_of_mem_take hmem)
      obtain rfl : id = other.id := Entry.id_of_mem_steps hstep
      exact iff_of_false (UInt64.not_le.mpr (hbefore other hother)) hbehind
  · obtain ⟨more, rfl⟩ := Nat.exists_eq_add_of_lt (Nat.not_le.mp hcount)
    have hmarked : ((before.flatMap Entry.steps ++
        (entry.steps ++ after.flatMap Entry.steps)).take
          ((before.flatMap Entry.steps).length + more + 1)) =
        before.flatMap Entry.steps ++ .mark entry.id ::
          (entry.steps.tail ++ after.flatMap Entry.steps).take more := by
      rw [Nat.add_assoc, List.take_length_add_append, entry.steps_eq, List.cons_append,
        List.take_succ_cons, List.tail_cons]
    have hself : LogId.covers (some entry.id) entry.id.index := LogId.covers_self rfl
    refine iff_of_true ?_ (by omega)
    rw [hmarked, Store.after, List.foldl_append, List.foldl_cons, ← Store.after, ← Store.after]
    rw [covers_after]
    · exact hself
    · intro id hmem
      refine iff_of_true ?_ hself
      rcases List.mem_append.mp (List.mem_of_mem_take hmem) with hmem | hmem
      · obtain rfl : id = entry.id := Entry.id_of_mem_steps (List.mem_of_mem_tail hmem)
        exact UInt64.le_refl _
      · obtain ⟨other, hother, hstep⟩ := List.mem_flatMap.mp hmem
        obtain rfl : id = other.id := Entry.id_of_mem_steps hstep
        exact UInt64.le_of_lt (hafter other hother)

/-- The state machine got the command of an entry if both steps of the entry were taken. -/
theorem feed_mem_take {data : Bytes} (hpayload : entry.payload = .normal data)
    (hbefore : ∀ other ∈ before, other.id.index < entry.id.index) (count : Nat) :
    .feed entry.id data ∈ ((before ++ entry :: after).flatMap Entry.steps).take count ↔
      (before.flatMap Entry.steps).length + 1 < count := by
  have hsteps : entry.steps = [.mark entry.id, .feed entry.id data] := by
    rw [Entry.steps, hpayload]
  rw [List.flatMap_append, List.flatMap_cons, hsteps]
  constructor
  · intro hmem
    refine Nat.lt_of_not_le fun hcount => ?_
    have htaken := (List.take_prefix_take_left hcount).subset hmem
    rw [List.take_length_add_append, List.mem_append] at htaken
    rcases htaken with hmem | hmem
    · obtain ⟨other, hother, hstep⟩ := List.mem_flatMap.mp hmem
      have hid : entry.id = other.id := Entry.id_of_mem_steps hstep
      have hlt := hbefore other hother
      rw [hid] at hlt
      exact UInt64.lt_irrefl _ hlt
    · cases List.mem_singleton.mp hmem
  · intro hcount
    obtain ⟨more, rfl⟩ := Nat.exists_eq_add_of_lt hcount
    rw [show (before.flatMap Entry.steps).length + 1 + more + 1 =
      (before.flatMap Entry.steps).length + (more + 2) by omega, List.take_length_add_append]
    exact List.mem_append_right _ (List.mem_cons_of_mem _ List.mem_cons_self)

end

end Overlap

/-! ## Commands that are given twice -/

/-- What a step makes of the state. -/
def ApplyStep.next (machine : StateMachine σ) (state : σ) : ApplyStep → σ
  | .feed id data =>
      match Command.ofEntry data with
      | .ok command => (machine.apply state id.index id.term command).1
      | .error _ => state
  | .mark _ | .note _ _ => state

theorem Store.state_after (store : Store σ) (steps : List ApplyStep) :
    (store.after machine steps).state = steps.foldl (ApplyStep.next machine) store.state := by
  induction steps generalizing store with
  | nil => rfl
  | cons step steps ih =>
      have hstep : (step.perform machine store).state = step.next machine store.state := by
        cases step with
        | mark => rfl
        | feed id data =>
            simp only [ApplyStep.perform, Store.feed, ApplyStep.next]
            cases Command.ofEntry data with
            | error => rfl
            | ok command =>
                dsimp only
                split
                next happly => rw [happly]
                next happly => rw [happly]
        | note => rfl
      rw [List.foldl_cons, ← hstep]
      exact ih _

/-- A state machine that ignores a command unless its index is above all before. -/
structure StateMachine.Once (machine : StateMachine σ) (last : σ → UInt64) : Prop where
  ignored : ∀ {state index}, index ≤ last state →
    ∀ term command, (machine.apply state index term command).1 = state
  kept : ∀ state index term command,
    last state ≤ last (machine.apply state index term command).1
  reached : ∀ state index term command,
    index ≤ last (machine.apply state index term command).1

theorem Memory.once : Memory.machine.Once Memory.lastIndex where
  ignored := by
    intro memory index hle term command
    simp [Memory.machine, Memory.apply, hle]
  kept := by
    intro memory index term command
    change memory.lastIndex ≤ (memory.apply index term command).1.lastIndex
    rw [lastIndex_apply]
    split
    next => exact UInt64.le_refl _
    next hlt => exact UInt64.le_of_lt (UInt64.not_le.mp hlt)
  reached := by
    intro memory index term command
    change index ≤ (memory.apply index term command).1.lastIndex
    rw [lastIndex_apply]
    split
    next hle => exact hle
    next => exact UInt64.le_refl _

namespace StateMachine.Once

variable {last : σ → UInt64} {state : σ} {steps : List ApplyStep}

theorem kept_next (h : machine.Once last) (state : σ) (step : ApplyStep) :
    last state ≤ last (step.next machine state) := by
  unfold ApplyStep.next
  split
  next =>
    split
    next => exact h.kept ..
    next => exact UInt64.le_refl _
  next => exact UInt64.le_refl _
  next => exact UInt64.le_refl _

theorem kept_steps (h : machine.Once last) (state : σ) (steps : List ApplyStep) :
    last state ≤ last (steps.foldl (ApplyStep.next machine) state) := by
  induction steps generalizing state with
  | nil => exact UInt64.le_refl _
  | cons step steps ih => exact UInt64.le_trans (h.kept_next state step) (ih _)

/-- The state knows of every command that it was given. -/
theorem reached_steps (h : machine.Once last) {id : LogId} {data : Bytes} {command : Command}
    (hcommand : Command.ofEntry data = .ok command) (hmem : .feed id data ∈ steps) (state : σ) :
    id.index ≤ last (steps.foldl (ApplyStep.next machine) state) := by
  induction steps generalizing state with
  | nil => contradiction
  | cons step steps ih =>
      rcases List.mem_cons.mp hmem with rfl | hmem
      · refine UInt64.le_trans ?_ (h.kept_steps _ steps)
        simp only [ApplyStep.next, hcommand]
        exact h.reached ..
      · exact ih hmem _

/-- Commands that a state knows of change nothing. -/
theorem ignored_steps (h : machine.Once last)
    (hknown : ∀ id data command, .feed id data ∈ steps → Command.ofEntry data = .ok command →
      id.index ≤ last state) : steps.foldl (ApplyStep.next machine) state = state := by
  induction steps with
  | nil => rfl
  | cons step steps ih =>
      have hstep : step.next machine state = state := by
        cases step with
        | mark => rfl
        | feed id data =>
            simp only [ApplyStep.next]
            split
            next command hcommand =>
              exact h.ignored (hknown id data command List.mem_cons_self hcommand) _ _
            next => rfl
        | note => rfl
      rw [List.foldl_cons, hstep]
      exact ih fun id data command hmem => hknown id data command (List.mem_cons_of_mem _ hmem)

/-- Of steps that were begun and are taken all over again, the first change nothing. -/
theorem again (h : machine.Once last) (state : σ) (first rest : List ApplyStep) :
    (first ++ rest).foldl (ApplyStep.next machine) (first.foldl (ApplyStep.next machine) state) =
      (first ++ rest).foldl (ApplyStep.next machine) state := by
  rw [List.foldl_append, List.foldl_append]
  congr 1
  exact h.ignored_steps fun id data command hmem hcommand => h.reached_steps hcommand hmem state

end StateMachine.Once

/-! ## Covered and missing -/

/-- An entry with a command that can be read. -/
def Entry.Commands (entry : Entry) (data : Bytes) : Prop :=
  entry.payload = .normal data ∧ ∃ command, Command.ofEntry data = .ok command

namespace Overlap

/-- The steps that come before the state of a snapshot is taken. -/
def taken (entries : List Entry) (turns : List Turn) : List ApplyStep :=
  (entries.flatMap Entry.steps).take (appliesBefore 2 turns)

/-- A snapshot covers an entry whose command its state was not given. -/
def Lacks (entries : List Entry) (turns : List Turn) (snapshot : Snapshot) (entry : Entry) : Prop :=
  LogId.covers snapshot.description.lastLogId entry.id.index ∧
    ∃ data, entry.Commands data ∧ .feed entry.id data ∉ taken entries turns

/-- After so many steps the entry is marked, and the state machine has not got its command. -/
def Between (entries : List Entry) (entry : Entry) (count : Nat) : Prop :=
  ∃ before after, entries = before ++ entry :: after ∧
    count = (before.flatMap Entry.steps).length + 1

section

variable {store : Store σ} {entries : List Entry} {turns : List Turn} {snapshot : Snapshot}

theorem increasing_of_split {before after : List Entry} {entry : Entry}
    (hincreasing : entries.Pairwise fun a b => a.id.index < b.id.index)
    (hentries : entries = before ++ entry :: after) :
    (∀ other ∈ before, other.id.index < entry.id.index) ∧
      ∀ other ∈ after, entry.id.index < other.id.index := by
  subst hentries
  rw [List.pairwise_append, List.pairwise_cons] at hincreasing
  exact ⟨fun other hother => hincreasing.2.2 other hother entry List.mem_cons_self,
    hincreasing.2.1.1⟩

/-- A snapshot lacks a command that it covers exactly if what was applied last was read, and
the state was taken, between the mark of that entry and its command. -/
theorem lacks_iff (hincreasing : entries.Pairwise fun a b => a.id.index < b.id.index)
    (hbehind : ∀ entry ∈ entries, ¬ LogId.covers store.lastApplied entry.id.index)
    (hfinished : (run machine (start store entries) turns).build = .finished snapshot)
    {entry : Entry} (hmem : entry ∈ entries) :
    Lacks entries turns snapshot entry ↔ (∃ data, entry.Commands data) ∧
      Between entries entry (appliesBefore 0 turns) ∧
      Between entries entry (appliesBefore 2 turns) := by
  obtain ⟨state, -, hlast, -, -⟩ := begun_cut hfinished
  have hle : appliesBefore 0 turns ≤ appliesBefore 2 turns :=
    Nat.le_trans (appliesBefore_le 0 turns) (appliesBefore_le 1 turns)
  constructor
  · rintro ⟨hcovers, data, hdata, hmissing⟩
    obtain ⟨before, after, hsplit⟩ := List.append_of_mem hmem
    obtain ⟨hbefore, hafter⟩ := increasing_of_split hincreasing hsplit
    rw [hlast, hsplit, covers_after_take hbefore hafter (hbehind entry hmem)] at hcovers
    rw [taken, hsplit, feed_mem_take hdata.1 hbefore] at hmissing
    exact ⟨⟨data, hdata⟩, ⟨before, after, hsplit, by omega⟩, ⟨before, after, hsplit, by omega⟩⟩
  · rintro ⟨⟨data, hdata⟩, ⟨before, after, hsplit, hread⟩, ⟨before', after', hsplit', htaken⟩⟩
    obtain ⟨hbefore, hafter⟩ := increasing_of_split hincreasing hsplit
    obtain ⟨hbefore', -⟩ := increasing_of_split hincreasing hsplit'
    refine ⟨?_, data, hdata, ?_⟩
    · rw [hlast, hsplit]
      exact (covers_after_take hbefore hafter (hbehind entry hmem) _).mpr (by omega)
    · rw [taken, hsplit', feed_mem_take hdata.1 hbefore']
      omega

/-- The entries that a place covers come before all others. -/
theorem split_covered (hincreasing : entries.Pairwise fun a b => a.id.index < b.id.index)
    (place : Option LogId) :
    ∃ covered, entries =
        covered ++ entries.filter (fun entry => !LogId.covers place entry.id.index) ∧
      ∀ entry ∈ covered, LogId.covers place entry.id.index := by
  induction entries with
  | nil => exact ⟨[], rfl, List.forall_mem_nil _⟩
  | cons entry rest ih =>
      obtain ⟨hbelow, hrest⟩ := List.pairwise_cons.mp hincreasing
      obtain ⟨covered, hcovered, hall⟩ := ih hrest
      by_cases hentry : LogId.covers place entry.id.index
      · refine ⟨entry :: covered, ?_, List.forall_mem_cons.mpr ⟨hentry, hall⟩⟩
        rw [List.filter_cons_of_neg (by simpa using hentry), List.cons_append, ← hcovered]
      · have hnone : ∀ other ∈ rest, ¬ LogId.covers place other.id.index := fun other hother h =>
          hentry (LogId.covers_of_le (UInt64.le_of_lt (hbelow other hother)) h)
        refine ⟨[], ?_, List.forall_mem_nil _⟩
        rw [List.nil_append, List.filter_eq_self.mpr]
        intro other hother
        rcases List.mem_cons.mp hother with rfl | hother
        · simpa using hentry
        · simpa using hnone other hother

/-- A snapshot that lacks nothing leads to where the store is once the entries behind it were
applied. -/
theorem replayed (hincreasing : entries.Pairwise fun a b => a.id.index < b.id.index)
    {last : σ → UInt64} (honce : machine.Once last)
    (hcomplete : ∀ entry ∈ entries, ¬ Lacks entries turns snapshot entry) {other : Store σ}
    (hother : other.state = (store.after machine (taken entries turns)).state) :
    (other.applyAll machine (entries.filter fun entry =>
        !LogId.covers snapshot.description.lastLogId entry.id.index)).1.state =
      (store.applyAll machine entries).1.state := by
  let behind := entries.filter fun entry =>
    !LogId.covers snapshot.description.lastLogId entry.id.index
  obtain ⟨covered, hsplit, hcovered⟩ := split_covered hincreasing snapshot.description.lastLogId
  have hknown : (covered.flatMap Entry.steps).foldl (ApplyStep.next machine) other.state =
      other.state := by
    refine honce.ignored_steps fun id data command hmem hcommand => ?_
    obtain ⟨entry, hentry, hstep⟩ := List.mem_flatMap.mp hmem
    obtain rfl : id = entry.id := Entry.id_of_mem_steps hstep
    have hpayload := Entry.normal_of_feed_mem hstep
    have hfed : .feed entry.id data ∈ taken entries turns := by
      refine Classical.byContradiction fun hmissing => ?_
      have hmem : entry ∈ entries := by
        rw [hsplit]
        exact List.mem_append_left _ hentry
      exact hcomplete entry hmem
        ⟨hcovered entry hentry, data, ⟨hpayload, command, hcommand⟩, hmissing⟩
    rw [hother, Store.state_after]
    exact honce.reached_steps hcommand hfed _
  have hagain := honce.again store.state (taken entries turns)
    ((entries.flatMap Entry.steps).drop (appliesBefore 2 turns))
  rw [taken, List.take_append_drop, ← taken, ← Store.state_after, ← hother] at hagain
  rw [← Store.after_steps, ← Store.after_steps, Store.state_after, Store.state_after, ← hagain]
  symm
  calc
    (entries.flatMap Entry.steps).foldl (ApplyStep.next machine) other.state =
        ((covered ++ behind).flatMap Entry.steps).foldl (ApplyStep.next machine) other.state := by
      rw [← hsplit]
    _ = (behind.flatMap Entry.steps).foldl (ApplyStep.next machine) other.state := by
      rw [List.flatMap_append, List.foldl_append, hknown]

end

end Overlap

/-- Of a snapshot that is built while entries are applied, for every order in which the steps
of the two tasks come: it holds the state of one moment, and of the entries it covers it
lacks a command exactly if what was applied last was read and the state was taken in
the very gap between the mark of the entry and the handing over of its command. If it
lacks none, the entries behind it lead on to where the applying leads. -/
theorem overlapping_build_lacks_iff {store : Store σ} {entries : List Entry}
    {turns : List Turn} {snapshot : Snapshot}
    (hincreasing : entries.Pairwise fun a b => a.id.index < b.id.index)
    (hbehind : ∀ entry ∈ entries, ¬ LogId.covers store.lastApplied entry.id.index)
    (hfinished : (Overlap.run machine (.start store entries) turns).build = .finished snapshot) :
    (∃ state, machine.snapshot
        (store.after machine (Overlap.taken entries turns)).state = .ok state ∧
      snapshot.data = SnapshotContent.format.write
        ⟨snapshot.description.lastLogId, snapshot.description.lastMembership, state⟩) ∧
    (∀ entry ∈ entries, Overlap.Lacks entries turns snapshot entry ↔
      (∃ data, entry.Commands data) ∧
        Overlap.Between entries entry (Overlap.appliesBefore 0 turns) ∧
        Overlap.Between entries entry (Overlap.appliesBefore 2 turns)) ∧
    ∀ last, machine.Once last →
      (∀ entry ∈ entries, ¬ Overlap.Lacks entries turns snapshot entry) →
      ∀ other : Store σ,
        other.state = (store.after machine (Overlap.taken entries turns)).state →
        (other.applyAll machine (entries.filter fun entry =>
            !LogId.covers snapshot.description.lastLogId entry.id.index)).1.state =
          (store.applyAll machine entries).1.state := by
  obtain ⟨state, hstate, -, -, hdata⟩ := Overlap.begun_cut hfinished
  refine ⟨⟨state, hstate, hdata⟩, ?_, ?_⟩
  · intro entry hmem
    exact Overlap.lacks_iff hincreasing hbehind hfinished hmem
  · intro last honce hcomplete other hother
    exact Overlap.replayed hincreasing honce hcomplete hother

/-- A snapshot that is built right after an entry was marked covers it without its command;
one that is built when both steps were taken does not. -/
theorem build_after_mark_lacks :
    let store := (Memory.setup ⟨"g"⟩ "raft_log.bin").first
    let entry : Entry := ⟨⟨1, 1, 1⟩, .normal (Command.toEntry ⟨.put, [7]⟩)⟩
    let builds := List.replicate 6 Turn.build
    (∃ snapshot, (Overlap.run Memory.machine (.start store [entry])
          (.apply :: builds ++ [.apply])).build = .finished snapshot ∧
        snapshot.description.lastLogId = some ⟨1, 1, 1⟩ ∧
        snapshot.data = SnapshotContent.format.write ⟨some ⟨1, 1, 1⟩, {}, Memory.snapshot {}⟩ ∧
        Overlap.Lacks [entry] (.apply :: builds ++ [.apply]) snapshot entry) ∧
      ∀ other : Store Memory, other.state = (store.after Memory.machine
          (Overlap.taken [entry] (.apply :: .apply :: builds))).state →
        (other.applyAll Memory.machine []).1.state =
          (store.applyAll Memory.machine [entry]).1.state := by
  intro store entry builds
  have hbehind : ∀ other ∈ [entry], ¬ LogId.covers store.lastApplied other.id.index := by
    simp [store, Setup.first, Setup.store]
  constructor
  · obtain ⟨snapshot, hfinished, hlast, hdata⟩ :
        ∃ snapshot, (Overlap.run Memory.machine (.start store [entry])
            (.apply :: builds ++ [.apply])).build = .finished snapshot ∧
          snapshot.description.lastLogId = some ⟨1, 1, 1⟩ ∧
          snapshot.data = SnapshotContent.format.write ⟨some ⟨1, 1, 1⟩, {}, Memory.snapshot {}⟩ :=
      ⟨_, rfl, rfl, rfl⟩
    have hlacks := overlapping_build_lacks_iff (List.pairwise_singleton _ entry) hbehind hfinished
    refine ⟨snapshot, hfinished, hlast, hdata, (hlacks.2.1 entry List.mem_cons_self).mpr ?_⟩
    exact ⟨⟨_, rfl, _, Command.ofEntry_toEntry _⟩, ⟨[], [], rfl, rfl⟩, ⟨[], [], rfl, rfl⟩⟩
  · have hfed : (store.markApplied ⟨1, 1, 1⟩).feed Memory.machine ⟨1, 1, 1⟩
        (Command.toEntry ⟨.put, [7]⟩) =
          ({ store with
              lastApplied := some ⟨1, 1, 1⟩
              state := ⟨1, 1, [⟨.put, [7]⟩], 0⟩ }, .ok []) := by
      rw [Store.feed, Command.ofEntry_toEntry]
      rfl
    obtain ⟨snapshot, hfinished, hlast⟩ :
        ∃ snapshot, (Overlap.run Memory.machine (.start store [entry])
            (.apply :: .apply :: builds)).build = .finished snapshot ∧
          snapshot.description.lastLogId = some ⟨1, 1, 1⟩ := by
      have hturned : Overlap.turn Memory.machine
          (Overlap.turn Memory.machine (.start store [entry]) .apply) .apply =
            ⟨((store.markApplied ⟨1, 1, 1⟩).feed Memory.machine ⟨1, 1, 1⟩
              (Command.toEntry ⟨.put, [7]⟩)).1, [], .begun⟩ := rfl
      rw [Overlap.run, List.foldl_cons, List.foldl_cons, hturned, hfed]
      exact ⟨_, rfl, rfl⟩
    have hreplayed := (overlapping_build_lacks_iff (List.pairwise_singleton _ entry) hbehind
      hfinished).2.2 Memory.lastIndex Memory.once
    have hnone : [entry].filter (fun entry =>
        !LogId.covers snapshot.description.lastLogId entry.id.index) = [] := by
      simp [hlast, entry]
    have hcomplete : ∀ other ∈ [entry],
        ¬ Overlap.Lacks [entry] (.apply :: .apply :: builds) snapshot other := by
      intro other hother hlacks
      obtain ⟨-, data, hdata, hmissing⟩ := hlacks
      cases List.mem_singleton.mp hother
      cases hdata.1
      exact hmissing (List.mem_cons_of_mem _ List.mem_cons_self)
    rw [hnone] at hreplayed
    exact hreplayed hcomplete

end Quorum
