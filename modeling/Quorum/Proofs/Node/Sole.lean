import Quorum.Node.Session
import Quorum.Proofs.Node.Engine
import Quorum.Proofs.Replica.Sole

/-! # Nodes that are alone in their group

The node of a replica that decides alone leads, so it hands every command that is submitted
to it to its own queue. The queue is empty whenever nothing is under way, so the command is
written and applied before the next one comes, and its submitter is told the result.
-/

namespace Quorum

namespace ApplyQueue

variable {queue : ApplyQueue}

/-- Whether tasks are taken and none is under way. -/
structure Idle (queue : ApplyQueue) : Prop where
  isOpen : queue.isOpen = true
  isRunning : queue.isRunning = true
  queued : queue.queued = []
  inFlight : queue.inFlight = []
  behind : ∀ told ∈ queue.resolved, told.1 < queue.count

theorem idle_first : Idle {} where
  isOpen := rfl
  isRunning := rfl
  queued := rfl
  inFlight := rfl
  behind := List.forall_mem_nil _

/-- The queue after a task was handed over, taken and resolved. -/
def through (queue : ApplyQueue) (entry : Bytes) (outcome : Outcome) : ApplyQueue :=
  { queue with
    count := queue.count + 1
    resolved := queue.resolved ++ [(queue.count, outcome)]
    written := queue.written ++ [entry] }

/-- The queue while a task is being written. -/
def writing (queue : ApplyQueue) (entry : Bytes) : ApplyQueue :=
  { queue with
    count := queue.count + 1
    inFlight := [⟨queue.count, entry⟩]
    written := queue.written ++ [entry] }

namespace Idle

theorem take? (h : queue.Idle) (entry : Bytes) :
    (queue.accept entry).take? = some (⟨queue.count, entry⟩, queue.writing entry) := by
  obtain ⟨hopen, hrunning, hqueued, hflight, -⟩ := h
  simp [accept, ApplyQueue.take?, writing, hopen, hrunning, hqueued, hflight]

theorem resolve (h : queue.Idle) (entry : Bytes) (outcome : Outcome) :
    (queue.writing entry).resolve queue.count outcome = queue.through entry outcome := by
  simp [writing, ApplyQueue.resolve, through, h.inFlight]

theorem through (h : queue.Idle) (entry : Bytes) (outcome : Outcome) :
    (queue.through entry outcome).Idle where
  isOpen := h.isOpen
  isRunning := h.isRunning
  queued := h.queued
  inFlight := h.inFlight
  behind := by
    intro told htold
    rcases List.mem_append.mp htold with hbefore | hlast
    · exact Nat.lt_succ_of_lt (h.behind told hbefore)
    · rw [List.mem_singleton.mp hlast]
      exact Nat.lt_succ_self _

theorem outcome?_through (h : queue.Idle) (entry : Bytes) (outcome : Outcome) :
    (queue.through entry outcome).outcome? queue.count = some outcome := by
  have hnone : queue.resolved.lookup queue.count = none := by
    refine List.lookup_eq_none_iff.mpr fun told htold => ?_
    exact bne_iff_ne.mpr (Nat.ne_of_gt (h.behind told htold))
  rw [ApplyQueue.outcome?, ApplyQueue.through, List.lookup_append, hnone, Option.none_or,
    List.lookup_cons_self]

end Idle

/-- The others are told nothing else. -/
theorem outcome?_through_of_lt {number : Nat} (h : number < queue.count) (entry : Bytes)
    (outcome : Outcome) :
    (queue.through entry outcome).outcome? number = queue.outcome? number := by
  have hother : List.lookup number [(queue.count, outcome)] = none :=
    List.lookup_eq_none_iff.mpr (List.forall_mem_singleton.mpr (bne_iff_ne.mpr (Nat.ne_of_lt h)))
  rw [outcome?, through, List.lookup_append, hother, Option.or_none, outcome?]

end ApplyQueue

/-- A command goes all the way before the next one comes. -/
theorem Engine.Run.submit_alone {setup : Setup Memory} {roster : Roster}
    {commands : List Command} {engine : Engine} {number term : UInt64} {last : LogId}
    (run : Run setup roster commands engine) (hmemory : setup.OfMemory)
    (hidle : engine.queue.Idle) (hsettled : engine.store.Settled setup number term last)
    (hindex : last.index.toNat + 1 < UInt64.size) {command : Command}
    (hfits : (Payload.normal command.toEntry).Fits) :
    let entry : Entry := ⟨last.successor term number, .normal command.toEntry⟩
    let applied := ((engine.store.withEntry entry).withCommitted entry.id).applyEntry
      setup.machine entry
    ∃ after, Run setup roster (commands ++ [command]) after ∧ after.store = applied.1 ∧
      after.queue = engine.queue.through command.toEntry applied.2.outcome ∧
      after.told = engine.told ++ [some applied.2.outcome] := by
  intro entry applied
  obtain ⟨hwritten, hplaced⟩ := run.lengths_of_idle hmemory ⟨hidle.queued, hidle.inFlight⟩
  have husable : (engine.store.withEntry entry).volume.Usable :=
    ⟨Slot.usable_append hsettled.usable.log _, hsettled.usable.hardState, hsettled.usable.snapshot⟩
  have htaken := (run.submit command).take (hidle.take? command.toEntry)
  have hnext : Consecutive (LogId.behind engine.store.lastLogId) [entry] :=
    ⟨hsettled.behind_lastLogId hindex, trivial⟩
  have hbegun : (engine.queue.written ++ [command.toEntry]).drop engine.indexes.length =
      [command.toEntry] := by rw [hplaced, ← hwritten, List.drop_left]
  have hfirst : ∀ found ∈ carried [entry], 0 < found.1 := by
    refine List.forall_mem_singleton.mpr (UInt64.lt_iff_toNat_lt.mpr ?_)
    change 0 < (last.index + 1).toNat
    rw [toNat_succ hindex]
    exact Nat.succ_pos _
  have hlogged := htaken.write hnext (hbegun ▸ List.prefix_rfl) hfirst
    (List.forall_mem_singleton.mpr (hfits.entry _)) (Store.append_singleton hsettled.usable entry)
  have haside : (Operation.saveCommitted (some entry.id)).Aside setup
    (engine.store.withEntry entry) := trivial
  have hcommitted := hlogged.aside haside (Store.saveCommitted_eq husable _)
  have happlied := hcommitted.apply (hsettled.after_withEntry hindex _) rfl
  have hplace : (engine.indexes ++ [entry.id.index])[engine.queue.count]? =
      some entry.id.index := by
    rw [← hplaced, List.getElem?_concat_length]
  have hresult : (entry.id.index, applied.2) ∈ engine.results ++ [(entry.id.index, applied.2)] :=
    List.mem_append_right _ (List.mem_singleton_self _)
  have hdone := happlied.tell (List.mem_singleton_self _) hplace hresult
  have hqueue := hidle.resolve command.toEntry applied.2.outcome
  refine ⟨_, hdone, rfl, hqueue, ?told⟩
  case told =>
    refine (congrArg (fun queue : ApplyQueue => engine.earlier ++
      (List.range queue.count).map queue.outcome?) hqueue).trans ?_
    rw [Engine.told, List.append_assoc]
    refine congrArg (engine.earlier ++ ·) ?_
    change (List.range (engine.queue.count + 1)).map _ = _
    rw [List.range_succ, List.map_append, List.map_singleton, hidle.outcome?_through]
    refine congrArg (· ++ _) (List.map_congr_left fun number hnumber => ?_)
    exact ApplyQueue.outcome?_through_of_lt (List.mem_range.mp hnumber) _ _

namespace Node

variable {σ : Type} {machine : StateMachine σ} {node : Node σ}

/-- A task that is written at once is told its outcome at once. -/
theorem enqueue_of_idle (h : node.queue.Idle) {entry : Bytes} {result : WriteResult}
    {replica : Replica σ}
    (hwrite : (Step.writeCommand machine entry).run node.replica = (.ok (some result), replica)) :
    let outcome := result.outcome node.group node.roster
    node.enqueue machine entry =
      ({ node with replica, queue := node.queue.through entry outcome }, some outcome) := by
  intro outcome
  simp only [enqueue, h.take?, write, Step.perform, hwrite, h.resolve, h.outcome?_through, outcome]

/-- A node that leads hands a command to its queue. -/
theorem submit_of_isLeader (machine : StateMachine σ) (reach : Peer → CommandRequest → Reply)
    (h : node.isLeader = true) (command : Command) :
    node.submit machine reach command =
      let (after, outcome) := node.enqueue machine command.toEntry
      (after, some (.ok ()), outcome) := by
  simp only [submit, Submission.submit, Submission.applyLocally, Session.run, Dialogue.query, bind,
    Dialogue.bind, Dialogue.advance, Session.answer, h]
  rfl

/-- What the replica of a node does apart from writing commands. -/
def upkeep (machine : StateMachine σ) (node : Node σ) (duty : Upkeep) :
    Node σ × Except (Halt StorageError) Unit :=
  let (replica, result) := (duty.step machine).perform node.replica
  ({ node with replica }, result)

variable {setup : Setup σ} {term : UInt64} {last : LogId}

/-- A node whose replica is in charge and whose queue is idle. -/
structure Leads (setup : Setup σ) (term : UInt64) (last : LogId) (node : Node σ) : Prop where
  replica : Step.Leads setup term last node.replica
  idle : node.queue.Idle

namespace Leads

theorem isLeader (h : node.Leads setup term last) (hindex : last.index.toNat + 1 < UInt64.size) :
    node.isLeader = true := by
  have hvote : node.replica.vote = ⟨term, node.replica.number, true⟩ := by
    rw [Replica.vote, h.replica.settled.vote]
    rfl
  have hvotes : node.replica.membership.isVoter node.replica.number = true :=
    (h.replica.settled.membership_sole hindex).votes
  simp [Node.isLeader, Replica.leader?, hvote, hvotes]

/-- The submitter of a command is told what the state machine made of it. -/
theorem submit (h : node.Leads setup term last) (reach : Peer → CommandRequest → Reply)
    (hindex : last.index.toNat + 1 < UInt64.size) {command : Command}
    (hfits : (Payload.normal command.toEntry).Fits) :
    let entry : Entry :=
      ⟨last.successor term node.replica.number, .normal command.toEntry⟩
    let applied := ((node.replica.store.withEntry entry).withCommitted entry.id).applyEntry
      setup.machine entry
    let after : Node σ := { node with
      replica := node.replica.withStore applied.1
      queue := node.queue.through command.toEntry applied.2.outcome }
    node.submit setup.machine reach command = (after, some (.ok ()), some applied.2.outcome) ∧
      node.replica.store.Extends applied.1 [.normal command.toEntry] ∧
      after.Leads setup term entry.id := by
  intro entry applied after
  obtain ⟨hrun, hextends, hleads⟩ := h.replica.writeCommand hindex hfits
  have henqueue := enqueue_of_idle h.idle hrun
  have hsubmit := submit_of_isLeader setup.machine reach (h.isLeader hindex) command
  rw [henqueue] at hsubmit
  exact ⟨hsubmit, hextends, hleads, h.idle.through _ _⟩

theorem upkeep (h : node.Leads setup term last) (hmachine : setup.machine.Faithful)
    (hindex : last.index.toNat + 1 < UInt64.size) (hterm : term.toNat + 1 < UInt64.size)
    {duty : Upkeep} (hallowed : duty.Allowed setup node.replica) :
    ∃ (store : Store σ) (nextTerm : UInt64) (next : LogId),
      let after : Node σ := { node with replica := node.replica.withStore store }
      node.upkeep setup.machine duty = (after, .ok ()) ∧
      node.replica.store.Tended setup store ∧
      node.replica.store.Extends store duty.payloads ∧
      after.Leads setup nextTerm next ∧ Onward term last nextTerm next := by
  obtain ⟨store, nextTerm, next, hrun, htended, hextends, hleads, honward⟩ :=
    h.replica.upkeep hmachine hindex hterm hallowed
  refine ⟨store, nextTerm, next, ?_, htended, hextends, ⟨hleads, h.idle⟩, honward⟩
  rw [Node.upkeep, Step.perform, hrun]

end Leads

/-! ## Engines -/

/-- Whether a node, with what its submitters were told, is what is seen of an engine. -/
def IsEngine (setup : Setup Memory) (commands : List Command) (told : List (Option Outcome))
    (node : Node Memory) : Prop :=
  ∃ engine, Engine.Run setup node.roster commands engine ∧
    engine.store = node.replica.store ∧ engine.queue = node.queue ∧ engine.told = told

namespace IsEngine

variable {setup : Setup Memory} {commands : List Command} {told : List (Option Outcome)}
  {node : Node Memory}

theorem submit (h : node.IsEngine setup commands told) (hmemory : setup.OfMemory)
    (hleads : node.Leads setup term last) (hindex : last.index.toNat + 1 < UInt64.size)
    {command : Command} (hfits : (Payload.normal command.toEntry).Fits) :
    let entry : Entry :=
      ⟨last.successor term node.replica.number, .normal command.toEntry⟩
    let applied := ((node.replica.store.withEntry entry).withCommitted entry.id).applyEntry
      setup.machine entry
    let after : Node Memory := { node with
      replica := node.replica.withStore applied.1
      queue := node.queue.through command.toEntry applied.2.outcome }
    after.IsEngine setup (commands ++ [command]) (told ++ [some applied.2.outcome]) := by
  obtain ⟨engine, run, hstore, hqueue, rfl⟩ := h
  have hsubmit := run.submit_alone hmemory (hqueue ▸ hleads.idle)
    (hstore ▸ hleads.replica.settled) hindex hfits
  rw [hstore, hqueue] at hsubmit
  exact hsubmit

theorem upkeep (h : node.IsEngine setup commands told) {store : Store Memory}
    (tended : node.replica.store.Tended setup store) :
    { node with replica := node.replica.withStore store : Node Memory }.IsEngine setup commands
      told := by
  obtain ⟨engine, run, hstore, hqueue, rfl⟩ := h
  obtain ⟨after, hafter, hnext, hsame, htold⟩ := run.tended (hstore ▸ tended)
  exact ⟨after, hafter, hnext, hsame.trans hqueue, htold⟩

/-- A node that is started again on the files that one left goes on as the same engine. -/
theorem restart (h : node.IsEngine setup commands told) (hleads : node.Leads setup term last)
    {volume : Volume} {store : Store Memory} {after : Node Memory}
    (hdone : setup.open node.replica.store.volume = (volume, .ok store))
    (hroster : after.roster = node.roster)
    (hstore : after.replica.store = node.replica.store.recounted) (hqueue : after.queue = {}) :
    after.IsEngine setup commands told := by
  obtain ⟨engine, run, hsame, hidle, rfl⟩ := h
  have hrestart := run.restart ⟨hidle ▸ hleads.idle.queued, hidle ▸ hleads.idle.inFlight⟩
    (hsame ▸ hdone)
  obtain ⟨next, hnext, hrecounted, hempty, htold⟩ :=
    hrestart.tended (hleads.replica.settled.tended_reopened hdone)
  refine ⟨next, hroster ▸ hnext, hrecounted.trans hstore.symm, hempty.trans hqueue.symm, ?_⟩
  exact htold.trans (List.append_nil _)

end IsEngine
end Node
end Quorum
