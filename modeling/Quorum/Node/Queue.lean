import Quorum.Group
import Quorum.StateMachine.Basic

/-! # The apply queue

Tasks reach the log of a group in the order in which they were handed over. A loop takes
them off the queue one after the other and begins to write each; the writes end in any
order. A queue that was closed takes no more tasks, and the loop ends when it is empty.
-/

namespace Quorum

/-- How a write to the log of a group ended. -/
inductive WriteResult where
  | applied (result : ApplyResult)
  /-- This node does not lead; the number is that of the node it believes to lead. -/
  | notLeader (leader : Option UInt64)
  /-- The node was stopped before the write ended. -/
  | stopped
  | failed (reason : String)
  deriving DecidableEq, Repr

/-- What the submitter learns of a write. -/
def WriteResult.outcome (group : GroupId) (roster : Roster) : WriteResult → Outcome
  | .applied result => result.outcome
  | .notLeader leader =>
      .error (.notLeader group.name
        ((leader.bind fun number => roster.peer? number.toNat).map Peer.display))
  | .stopped => .error .shutdown
  | .failed reason => .error (.applyFailed reason)

/-- An entry on its way to the log. Tasks are numbered in the order in which they were
handed over. -/
structure Task where
  number : Nat
  entry : Bytes
  deriving DecidableEq, Repr

/-- The tasks of a node, each in one of three places. -/
structure ApplyQueue where
  /-- Whether tasks are taken. -/
  isOpen : Bool := true
  /-- Whether the loop still runs. -/
  isRunning : Bool := true
  /-- How many tasks were ever handed over. -/
  count : Nat := 0
  queued : List Task := []
  inFlight : List Task := []
  resolved : List (Nat × Outcome) := []
  /-- The entries whose writes were begun, the first one first. -/
  written : List Bytes := []
  deriving Repr

namespace ApplyQueue

/-- Hands a task over. A closed queue fails it at once. -/
def accept (queue : ApplyQueue) (entry : Bytes) : ApplyQueue :=
  if queue.isOpen then
    { queue with count := queue.count + 1, queued := queue.queued ++ [⟨queue.count, entry⟩] }
  else
    { queue with
      count := queue.count + 1
      resolved := queue.resolved ++ [(queue.count, .error .shutdown)] }

/-- The loop takes the next task and begins to write it. -/
def take? (queue : ApplyQueue) : Option (Task × ApplyQueue) :=
  match queue.queued with
  | task :: rest =>
      if queue.isRunning then
        some (task, { queue with
          queued := rest
          inFlight := queue.inFlight ++ [task]
          written := queue.written ++ [task.entry] })
      else none
  | [] => none

/-- A write ends with an outcome, unless there is no such write. -/
def resolve (queue : ApplyQueue) (number : Nat) (outcome : Outcome) : ApplyQueue :=
  if queue.inFlight.any (·.number = number) then
    { queue with
      inFlight := queue.inFlight.filter (·.number ≠ number)
      resolved := queue.resolved ++ [(number, outcome)] }
  else queue

def close (queue : ApplyQueue) : ApplyQueue :=
  { queue with isOpen := false }

/-- The loop ends if the queue is closed and empty. -/
def finish (queue : ApplyQueue) : ApplyQueue :=
  if !queue.isOpen && queue.queued.isEmpty then { queue with isRunning := false } else queue

/-- The outcome of a task, once it has one. -/
def outcome? (queue : ApplyQueue) (number : Nat) : Option Outcome :=
  queue.resolved.lookup number

end ApplyQueue
end Quorum
