import Quorum.Node.Submission
import Quorum.Replica.Leadership
import Quorum.Service.Call

/-! # Nodes

A node is the part of a server that belongs to one group: its replica and the queue of
commands on their way into the log. It answers the questions of the commands that are
submitted to it and the calls of its peers.
-/

namespace Quorum

/-- The member of a group on a server. -/
structure Node (σ : Type) where
  group : GroupId
  peer : Peer
  roster : Roster
  layout : Layout
  /-- How long an answer of the leader is waited for, in milliseconds. -/
  forwardTimeout : UInt64
  replica : Replica σ
  queue : ApplyQueue := {}

namespace Node

variable {σ : Type} (machine : StateMachine σ)

/-- A node of a group as diagnostics show it. -/
def debug (group : GroupId) (peer : Peer) : String :=
  "RaftNode \x7b group: " ++ group.debug ++ ", peer_id: " ++ peer.debug ++ ", .. \x7d"

def isLeader (node : Node σ) : Bool :=
  node.replica.leader? = some node.replica.number

def leader? (node : Node σ) : Option Peer :=
  node.replica.leader?.bind fun number => node.roster.peer? number.toNat

/-- Begins the write of a task that was taken off the queue. The write has ended if the
replica could tell its result at once. -/
def write (node : Node σ) (task : Task) : Node σ :=
  let (replica, result) := (Step.writeCommand machine task.entry).perform node.replica
  let ended := match result with
    | .ok result => result
    | .error (.failed error) => some (.failed error.message)
    | .error .overflow => some (.failed "panicked")
  match ended with
  | none => { node with replica }
  | some result =>
      { node with
        replica
        queue := node.queue.resolve task.number (result.outcome node.group node.roster) }

/-- Hands an entry to the queue, of which it is taken at once: its outcome, if it has
one. -/
def enqueue (node : Node σ) (entry : Bytes) : Node σ × Option Outcome :=
  let number := node.queue.count
  let node := { node with queue := node.queue.accept entry }
  let node := match node.queue.take? with
    | some (task, queue) => { node with queue }.write machine task
    | none => node
  (node, node.queue.outcome? number)

/-- Stops the node. Writes that have not ended never will. -/
def stop (node : Node σ) : Node σ :=
  let queue := node.queue.close
  -- Each write that was begun ends here, and none twice.
  let queue := queue.inFlight.foldl
    (fun queue task => queue.resolve task.number (.error .shutdown)) queue
  { node with queue := queue.finish, replica := { node.replica with role := .shutdown } }

/-- Takes a snapshot of what was applied. -/
def snapshot (node : Node σ) : Node σ × Except (Halt StorageError) Unit :=
  let (replica, result) := (Step.takeOwnSnapshot machine).perform node.replica
  ({ node with replica }, result)

/-- Answers the call of a peer. A replica that was stopped, or whose store fails, answers
that it is stopped. -/
def answer (node : Node σ) (call : Call) :
    Node σ × Except ReplicaFault call.kind.Response :=
  if node.replica.role = .shutdown then (node, .error .stopped)
  else
    match (call.perform machine).perform node.replica with
    | (replica, .ok result) => ({ node with replica }, result)
    | (replica, .error _) => ({ node with replica }, .error .stopped)

end Node

end Quorum
