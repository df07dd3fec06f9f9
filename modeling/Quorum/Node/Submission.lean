import Quorum.Command.Basic
import Quorum.Group
import Quorum.Node.Dialogue

/-! # Submitting commands

The leader of a group puts a command into its log; every other node forwards it to the
leader it knows of, once, and never forwards what was forwarded to it. Whatever happens,
the completion of the command is handed to the engine or settled here, and not both.
-/

namespace Quorum

open Dialogue (query)

namespace Submission

/-- Puts a command into the log of this node. -/
def applyLocally (command : Command) : Dialogue Unit :=
  query (.enqueue command.toEntry)

/-- Ends a submission with a failure, which both the completion and the caller learn. -/
def refuse (failure : Failure) : Dialogue (Except Failure Unit) := do
  query (.settle (.error failure))
  return .error failure

/-- Why no answer came within a time in milliseconds. -/
def lateness (timeout : UInt64) : String :=
  "timed out after " ++ toString timeout.toNat ++ "ms"

/-- The request for a leader to take a command. -/
def request (group : GroupId) (command : Command) : CommandRequest :=
  ⟨group.name, command.action.code.toUInt32, command.data⟩

/-- Ends a submission with what came of its request. A leader that refuses the command
has answered, so only the completion learns of it. -/
def conclude (leader : Peer) (timeout : UInt64) : Reply → Dialogue (Except Failure Unit)
  | .answered response => do
      if response.status then query (.settle (.ok []))
      else query (.settle (.error (.forwardRejected leader.display response.message)))
      return .ok ()
  | .failed failure => refuse (.forwardTransport leader.display failure.message)
  | .timedOut => refuse (.forwardTransport leader.display (lateness timeout))

/-- Sends a command to the leader of its group. That this node may lead by now changes
nothing. -/
def forward (group : GroupId) (timeout : UInt64) (command : Command) :
    Dialogue (Except Failure Unit) := do
  -- Even if this node leads by now, the request is sent: to itself.
  let _ ← query .isLeader
  match ← query .leader with
  | none => refuse (.notLeader group.name none)
  | some leader => conclude leader timeout (← query (.send leader (request group command)))

def submit (group : GroupId) (timeout : UInt64) (command : Command) :
    Dialogue (Except Failure Unit) := do
  if ← query .isLeader then
    applyLocally command
    return .ok ()
  else forward group timeout command

/-- The answer that a command was not taken. -/
def rejected (message : String) : CommandResponse :=
  ⟨false, message⟩

/-- Takes a forwarded command into the log if this node leads, and waits for its
outcome. -/
def take (command : Command) : Dialogue CommandResponse := do
  if ← query .isLeader then
    applyLocally command
    match ← query .wait with
    | .ok _ => return ⟨true, ""⟩
    | .error failure => return rejected failure.message
  else
    let leader ← query .leader
    return rejected ("not leader, leader is " ++ (leader.map Peer.display).getD "unknown")

/-- Answers a forwarded command, for a group that has a node here or has none. -/
def handle (hasNode : Bool) (request : CommandRequest) : Dialogue CommandResponse :=
  if !hasNode then return rejected (Failure.groupNotFound request.group).message
  else match Action.ofCode request.action.toNat with
    | .error failure => return rejected failure.message
    | .ok action => take ⟨action, request.data⟩

end Submission
end Quorum
