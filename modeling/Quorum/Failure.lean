import Quorum.Bytes

/-! # Failures

What a caller of the service is told when a command or a node fails. The kind tells
whether another attempt may help, and where the leader of the group may be.
-/

namespace Quorum

/-- Why something asked of a replication group did not happen. -/
inductive Failure where
  | config (reason : String)
  | initialization (reason : String)
  | notLeader (group : String) (leader : Option String)
  /-- The command could not be sent to the leader, or no answer came. -/
  | forwardTransport (leader reason : String)
  /-- The leader took the command but answered that it did not apply it. -/
  | forwardRejected (leader message : String)
  | applyFailed (reason : String)
  | groupNotFound (group : String)
  | serialization (reason : String)
  | network (reason : String)
  | storage (reason : String)
  | shutdown
  | internal (reason : String)
  deriving DecidableEq, Repr

namespace Failure

def message : Failure → String
  | .config reason => "Configuration error: " ++ reason
  | .initialization reason => "Failed to init raft node: " ++ reason
  | .notLeader group leader =>
      "Not leader for group " ++ group ++ ": leader is " ++ leader.getD "unknown"
  | .forwardTransport leader reason =>
      "Failed to invoke rpc request to leader " ++ leader ++ ": " ++ reason
  | .forwardRejected leader message =>
      "Current node isn't leader, leader is [" ++ leader
        ++ "], failed to forward request to leader: " ++ message
  | .applyFailed reason => "Failed to apply command: " ++ reason
  | .groupNotFound group => "Raft group not found: " ++ group
  | .serialization reason => "Serialization error: " ++ reason
  | .network reason => "Network error: " ++ reason
  | .storage reason => "Storage error: " ++ reason
  | .shutdown => "Raft is shutting down"
  | .internal reason => "Internal error: " ++ reason

/-- The name of a failure's kind. -/
def kind : Failure → String
  | .config _ => "Config"
  | .initialization _ => "Initialization"
  | .notLeader _ _ => "NotLeader"
  | .forwardTransport _ _ => "ForwardTransport"
  | .forwardRejected _ _ => "ForwardRejected"
  | .applyFailed _ => "ApplyFailed"
  | .groupNotFound _ => "GroupNotFound"
  | .serialization _ => "Serialization"
  | .network _ => "Network"
  | .storage _ => "Storage"
  | .shutdown => "Shutdown"
  | .internal _ => "Internal"

/-- Whether the same command may succeed at another time or with another peer. -/
def isRetryable : Failure → Bool
  | .notLeader _ _ | .forwardTransport _ _ | .forwardRejected _ _ | .network _ => true
  | _ => false

/-- The peer that was believed to lead. -/
def leaderHint : Failure → Option String
  | .notLeader _ leader => leader
  | .forwardTransport leader _ | .forwardRejected leader _ => some leader
  | _ => none

end Failure

/-- What the submitter of a command learns: the response, or why there is none. -/
abbrev Outcome := Except Failure Bytes

end Quorum
