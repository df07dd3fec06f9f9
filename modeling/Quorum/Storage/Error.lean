import Quorum.Disk.Basic
import Quorum.Failure
import Quorum.Replication.Request

/-! # What a store reports when an operation fails

An error names what was being read or written, and why that failed.
-/

namespace Quorum

/-- What an operation of a store was about. -/
inductive StorageSubject where
  | writeVote
  | writeLogs
  | writeStore
  | readStateMachine
  | writeStateMachine
  | readSnapshot (snapshot : SnapshotMeta)
  | writeSnapshot (snapshot : SnapshotMeta)
  deriving DecidableEq, Repr

def StorageSubject.text : StorageSubject → String
  | .writeVote => "Write Vote"
  | .writeLogs => "Write Logs"
  | .writeStore => "Write Store"
  | .readStateMachine => "Read StateMachine"
  | .writeStateMachine => "Write StateMachine"
  | .readSnapshot snapshot => "Read Snapshot(Some(" ++ snapshot.signature ++ "))"
  | .writeSnapshot snapshot => "Write Snapshot(Some(" ++ snapshot.signature ++ "))"

/-- Where an error of a store began. -/
inductive StorageSource where
  | failed (failure : Failure)
  | io (cause : IoCause)
  deriving DecidableEq, Repr

def StorageSource.text : StorageSource → String
  | .failed failure => "storenode_raft::error::RaftError: " ++ failure.message
  | .io cause => "core::io::error::Error: " ++ cause.message

/-- Why an operation of a store failed. -/
structure StorageError where
  subject : StorageSubject
  source : StorageSource
  deriving DecidableEq, Repr

def StorageError.message (error : StorageError) : String :=
  "when " ++ error.subject.text ++ ": " ++ error.source.text

/-- A failure of the operating system as callers see it. -/
def IoCause.failure (cause : IoCause) : Failure :=
  .storage cause.message

end Quorum
