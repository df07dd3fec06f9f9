import Quorum.Replication.Entry
import Quorum.Text.Quoted

/-! # Snapshots and the requests between peers

A snapshot is described by the last entry it covers, the membership at that entry and a
name. Peers ask each other for votes, send entries, and send snapshots in pieces.
-/

namespace Quorum

structure SnapshotMeta where
  lastLogId : Option LogId := none
  lastMembership : StoredMembership := {}
  snapshotId : String := ""
  deriving DecidableEq, Repr

/-- The part of a description by which snapshots are told apart, as diagnostics show it. -/
def SnapshotMeta.signature (snapshot : SnapshotMeta) : String :=
  "SnapshotSignature \x7b last_log_id: " ++ LogId.debugOption snapshot.lastLogId
    ++ ", last_membership_log_id: " ++ LogId.debugOption snapshot.lastMembership.logId
    ++ ", snapshot_id: " ++ Text.Quoting.text.quote snapshot.snapshotId ++ " \x7d"

def SnapshotMeta.format : Binary.Format SnapshotMeta :=
  ((Binary.Format.option LogId.format).pair (StoredMembership.format.pair .string)).convert
    (fun (lastLogId, lastMembership, snapshotId) => ⟨lastLogId, lastMembership, snapshotId⟩)
    (fun snapshot => (snapshot.lastLogId, snapshot.lastMembership, snapshot.snapshotId))

/-- A candidate asks for a vote and tells how far its log goes. -/
structure VoteRequest where
  vote : Vote
  lastLogId : Option LogId := none
  deriving DecidableEq, Repr

def VoteRequest.format : Binary.Format VoteRequest :=
  (Vote.format.pair (.option LogId.format)).convert
    (fun (vote, lastLogId) => ⟨vote, lastLogId⟩)
    (fun request => (request.vote, request.lastLogId))

/-- A leader sends the entries after a place, and how far the log is committed. -/
structure AppendRequest where
  vote : Vote
  previous : Option LogId := none
  entries : List Entry := []
  committed : Option LogId := none
  deriving DecidableEq, Repr

def AppendRequest.format : Binary.Format AppendRequest :=
  (Vote.format.pair <| (Binary.Format.option LogId.format).pair <|
    (Binary.Format.list Entry.format).pair (.option LogId.format)).convert
    (fun (vote, previous, entries, committed) => ⟨vote, previous, entries, committed⟩)
    (fun request => (request.vote, request.previous, request.entries, request.committed))

/-- A leader sends a piece of a snapshot from an offset on. -/
structure InstallRequest where
  vote : Vote
  snapshot : SnapshotMeta
  offset : UInt64
  data : Bytes
  done : Bool
  deriving DecidableEq, Repr

def InstallRequest.format : Binary.Format InstallRequest :=
  (Vote.format.pair <| SnapshotMeta.format.pair <| Binary.Format.u64.pair <|
    Binary.Format.bytes.pair .bool).convert
    (fun (vote, snapshot, offset, data, done) => ⟨vote, snapshot, offset, data, done⟩)
    (fun request =>
      (request.vote, request.snapshot, request.offset, request.data, request.done))

end Quorum
