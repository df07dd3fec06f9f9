import Quorum.Replica.Basic

/-! # Answering peers

What a replica does when a peer asks for its vote, sends entries or sends a piece of a
snapshot. Whoever knows of a later vote than the peer tells it so and does nothing.
-/

namespace Quorum

/-- The answer to a candidate: the own vote, whether it is for the candidate, and how far
the own log goes. -/
structure VoteResponse where
  vote : Vote
  granted : Bool
  lastLogId : Option LogId
  deriving DecidableEq, Repr

/-- The answer to a leader that sent entries. -/
inductive AppendResponse where
  | success
  /-- Not all entries were taken, only those up to a place. -/
  | partially (upTo : Option LogId)
  /-- The log holds another entry at the place after which the sent ones belong. -/
  | conflict
  | higherVote (vote : Vote)
  deriving DecidableEq, Repr

def AppendResponse.display : AppendResponse → String
  | .success => "Success"
  | .partially _ => "PartialSuccess"
  | .conflict => "Conflict"
  | .higherVote vote => "Higher vote, " ++ vote.display

/-- A piece of a snapshot: of which one, and from which offset on. -/
structure Piece where
  snapshotId : String
  offset : UInt64
  deriving DecidableEq, Repr

/-- Why a replica has no answer. -/
inductive ReplicaFault where
  /-- Another piece of a snapshot was expected. -/
  | mismatch (expected got : Piece)
  | stopped
  deriving DecidableEq, Repr

namespace Step

variable {σ : Type} (machine : StateMachine σ)

/-- Asked for a vote: a known leader is kept, and so is whoever has more of the log. -/
def giveVote (request : VoteRequest) : Step σ VoteResponse := do
  let replica ← get
  let lastLogId := replica.store.lastLogId
  let granted ←
    if replica.vote.committed || !LogId.optionLe lastLogId request.lastLogId then pure false
    else adopt request.vote
  return ⟨(← get).vote, granted, lastLogId⟩

/-- Notes how far the log is that of the leader. -/
def accept (id : Option LogId) : Step σ Unit :=
  modify fun replica =>
    match id with
    | none => replica
    | some place =>
        if LogId.optionLe id replica.acceptedId then replica
        else { replica with accepted := some (replica.vote, place) }

/-- Takes entries that belong behind the ones there are. Entries of other places than the
sent ones give way, together with all behind them. -/
def takeEntries (entries : List Entry) : Step σ Unit := do
  let known := (← get).store
  match entries.dropWhile fun entry => known.hasId entry.id with
  | [] => return
  | first :: rest =>
      -- The entries in front are known already and are not written again.
      truncate first.id.index
      append (first :: rest)

/-- Takes entries that belong behind a place, and commits as far as the leader did. -/
def takeAfter (request : AppendRequest) : Step σ AppendResponse := do
  -- Only what agrees with this leader may be committed, whatever lies behind it.
  accept (LogId.optionMax request.previous (request.entries.getLast?.map (·.id)))
  takeEntries request.entries
  let _ ← commit machine (LogId.optionMin (← get).acceptedId request.committed)
  return .success

/-- Sent entries by a leader. -/
def takeAppend (request : AppendRequest) : Step σ AppendResponse := do
  if ← adopt request.vote then
    match request.previous with
    | none => takeAfter machine request
    | some id =>
        if (← get).store.hasId id then takeAfter machine request
        else
          truncate id.index
          return .conflict
  else return .higherVote (← get).vote

/-- Bytes with others in them from an offset on; zeros fill what is missing in front. -/
def overwrite (bytes : Bytes) (offset : Nat) (data : Bytes) : Bytes :=
  if data = [] then bytes
  else bytes.take offset ++ List.replicate (offset - bytes.length) 0 ++ data
    ++ bytes.drop (offset + data.length)

/-- Puts a piece into the snapshot that is being received. The first piece of another
snapshot takes the place of what has come so far. -/
def receive (request : InstallRequest) : Step σ (Except ReplicaFault Bytes) := do
  let id := request.snapshot.snapshotId
  let before := (← get).transfer.filter (·.snapshotId = id)
  if before.isNone && request.offset ≠ 0 then
    return .error (.mismatch ⟨id, 0⟩ ⟨id, request.offset⟩)
  else
    let data := overwrite ((before.map (·.data)).getD []) request.offset.toNat request.data
    modify fun replica =>
      { replica with transfer := if request.done then none else some ⟨id, data⟩ }
    return .ok data

/-- Takes over a whole snapshot, unless as much was applied already. -/
def takeSnapshot (vote : Vote) (snapshot : Snapshot) : Step σ Unit := do
  if ← adopt vote then
    let replica ← get
    let last := snapshot.description.lastLogId
    match last with
    | none => return
    | some id =>
        if LogId.optionLe last replica.committed || LogId.optionLe last replica.snapshotId then
          return
        else
          -- An entry there that the leader does not have gives way first.
          if (replica.store.idAt? id.index).any (· ≠ id) then
            truncate (LogId.next replica.committed)
          accept last
          store (·.installSnapshot machine snapshot)
          takeRole

/-- Sent a piece of a snapshot by a leader: the vote before, or after the last piece. -/
def takePiece (request : InstallRequest) : Step σ (Except ReplicaFault Vote) := do
  let own := (← get).vote
  if !own.le request.vote then return .ok own
  else
    match ← receive request with
    | .error fault => return .error fault
    | .ok data =>
        if request.done then
          takeSnapshot machine request.vote ⟨request.snapshot, data⟩
          return .ok (← get).vote
        else return .ok own

/-- How many applied entries stay in the log after a snapshot. -/
def keptEntries : Nat := 1000

/-- Removes the entries that a snapshot covers, but for the last ones. -/
def purgeCovered : Step σ Unit := do
  let replica ← get
  let bound := (LogId.next replica.snapshotId).toNat - keptEntries
  if (LogId.next replica.store.hardState.lastPurged).toNat < bound then
    match replica.store.idAt? (.ofNat (bound - 1)) with
    | some id => store (·.purge id)
    | none => return

def takeOwnSnapshot : Step σ Unit := do
  let before := (← get).snapshotId
  let snapshot ← store (·.buildSnapshot machine)
  if !LogId.optionLe snapshot.description.lastLogId before then purgeCovered

/-- Runs a step. A replica whose store failed is stopped. -/
def perform {α : Type} (step : Step σ α) (replica : Replica σ) :
    Replica σ × Except (Halt StorageError) α :=
  match step.run replica with
  | (.ok value, replica) => (replica, .ok value)
  | (.error halt, replica) => ({ replica with role := .shutdown }, .error halt)

end Step

/-- What can be asked about a replica. -/
structure Metrics where
  number : UInt64
  role : Role
  leader : Option UInt64
  vote : Vote
  lastLogId : Option LogId
  lastApplied : Option LogId
  snapshot : Option LogId
  purged : Option LogId
  membership : StoredMembership
  deriving DecidableEq, Repr

/-- What a replica tells about itself. -/
def Replica.metrics {σ : Type} (replica : Replica σ) : Metrics where
  number := replica.number
  role := replica.role
  leader := replica.leader?
  vote := replica.vote
  lastLogId := replica.store.lastLogId
  lastApplied := replica.store.lastApplied
  snapshot := replica.snapshotId
  purged := replica.store.hardState.lastPurged
  membership := replica.store.membership

end Quorum
