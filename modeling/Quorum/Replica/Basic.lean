import Quorum.Replication.Request
import Quorum.Storage.Store

/-! # Replicas

A replica is a node's part in the consensus of its group. Nearly all of its state is what
its store keeps: its vote, its log, and what was applied, which is as much as it knows to
be committed. Every operation is a step on the replica that a failing store may stop.
-/

namespace Quorum

/-- The part a replica plays in its group. -/
inductive Role where
  | learner
  | follower
  | candidate
  | leader
  | shutdown
  deriving DecidableEq, Repr

def Role.name : Role → String
  | .learner => "Learner"
  | .follower => "Follower"
  | .candidate => "Candidate"
  | .leader => "Leader"
  | .shutdown => "Shutdown"

/-- A snapshot of which not all pieces have come. -/
structure Transfer where
  snapshotId : String
  data : Bytes := []
  deriving DecidableEq, Repr

/-- A node's part in the consensus of its group. -/
structure Replica (σ : Type) where
  number : UInt64
  store : Store σ
  role : Role := .learner
  /-- The last place up to which the log is known to be that of a leader, and its vote. -/
  accepted : Option (Vote × LogId) := none
  transfer : Option Transfer := none

namespace LogId

/-- The index after a place. -/
def next : Option LogId → UInt64
  | none => 0
  | some id => id.index + 1

/-- The earlier one of two places that may be missing. -/
def optionMin (a b : Option LogId) : Option LogId :=
  if optionLe a b then a else b

/-- The later one of two places that may be missing. -/
def optionMax (a b : Option LogId) : Option LogId :=
  if optionLe a b then b else a

end LogId

namespace Membership

/-- Whether a node belongs to the group. -/
def contains (membership : Membership) (node : UInt64) : Bool :=
  membership.nodes.any (·.1 = node)

def isDecidedBy (membership : Membership) (node : UInt64) : Bool :=
  membership.configs.all (· = [node])

end Membership

namespace Store

variable {σ : Type}

/-- The memberships that stored entries set which are not applied yet. -/
def pendingMemberships (store : Store σ) : List StoredMembership :=
  (store.log.since (LogId.next store.lastApplied)).entries.filterMap fun entry =>
    match entry.payload with
    | .membership membership => some ⟨some entry.id, membership⟩
    | _ => none

/-- The last membership in the log, applied or not. -/
def membership (store : Store σ) : StoredMembership :=
  store.pendingMemberships.getLast?.getD store.lastMembership

/-- The place of an index, if the log reaches back to it. -/
def idAt? (store : Store σ) (index : UInt64) : Option LogId :=
  match store.hardState.lastPurged with
  | some id => if id.index = index then some id else (store.log.get? index).map (·.id)
  | none => (store.log.get? index).map (·.id)

/-- Whether the log holds an entry of a place. What is applied agrees with every leader. -/
def hasId (store : Store σ) (id : LogId) : Bool :=
  LogId.optionLe (some id) store.lastApplied || store.idAt? id.index = some id

end Store

namespace Replica

variable {σ : Type}

/-- The vote, that for nobody in the beginning. -/
def vote (replica : Replica σ) : Vote :=
  replica.store.hardState.vote.getD ⟨0, 0, false⟩

def membership (replica : Replica σ) : Membership :=
  replica.store.membership.membership

/-- How far the log is known to be committed. -/
def committed (replica : Replica σ) : Option LogId :=
  replica.store.lastApplied

/-- Whether the replica voted for itself. -/
def isLeading (replica : Replica σ) : Bool :=
  replica.membership.contains replica.number && replica.vote.node = replica.number

/-- The role that follows from the vote and the membership. -/
def properRole (replica : Replica σ) : Role :=
  if replica.isLeading then
    if replica.vote.committed then .leader else .candidate
  else if replica.membership.isVoter replica.number then .follower
  else .learner

/-- The number of the node that leads the group. -/
def leader? (replica : Replica σ) : Option UInt64 :=
  if replica.vote.committed && replica.membership.isVoter replica.vote.node then
    some replica.vote.node
  else none

/-- The number of the node to which others are referred. -/
def referral? (replica : Replica σ) : Option UInt64 :=
  if replica.vote.committed && replica.membership.contains replica.vote.node then
    some replica.vote.node
  else none

/-- How far the log was accepted from the leader that the vote is for. -/
def acceptedId (replica : Replica σ) : Option LogId :=
  replica.accepted.bind fun (vote, id) =>
    if vote.term = replica.vote.term ∧ vote.node = replica.vote.node then some id else none

def snapshotId (replica : Replica σ) : Option LogId :=
  replica.store.current.bind fun snapshot => snapshot.description.lastLogId

end Replica

/-- A step of a replica. When the store fails, the step ends there. -/
abbrev Step (σ : Type) := ExceptT (Halt StorageError) (StateM (Replica σ))

namespace Step

variable {σ α : Type}

def store (operation : Store σ → Store σ × Except (Halt StorageError) α) : Step σ α :=
  ExceptT.mk fun replica =>
    let (store, result) := operation replica.store
    (result, { replica with store })

/-- Does an operation of the store that cannot fail. -/
def change (operation : Store σ → Store σ × α) : Step σ α :=
  store fun before =>
    let (after, value) := operation before
    (after, .ok value)

/-- Takes on the role that follows from the vote and the membership. -/
def takeRole : Step σ Unit :=
  modify fun replica => { replica with role := replica.properRole }

/-- Takes up a vote that is not behind the own one: whether it is so. -/
def adopt (vote : Vote) : Step σ Bool := do
  let replica ← get
  if replica.vote.le vote then
    if replica.vote ≠ vote then store (·.saveVote vote)
    takeRole
    return true
  else return false

/-- Adds entries to the log. -/
def append (entries : List Entry) : Step σ Unit := do
  store (·.append entries)
  takeRole

/-- Removes what the log holds from an index on. -/
def truncate (index : UInt64) : Step σ Unit := do
  match (← get).store.idAt? index with
  | none => return
  | some id =>
      store (·.deleteSince id)
      takeRole

/-- Commits the log up to a place and applies what was not applied yet: the results. -/
def commit (machine : StateMachine σ) (upTo : Option LogId) : Step σ (List ApplyResult) := do
  let before := (← get).committed
  match upTo with
  | none => return []
  | some id =>
      if LogId.optionLe upTo before then return []
      else
        -- What is committed is noted before it is applied, so a restart applies it again.
        store (·.saveCommitted upTo)
        change fun store =>
          store.applyAll machine (store.log.range (LogId.next before) (some (id.index, true)))

/-- Commits all of the log if the word of this node decides. -/
def commitAlone (machine : StateMachine σ) : Step σ (List ApplyResult) := do
  let replica ← get
  if replica.membership.isDecidedBy replica.number then commit machine replica.store.lastLogId
  else return []

end Step
end Quorum
