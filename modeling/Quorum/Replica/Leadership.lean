import Quorum.Node.Queue
import Quorum.Replica.Basic

/-! # Leading a group

A replica that founds a group writes the group's membership as the first entry and votes
for itself. If no other node has a vote, it leads at once, and its first entry in a term
is blank. What a leader writes is committed as soon as a majority has it.
-/

namespace Quorum.Step

variable {σ : Type} (machine : StateMachine σ)

/-- The place of the next entry that this replica writes. -/
def nextId (replica : Replica σ) : LogId :=
  ⟨replica.vote.term, replica.number, LogId.next replica.store.lastLogId⟩

/-- Writes an entry: the results of what could be committed. -/
def write (payload : Payload) : Step σ (List ApplyResult) := do
  append [⟨nextId (← get), payload⟩]
  commitAlone machine

def lead : Step σ Unit := do
  -- A committed vote is above the same vote before it was committed.
  store (·.saveVote { (← get).vote with committed := true })
  takeRole
  let _ ← write machine .blank

/-- Stands for election in a new term. -/
def elect : Step σ Unit := do
  let replica ← get
  store (·.saveVote ⟨replica.vote.term + 1, replica.number, false⟩)
  takeRole
  if replica.membership.isDecidedBy replica.number then lead machine

/-- Whether nothing was ever written or voted for. -/
def isFresh (replica : Replica σ) : Bool :=
  replica.store.lastLogId.isNone && replica.vote = ⟨0, 0, false⟩

/-- Founds a group. A replica of a group that was founded before is left as it is. -/
def found (membership : Membership) : Step σ Unit := do
  if isFresh (← get) then
    append [⟨⟨0, 0, 0⟩, .membership membership⟩]
    elect machine

/-- Writes the bytes of a command: how the write ended, if it has. -/
def writeCommand (entry : Bytes) : Step σ (Option WriteResult) := do
  let replica ← get
  match replica.role with
  | .shutdown => return some .stopped
  | .leader => return (← write machine (.normal entry)).getLast?.map .applied
  | _ => return some (.notLeader replica.referral?)

/-- Brings the state machine up to what is known to be committed. -/
def catchUp : Step σ Unit := do
  let { hardState, lastApplied, .. } := (← get).store
  match hardState.committed with
  | some id =>
      if LogId.optionLe (some id) lastApplied then return
      else
        let _ ← change fun store =>
          store.applyAll machine
            (store.log.range (LogId.next lastApplied) (some (id.index, true)))
  | none => return

/-- Purges a log that ends before what was applied, which a snapshot covers. -/
def closeGap : Step σ Unit := do
  let replica ← get
  match replica.store.lastApplied with
  | some id =>
      if LogId.optionLe (some id) replica.store.lastLogId then return
      else store (·.purge id)
  | none => return

/-- Builds a snapshot if there is none although the log was purged. -/
def replaceSnapshot : Step σ Unit := do
  let replica ← get
  if replica.store.current.isNone && replica.store.hardState.lastPurged.isSome then
    let _ ← store (·.buildSnapshot machine)

/-- Takes up work after a start. A replica that led before leads on. -/
def resume : Step σ Unit := do
  catchUp machine
  closeGap
  replaceSnapshot machine
  let replica ← get
  match replica.properRole with
  | .leader =>
      takeRole
      let _ ← commitAlone machine
  | _ =>
      let isVoter := replica.membership.isVoter replica.number
      set { replica with role := if isVoter then .follower else .learner }

end Quorum.Step
