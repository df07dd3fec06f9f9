import Quorum.Peer.Basic
import Quorum.Wire.Message

/-! # Dialogues

What a node does for a command is a dialogue: questions to the engine of its group, to
other peers and to the submitter of the command, each with what is done for every
answer. Nothing else happens between two questions, so a dialogue tells all effects of a
command and their order, whatever the answers are.
-/

namespace Quorum

/-- What comes of a command that was sent to a leader. -/
inductive Reply where
  | answered (response : CommandResponse)
  | failed (failure : Failure)
  | timedOut
  deriving DecidableEq, Repr

/-- A question, with the type of its answer. -/
inductive Query : Type → Type where
  /-- Whether this node leads its group. -/
  | isLeader : Query Bool
  /-- Who leads the group. -/
  | leader : Query (Option Peer)
  /-- Hands an entry to the engine together with the completion of the command. -/
  | enqueue (entry : Bytes) : Query Unit
  /-- Sends a command to the leader, once. -/
  | send (leader : Peer) (request : CommandRequest) : Query Reply
  /-- Reports the outcome of the command to its completion. -/
  | settle (outcome : Outcome) : Query Unit
  /-- Waits for the outcome that the engine reports to the completion. -/
  | wait : Query Outcome

/-- Questions, and what follows each answer. -/
inductive Dialogue (α : Type) : Type 1 where
  | done (value : α)
  | ask {β : Type} (query : Query β) (next : β → Dialogue α)

namespace Dialogue

variable {α β σ : Type}

/-- One dialogue after another. -/
protected def bind : Dialogue α → (α → Dialogue β) → Dialogue β
  | .done value, next => next value
  | .ask query rest, next => .ask query fun answer => (rest answer).bind next

instance : Monad Dialogue where
  pure := .done
  bind := Dialogue.bind

def query (question : Query β) : Dialogue β :=
  .ask question .done

/-- Carries a dialogue on in a world that answers questions, up to one it has no answer
to: what then is left of it. -/
def advance (answer : {β : Type} → σ → Query β → σ × Option β) (world : σ) :
    Dialogue α → σ × Dialogue α
  | .done value => (world, .done value)
  | .ask question next =>
      match answer world question with
      | (world, some reply) => advance answer world (next reply)
      | (world, none) => (world, .ask question next)

/-- The value of a dialogue that has ended. -/
def value? : Dialogue α → Option α
  | .done value => some value
  | .ask _ _ => none

end Dialogue
end Quorum
