import Quorum.Node.Basic
import Quorum.Service.Channel

/-! # Commands at a node

A node carries the dialogue of a command on as far as it has answers. It asks its own
replica who leads, hands entries to its own queue, and reaches other peers by whatever
way it is given.
-/

namespace Quorum

/-- What comes of sending a command to a peer that is not there. -/
def Channel.unreached (peer : Peer) (_request : CommandRequest) : Reply :=
  match Channel.make peer.endpoint with
  | .error failure => .failed failure
  | .ok _ => .failed (.network ("Store command rpc to " ++ peer.endpoint ++ " failed"))

/-- A command in the hands of a node, with the outcome that its completion was told. -/
structure Session (σ : Type) where
  node : Node σ
  outcome : Option Outcome := none

namespace Session

variable {σ : Type} (machine : StateMachine σ) (reach : Peer → CommandRequest → Reply)

/-- Tells the completion an outcome, unless it was told one before. -/
def settle (session : Session σ) (outcome : Option Outcome) : Session σ :=
  { session with outcome := session.outcome.or outcome }

/-- Answers the questions of a command. -/
def answer {β : Type} (session : Session σ) : Query β → Session σ × Option β
  | .isLeader => (session, some session.node.isLeader)
  | .leader => (session, some session.node.leader?)
  | .enqueue entry =>
      let (node, outcome) := session.node.enqueue machine entry
      ({ session with node }.settle outcome, some ())
  | .send leader request => (session, some (reach leader request))
  | .settle outcome => (session.settle (some outcome), some ())
  | .wait => (session, session.outcome)

/-- Carries the dialogue of a command on as far as the node has answers. -/
def run {α : Type} (dialogue : Dialogue α) (session : Session σ) : Session σ × Option α :=
  let (session, rest) := dialogue.advance (answer machine reach) session
  (session, rest.value?)

end Session

namespace Node

variable {σ : Type} (machine : StateMachine σ) (reach : Peer → CommandRequest → Reply)

/-- Submits a command: what the submitter is told at once, and the outcome. -/
def submit (node : Node σ) (command : Command) :
    Node σ × Option (Except Failure Unit) × Option Outcome :=
  let (session, returned) :=
    Session.run machine reach (Submission.submit node.group node.forwardTimeout command) ⟨node, none⟩
  (session.node, returned, session.outcome)

/-- Takes a command that was forwarded: the answer, once there is one. -/
def take (node : Node σ) (request : CommandRequest) : Node σ × Option CommandResponse :=
  let (session, response) := Session.run machine reach (Submission.handle true request) ⟨node, none⟩
  (session.node, response)

end Node

end Quorum
