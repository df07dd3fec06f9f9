import Quorum.Proofs.Command.Entry
import Quorum.Proofs.Node.Course

/-! # The courses of submissions

A submission hands its command to the engine, or sends it to the leader, or refuses it. It
does one of these, once, whatever the engine and the leader answer, and it settles the
completion exactly where it does not hand it on.
-/

namespace Quorum

namespace Submission

open Dialogue

variable {promise : List Exchange → Except Failure Unit → Prop} {course : List Exchange}

/-- What the completion of a command learns of a reply of the leader. -/
def outcome (leader : Peer) (timeout : UInt64) : Reply → Outcome
  | .answered response =>
      if response.status then .ok []
      else .error (.forwardRejected leader.display response.message)
  | .failed failure => .error (.forwardTransport leader.display failure.message)
  | .timedOut => .error (.forwardTransport leader.display (lateness timeout))

/-- What the submitter is told at once of an outcome: only that no answer came. -/
def verdict : Outcome → Except Failure Unit
  | .error (.forwardTransport leader reason) => .error (.forwardTransport leader reason)
  | _ => .ok ()

theorem verdict_eq_error {outcome : Outcome} {failure : Failure} :
    verdict outcome = .error failure ↔
      outcome = .error failure ∧ ∃ leader reason, failure = .forwardTransport leader reason := by
  constructor
  · intro h
    unfold verdict at h
    split at h
    next leader reason =>
      injection h with h
      subst h
      exact ⟨rfl, leader, reason, rfl⟩
    next => contradiction
  · rintro ⟨rfl, leader, reason, rfl⟩
    rfl

@[simp] theorem keeps_applyLocally {promise : List Exchange → Unit → Prop} {command : Command} :
    (applyLocally command).Keeps promise course ↔
      promise (course ++ [.enqueue command.toEntry]) () :=
  ⟨fun h => h (), fun h _ => h⟩

@[simp] theorem keeps_refuse {failure : Failure} :
    (refuse failure).Keeps promise course ↔
      promise (course ++ [.settle (.error failure)]) (.error failure) :=
  ⟨fun h => h (), fun h _ => h⟩

/-- Whatever came of the request, the completion is settled with it. -/
@[simp] theorem keeps_conclude {leader : Peer} {timeout : UInt64} {reply : Reply} :
    (conclude leader timeout reply).Keeps promise course ↔
      promise (course ++ [.settle (outcome leader timeout reply)])
        (verdict (outcome leader timeout reply)) := by
  rcases reply with ⟨_ | _, message⟩ | failure | _ <;> exact ⟨fun h => h (), fun h _ => h⟩

/-- The engine of this node was handed the command, and its completion with it. -/
structure Enqueued (command : Command) (course : List Exchange)
    (returned : Except Failure Unit) : Prop where
  leads : course.head? = some (.isLeader true)
  effects : ∃ entry, course.filter Exchange.isEffect = [.enqueue entry] ∧
    Command.ofEntry entry = .ok command
  unresolved : ∀ sink, Completion.after ⟨sink, none⟩ course = ⟨sink, none⟩
  returned : returned = .ok ()

/-- The command was sent to the leader that the engine reported, and its completion was
settled with what came of that. Giving the completion up behind it changes nothing. -/
structure Forwarded (group : GroupId) (timeout : UInt64) (command : Command) (leader : Peer)
    (reply : Reply) (course : List Exchange) (returned : Except Failure Unit) : Prop where
  follows : course.head? = some (.isLeader false)
  reported : [.leader (some leader), .send leader (request group command) reply] <:+: course
  effects : course.filter Exchange.isEffect =
    [.send leader ⟨group.name, command.action.code.toUInt32, command.data⟩ reply,
      .settle (outcome leader timeout reply)]
  resolved : ∀ sink, (Completion.after ⟨sink, none⟩ course).giveUp =
    ⟨sink, some (outcome leader timeout reply)⟩
  returned : ∀ failure, returned = .error failure ↔
    outcome leader timeout reply = .error failure ∧
      ∃ name reason, failure = .forwardTransport name reason

/-- The command was refused, as the engine knows of no leader. -/
structure Refused (group : GroupId) (course : List Exchange) (returned : Except Failure Unit) :
    Prop where
  follows : course.head? = some (.isLeader false)
  unknown : .leader none ∈ course
  effects : course.filter Exchange.isEffect = [.settle (.error (.notLeader group.name none))]
  resolved : ∀ sink, (Completion.after ⟨sink, none⟩ course).giveUp =
    ⟨sink, some (.error (.notLeader group.name none))⟩
  returned : returned = .error (.notLeader group.name none)

/-- The courses of a submission, each with what is returned. -/
inductive Course (group : GroupId) (timeout : UInt64) (command : Command) :
    List Exchange → Except Failure Unit → Prop
  | enqueued : Course group timeout command
      [.isLeader true, .enqueue command.toEntry] (.ok ())
  | forwarded (leads : Bool) (leader : Peer) (reply : Reply) : Course group timeout command
      [.isLeader false, .isLeader leads, .leader (some leader),
        .send leader (request group command) reply, .settle (outcome leader timeout reply)]
      (verdict (outcome leader timeout reply))
  | refused (leads : Bool) : Course group timeout command
      [.isLeader false, .isLeader leads, .leader none,
        .settle (.error (.notLeader group.name none))]
      (.error (.notLeader group.name none))

theorem keeps_submit (group : GroupId) (timeout : UInt64) (command : Command) :
    (submit group timeout command).Keeps (Course group timeout command) [] := by
  rw [submit, keeps_bind, keeps_query]
  rintro (_ | _)
  · -- The engine is asked once more whether it leads, to no effect.
    change (forward group timeout command).Keeps _ _
    rw [forward, keeps_bind, keeps_query]
    intro leads
    rw [keeps_bind, keeps_query]
    rintro (_ | leader)
    · exact keeps_refuse.2 (.refused leads)
    · change Keeps _ _ (_ >>= _)
      rw [keeps_bind, keeps_query]
      exact fun reply => keeps_conclude.2 (.forwarded leads leader reply)
  · change Keeps _ _ (_ >>= _)
    rw [keeps_bind, keeps_applyLocally]
    exact .enqueued

theorem Course.ending {group : GroupId} {timeout : UInt64} {command : Command}
    {course : List Exchange} {returned : Except Failure Unit}
    (h : Course group timeout command course returned) :
    Enqueued command course returned ∨
      (∃ leader reply, Forwarded group timeout command leader reply course returned) ∨
      Refused group course returned := by
  cases h with
  | enqueued =>
      left
      exact {
        leads := rfl
        effects := ⟨command.toEntry, rfl, command.ofEntry_toEntry⟩
        unresolved := fun _ => rfl
        returned := rfl }
  | forwarded leads leader reply =>
      right
      left
      refine ⟨leader, reply, ?_⟩
      exact {
        follows := rfl
        reported :=
          ⟨[.isLeader false, .isLeader leads], [.settle (outcome leader timeout reply)], rfl⟩
        effects := rfl
        resolved := fun _ => rfl
        returned := fun _ => verdict_eq_error }
  | refused leads =>
      right
      right
      exact {
        follows := rfl
        unknown := by simp
        effects := rfl
        resolved := fun _ => rfl
        returned := rfl }

/-- Whatever the engine and the leader answer, and they may answer differently each time, a
submission has one of three endings, which their effects tell apart. -/
theorem submit_has_one_effect {σ : Type} (answer : {β : Type} → σ → Query β → σ × β) (world : σ)
    (group : GroupId) (timeout : UInt64) (command : Command) :
    let ending := (submit group timeout command).converse answer world
    Enqueued command ending.1 ending.2 ∨
      (∃ leader reply, Forwarded group timeout command leader reply ending.1 ending.2) ∨
      Refused group ending.1 ending.2 :=
  ((keeps_submit group timeout command).converse answer world).ending

/-! ## Forwarded commands -/

/-- The answer to a command of which the engine told an outcome. -/
def answer : Outcome → CommandResponse
  | .ok _ => ⟨true, ""⟩
  | .error failure => rejected failure.message

/-- The courses of a command that was forwarded to a node, each with the answer. -/
inductive Handling (hasNode : Bool) (request : CommandRequest) :
    List Exchange → CommandResponse → Prop
  | unregistered (hnode : hasNode = false) :
      Handling hasNode request [] (rejected (Failure.groupNotFound request.group).message)
  | unknown (hnode : hasNode = true) {failure : Failure}
      (haction : Action.ofCode request.action.toNat = .error failure) :
      Handling hasNode request [] (rejected failure.message)
  | refused (hnode : hasNode = true) {action : Action}
      (haction : Action.ofCode request.action.toNat = .ok action) (leader : Option Peer) :
      Handling hasNode request [.isLeader false, .leader leader]
        (rejected ("not leader, leader is " ++ (leader.map Peer.display).getD "unknown"))
  | taken (hnode : hasNode = true) {action : Action}
      (haction : Action.ofCode request.action.toNat = .ok action) (outcome : Outcome) :
      Handling hasNode request
        [.isLeader true, .enqueue (Command.toEntry ⟨action, request.data⟩), .wait outcome]
        (answer outcome)

theorem keeps_handle (hasNode : Bool) (request : CommandRequest) :
    (handle hasNode request).Keeps (Handling hasNode request) [] := by
  cases hnode : hasNode with
  | false => exact .unregistered rfl
  | true =>
      simp only [handle, Bool.not_true, Bool.false_eq_true, if_false]
      split
      next failure haction => exact .unknown rfl haction
      next action haction =>
        rw [take, keeps_bind, keeps_query]
        rintro (_ | _)
        · exact fun leader => .refused rfl haction leader
        · change Keeps _ _ (_ >>= _)
          rw [keeps_bind, keeps_applyLocally, keeps_bind, keeps_query]
          rintro (failure | data)
          · exact .taken rfl haction (.error failure)
          · exact .taken rfl haction (.ok data)

end Submission
end Quorum
