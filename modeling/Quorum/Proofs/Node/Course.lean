import Quorum.Completion
import Quorum.Node.Submission

/-! # Courses of dialogues

The course of a dialogue is what was exchanged in it. What a dialogue promises of the
course it ends with, and of its value, it keeps whatever the answers are; the promise of a
dialogue that is put together follows from those of its parts. A dialogue that has not
ended still can, so its promise also tells how it went on so far.
-/

namespace Quorum

/-- A question with its answer. -/
inductive Exchange where
  | isLeader (answer : Bool)
  | leader (answer : Option Peer)
  | enqueue (entry : Bytes)
  | send (leader : Peer) (request : CommandRequest) (reply : Reply)
  | settle (outcome : Outcome)
  | wait (outcome : Outcome)

def Exchange.of {β : Type} : Query β → β → Exchange
  | .isLeader, answer => .isLeader answer
  | .leader, answer => .leader answer
  | .enqueue entry, () => .enqueue entry
  | .send peer request, reply => .send peer request reply
  | .settle outcome, () => .settle outcome
  | .wait, outcome => .wait outcome

/-- The answer to a question where nobody leads and no reply comes. -/
def Query.alone {β : Type} : Query β → β
  | .isLeader => false
  | .leader => none
  | .enqueue _ | .settle _ => ()
  | .send _ _ => .timedOut
  | .wait => .error .shutdown

/-- Whether the engine, a peer or the completion of the command learns of an exchange. -/
def Exchange.isEffect : Exchange → Bool
  | .enqueue _ | .send _ _ _ | .settle _ => true
  | .isLeader _ | .leader _ | .wait _ => false

/-- The completion of a command after what it was told in a course. -/
def Completion.after (completion : Completion) (course : List Exchange) : Completion :=
  course.foldl (fun completion exchange =>
    match exchange with
    | .settle outcome => completion.resolve outcome
    | _ => completion) completion

namespace Dialogue

variable {α β σ : Type}

/-- Whatever the answers are, a dialogue that goes on from some exchanges ends with a course
and a value of which the promise holds. -/
def Keeps (promise : List Exchange → α → Prop) : List Exchange → Dialogue α → Prop
  | course, .done value => promise course value
  | course, .ask query next =>
      ∀ answer, Keeps promise (course ++ [.of query answer]) (next answer)

@[simp] theorem keeps_query {promise : List Exchange → α → Prop} {course : List Exchange}
    {question : Query α} :
    Keeps promise course (query question) ↔
      ∀ answer, promise (course ++ [.of question answer]) answer :=
  Iff.rfl

/-- The first of two dialogues has to end where the second keeps the promise. -/
@[simp] theorem keeps_bind {promise : List Exchange → β → Prop} {course : List Exchange}
    {first : Dialogue α} {second : α → Dialogue β} :
    Keeps promise course (first >>= second) ↔
      Keeps (fun course value => Keeps promise course (second value)) course first := by
  change Keeps promise course (first.bind second) ↔ _
  induction first generalizing course with
  | done value => rfl
  | ask query next ih => exact forall_congr' fun answer => ih answer

/-- Carries a dialogue on to its end in a world that answers every question: its course
and its value. -/
def converse (answer : {β : Type} → σ → Query β → σ × β) (world : σ) :
    Dialogue α → List Exchange × α
  | .done value => ([], value)
  | .ask question next =>
      let (world, reply) := answer world question
      let (course, value) := converse answer world (next reply)
      (.of question reply :: course, value)

/-- A world that answers every question and notes what is exchanged. -/
def noting (answer : {β : Type} → σ → Query β → σ × β) {β : Type} :
    σ × List Exchange → Query β → (σ × List Exchange) × Option β
  | (world, course), question =>
      let (world, reply) := answer world question
      ((world, course ++ [.of question reply]), some reply)

/-- Such a world brings a dialogue to its end and has then noted its course. -/
theorem advance_noting (answer : {β : Type} → σ → Query β → σ × β) (world : σ)
    (before : List Exchange) (dialogue : Dialogue α) :
    (dialogue.advance (noting answer) (world, before)).1.2 =
        before ++ (dialogue.converse answer world).1 ∧
      (dialogue.advance (noting answer) (world, before)).2.value? =
        some (dialogue.converse answer world).2 := by
  induction dialogue generalizing world before with
  | done value => simp [advance, converse, value?]
  | ask question next ih =>
      rcases hreply : answer world question with ⟨after, reply⟩
      have hrest := ih reply after (before ++ [.of question reply])
      rw [List.append_assoc, List.singleton_append] at hrest
      simpa only [advance, converse, noting, hreply] using hrest

/-- What is promised holds in every world. -/
theorem Keeps.converse {promise : List Exchange → α → Prop} {before : List Exchange}
    {dialogue : Dialogue α} (h : dialogue.Keeps promise before)
    (answer : {β : Type} → σ → Query β → σ × β) (world : σ) :
    promise (before ++ (dialogue.converse answer world).1) (dialogue.converse answer world).2 := by
  induction dialogue generalizing before world with
  | done value => simpa [Dialogue.converse, Keeps] using h
  | ask question next ih =>
      simpa [Dialogue.converse] using
        ih (answer world question).2 (h _) (answer world question).1

/-- A dialogue that keeps a promise can still come to where the promise holds. -/
theorem Keeps.reachable {promise : List Exchange → α → Prop} {before : List Exchange}
    {dialogue : Dialogue α} (h : dialogue.Keeps promise before) :
    ∃ course value, before <+: course ∧ promise course value := by
  exact ⟨_, _, List.prefix_append _ _, h.converse (fun world query => (world, query.alone)) ()⟩

end Dialogue
end Quorum
