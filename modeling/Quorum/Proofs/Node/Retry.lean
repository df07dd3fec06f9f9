import Quorum.Node.Queue
import Quorum.Proofs.Node.Network
import Quorum.StateMachine.Memory

/-! # Whether another attempt may help

The submitter of a command learns of a failure from its own engine, or from the leader that its
node forwarded the command to. What the engine tells keeps its kind on the first way. On the
second it is sent as a text and becomes the refusal of a leader, so every failure that comes
this way seems worth another attempt, whatever the engine said.
-/

namespace Quorum

/-- Whether an outcome is a failure after which another attempt may help. -/
def Outcome.isRetryable : Outcome → Bool
  | .ok _ => false
  | .error failure => failure.isRetryable

/-- Whether an outcome is a failure that stays whatever is tried. -/
def Outcome.IsFinal (outcome : Outcome) : Prop :=
  ∃ failure, outcome = .error failure ∧ failure.isRetryable = false

namespace Completion

variable {completion : Completion} {course full : List Exchange} {outcome : Outcome}

/-- Whatever comes behind its outcome leaves a completion as it is. -/
theorem after_of_outcome (h : completion.outcome = some outcome) :
    completion.after course = completion := by
  induction course with
  | nil => rfl
  | cons exchange rest ih =>
      cases exchange with
      | settle other =>
          have hresolve : completion.resolve other = completion := by simp only [resolve, h]
          change (completion.resolve other).after rest = completion
          rw [hresolve]
          exact ih
      | isLeader | leader | enqueue | send | wait => exact ih

/-- An outcome stays when the course goes on. -/
theorem outcome_after_of_prefix (hextends : course <+: full)
    (h : (completion.after course).outcome = some outcome) :
    (completion.after full).outcome = some outcome := by
  obtain ⟨rest, rfl⟩ := hextends
  have hrest : completion.after (course ++ rest) = (completion.after course).after rest :=
    List.foldl_append
  rw [hrest, after_of_outcome h, h]

end Completion

namespace Submission

/-- What the submitter learns of an outcome that the engine of the leader told. -/
def relayed (leader : Peer) : Outcome → Outcome
  | .ok _ => .ok []
  | .error failure => .error (.forwardRejected leader.display failure.message)

/-- A command and an outcome of it that can be sent: every text and every run of bytes in the
request and in the answer fits in memory. -/
structure Sendable (group : GroupId) (command : Command) (outcome : Outcome) : Prop where
  name : Bytes.Fits (Text.Utf8.encode group.name)
  data : Bytes.Fits command.data
  message : ∀ failure, outcome = .error failure → Bytes.Fits (Text.Utf8.encode failure.message)

namespace Sendable

variable {group : GroupId} {command : Command} {told : Outcome}

theorem decode_request (h : Sendable group command told) :
    Wire.commandRequest.decode (Wire.commandRequest.encode (request group command)) =
      .ok (request group command) := by
  apply Wire.lossless_commandRequest.decode_encode
  intro field hfield
  simp only [Wire.commandRequest, List.mem_cons, List.not_mem_nil, or_false] at hfield
  rcases hfield with rfl | rfl | rfl
  · exact h.name
  · exact (by decide : Bytes.Fits [])
  · exact h.data

theorem decode_answer (h : Sendable group command told) :
    Wire.commandResponse.decode (Wire.commandResponse.encode (answer told)) =
      .ok (answer told) := by
  apply Wire.lossless_commandResponse.decode_encode
  intro field hfield
  simp only [Wire.commandResponse, List.mem_cons, List.not_mem_nil, or_false] at hfield
  rcases hfield with rfl | rfl
  · exact (by decide : Bytes.Fits [])
  · cases told with
    | ok data => exact (by decide : Bytes.Fits [])
    | error failure => exact h.message failure rfl

end Sendable

/-- A server with a node of the group takes the command of a request. -/
theorem handle_request (group : GroupId) (command : Command) :
    handle (Registry.contains (⟨[(group, ())]⟩ : Registry Unit) ⟨(request group command).group⟩)
      (request group command) = take command := by
  have hnode : Registry.contains (⟨[(group, ())]⟩ : Registry Unit)
      ⟨(request group command).group⟩ = true := by
    simp [Registry.contains, Registry.find?, request]
  rw [hnode]
  obtain ⟨action, data⟩ := command
  cases action <;> rfl

theorem outcome_answer (leader : Peer) (timeout : UInt64) (told : Outcome) :
    outcome leader timeout (.answered (answer told)) = relayed leader told := by
  cases told with
  | error failure => rfl
  | ok data => rfl

end Submission

namespace Activity

variable {α : Type} {replies : Reply → Prop} {activity next : Activity α}
variable {out : List (Peer × CommandRequest)}

/-- A dialogue that has ended goes on no more. -/
theorem Step.not_done (hstep : activity.Step replies out next) (value : α) :
    activity.phase ≠ .going (.done value) := by
  cases hstep with
  | ask => simp
  | send => simp
  | receive => simp

end Activity

/-- A list of one item at most has no two different ones. -/
theorem eq_of_length_le_one {α : Type*} {list : List α} (h : list.length ≤ 1) {first second : α}
    (hfirst : first ∈ list) (hsecond : second ∈ list) : first = second := by
  obtain ⟨i, hi, rfl⟩ := List.getElem_of_mem hfirst
  obtain ⟨j, hj, rfl⟩ := List.getElem_of_mem hsecond
  have hsame : i = j := by omega
  simp only [hsame]

namespace Network

variable {node leader : Peer} {group : GroupId} {timeout : UInt64} {command : Command}
variable {network next : Network} {outcome told : Outcome}

/-- Every answer that came is that of a node which has ended. -/
def Answered (network : Network) : Prop :=
  ∀ leader request response, .send leader request (.answered response) ∈ network.submission.course →
    ∃ handler ∈ network.handlers, handler.phase = .going (.done response)

theorem answered_start : (start node group timeout command).Answered :=
  fun _ _ _ hmem => absurd hmem List.not_mem_nil

theorem Answered.step (h : network.Answered) (hstep : network.Step next) : next.Answered := by
  intro leader request response hmem
  cases hstep with
  | submit hstep =>
      rcases hstep.reply hmem with hmem | hreply
      · exact h leader request response hmem
      · obtain ⟨handler, hhandler, answer, hdone, hdecode⟩ := hreply
        cases Wire.lossless_commandResponse.eq_of_decode hdecode
        exact ⟨handler, hhandler, hdone⟩
  | handle hhandlers hstep =>
      obtain ⟨ended, hended, hdone⟩ := h leader request response hmem
      rw [hhandlers, List.mem_append, List.mem_cons] at hended
      rcases hended with hended | rfl | hended
      · exact ⟨ended, List.mem_append_left _ hended, hdone⟩
      · exact absurd hdone (hstep.not_done response)
      · exact ⟨ended, by simp [hended], hdone⟩
  | deliver registry hrequests hdecode =>
      obtain ⟨ended, hended, hdone⟩ := h leader request response hmem
      exact ⟨ended, List.mem_append_left _ hended, hdone⟩

theorem Answered.of_run
    (hrun : Relation.ReflTransGen Step (start node group timeout command) network) :
    network.Answered := by
  induction hrun with
  | refl => exact answered_start
  | tail _ hstep ih => exact ih.step hstep

/-- The completion of the command that was submitted, after what its node told it. -/
def completion (network : Network) : Completion :=
  Completion.after ⟨.channel, none⟩ network.submission.course

/-- The engine of the node itself was handed the command. It told its outcome of it, and with
that the submitter learned what it was told. -/
structure ToldByEngine (network : Network) (outcome told : Outcome) : Prop where
  handed : ∃ entry, .enqueue entry ∈ network.submission.course
  told : (network.completion.resolve outcome).outcome = some told

/-- The command was forwarded to a leader whose engine told its outcome of it. The answer of the
leader came, and the submitter learned what it was told. -/
structure ToldByLeader (network : Network) (leader : Peer) (outcome told : Outcome) : Prop where
  waited : ∃ handler ∈ network.handlers, handler.node = leader ∧ .wait outcome ∈ handler.course
  answered : ∃ request response,
    .send leader request (.answered response) ∈ network.submission.course
  told : network.completion.outcome = some told

/-- The outcome of the engine itself reaches the submitter as it is. -/
theorem Sound.told_by_engine (h : Sound group timeout command network)
    (htold : network.ToldByEngine outcome told) : told = outcome := by
  obtain ⟨⟨entry, hentry⟩, hlearned⟩ := htold
  obtain ⟨full, returned, hcourse, hextends, -⟩ := h.submission.reachable
  have hnone : network.completion.outcome = none := by
    cases hown : network.completion.outcome with
    | none => rfl
    | some other =>
        have hfull := Completion.outcome_after_of_prefix hextends hown
        have hmem := hextends.subset hentry
        cases hcourse with
        | enqueued => cases hfull
        | forwarded => simp at hmem
        | refused => simp at hmem
  simp only [Completion.resolve, hnone, Option.some.injEq] at hlearned
  exact hlearned.symm

/-- The outcome that the engine of the leader told reaches the submitter as the answer tells. -/
theorem Sound.told_by_leader (h : Sound group timeout command network)
    (hanswered : network.Answered) (htold : network.ToldByLeader leader outcome told) :
    told = Submission.relayed leader outcome := by
  obtain ⟨⟨handler, hhandler, -, hwait⟩, ⟨request, response, hreply⟩, hlearned⟩ := htold
  -- One node at most was reached, so the node that waited is the one that answered.
  have hresponse : response = Submission.answer outcome := by
    obtain ⟨ended, hended, hdone⟩ := hanswered leader request response hreply
    have hone : network.handlers.length ≤ 1 :=
      (Nat.le_of_add_left_le h.counted).trans h.oneHop.sent
    obtain rfl : ended = handler := eq_of_length_le_one hone hended hhandler
    obtain ⟨hasNode, hkeeps⟩ := h.handlers ended hended
    rw [Activity.Keeps, hdone] at hkeeps
    generalize ended.course = course at hkeeps hwait
    cases hkeeps with
    | unregistered => simp at hwait
    | unknown => simp at hwait
    | refused => simp at hwait
    | taken hnode haction other =>
        obtain rfl : outcome = other := by simpa using hwait
        rfl
  obtain ⟨full, returned, hcourse, hextends, -⟩ := h.submission.reachable
  have hfull := Completion.outcome_after_of_prefix hextends hlearned
  have hmem := hextends.subset hreply
  cases hcourse with
  | enqueued => simp at hmem
  | forwarded leads peer reply =>
      obtain ⟨rfl, -, rfl⟩ : leader = peer ∧ request = Submission.request group command ∧
          .answered response = reply := by
        simpa using hmem
      rw [hresponse] at hfull
      cases hfull
      exact Submission.outcome_answer leader timeout outcome
  | refused => simp at hmem

/-! ## Both ways can be taken -/

/-- A node that leads hands the command to its engine. -/
theorem exists_told_by_engine (leader : Peer) (group : GroupId) (timeout : UInt64)
    (command : Command) (outcome : Outcome) :
    ∃ network, Relation.ReflTransGen Step (start leader group timeout command) network ∧
      network.ToldByEngine outcome outcome :=
  ⟨_, .tail (.tail .refl (.submit (.ask true rfl))) (.submit (.ask () rfl)),
    ⟨_, List.mem_append_right _ (List.mem_singleton.2 rfl)⟩, rfl⟩

/-- The leader takes a command that was forwarded, and its answer comes back. -/
theorem exists_told_by_leader (node leader : Peer) (timeout : UInt64)
    (hsendable : Submission.Sendable group command outcome) :
    ∃ network, Relation.ReflTransGen Step (start node group timeout command) network ∧
      network.ToldByLeader leader outcome (Submission.relayed leader outcome) := by
  have hsent := Relation.ReflTransGen.refl (r := Step) (a := start node group timeout command)
    |>.tail (.submit (.ask false rfl))
    |>.tail (.submit (.ask false rfl))
    |>.tail (.submit (.ask (some leader) rfl))
    |>.tail (.submit .send)
  have hdelivered := hsent.tail
    (@Step.deliver _ [] [] _ _ _ ⟨[(group, ())]⟩ rfl hsendable.decode_request)
  rw [Submission.handle_request] at hdelivered
  have htaken := hdelivered
    |>.tail (@Step.handle _ [] [] _ _ _ rfl (.ask true rfl))
    |>.tail (@Step.handle _ [] [] _ _ _ rfl (.ask () rfl))
    |>.tail (@Step.handle _ [] [] _ _ _ rfl (.ask outcome rfl))
  have hanswered := htaken.tail (.submit (@Activity.Step.receive _ _ _ _ _ _ _
    (.answered (Submission.answer outcome)) ⟨_, List.mem_singleton.2 rfl, Submission.answer outcome,
      by cases outcome <;> rfl, hsendable.decode_answer⟩))
  -- What the follower goes on with hangs on the status of the answer.
  cases outcome
  all_goals exact ⟨_, hanswered.tail (.submit (.ask () rfl)),
    ⟨_, List.mem_singleton.2 rfl, rfl, by simp [Exchange.of]⟩,
    ⟨_, _, List.mem_append_left _ (List.mem_append_right _ (List.mem_singleton.2 rfl))⟩, rfl⟩

end Network

/-- Where a write does not end with success, only that another node leads is not final. -/
theorem WriteResult.isFinal_outcome_iff (group : GroupId) (roster : Roster)
    (result : WriteResult) : (result.outcome group roster).IsFinal ↔
      (∃ text, result = .applied (.error text)) ∨ result = .stopped ∨
        ∃ reason, result = .failed reason := by
  rcases result with (data | _ | text) | number | _ | reason
  all_goals simp [WriteResult.outcome, ApplyResult.outcome, Outcome.IsFinal, Failure.isRetryable]

namespace Submission

/-- A failure that was relayed always seems worth another attempt. -/
theorem isRetryable_relayed_of_isFinal {told : Outcome} (h : told.IsFinal) (leader : Peer) :
    told.isRetryable = false ∧ (relayed leader told).isRetryable = true := by
  obtain ⟨failure, rfl, hfailure⟩ := h
  exact ⟨hfailure, rfl⟩

theorem isRetryable_relayed_iff (leader : Peer) (told : Outcome) :
    (relayed leader told).isRetryable = told.isRetryable ↔ ¬ told.IsFinal := by
  constructor
  · intro halike hfinal
    obtain ⟨hdirect, hrelayed⟩ := isRetryable_relayed_of_isFinal hfinal leader
    rw [hdirect, hrelayed] at halike
    contradiction
  · intro hfinal
    cases told with
    | ok data => rfl
    | error failure =>
        cases hretryable : failure.isRetryable with
        | true => exact hretryable.symm
        | false => exact absurd ⟨failure, rfl, hretryable⟩ hfinal

end Submission

/-- A command that is submitted at a leader brings its submitter the outcome that the engine tells.
One that is forwarded to this leader brings success without a response, or the refusal of the
leader with the text of the failure. Whether another attempt may help is told alike on both ways
just if the outcome is no failure that stays: no refusal of the state machine, no end of the node
and no failed write. Each of these seems worth another attempt where the command was forwarded,
and only there. Both ways can be gone with every command and every outcome. -/
theorem retryable_alike_iff (leader : Peer) (group : GroupId) (command : Command)
    (outcome : Outcome) :
    (∀ {node : Peer} {timeout timeoutThere : UInt64} {direct forwarded : Network}
        {there here : Outcome},
      Relation.ReflTransGen Network.Step (.start leader group timeoutThere command) direct →
      direct.ToldByEngine outcome there →
      Relation.ReflTransGen Network.Step (.start node group timeout command) forwarded →
      forwarded.ToldByLeader leader outcome here →
      there = outcome ∧ here = Submission.relayed leader outcome ∧
        (here.isRetryable = there.isRetryable ↔ ¬ outcome.IsFinal) ∧
        (outcome.IsFinal → there.isRetryable = false ∧ here.isRetryable = true)) ∧
    (∀ roster result, outcome = WriteResult.outcome group roster result →
      (outcome.IsFinal ↔ (∃ text, result = .applied (.error text)) ∨ result = .stopped ∨
        ∃ reason, result = .failed reason)) ∧
    (Submission.Sendable group command outcome → ∀ node timeout timeoutThere,
      ∃ direct forwarded there here,
        Relation.ReflTransGen Network.Step (.start leader group timeoutThere command) direct ∧
        direct.ToldByEngine outcome there ∧
        Relation.ReflTransGen Network.Step (.start node group timeout command) forwarded ∧
        forwarded.ToldByLeader leader outcome here) := by
  refine ⟨?_, ?_, ?_⟩
  · intro node timeout timeoutThere direct forwarded there here hdirect hengine hforwarded hleader
    obtain rfl := (Network.Sound.of_run hdirect).told_by_engine hengine
    obtain rfl := (Network.Sound.of_run hforwarded).told_by_leader
      (Network.Answered.of_run hforwarded) hleader
    exact ⟨rfl, rfl, Submission.isRetryable_relayed_iff leader there,
      fun hfinal => Submission.isRetryable_relayed_of_isFinal hfinal leader⟩
  · rintro roster result rfl
    exact result.isFinal_outcome_iff group roster
  · intro hsendable node timeout timeoutThere
    obtain ⟨direct, hdirect, hengine⟩ :=
      Network.exists_told_by_engine leader group timeoutThere command outcome
    obtain ⟨forwarded, hforwarded, hleader⟩ :=
      Network.exists_told_by_leader node leader timeout hsendable
    exact ⟨direct, forwarded, _, _, hdirect, hengine, hforwarded, hleader⟩

/-- An increment of one byte, which every memory refuses. -/
theorem refused_increment_seems_retryable :
    let command : Command := ⟨.incrCounter, [1]⟩
    let outcome := (Memory.apply {} 1 1 command).2.outcome
    Submission.Sendable ⟨"g"⟩ command outcome ∧ ∃ direct forwarded there here,
      Relation.ReflTransGen Network.Step (.start ⟨"b", 2, 0⟩ ⟨"g"⟩ 1000 command) direct ∧
      direct.ToldByEngine outcome there ∧
      Relation.ReflTransGen Network.Step (.start ⟨"a", 1, 0⟩ ⟨"g"⟩ 1000 command) forwarded ∧
      forwarded.ToldByLeader ⟨"b", 2, 0⟩ outcome here ∧
      there.isRetryable = false ∧ here.isRetryable = true := by
  intro command outcome
  have hfailure : outcome = .error (.applyFailed "counter delta must be 8 bytes, got 1") := by
    decide
  have hsendable : Submission.Sendable ⟨"g"⟩ command outcome := by
    refine ⟨by decide, by decide, fun failure hfailed => ?_⟩
    rw [hfailure] at hfailed
    cases hfailed
    decide
  obtain ⟨htold, -, hexists⟩ := retryable_alike_iff ⟨"b", 2, 0⟩ ⟨"g"⟩ command outcome
  obtain ⟨direct, forwarded, there, here, hdirect, hengine, hforwarded, hleader⟩ :=
    hexists hsendable ⟨"a", 1, 0⟩ 1000 1000
  obtain ⟨-, -, -, hfinal⟩ := htold hdirect hengine hforwarded hleader
  exact ⟨hsendable, direct, forwarded, there, here, hdirect, hengine, hforwarded, hleader,
    hfinal ⟨_, hfailure, rfl⟩⟩

end Quorum
