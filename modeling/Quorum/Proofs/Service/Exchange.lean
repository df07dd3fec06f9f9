import Mathlib.Control.Monad.Basic
import Quorum.Host.Start
import Quorum.Proofs.Binary.Exchanged

/-! # Calls reach the replica of their group

A call that is carried to a server and back is as good as asking what the server has
registered for the group: nothing else is asked, and the caller is told what was answered.
The request is read back from the message because its format loses nothing, the result from
the answer because responses are short and a fault is one that can be read back, and an
answer with a text in it never comes from whoever was asked.
-/

namespace Quorum

open Binary.Format

/-! ## Responses -/

theorem VoteResponse.lossless_format : VoteResponse.format.Lossless :=
  (Vote.lossless_format.pair <| lossless_bool.pair LogId.lossless_format.option).convert
    fun _ => rfl

theorem AppendResponse.lossless_format : AppendResponse.format.Lossless := by
  refine lossless_choice (by decide) (fun response => by cases response <;> simp [number]) ?_
  intro response
  cases response with
  | success => exact (lossless_unit ()).convert rfl
  | partially upTo => exact (LogId.lossless_format.option upTo).convert rfl
  | conflict => exact (lossless_unit ()).convert rfl
  | higherVote vote => exact (Vote.lossless_format vote).convert rfl

theorem AppendResponse.length_write_le (response : AppendResponse) :
    (AppendResponse.format.write response).length ≤ 37 := by
  have hnumber := length_writeNumber_le response.number
  cases response with
  | success | conflict =>
      simp only [AppendResponse.format, choice, number, convert, unit, List.length_append,
        List.length_nil] at hnumber ⊢
      omega
  | partially upTo =>
      have hplace := LogId.length_writeOption_le upTo
      simp only [AppendResponse.format, choice, number, convert, List.length_append] at hnumber ⊢
      omega
  | higherVote vote =>
      have hvote := Vote.length_write_le vote
      simp only [AppendResponse.format, choice, number, convert, List.length_append] at hnumber ⊢
      omega

theorem Piece.lossless_format : Piece.format.Lossless :=
  (lossless_string.pair lossless_u64).convert fun _ => rfl

theorem ReplicaFault.lossless_format : ReplicaFault.format.Lossless := by
  refine lossless_choice (by decide) (fun fault => by cases fault <;> simp [number]) ?_
  intro fault
  cases fault with
  | mismatch expected got =>
      refine .choice (by decide) (by decide) (.convert ?_ rfl)
      exact Piece.lossless_format.pair Piece.lossless_format (expected, got)
  | stopped => exact .choice (by decide) (by decide) ((lossless_unit ()).convert rfl)

namespace CallKind

theorem lossless_requestFormat (kind : CallKind) : kind.requestFormat.Lossless := by
  cases kind with
  | vote => exact VoteRequest.lossless_format
  | append => exact AppendRequest.lossless_format
  | install => exact InstallRequest.lossless_format

/-- Every response is read back, as none is long. -/
theorem decode_write_response (kind : CallKind) (response : kind.Response) :
    kind.responseFormat.decode (kind.responseFormat.write response) = .ok response := by
  cases kind with
  | vote =>
      refine VoteResponse.lossless_format.decode_write ?_
      have hvote := Vote.length_write_le response.vote
      have hplace := LogId.length_writeOption_le response.lastLogId
      simp only [Bytes.Fits, VoteResponse.format, convert, pair, Binary.Format.bool,
        List.length_append, List.length_cons, List.length_nil, UInt64.size]
      omega
  | append =>
      exact AppendResponse.lossless_format.decode_write
        (Nat.lt_of_le_of_lt (AppendResponse.length_write_le response) (by decide))
  | install =>
      exact Vote.lossless_format.decode_write
        (Nat.lt_of_le_of_lt (Vote.length_write_le response) (by decide))

end CallKind

/-! ## Messages and answers -/

variable {ι σ : Type} {ε : CallKind → Type} (faults : (kind : CallKind) → Binary.Format (ε kind))
  (registry : Registry ι)
  (ask : ι → (call : Call) → σ → σ × Except (ε call.kind) call.kind.Response)

/-- The fault that a call is answered with, if it is, is read back. -/
def Call.AnswersReadBack (group : GroupId) (call : Call) (server : σ) : Prop :=
  ∀ target fault, registry.find? group = some target → (ask target call server).2 = .error fault →
    (faults call.kind).decode ((faults call.kind).write fault) = .ok fault

theorem Call.read_answer {kind : CallKind} (target : UInt64)
    {result : Except (ε kind) kind.Response}
    (hfault : ∀ fault, result = .error fault →
      (faults kind).decode ((faults kind).write fault) = .ok fault) :
    Call.read faults kind target (Call.answer faults result) =
      result.mapError (.remote target) := by
  have hread : decodeStored (kind.resultFormat faults) (Call.answer faults result).payload =
      .ok result := by
    rw [decodeStored, Call.answer, CallKind.resultFormat,
      decode_write_result (fun value _ => kind.decode_write_response value) hfault]
  rw [Call.read, hread]
  cases result with
  | ok _ => rfl
  | error _ => rfl

/-- The text of a refusal is what a caller is told. -/
theorem Call.read_refusal (kind : CallKind) (target : UInt64) (group : String) :
    Call.read faults kind target (Route.refusal (.groupNotFound group)) =
      .error (.network (.network (kind.name ++ " to node " ++ toString target.toNat
        ++ " rejected: " ++ (Failure.groupNotFound group).message))) := by
  have htext : (Route.refusal (.groupNotFound group)).error ≠ "" := by
    change "Raft group not found: " ++ group ≠ ""
    rw [Ne, String.append_eq_empty_iff]
    exact fun h => absurd h.1 (by decide)
  rw [Call.read, if_pos htext]
  rfl

/-- The message of a call asks what is registered for the group, and nothing else. -/
theorem Route.answer_message {call : Call} (group : GroupId)
    (hrequest : (call.kind.requestFormat.write call.request).Fits) (server : σ) :
    Route.answer faults registry ask (call.message group) server =
      match registry.find? group with
      | none => (server, .ok (Route.refusal (.groupNotFound group.name)))
      | some target =>
          ((ask target call server).1, .ok (Call.answer faults (ask target call server).2)) := by
  have hread : decodeStored call.kind.requestFormat
      (call.kind.requestFormat.write call.request) = .ok call.request := by
    have h := decodeStored_append call.kind.lossless_requestFormat hrequest []
    rwa [List.append_nil] at h
  simp only [Route.answer, Route.ofMessage, Call.message, CallKind.ofName?_name,
    Route.destination]
  cases registry.find? group with
  | none => rfl
  | some target => rw [hread]; rfl

/-- Carries messages to a server and its answers back as they are. How a message comes back
that is refused is up to the carrier. -/
def Route.carry (refused : Status → String) (message : PeerRequest) (server : σ) :
    σ × Except String PeerResponse :=
  (Route.answer faults registry ask message server).map id (Except.mapError refused)

/-- A call over a carrier is the question to what is registered for the group. -/
theorem Call.send_carry (refused : Status → String) (target : UInt64) {address : String}
    (haddress : Channel.make address = .ok ()) (group : GroupId) {call : Call}
    (hrequest : (call.kind.requestFormat.write call.request).Fits) {server : σ}
    (hanswers : call.AnswersReadBack faults registry ask group server) :
    call.send faults (Route.carry faults registry ask refused) target address group server =
      match registry.find? group with
      | none => (server, .error (.network (.network (call.kind.name ++ " to node "
          ++ toString target.toNat ++ " rejected: "
          ++ (Failure.groupNotFound group.name).message))))
      | some asked => ((ask asked call server).1,
          (ask asked call server).2.mapError (.remote target)) := by
  simp only [Call.send, haddress, Route.carry,
    Route.answer_message faults registry ask group hrequest server]
  cases hfound : registry.find? group with
  | none => simp [Except.mapError, Call.read_refusal]
  | some asked =>
      simp [Except.mapError, Call.read_answer faults target (hanswers asked · hfound)]

/-- A call to a host is the question to the node that is registered for the group. -/
theorem Host.send_answer {σ : Type} (machine : StateMachine σ) (refused : Status → String)
    (target : UInt64) {address : String} (haddress : Channel.make address = .ok ())
    (group : GroupId) {call : Call} {host : Host σ}
    (hrequest : (call.kind.requestFormat.write call.request).Fits)
    (hfault : ∀ number fault, host.replicas.find? group = some number →
      (host.ask machine number call).2 = .error fault → (ReplicaFault.format.write fault).Fits) :
    call.send (fun _ => ReplicaFault.format)
        (fun message host => (host.answer machine message).map id (.mapError refused))
        target address group host =
      match host.replicas.find? group with
      | none => (host, .error (.network (.network (call.kind.name ++ " to node "
          ++ toString target.toNat ++ " rejected: "
          ++ (Failure.groupNotFound group.name).message))))
      | some number => ((host.ask machine number call).1,
          (host.ask machine number call).2.mapError (.remote target)) := by
  have hsend := Call.send_carry (fun _ => ReplicaFault.format) host.replicas (Host.ask machine)
    refused target haddress group hrequest fun number fault hfound herror =>
      ReplicaFault.lossless_format.decode_write (hfault number fault hfound herror)
  simp only [Call.send, Route.carry] at hsend
  simp only [Call.send, Host.answer, hsend]
  cases host.replicas.find? group with
  | none => rfl
  | some _ => rfl

/-! ## Who is asked and what the caller is told -/

/-- Asks, and notes what was asked of whom. -/
def Route.noted (target : ι) (call : Call) (server : σ × List (ι × Call)) :
    (σ × List (ι × Call)) × Except (ε call.kind) call.kind.Response :=
  let (next, result) := ask target call server.1
  ((next, server.2 ++ [(target, call)]), result)

/-- A call that is carried to a server and back is asked of what is registered for exactly its
group, once and as it was made, and of nothing else. The caller is told the response or the
fault that was answered, and of a failure on the way just if nothing is registered for the
group; then nothing was asked. -/
theorem calls_reach_their_group_alone (refused : Status → String) (target : UInt64)
    {address : String} (haddress : Channel.make address = .ok ()) (group : GroupId) {call : Call}
    (hrequest : (call.kind.requestFormat.write call.request).Fits) {server : σ}
    (hanswers : call.AnswersReadBack faults registry ask group server) :
    let carried := call.send faults (Route.carry faults registry (Route.noted ask) refused)
      target address group (server, [])
    carried.1 =
      (match registry.find? group with
      | none => (server, [])
      | some asked => ((ask asked call server).1, [(asked, call)])) ∧
    (∀ response, carried.2 = .ok response ↔
      ∃ asked, registry.find? group = some asked ∧ (ask asked call server).2 = .ok response) ∧
    (∀ node fault, carried.2 = .error (.remote node fault) ↔
      node = target ∧
        ∃ asked, registry.find? group = some asked ∧ (ask asked call server).2 = .error fault) ∧
    ((∃ failure, carried.2 = .error (.network failure)) ↔ registry.find? group = none) := by
  intro carried
  have hcarried : carried = _ := Call.send_carry faults registry (Route.noted ask) refused target
    haddress group hrequest hanswers
  rw [hcarried]
  cases registry.find? group with
  | none => simp
  | some asked =>
      simp only [Route.noted, List.nil_append, Option.some.injEq, exists_eq_left', reduceCtorEq,
        iff_false, not_exists, true_and]
      cases (ask asked call server).2 with
      | ok value => simp [Except.mapError]
      | error found => simp [Except.mapError, eq_comm]

/-- A vote is asked for and a piece of a snapshot is sent at a host with two nodes. -/
theorem calls_at_two_nodes :
    let start (name : String) : HostStep Memory Nat := HostStep.start Memory.machine
      ⟨⟨name⟩, "h:1", "h:1", "r", ⟨1000, 0, true, 1, 1, false, 0⟩⟩ {}
    let host : Host Memory := ((start "b" *> start "a").run { disk := ⟨[(["r"], .directory)]⟩ }).2
    let vote : Call := ⟨.vote, ⟨⟨5, 2, false⟩, none⟩⟩
    let piece : Call := ⟨.install, ⟨⟨5, 2, true⟩, { snapshotId := "s" }, 5, [1], true⟩⟩
    let send (group : GroupId) (call : Call) := call.send (fun _ => ReplicaFault.format)
      (Route.carry (fun _ => ReplicaFault.format) host.replicas
        (Route.noted (ε := fun _ => ReplicaFault) (Host.ask Memory.machine)) Status.message)
      7 "127.0.0.1:1" group (host, [])
    (send ⟨"b"⟩ vote).1.2 = [(0, vote)] ∧
      (send ⟨"b"⟩ vote).2 = .ok ⟨⟨1, 1, true⟩, false, some ⟨1, 1, 1⟩⟩ ∧
    (send ⟨"a"⟩ piece).1.2 = [(1, piece)] ∧
      (send ⟨"a"⟩ piece).2 = .error (.remote 7 (.mismatch ⟨"s", 0⟩ ⟨"s", 5⟩)) ∧
    (send ⟨"c"⟩ vote).1 = (host, []) ∧
      ∃ failure, (send ⟨"c"⟩ vote).2 = .error (.network failure) := by
  intro start host vote piece send
  have haddress : Channel.make "127.0.0.1:1" = .ok () := by rfl
  have exchange (group : GroupId) (call : Call)
      (hrequest : (call.kind.requestFormat.write call.request).Fits)
      (hanswers : call.AnswersReadBack (fun _ => ReplicaFault.format) host.replicas
        (Host.ask Memory.machine) group host) :=
    calls_reach_their_group_alone (fun _ => ReplicaFault.format) host.replicas
      (Host.ask Memory.machine) Status.message 7 haddress group hrequest hanswers
  have hregistry : host.replicas.entries = [(⟨"a"⟩, 1), (⟨"b"⟩, 0)] := by decide +kernel
  have hb : host.replicas.find? ⟨"b"⟩ = some 0 := by
    rw [Registry.find?, hregistry]; rfl
  have ha : host.replicas.find? ⟨"a"⟩ = some 1 := by
    rw [Registry.find?, hregistry]; rfl
  have hc : host.replicas.find? ⟨"c"⟩ = none := by
    rw [Registry.find?, hregistry]; rfl
  have hvote : (host.ask Memory.machine 0 vote).2 = .ok ⟨⟨1, 1, true⟩, false, some ⟨1, 1, 1⟩⟩ := by
    decide +kernel
  have hpiece : (host.ask Memory.machine 1 piece).2 = .error (.mismatch ⟨"s", 0⟩ ⟨"s", 5⟩) := by
    decide +kernel
  have hanswers (group : GroupId) (call : Call) {number : Nat}
      (hfound : host.replicas.find? group = some number)
      (hfault : ∀ fault, (host.ask Memory.machine number call).2 = .error fault →
        (ReplicaFault.format.write fault).Fits) :
      call.AnswersReadBack (fun _ => ReplicaFault.format) host.replicas (Host.ask Memory.machine)
        group host := by
    intro asked fault hasked herror
    obtain rfl : number = asked := Option.some.inj (hfound.symm.trans hasked)
    exact ReplicaFault.lossless_format.decode_write (hfault fault herror)
  obtain ⟨hasked, hok, -, -⟩ := exchange ⟨"b"⟩ vote (by decide) (hanswers _ _ hb
    fun fault h => nomatch hvote.symm.trans h)
  obtain ⟨hsent, -, hfault, -⟩ := exchange ⟨"a"⟩ piece (by decide) (hanswers _ _ ha
    fun fault h => by cases hpiece.symm.trans h; decide)
  obtain ⟨hnone, -, -, hnetwork⟩ := exchange ⟨"c"⟩ vote (by decide)
    fun asked _ hfound => nomatch hc.symm.trans hfound
  rw [hb] at hasked
  rw [ha] at hsent
  rw [hc] at hnone
  exact ⟨congrArg Prod.snd hasked, (hok _).2 ⟨0, hb, hvote⟩, congrArg Prod.snd hsent,
    (hfault _ _).2 ⟨rfl, 1, ha, hpiece⟩, hnone, hnetwork.2 hc⟩

end Quorum
