import Quorum.Replica.Answer
import Quorum.Service.Channel
import Quorum.Storage.Store
import Quorum.Wire.Message

/-! # Calls between peers

Peers call each other in three ways, each with a request and a response of its own. On
the wire a call is the name of its kind and its request in the binary format, tagged
with the group; the answer is the result of the peer's replica in the same format, or a
text in its place where no replica was reached.
-/

namespace Quorum

namespace VoteResponse

def format : Binary.Format VoteResponse :=
  (Vote.format.pair (Binary.Format.bool.pair (.option LogId.format))).convert
    (fun (vote, granted, lastLogId) => ⟨vote, granted, lastLogId⟩)
    (fun response => (response.vote, response.granted, response.lastLogId))

end VoteResponse

namespace AppendResponse

/-- The number of a response's alternative. -/
def number : AppendResponse → Nat
  | .success => 0
  | .partially _ => 1
  | .conflict => 2
  | .higherVote _ => 3

def format : Binary.Format AppendResponse :=
  .choice 4 number fun
    | 0 => Binary.Format.unit.convert (fun _ => .success) fun _ => ()
    | 1 => (Binary.Format.option LogId.format).convert .partially fun
      | .partially upTo => upTo
      | _ => none
    | 2 => Binary.Format.unit.convert (fun _ => .conflict) fun _ => ()
    | _ => Vote.format.convert .higherVote fun
      | .higherVote vote => vote
      | _ => ⟨0, 0, false⟩

end AppendResponse

def Piece.format : Binary.Format Piece :=
  (Binary.Format.string.pair .u64).convert (fun (snapshotId, offset) => ⟨snapshotId, offset⟩)
    (fun piece => (piece.snapshotId, piece.offset))

namespace ReplicaFault

/-- The number of a fault's alternative: faults of the request come first. -/
def number : ReplicaFault → Nat
  | .mismatch _ _ => 0
  | .stopped => 1

/-- A mismatch is the only fault of a request, and being stopped the third of three
reasons for which a replica has ended. -/
def format : Binary.Format ReplicaFault :=
  .choice 2 number fun
    | 0 => .choice 1 (fun _ => 0) fun _ =>
        (Piece.format.pair Piece.format).convert (fun (expected, got) => .mismatch expected got) fun
          | .mismatch expected got => (expected, got)
          | .stopped => (⟨"", 0⟩, ⟨"", 0⟩)
    | _ => .choice 3 (fun _ => 2) fun _ =>
        Binary.Format.unit.convert (fun _ => .stopped) fun _ => ()

end ReplicaFault

/-- The ways in which peers call each other. -/
inductive CallKind where
  | vote
  | append
  | install
  deriving DecidableEq, Repr

namespace CallKind

abbrev Request : CallKind → Type
  | .vote => VoteRequest
  | .append => AppendRequest
  | .install => InstallRequest

/-- What a peer responds. A piece of a snapshot is answered by the peer's vote. -/
abbrev Response : CallKind → Type
  | .vote => VoteResponse
  | .append => AppendResponse
  | .install => Vote

def name : CallKind → String
  | .vote => "vote"
  | .append => "append_entries"
  | .install => "install_snapshot"

def ofName? (name : String) : Option CallKind :=
  [CallKind.vote, .append, .install].find? (·.name = name)

def requestFormat : (kind : CallKind) → Binary.Format kind.Request
  | .vote => VoteRequest.format
  | .append => AppendRequest.format
  | .install => InstallRequest.format

def responseFormat : (kind : CallKind) → Binary.Format kind.Response
  | .vote => VoteResponse.format
  | .append => AppendResponse.format
  | .install => Vote.format

/-- The format of what a replica made of a request. -/
def resultFormat {ε : CallKind → Type} (faults : (kind : CallKind) → Binary.Format (ε kind))
    (kind : CallKind) : Binary.Format (Except (ε kind) kind.Response) :=
  .result kind.responseFormat (faults kind)

theorem ofName?_name (kind : CallKind) : ofName? kind.name = some kind := by
  cases kind <;> rfl

end CallKind

structure Call where
  kind : CallKind
  request : kind.Request

/-- Why a call has no response. -/
inductive CallFailure (ε : Type) where
  /-- No replica was reached, or its answer cannot be read. -/
  | network (failure : Failure)
  /-- The replica of a node answered with a fault. -/
  | remote (target : UInt64) (fault : ε)
  deriving DecidableEq, Repr

namespace CallFailure

/-- A failure on the way to a peer as diagnostics show it. -/
def networkMessage (failure : Failure) : String :=
  "NetworkError: storenode_raft::error::RaftError: " ++ failure.message

end CallFailure

namespace Call

def message (group : GroupId) (call : Call) : PeerRequest :=
  ⟨group.name, call.kind.name, call.kind.requestFormat.write call.request⟩

section Faults

variable {ε : CallKind → Type} (faults : (kind : CallKind) → Binary.Format (ε kind))

/-- The message of what a replica made of a call. -/
def answer {kind : CallKind} (result : Except (ε kind) kind.Response) : PeerResponse :=
  ⟨(kind.resultFormat faults).write result, ""⟩

/-- What a caller makes of an answer. -/
def read (kind : CallKind) (target : UInt64) (response : PeerResponse) :
    Except (CallFailure (ε kind)) kind.Response :=
  -- An answer with a text has no payload worth reading.
  if response.error ≠ "" then
    .error (.network (.network (kind.name ++ " to node " ++ toString target.toNat ++ " rejected: "
      ++ response.error)))
  else match decodeStored (kind.resultFormat faults) response.payload with
    | .error failure => .error (.network failure)
    | .ok (.error fault) => .error (.remote target fault)
    | .ok (.ok value) => .ok value

/-- Sends a call to a node at an address and reads what is brought back. Whoever carries
the message gives an answer to it, or tells why there is none. -/
def send {σ : Type} (carry : PeerRequest → σ → σ × Except String PeerResponse)
    (target : UInt64) (address : String) (group : GroupId) (call : Call) (server : σ) :
    σ × Except (CallFailure (ε call.kind)) call.kind.Response :=
  match Channel.make address with
  | .error failure => (server, .error (.network failure))
  | .ok () =>
      match carry (call.message group) server with
      | (server, .error text) =>
          (server, .error (.network (.network
            ("Raft rpc to " ++ address ++ " failed: " ++ text))))
      | (server, .ok response) => (server, read faults call.kind target response)

end Faults

/-- What a replica makes of a call. -/
def perform {σ : Type} (machine : StateMachine σ) (call : Call) :
    Step σ (Except ReplicaFault call.kind.Response) :=
  match call with
  | ⟨.vote, request⟩ => .ok <$> Step.giveVote request
  | ⟨.append, request⟩ => .ok <$> Step.takeAppend machine request
  | ⟨.install, request⟩ => Step.takePiece machine request

end Call
end Quorum
