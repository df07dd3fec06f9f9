import Quorum.Service.Call
import Quorum.Service.Registry

/-! # Routes

All groups of a server share one service, so every message names its group. A call goes
to what is registered for exactly that group. A message of no known kind is refused as a
whole; for every other message there is an answer, which tells why no replica took it.
-/

namespace Quorum

/-- Why the service refuses a message. -/
inductive Status where
  | invalidArgument (message : String)
  deriving DecidableEq, Repr

def Status.message : Status → String
  | .invalidArgument message => message

namespace Route

/-- What a message asks of whom. -/
structure Destination (ι : Type) where
  target : ι
  call : Call

variable {ι : Type}

/-- The call of a known kind in a message, and what is registered for its group. The
group is looked for first. -/
def destination (registry : Registry ι) (kind : CallKind) (message : PeerRequest) :
    Except Failure (Destination ι) :=
  match registry.find? ⟨message.group⟩ with
  | none => .error (.groupNotFound message.group)
  | some target => do
      let request ← decodeStored kind.requestFormat message.payload
      return ⟨target, kind, request⟩

/-- Where a message goes. -/
def ofMessage (registry : Registry ι) (message : PeerRequest) :
    Except Status (Except Failure (Destination ι)) :=
  match CallKind.ofName? message.kind with
  | none => .error (.invalidArgument ("Unknown RPC type: " ++ message.kind))
  | some kind => .ok (destination registry kind message)

/-- The answer to a message that went nowhere. -/
def refusal (failure : Failure) : PeerResponse :=
  ⟨[], failure.message⟩

/-- Answers a message: what is registered for its group is asked, and answers for itself. -/
def answer {ε : CallKind → Type} {σ : Type} (faults : (kind : CallKind) → Binary.Format (ε kind))
    (registry : Registry ι)
    (ask : ι → (call : Call) → σ → σ × Except (ε call.kind) call.kind.Response)
    (message : PeerRequest) (server : σ) : σ × Except Status PeerResponse :=
  match ofMessage registry message with
  | .error status => (server, .error status)
  | .ok (.error failure) => (server, .ok (refusal failure))
  | .ok (.ok ⟨target, call⟩) =>
      let (server, result) := ask target call server
      (server, .ok (Call.answer faults result))

end Route

/-- What the service answers to a request at the path of no method: it is served, but as
something that is not implemented. -/
structure Unserved where
  status : Nat := 200
  grpcStatus : String := "12"
  contentType : String := "application/grpc"

inductive Method where
  | call
  | command
  deriving DecidableEq, Repr

namespace Method

def path : Method → String
  | .call => "/storenode.raft.Raft/RaftRpc"
  | .command => "/storenode.raft.Raft/StoreCommand"

end Method
end Quorum
