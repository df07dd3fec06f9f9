import Quorum.Wire.Schema

/-! # The messages of a node's service

A node asks the leader of a group to take a command, and peers exchange the requests
of the consensus protocol, whose payload has a format of its own.
-/

namespace Quorum

/-- A command for the leader of a group. -/
structure CommandRequest where
  group : String := ""
  action : UInt32 := 0
  data : Bytes := []
  deriving DecidableEq, Repr

/-- Whether the leader's group applied the command, and why not. -/
structure CommandResponse where
  status : Bool := false
  message : String := ""
  deriving DecidableEq, Repr

/-- A request of the consensus protocol to a peer of a group. -/
structure PeerRequest where
  group : String := ""
  kind : String := ""
  payload : Bytes := []
  deriving DecidableEq, Repr

/-- The peer's answer, or why there is none. -/
structure PeerResponse where
  payload : Bytes := []
  error : String := ""
  deriving DecidableEq, Repr

namespace Wire

def commandRequest : Schema CommandRequest where
  name := "StoreCommandRequest"
  empty := {}
  fields := [
    ⟨1, "group_id", .text (·.group) fun m v => { m with group := v }⟩,
    ⟨2, "action", .number (·.action) fun m v => { m with action := v }⟩,
    ⟨3, "data", .blob (·.data) fun m v => { m with data := v }⟩]

def commandResponse : Schema CommandResponse where
  name := "StoreCommandResponse"
  empty := {}
  fields := [
    ⟨1, "status", .flag (·.status) fun m v => { m with status := v }⟩,
    ⟨2, "message", .text (·.message) fun m v => { m with message := v }⟩]

def peerRequest : Schema PeerRequest where
  name := "RaftRpcRequest"
  empty := {}
  fields := [
    ⟨1, "group_id", .text (·.group) fun m v => { m with group := v }⟩,
    ⟨2, "rpc_type", .text (·.kind) fun m v => { m with kind := v }⟩,
    ⟨3, "payload", .blob (·.payload) fun m v => { m with payload := v }⟩]

def peerResponse : Schema PeerResponse where
  name := "RaftRpcResponse"
  empty := {}
  fields := [
    ⟨1, "payload", .blob (·.payload) fun m v => { m with payload := v }⟩,
    ⟨2, "error", .text (·.error) fun m v => { m with error := v }⟩]

end Wire
end Quorum
