import Quorum.Ascending
import Quorum.Replication.LogId

/-! # Memberships and log entries

A membership tells who belongs to a group: sets of voters, more than one while the group
changes, and the address of every node. Sets and addresses are kept in ascending order of the
node's number; where a number occurs twice, the last one counts. An entry of the log has a
place and carries nothing, the bytes of a command, or a membership.
-/

namespace Quorum

/-- The voters and nodes of a group. -/
structure Membership where
  configs : List (List UInt64) := []
  nodes : List (UInt64 × String) := []
  voters_ascending : ∀ voters ∈ configs, Ascending id voters := by exact List.forall_mem_nil _
  nodes_ascending : Ascending Prod.fst nodes := by exact .nil
  deriving DecidableEq, Repr

namespace Membership

def empty : Membership := {}

/-- A membership from sets and addresses in any order. -/
def ofLists (configs : List (List UInt64)) (nodes : List (UInt64 × String)) : Membership where
  configs := configs.map fun voters => Ascending.putAll id voters []
  nodes := Ascending.putAll Prod.fst nodes []
  voters_ascending := by
    intro voters hvoters
    obtain ⟨given, _, rfl⟩ := List.mem_map.mp hvoters
    exact Ascending.ascending_putAll .nil
  nodes_ascending := Ascending.ascending_putAll .nil

def isVoter (membership : Membership) (node : UInt64) : Bool :=
  membership.configs.any (·.contains node)

def format : Binary.Format Membership :=
  ((Binary.Format.list (Binary.Format.list .u64)).pair
    (Binary.Format.list (Binary.Format.u64.pair .string))).convert
    (fun (configs, nodes) => ofLists configs nodes)
    (fun membership => (membership.configs, membership.nodes))

end Membership

/-- A membership and the place of the entry that set it. -/
structure StoredMembership where
  logId : Option LogId := none
  membership : Membership := .empty
  deriving DecidableEq, Repr

def StoredMembership.format : Binary.Format StoredMembership :=
  ((Binary.Format.option LogId.format).pair Membership.format).convert
    (fun (logId, membership) => ⟨logId, membership⟩)
    (fun stored => (stored.logId, stored.membership))

/-- What an entry carries. -/
inductive Payload where
  | blank
  | normal (data : Bytes)
  | membership (membership : Membership)
  deriving DecidableEq, Repr

namespace Payload

/-- The number of a payload's alternative. -/
def number : Payload → Nat
  | .blank => 0
  | .normal _ => 1
  | .membership _ => 2

def format : Binary.Format Payload :=
  .choice 3 number fun
    | 0 => Binary.Format.unit.convert (fun _ => .blank) fun _ => ()
    | 1 => Binary.Format.bytes.convert .normal fun
      | .normal data => data
      | _ => []
    | _ => Membership.format.convert .membership fun
      | .membership value => value
      | _ => .empty

end Payload

structure Entry where
  id : LogId
  payload : Payload
  deriving DecidableEq, Repr

def Entry.format : Binary.Format Entry :=
  (LogId.format.pair Payload.format).convert (fun (id, payload) => ⟨id, payload⟩)
    (fun entry => (entry.id, entry.payload))

end Quorum
