import Quorum.Binary.Format

/-! # Places in the log and votes

A place in the log is an index together with the leadership under which its entry was
written: a term and the number of the leading node. Places are compared by leadership
first. A vote names a leadership that a node granted, and whether a majority did.
-/

namespace Quorum

structure LogId where
  term : UInt64
  node : UInt64
  index : UInt64
  deriving DecidableEq, Repr

namespace LogId

/-- Whether one place comes before another or is the same. -/
def le (a b : LogId) : Bool :=
  a.term < b.term || (a.term == b.term &&
    (a.node < b.node || (a.node == b.node && a.index ≤ b.index)))

/-- The same for places that may be missing: nothing comes before everything. -/
def optionLe : Option LogId → Option LogId → Bool
  | none, _ => true
  | some _, none => false
  | some a, some b => a.le b

/-- Whether there is an index after that of a place. -/
def HasNext (id : LogId) : Prop :=
  id.index.toNat + 1 < UInt64.size

instance (id : LogId) : Decidable id.HasNext :=
  inferInstanceAs (Decidable (_ < _))

/-- The text of a leadership and an index. -/
def display (id : LogId) : String :=
  "T" ++ toString id.term.toNat ++ "-N" ++ toString id.node.toNat ++ "-" ++ toString id.index.toNat

/-- A place as diagnostics show it. -/
def debug (id : LogId) : String :=
  "LogId \x7b leader_id: LeaderId \x7b term: " ++ toString id.term.toNat ++ ", node_id: "
    ++ toString id.node.toNat ++ " \x7d, index: " ++ toString id.index.toNat ++ " \x7d"

/-- A place that may be missing, as diagnostics show it. -/
def debugOption : Option LogId → String
  | none => "None"
  | some id => "Some(" ++ id.debug ++ ")"

def format : Binary.Format LogId :=
  (Binary.Format.u64.pair (Binary.Format.u64.pair .u64)).convert
    (fun (term, node, index) => ⟨term, node, index⟩) (fun id => (id.term, id.node, id.index))

end LogId

/-- A leadership that was voted for. -/
structure Vote where
  term : UInt64
  node : UInt64
  committed : Bool := false
  deriving DecidableEq, Repr

namespace Vote

/-- Whether a vote is for an earlier leadership, or for the same and committed only if
the other is. -/
def le (a b : Vote) : Bool :=
  a.term < b.term || (a.term == b.term &&
    (a.node < b.node || (a.node == b.node && (!a.committed || b.committed))))

def display (vote : Vote) : String :=
  "T" ++ toString vote.term.toNat ++ "-N" ++ toString vote.node.toNat
    ++ (if vote.committed then ":committed" else ":uncommitted")

def format : Binary.Format Vote :=
  (Binary.Format.u64.pair (Binary.Format.u64.pair .bool)).convert
    (fun (term, node, committed) => ⟨term, node, committed⟩)
    (fun vote => (vote.term, vote.node, vote.committed))

end Vote
end Quorum
