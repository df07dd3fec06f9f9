import Quorum.Command.Basic

/-! # State machines

The store behind a replication group: it takes the commands of the log one after the
other, and its state can be taken as bytes and put back. All it is told of an entry is
its index and its term.
-/

namespace Quorum

/-- What a state machine makes of a command. -/
inductive ApplyResult where
  | ok (data : Bytes)
  /-- The entry was no command for this state. -/
  | noOp
  /-- The command was refused; every copy of the state refuses it alike. -/
  | error (text : String)
  deriving DecidableEq, Repr

namespace ApplyResult

/-- The result of an entry that nothing was done for. -/
def default : ApplyResult := .noOp

def isOk : ApplyResult → Bool
  | .ok _ | .noOp => true
  | .error _ => false

/-- What the submitter of the command learns. -/
def outcome : ApplyResult → Outcome
  | .ok data => .ok data
  | .noOp => .ok []
  | .error text => .error (.applyFailed text)

/-- The number of a result's alternative. -/
def number : ApplyResult → Nat
  | .ok _ => 0
  | .noOp => 1
  | .error _ => 2

def format : Binary.Format ApplyResult :=
  .choice 3 number fun
    | 0 => Binary.Format.bytes.convert .ok fun
      | .ok data => data
      | _ => []
    | 1 => Binary.Format.unit.convert (fun _ => .noOp) fun _ => ()
    | _ => Binary.Format.string.convert .error fun
      | .error text => text
      | _ => ""

end ApplyResult

/-- The operations of a state machine on states of type `σ`. -/
structure StateMachine (σ : Type) where
  /-- Takes the command of an entry of the given index and term. -/
  apply : (state : σ) → (index term : UInt64) → Command → σ × Except Failure ApplyResult
  snapshot : σ → Except Failure Bytes
  /-- The state that some bytes describe. -/
  restore : Bytes → Except Failure σ

namespace StateMachine

variable {σ : Type}

/-- Failures that a state machine reports instead of doing its work. -/
structure Faults where
  apply : Option Failure := none
  snapshot : Option Failure := none
  restore : Option Failure := none
  deriving DecidableEq, Repr

/-- A state machine that reports the given failures. -/
def withFaults (machine : StateMachine σ) (faults : Faults) : StateMachine σ where
  apply state index term command :=
    match faults.apply with
    | some failure => (state, .error failure)
    | none => machine.apply state index term command
  snapshot state :=
    match faults.snapshot with
    | some failure => .error failure
    | none => machine.snapshot state
  restore bytes :=
    match faults.restore with
    | some failure => .error failure
    | none => machine.restore bytes

end StateMachine
end Quorum
