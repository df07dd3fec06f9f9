import Quorum.Failure
import Quorum.Binary.Format
import Quorum.Gzip

/-! # Commands

A command is an action and data that belongs to whoever asked for it. Its action has a
code of one byte. In the log, a command is its action's code followed by a gzip member with
its data. The code is looked at before the data is unpacked, and bytes after the member are
ignored.
-/

namespace Quorum

/-- What a command asks of a store. -/
inductive Action where
  | none
  | init
  | clear
  | truncate
  | put
  | delete
  | mutate
  | incrCounter
  deriving DecidableEq, Repr

namespace Action

def code : Action → UInt8
  | .none => 0
  | .init => 1
  | .clear => 2
  | .truncate => 3
  | .put => 4
  | .delete => 5
  | .mutate => 6
  | .incrCounter => 7

def ofCode? : Nat → Option Action
  | 0 => some .none
  | 1 => some .init
  | 2 => some .clear
  | 3 => some .truncate
  | 4 => some .put
  | 5 => some .delete
  | 6 => some .mutate
  | 7 => some .incrCounter
  | _ => Option.none

def name : Action → String
  | .none => "none"
  | .init => "init"
  | .clear => "clear"
  | .truncate => "truncate"
  | .put => "put"
  | .delete => "delete"
  | .mutate => "mutate"
  | .incrCounter => "incr_counter"

/-- How many actions there are. -/
def count : Nat := 8

/-- The action of a code. Codes may come from wider numbers, which are not cut off. -/
def ofCode (code : Nat) : Except Failure Action :=
  match ofCode? code with
  | some action => .ok action
  | Option.none => .error (.serialization ("Unknown store action code: " ++ toString code))

theorem ofCode?_code (action : Action) : ofCode? action.code.toNat = some action := by
  cases action <;> rfl

theorem ofCode?_eq_some {code : Nat} {action : Action} (h : ofCode? code = some action) :
    code = action.code.toNat := by
  unfold ofCode? at h
  split at h <;> first | contradiction | (injection h with h; subst h; rfl)

/-- An action in the binary format is the number of its alternative. -/
def format : Binary.Format Action :=
  .choice count (·.code.toNat) fun number =>
    Binary.Format.unit.convert (fun _ => (ofCode? number).getD .none) (fun _ => ())

end Action

structure Command where
  action : Action
  data : Bytes
  deriving DecidableEq, Repr

namespace Command

/-- The action's code and the data as it is. -/
def toBytes (command : Command) : Bytes :=
  command.action.code :: command.data

/-- The command that some bytes spell out. -/
def ofBytes : Bytes → Except Failure Command
  | [] => .error (.serialization "Empty store command")
  | code :: data => (Action.ofCode code.toNat).map (⟨·, data⟩)

def format : Binary.Format Command :=
  (Action.format.pair .bytes).convert (fun (action, data) => ⟨action, data⟩)
    (fun command => (command.action, command.data))

/-! ## Commands in log entries -/

/-- The data of a gzip member. -/
def unpack (bytes : Bytes) : Except Failure Bytes :=
  match Gzip.decompress bytes with
  | .ok data => .ok data
  | .error fault =>
      .error (.serialization ("Failed to decompress payload: " ++ fault.message))

/-- The bytes of a command in the log. -/
def toEntry (command : Command) : Bytes :=
  command.action.code :: Gzip.compress command.data

/-- The command that an entry's bytes hold. -/
def ofEntry : Bytes → Except Failure Command
  | [] => .error (.serialization "Empty log entry")
  | code :: packed => do
      let action ← Action.ofCode code.toNat
      let data ← unpack packed
      return ⟨action, data⟩

end Command
end Quorum
