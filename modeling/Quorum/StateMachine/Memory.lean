import Quorum.StateMachine.Basic

/-! # A state machine in memory

It keeps every command in order and one counter. A command whose index is not above the
last one was seen before and changes nothing. Clearing and truncating forget all
commands before; the counter takes increments of eight bytes and stays in its range.
-/

namespace Quorum

/-- What the machine remembers. -/
structure Memory where
  lastIndex : UInt64 := 0
  lastTerm : UInt64 := 0
  commands : List Command := []
  counter : Int64 := 0
  deriving DecidableEq, Repr

namespace Memory

/-- The sum of two numbers if it is in their range. -/
def checkedAdd (a b : Int64) : Option Int64 :=
  let sum := a.toInt + b.toInt
  if Int64.minValue.toInt ≤ sum ∧ sum ≤ Int64.maxValue.toInt then some (.ofInt sum) else none

/-- The number of eight bytes in two's complement. -/
def signed (bytes : Bytes) : Int64 :=
  (UInt64.ofNat (Bytes.toNat bytes)).toInt64

/-- The eight bytes of a number. -/
def signedBytes (n : Int64) : Bytes :=
  Bytes.littleEndian 8 n.toUInt64.toNat

/-- Adds the number of eight bytes to the counter. -/
def increment (memory : Memory) (delta : Bytes) : Memory × ApplyResult :=
  if delta.length = 8 then
    match checkedAdd memory.counter (signed delta) with
    | some counter => ({ memory with counter }, .ok (signedBytes counter))
    | none => (memory, .error "counter overflow")
  else (memory, .error ("counter delta must be 8 bytes, got " ++ toString delta.length))

/-- What a command does apart from being remembered. -/
def perform (memory : Memory) (command : Command) : Memory × ApplyResult :=
  match command.action with
  | .clear | .truncate => ({ memory with commands := [], counter := 0 }, .ok [])
  | .incrCounter => memory.increment command.data
  | _ => (memory, .ok [])

/-- Takes a command, unless it was seen before. -/
def apply (memory : Memory) (index term : UInt64) (command : Command) : Memory × ApplyResult :=
  if index ≤ memory.lastIndex then (memory, .noOp)
  else
    let (memory, result) := { memory with lastIndex := index, lastTerm := term }.perform command
    -- A refused command is remembered too, and one that clears begins the new list.
    ({ memory with commands := memory.commands ++ [command] }, result)

def format : Binary.Format Memory :=
  (Binary.Format.u64.pair <| Binary.Format.u64.pair <|
    (Binary.Format.list Command.format).pair .i64).convert
    (fun (lastIndex, lastTerm, commands, counter) => ⟨lastIndex, lastTerm, commands, counter⟩)
    (fun memory => (memory.lastIndex, memory.lastTerm, memory.commands, memory.counter))

def snapshot (memory : Memory) : Bytes :=
  format.write memory

/-- The memory that a snapshot holds. -/
def restore (bytes : Bytes) : Except Failure Memory :=
  match format.decode bytes with
  | .ok memory => .ok memory
  | .error e => .error (.serialization e.message)

def machine : StateMachine Memory where
  apply memory index term command := (memory.apply index term command).map id .ok
  snapshot memory := .ok memory.snapshot
  restore := restore

end Memory
end Quorum
