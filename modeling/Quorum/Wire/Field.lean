import Quorum.Wire.Varint

/-! # Fields on the wire

A message is a run of fields, each a key and a value. The key holds the field's number
and the shape of its value, so a reader can step over fields it does not know, groups
of fields among them.
-/

namespace Quorum.Wire

/-- The shape of a field's value. -/
inductive Shape where
  | varint
  | sixtyFourBit
  | lengthDelimited
  | startGroup
  | endGroup
  | thirtyTwoBit
  deriving DecidableEq, Repr

def Shape.name : Shape → String
  | .varint => "Varint"
  | .sixtyFourBit => "SixtyFourBit"
  | .lengthDelimited => "LengthDelimited"
  | .startGroup => "StartGroup"
  | .endGroup => "EndGroup"
  | .thirtyTwoBit => "ThirtyTwoBit"

/-- The number that stands for a shape in a key. -/
def Shape.code : Shape → Nat
  | .varint => 0
  | .sixtyFourBit => 1
  | .lengthDelimited => 2
  | .startGroup => 3
  | .endGroup => 4
  | .thirtyTwoBit => 5

def Shape.ofCode? : Nat → Option Shape
  | 0 => some .varint
  | 1 => some .sixtyFourBit
  | 2 => some .lengthDelimited
  | 3 => some .startGroup
  | 4 => some .endGroup
  | 5 => some .thirtyTwoBit
  | _ => none

/-- What is wrong with a message. -/
inductive Fault where
  | varint
  | underflow
  | shape (found expected : Shape)
  | shapeCode (code : Nat)
  | zeroNumber
  | key (value : Nat)
  | endGroup
  | tooDeep
  | utf8
  deriving DecidableEq, Repr

def Fault.message : Fault → String
  | .varint => "invalid varint"
  | .underflow => "buffer underflow"
  | .shape found expected =>
      "invalid wire type: " ++ found.name ++ " (expected " ++ expected.name ++ ")"
  | .shapeCode code => "invalid wire type value: " ++ toString code
  | .zeroNumber => "invalid tag value: 0"
  | .key value => "invalid key value: " ++ toString value
  | .endGroup => "unexpected end group tag"
  | .tooDeep => "recursion limit reached"
  | .utf8 => "invalid string value: data is not UTF-8 encoded"

/-- A field's number and shape. -/
structure Key where
  number : Nat
  shape : Shape
  deriving DecidableEq, Repr

def Key.write (key : Key) : Bytes :=
  Varint.write (8 * key.number + key.shape.code)

def readVarint (bytes : Bytes) : Except Fault (Nat × Bytes) :=
  match Varint.read bytes with
  | some found => .ok found
  | none => .error .varint

/-- Reads a key, which has no number beyond 32 bits and none without a field number. -/
def readKey (bytes : Bytes) : Except Fault (Key × Bytes) :=
  match readVarint bytes with
  | .error fault => .error fault
  | .ok (n, rest) =>
      if UInt32.size ≤ n then .error (.key n)
      else match Shape.ofCode? (n % 8) with
        | none => .error (.shapeCode (n % 8))
        | some shape => if n < 8 then .error .zeroNumber else .ok (⟨n / 8, shape⟩, rest)

/-- Takes so many bytes. -/
def readBytes (count : Nat) (bytes : Bytes) : Except Fault (Bytes × Bytes) :=
  match bytes.splitAt? count with
  | some found => .ok found
  | none => .error .underflow

/-- Takes the bytes of a value with a length in front. -/
def readDelimited (bytes : Bytes) : Except Fault (Bytes × Bytes) :=
  match readVarint bytes with
  | .ok (length, rest) => readBytes length rest
  | .error fault => .error fault

theorem length_lt_of_readVarint {bytes rest : Bytes} {n : Nat}
    (h : readVarint bytes = .ok (n, rest)) : rest.length < bytes.length := by
  simp only [readVarint] at h
  split at h
  next found heq =>
    injection h with h
    subst h
    exact Varint.length_lt_of_read heq
  next => contradiction

theorem length_lt_of_readKey {bytes rest : Bytes} {key : Key}
    (h : readKey bytes = .ok (key, rest)) : rest.length < bytes.length := by
  simp only [readKey] at h
  split at h
  · contradiction
  next n after heq =>
    have hlt := length_lt_of_readVarint heq
    split at h
    · contradiction
    · split at h
      · contradiction
      · split at h
        · contradiction
        · injection h with h
          injection h with _ h
          exact h ▸ hlt

theorem length_le_of_readBytes {count : Nat} {bytes found rest : Bytes}
    (h : readBytes count bytes = .ok (found, rest)) : rest.length ≤ bytes.length := by
  simp only [readBytes, Bytes.splitAt?] at h
  split at h
  next found' heq =>
    split at heq
    · injection heq with heq
      injection h with h
      subst heq
      injection h with _ h
      subst h
      simp
    · contradiction
  next => contradiction

theorem length_lt_of_readDelimited {bytes found rest : Bytes}
    (h : readDelimited bytes = .ok (found, rest)) : rest.length < bytes.length := by
  simp only [readDelimited] at h
  split at h
  next n after heq =>
    have hlt := length_lt_of_readVarint heq
    have hle := length_le_of_readBytes h
    omega
  next => contradiction

/-- Steps over a value that is no group. -/
def skipPlain (shape : Shape) (bytes : Bytes) : Except Fault Bytes :=
  match shape with
  | .varint => (readVarint bytes).map Prod.snd
  | .sixtyFourBit => (readBytes 8 bytes).map Prod.snd
  | .thirtyTwoBit => (readBytes 4 bytes).map Prod.snd
  | .lengthDelimited => (readDelimited bytes).map Prod.snd
  | .startGroup | .endGroup => .error .endGroup

theorem length_le_of_skipPlain {shape : Shape} {bytes rest : Bytes}
    (h : skipPlain shape bytes = .ok rest) : rest.length ≤ bytes.length := by
  have ok_of_map {α : Type} {found : Except Fault (α × Bytes)}
      (h : found.map Prod.snd = .ok rest) : ∃ value, found = .ok (value, rest) := by
    cases found with
    | error => simp [Except.map] at h
    | ok pair => exact ⟨pair.1, by simpa [Except.map, Prod.ext_iff] using h⟩
  cases shape with
  | varint =>
      obtain ⟨_, h⟩ := ok_of_map h
      exact Nat.le_of_lt (length_lt_of_readVarint h)
  | sixtyFourBit =>
      obtain ⟨_, h⟩ := ok_of_map h
      exact length_le_of_readBytes h
  | thirtyTwoBit =>
      obtain ⟨_, h⟩ := ok_of_map h
      exact length_le_of_readBytes h
  | lengthDelimited =>
      obtain ⟨_, h⟩ := ok_of_map h
      exact Nat.le_of_lt (length_lt_of_readDelimited h)
  | startGroup => simp [skipPlain] at h
  | endGroup => simp [skipPlain] at h

/-- How many groups may be open where a field stands. -/
def maximalDepth : Nat := 100

/-- Steps over fields until every open group has ended. The groups are given by
their numbers, the innermost first. -/
def closeGroups (opened : List Nat) (bytes : Bytes) : Except Fault Bytes :=
  match opened with
  | [] => .ok bytes
  | number :: outer =>
      match _hkey : readKey bytes with
      | .error fault => .error fault
      | .ok (key, rest) =>
          if key.shape = .endGroup then
            if key.number = number then closeGroups outer rest else .error .endGroup
          -- The end of a group is taken at any depth, every other field is not.
          else if maximalDepth ≤ outer.length + 1 then .error .tooDeep
          else if key.shape = .startGroup then closeGroups (key.number :: number :: outer) rest
          else
            match _hplain : skipPlain key.shape rest with
            | .error fault => .error fault
            | .ok rest => closeGroups (number :: outer) rest
termination_by bytes.length
decreasing_by
  · exact length_lt_of_readKey _hkey
  · exact length_lt_of_readKey _hkey
  · exact Nat.lt_of_le_of_lt (length_le_of_skipPlain _hplain) (length_lt_of_readKey _hkey)

/-- Steps over the value of a field that belongs to the message itself. -/
def skipValue (key : Key) (bytes : Bytes) : Except Fault Bytes :=
  match key.shape with
  | .startGroup => closeGroups [key.number] bytes
  | shape => skipPlain shape bytes

end Quorum.Wire
