import Quorum.Binary.Error

/-! # The binary format

A format is a writer and a reader of one type. Numbers below 251 are a byte; larger
ones follow a tag byte that tells their width. Values without a tag are put together
field after field, so a reader knows from the type alone what comes next and leaves
the bytes after its value untouched.
-/

namespace Quorum.Binary

/-- A step that takes a value off the front of some bytes. -/
abbrev Reader (α : Type) := Bytes → Except DecodeError (α × Bytes)

/-- How the values of a type are written and read. -/
structure Format (α : Type) where
  write : α → Bytes
  read : Reader α

namespace Format

/-- The value at the front of some bytes, whatever comes after it. -/
def decode {α : Type} (format : Format α) (bytes : Bytes) : Except DecodeError α :=
  (format.read bytes).map Prod.fst

/-- Takes exactly `count` bytes. -/
def readBytes (count : Nat) : Reader Bytes := fun bytes =>
  match bytes.splitAt? count with
  | some found => .ok found
  | none => .error (.unexpectedEnd (count - bytes.length))

/-- A format for another type, by a conversion in each direction. -/
def convert {α β : Type} (format : Format α) (pack : α → β) (unpack : β → α) : Format β where
  write value := format.write (unpack value)
  read bytes := do
    let (value, rest) ← format.read bytes
    .ok (pack value, rest)

/-- One value after another. -/
def pair {α β : Type} (first : Format α) (second : Format β) : Format (α × β) where
  write value := first.write value.1 ++ second.write value.2
  read bytes := do
    let (a, rest) ← first.read bytes
    let (b, rest) ← second.read rest
    .ok ((a, b), rest)

/-- A value that takes no bytes. -/
def unit : Format Unit where
  write _ := []
  read bytes := .ok ((), bytes)

def byte : Format UInt8 where
  write value := [value]
  read
    | [] => .error (.unexpectedEnd 1)
    | value :: rest => .ok (value, rest)

def bool : Format Bool where
  write value := [if value then 1 else 0]
  read bytes := do
    let (tag, rest) ← byte.read bytes
    if tag = 0 then .ok (false, rest)
    else if tag = 1 then .ok (true, rest)
    else .error (.boolean tag)

/-- The bytes of a number: itself if it is below 251, else a tag and the least of
two, four or eight bytes that hold it. -/
def writeNumber (n : Nat) : Bytes :=
  if n < 251 then [UInt8.ofNat n]
  else if n < UInt16.size then 251 :: Bytes.littleEndian 2 n
  else if n < UInt32.size then 252 :: Bytes.littleEndian 4 n
  else 253 :: Bytes.littleEndian 8 n

/-- What a tag announces: a number of so many bytes, or one that is never read. -/
def announced (tag : UInt8) : Nat × IntegerKind :=
  if tag = 251 then (2, .u16)
  else if tag = 252 then (4, .u32)
  else if tag = 253 then (8, .u64)
  else if tag = 254 then (16, .u128)
  else (0, .reserved)

/-- A number of at most `width` bytes. A tag for a wider one is refused, a wider form
than the value needs is not. -/
def readNumber (kind : IntegerKind) (width : Nat) : Reader Nat := fun bytes => do
  let (tag, rest) ← byte.read bytes
  if tag < 251 then .ok (tag.toNat, rest)
  else
    let (size, found) := announced tag
    -- Whether the tag is usable is asked before the bytes behind it are.
    if found ≠ .reserved ∧ size ≤ width then
      let (digits, rest) ← readBytes size rest
      .ok (digits.toNat, rest)
    else .error (.integer kind found)

def u16 : Format UInt16 where
  write value := writeNumber value.toNat
  read bytes := do
    let (n, rest) ← readNumber .u16 2 bytes
    .ok (.ofNat n, rest)

def u32 : Format UInt32 where
  write value := writeNumber value.toNat
  read bytes := do
    let (n, rest) ← readNumber .u32 4 bytes
    .ok (.ofNat n, rest)

def u64 : Format UInt64 where
  write value := writeNumber value.toNat
  read bytes := do
    let (n, rest) ← readNumber .u64 8 bytes
    .ok (.ofNat n, rest)

/-- A signed number as an unsigned one: zero, minus one, one, minus two, and so on. -/
def zigzag (n : Int) : Nat :=
  if 0 ≤ n then 2 * n.toNat else 2 * (-n).toNat - 1

/-- The signed number that `zigzag` writes as `n`. -/
def unzigzag (n : Nat) : Int :=
  if n % 2 = 0 then Int.ofNat (n / 2) else -Int.ofNat (n / 2 + 1)

theorem unzigzag_zigzag (n : Int) : unzigzag (zigzag n) = n := by
  simp only [unzigzag, zigzag, Int.ofNat_eq_natCast]
  split <;> split <;> omega

/-- A signed number; an unusable tag is named by the signed kind. -/
def i64 : Format Int64 where
  write value := writeNumber (zigzag value.toInt)
  read bytes :=
    match readNumber .u64 8 bytes with
    | .ok (n, rest) => .ok (.ofInt (unzigzag n), rest)
    | .error (.integer expected found) => .error (.integer expected.signed found.signed)
    | .error e => .error e

/-- A value that may be missing, after a byte that tells. -/
def option {α : Type} (format : Format α) : Format (Option α) where
  write
    | none => [0]
    | some value => 1 :: format.write value
  read bytes := do
    let (tag, rest) ← byte.read bytes
    if tag = 0 then .ok (none, rest)
    else if tag = 1 then
      let (value, rest) ← format.read rest
      .ok (some value, rest)
    else .error (.option tag)

/-- Reads so many values. -/
def readMany {α : Type} (item : Format α) : Nat → Reader (List α)
  | 0, bytes => .ok ([], bytes)
  | count + 1, bytes => do
      let (value, rest) ← item.read bytes
      let (values, rest) ← readMany item count rest
      .ok (value :: values, rest)

/-- The number of values and then each of them. -/
def list {α : Type} (item : Format α) : Format (List α) where
  write values := writeNumber values.length ++ values.flatMap item.write
  read bytes := do
    let (count, rest) ← readNumber .usize 8 bytes
    readMany item count rest

/-- Byte strings are read byte by byte, as every list is. -/
def bytes : Format Bytes :=
  list byte

/-- The number of bytes and then the bytes of a text. -/
def string : Format String where
  write text := writeNumber (Text.Utf8.encode text).length ++ Text.Utf8.encode text
  read bytes := do
    let (count, rest) ← readNumber .u64 8 bytes
    let (content, rest) ← readBytes count rest
    match Text.Utf8.decode content with
    | .ok text => .ok (text, rest)
    | .error fault => .error (.utf8 fault)

/-- One of `count` alternatives: its number, and then a value in the format that
belongs to the number. -/
def choice {α : Type} (count : Nat) (number : α → Nat) (alternative : Nat → Format α) :
    Format α where
  write value := writeNumber (number value) ++ (alternative (number value)).write value
  read bytes := do
    let (found, rest) ← readNumber .u32 4 bytes
    if found < count then (alternative found).read rest
    else .error (.variant found count)

/-- A value or an error, after a number that tells which. -/
def result {ε α : Type} (value : Format α) (error : Format ε) : Format (Except ε α) where
  write
    | .ok a => 0 :: value.write a
    | .error e => 1 :: error.write e
  read bytes := do
    let (found, rest) ← readNumber .u32 4 bytes
    if found = 0 then
      let (a, rest) ← value.read rest
      .ok (.ok a, rest)
    else if found = 1 then
      let (e, rest) ← error.read rest
      .ok (.error e, rest)
    else .error (.variant found 2)

end Format
end Quorum.Binary
