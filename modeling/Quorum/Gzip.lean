import Quorum.Deflate.Compress
import Quorum.Deflate.Inflate

/-! # Gzip members

A member is a header, a deflate stream and a trailer with the CRC-32 and the length of
the content. Reading honours every optional field of the header and reads one member
only: what follows its trailer is ignored.

The CRC-32 is the cyclic redundancy check of reflected polynomial `0xEDB88320`, where the
register starts with all bits set and is inverted at the end.
-/

namespace Quorum.Crc32

/-- Divides once by the polynomial. -/
def shift (register : UInt32) : UInt32 :=
  if register &&& 1 = 1 then (register >>> 1) ^^^ 0xEDB88320 else register >>> 1

/-- Takes a byte into the register. -/
def step (register : UInt32) (byte : UInt8) : UInt32 :=
  shift <| shift <| shift <| shift <| shift <| shift <| shift <| shift (register ^^^ byte.toUInt32)

def checksum (bytes : Bytes) : UInt32 :=
  bytes.foldl step 0xFFFFFFFF ^^^ 0xFFFFFFFF

/-- The usual check value of this code. -/
example : checksum [0x31, 0x32, 0x33, 0x34, 0x35, 0x36, 0x37, 0x38, 0x39] = 0xCBF43926 := by
  decide +kernel

end Quorum.Crc32

namespace Quorum.Gzip

/-- Why bytes are no gzip member. -/
inductive Fault where
  | unexpectedEnd
  | header
  | longField
  | checksum
  | deflate (fault : Deflate.Fault)
  deriving DecidableEq, Repr

def Fault.message : Fault → String
  | .unexpectedEnd => "unexpected end of file"
  | .header => "invalid gzip header"
  | .longField => "gzip header field too long"
  | .checksum => "corrupt gzip stream does not have a matching checksum"
  | .deflate .incomplete => "incomplete deflate stream"
  | .deflate .corrupt => "corrupt deflate stream"

/-- The header that is written: no optional field, no time, an unknown system. -/
def header : Bytes :=
  [0x1F, 0x8B, 8, 0, 0, 0, 0, 0, 0, 0xFF]

/-- The CRC-32 of the content and its length modulo 2^32. -/
def trailer (content : Bytes) : Bytes :=
  Bytes.littleEndian 4 (Crc32.checksum content).toNat ++ Bytes.littleEndian 4 content.length

/-- A member with the given content. -/
def compress (content : Bytes) : Bytes :=
  header ++ Deflate.deflate content ++ trailer content

/-- Takes so many bytes. -/
def readBytes (count : Nat) (bytes : Bytes) : Except Fault (Bytes × Bytes) :=
  match bytes.splitAt? count with
  | some found => .ok found
  | none => .error .unexpectedEnd

/-- The greatest length of a name or a comment. -/
def maximalField : Nat := 65535

/-- Steps over a text and the zero that ends it, if at most `left` bytes come first. -/
def skipText : (left : Nat) → Bytes → Except Fault Bytes
  | _, [] => .error .unexpectedEnd
  | left, byte :: rest =>
      if byte = 0 then .ok rest
      else match left with
        | 0 => .error .longField
        | left + 1 => skipText left rest

/-- Steps over the extra field: its length and as many bytes. -/
def skipExtra (bytes : Bytes) : Except Fault Bytes := do
  let (length, rest) ← readBytes 2 bytes
  let (_, rest) ← readBytes (Bytes.toNat length) rest
  return rest

/-- Steps over a field if its flag is set. -/
def skipIf (flag : Bool) (skip : Bytes → Except Fault Bytes) (bytes : Bytes) :
    Except Fault Bytes :=
  if flag then skip bytes else .ok bytes

/-- Compares the check of a header with the bytes in front of it. -/
def skipCheck (whole bytes : Bytes) : Except Fault Bytes := do
  let (check, rest) ← readBytes 2 bytes
  let before := whole.take (whole.length - bytes.length)
  if Bytes.toNat check = (Crc32.checksum before).toNat % UInt16.size then .ok rest
  else .error .checksum

/-- Steps over the header: ten bytes, then the fields its flags announce. -/
def skipHeader (bytes : Bytes) : Except Fault Bytes := do
  let (fixed, rest) ← readBytes 10 bytes
  match fixed with
  | 0x1F :: 0x8B :: 8 :: flags :: _ =>
      if flags &&& 0xE0 ≠ 0 then .error .header
      else
        let rest ← skipIf (flags &&& 4 ≠ 0) skipExtra rest
        let rest ← skipIf (flags &&& 8 ≠ 0) (skipText maximalField) rest
        let rest ← skipIf (flags &&& 16 ≠ 0) (skipText maximalField) rest
        skipIf (flags &&& 2 ≠ 0) (skipCheck bytes) rest
  | _ => .error .header

/-- The content of the member at the front of some bytes. -/
def decompress (bytes : Bytes) : Except Fault Bytes := do
  let stream ← skipHeader bytes
  let (content, rest) ← (Deflate.inflate stream).mapError .deflate
  let (found, _) ← readBytes 8 rest
  if found = trailer content then .ok content else .error .checksum

end Quorum.Gzip
