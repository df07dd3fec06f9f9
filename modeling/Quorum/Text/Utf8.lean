import Quorum.Bytes

/-! # UTF-8

The bytes of a text, and the text of bytes. Where bytes are not UTF-8 the first
ill-formed sequence is described: where it starts, and how many bytes of it could
still have begun a character, unless the bytes end inside it.
-/

namespace Quorum.Text

/-- The first ill-formed sequence of some bytes. -/
structure Utf8Fault where
  /-- How many bytes before it are well formed. -/
  validUpTo : Nat
  /-- Its length; none if the bytes end inside it. -/
  length : Option Nat
  deriving DecidableEq, Repr

namespace Utf8

/-- The UTF-8 bytes of a text. -/
def encode (text : String) : Bytes :=
  text.toByteArray.data.toList

/-- The ranges from which the bytes after a leading byte are taken, or none
if no character starts with this byte. -/
def continuations (lead : UInt8) : Option (List (UInt8 × UInt8)) :=
  if lead < 0x80 then some []
  else if lead < 0xC2 then none
  else if lead < 0xE0 then some [(0x80, 0xBF)]
  else if lead == 0xE0 then some [(0xA0, 0xBF), (0x80, 0xBF)]
  else if lead == 0xED then some [(0x80, 0x9F), (0x80, 0xBF)]
  else if lead < 0xF0 then some [(0x80, 0xBF), (0x80, 0xBF)]
  else if lead == 0xF0 then some [(0x90, 0xBF), (0x80, 0xBF), (0x80, 0xBF)]
  else if lead < 0xF4 then some [(0x80, 0xBF), (0x80, 0xBF), (0x80, 0xBF)]
  else if lead == 0xF4 then some [(0x80, 0x8F), (0x80, 0xBF), (0x80, 0xBF)]
  else none

/-- Looks for the first fault, with the current character begun at `start`,
the next byte at `position` and `expected` bytes of the character to come. -/
def faultFrom (start position : Nat) : List (UInt8 × UInt8) → Bytes → Option Utf8Fault
  | [], [] => none
  | _ :: _, [] => some ⟨start, none⟩
  | [], byte :: rest =>
      match continuations byte with
      | none => some ⟨position, some 1⟩
      | some expected => faultFrom position (position + 1) expected rest
  | (low, high) :: expected, byte :: rest =>
      if low ≤ byte ∧ byte ≤ high then faultFrom start (position + 1) expected rest
      else some ⟨start, some (position - start)⟩

/-- The first ill-formed sequence. -/
def fault? (bytes : Bytes) : Option Utf8Fault :=
  faultFrom 0 0 [] bytes

/-- The text of some bytes, or what is wrong with them. -/
def decode (bytes : Bytes) : Except Utf8Fault String :=
  match String.fromUTF8? bytes.toByteArray with
  | some text => .ok text
  | none => .error ((fault? bytes).getD ⟨bytes.length, none⟩)

theorem toByteArray_encode (text : String) : (encode text).toByteArray = text.toByteArray := by
  apply ByteArray.ext
  simp [encode, List.data_toByteArray]

@[simp]
theorem decode_encode (text : String) : decode (encode text) = .ok text := by
  rw [decode, toByteArray_encode, String.fromUTF8?, dif_pos text.isValidUTF8]
  rfl

/-- Bytes that decode are the bytes of the text they decode to. -/
theorem eq_encode_of_decode {bytes : Bytes} {text : String} (h : decode bytes = .ok text) :
    bytes = encode text := by
  rw [decode, String.fromUTF8?] at h
  split at h
  next found heq =>
    split at heq
    next hvalid =>
      injection heq with heq
      injection h with h
      subst h heq
      simp [encode, String.fromUTF8]
    next => contradiction
  next => contradiction

end Utf8
end Quorum.Text
