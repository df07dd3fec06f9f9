import Quorum.Bytes

/-! # Base-128 numbers

A number as bytes of seven bits each, the lowest first; every byte but the last has
its high bit set. The reader accepts at most ten bytes, and of the tenth only what
fits into 64 bits, but it does not ask for the shortest form.
-/

namespace Quorum.Wire.Varint

/-- The shortest base-128 form of a number. -/
def write (n : Nat) : Bytes :=
  if n < 128 then [UInt8.ofNat n]
  else UInt8.ofNat (128 + n % 128) :: write (n / 128)
termination_by n
decreasing_by omega

/-- Reads a number of at most `left` more bytes. -/
def readWithin : (left : Nat) → Bytes → Option (Nat × Bytes)
  | 0, _ => none
  | _, [] => none
  | left + 1, byte :: rest =>
      if byte < 128 then
        -- Of a tenth byte only the lowest bit is within 64 bits.
        if left = 0 ∧ 1 < byte then none else some (byte.toNat, rest)
      else
        match readWithin left rest with
        | some (high, rest) => some (byte.toNat - 128 + 128 * high, rest)
        | none => none

/-- Reads a number of at most 64 bits. -/
def read (bytes : Bytes) : Option (Nat × Bytes) :=
  readWithin 10 bytes

theorem length_lt_of_readWithin {left : Nat} {bytes rest : Bytes} {n : Nat}
    (h : readWithin left bytes = some (n, rest)) : rest.length < bytes.length := by
  induction left generalizing bytes n rest with
  | zero => simp [readWithin] at h
  | succ left ih =>
      cases bytes with
      | nil => simp [readWithin] at h
      | cons byte tail =>
          simp only [readWithin] at h
          split at h
          · split at h
            · contradiction
            · injection h with h
              injection h with _ h
              subst h
              simp
          · split at h
            next high after heq =>
              injection h with h
              injection h with _ h
              subst h
              have := ih heq
              simp only [List.length_cons]
              omega
            next => contradiction

theorem length_lt_of_read {bytes rest : Bytes} {n : Nat} (h : read bytes = some (n, rest)) :
    rest.length < bytes.length :=
  length_lt_of_readWithin h

end Quorum.Wire.Varint
