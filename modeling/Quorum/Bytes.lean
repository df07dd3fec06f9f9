/-! # Byte strings

Byte strings are lists, so that a reader is a function to a value and the bytes
it leaves. Numbers of a fixed width are written least significant byte first;
`Bytes.toNat_littleEndian` says that such a number reads back modulo the width.
-/

namespace Quorum

/-- A finite string of bytes. -/
abbrev Bytes := List UInt8

namespace Bytes

/-- The lowest `width` bytes of a number, least significant first. -/
def littleEndian : (width : Nat) → Nat → Bytes
  | 0, _ => []
  | width + 1, n => UInt8.ofNat n :: littleEndian width (n / 256)

/-- The number whose base-256 digits are the bytes, least significant first. -/
def toNat : Bytes → Nat
  | [] => 0
  | byte :: rest => byte.toNat + 256 * toNat rest

theorem length_littleEndian (width n : Nat) : (littleEndian width n).length = width := by
  induction width generalizing n with
  | zero => rfl
  | succ width ih => simp [littleEndian, ih]

theorem toNat_littleEndian (width n : Nat) :
    toNat (littleEndian width n) = n % Nat.pow 256 width := by
  rw [Nat.pow_eq]
  induction width generalizing n with
  | zero => simp [littleEndian, toNat, Nat.mod_one]
  | succ width ih =>
      rw [littleEndian, toNat, ih, Nat.pow_succ', Nat.mod_mul]
      rfl

theorem toNat_lt (bytes : Bytes) : toNat bytes < Nat.pow 256 bytes.length := by
  rw [Nat.pow_eq]
  induction bytes with
  | nil => simp [toNat]
  | cons byte rest ih =>
      have hbyte := byte.toNat_lt
      rw [toNat, List.length_cons, Nat.pow_succ']
      omega

theorem littleEndian_toNat (bytes : Bytes) :
    littleEndian bytes.length (toNat bytes) = bytes := by
  induction bytes with
  | nil => rfl
  | cons byte rest ih =>
      have hbyte := byte.toNat_lt
      have hdiv : (byte.toNat + 256 * toNat rest) / 256 = toNat rest := by omega
      have hhead : UInt8.ofNat (byte.toNat + 256 * toNat rest) = byte := by
        apply UInt8.toNat.inj
        rw [UInt8.toNat_ofNat']
        omega
      rw [List.length_cons, littleEndian, toNat, hdiv, ih, hhead]

theorem littleEndian_mod (width n : Nat) :
    littleEndian width (n % Nat.pow 256 width) = littleEndian width n := by
  have hwritten := littleEndian_toNat (littleEndian width n)
  rwa [length_littleEndian, toNat_littleEndian] at hwritten

/-- The first `count` bytes and the rest, if there are that many. -/
def splitAt? (count : Nat) (bytes : Bytes) : Option (Bytes × Bytes) :=
  if count ≤ bytes.length then some (bytes.take count, bytes.drop count) else none

theorem splitAt?_append (first rest : Bytes) :
    splitAt? first.length (first ++ rest) = some (first, rest) := by
  simp [splitAt?]

theorem eq_append_of_splitAt? {count : Nat} {bytes first rest : Bytes}
    (h : splitAt? count bytes = some (first, rest)) :
    bytes = first ++ rest ∧ first.length = count := by
  simp only [splitAt?] at h
  split at h
  next hle =>
    injection h with h
    injection h with hfirst hrest
    subst hfirst hrest
    exact ⟨(List.take_append_drop count bytes).symm, List.length_take_of_le hle⟩
  next => contradiction

theorem length_of_splitAt? {count : Nat} {bytes first rest : Bytes}
    (h : splitAt? count bytes = some (first, rest)) : rest.length + count = bytes.length := by
  obtain ⟨rfl, rfl⟩ := eq_append_of_splitAt? h
  rw [List.length_append, Nat.add_comm]

end Bytes
end Quorum
