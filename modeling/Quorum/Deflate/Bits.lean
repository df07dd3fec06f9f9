import Quorum.Bytes

/-! # Bits in bytes

Deflate takes bits from each byte in turn, the lowest first. A source is what is left
to take: the rest of the byte in use and the bytes after it.
-/

namespace Quorum.Deflate

/-- The lowest `count` bits of a number, the lowest first. -/
def lowBits : (count : Nat) → Nat → List Bool
  | 0, _ => []
  | count + 1, n => (n % 2 == 1) :: lowBits count (n / 2)

/-- The number whose bits are these, the lowest first. -/
def bitsToNat : List Bool → Nat
  | [] => 0
  | bit :: rest => bit.toNat + 2 * bitsToNat rest

theorem length_lowBits (count n : Nat) : (lowBits count n).length = count := by
  induction count generalizing n with
  | zero => rfl
  | succ count ih => simp [lowBits, ih]

theorem bitsToNat_lowBits (count n : Nat) : bitsToNat (lowBits count n) = n % Nat.pow 2 count := by
  rw [Nat.pow_eq]
  induction count generalizing n with
  | zero => simp [lowBits, bitsToNat, Nat.mod_one]
  | succ count ih =>
      rw [lowBits, bitsToNat, ih, Nat.pow_succ', Nat.mod_mul]
      rcases Nat.mod_two_eq_zero_or_one n with h | h <;> simp [h]

/-- Bits to be taken: those left of a byte, then those of the bytes. -/
structure Source where
  pending : List Bool
  rest : Bytes
  deriving DecidableEq, Repr

namespace Source

/-- The source of all bits of some bytes. -/
def ofBytes (bytes : Bytes) : Source :=
  ⟨[], bytes⟩

/-- How many bits are left. -/
def size (source : Source) : Nat :=
  source.pending.length + 8 * source.rest.length

def next? : Source → Option (Bool × Source)
  | ⟨bit :: pending, rest⟩ => some (bit, ⟨pending, rest⟩)
  | ⟨[], byte :: rest⟩ => some (byte.toNat % 2 == 1, ⟨lowBits 7 (byte.toNat / 2), rest⟩)
  | ⟨[], []⟩ => none

/-- The next `count` bits as a number. -/
def number? : (count : Nat) → Source → Option (Nat × Source)
  | 0, source => some (0, source)
  | count + 1, source =>
      match source.next? with
      | none => none
      | some (bit, source) =>
          match number? count source with
          | none => none
          | some (high, source) => some (bit.toNat + 2 * high, source)

/-- The bytes after the one in use. -/
def aligned (source : Source) : Bytes :=
  source.rest

theorem size_of_next? {source after : Source} {bit : Bool} (h : source.next? = some (bit, after)) :
    after.size + 1 = source.size := by
  unfold next? at h
  split at h
  · injection h with h
    injection h with _ h
    subst h
    simp only [size, List.length_cons]
    omega
  · injection h with h
    injection h with _ h
    subst h
    simp only [size, List.length_cons, length_lowBits, List.length_nil]
    omega
  · contradiction

theorem size_of_number? {count : Nat} {source after : Source} {n : Nat}
    (h : source.number? count = some (n, after)) : after.size + count = source.size := by
  induction count generalizing source n with
  | zero =>
      injection h with h
      injection h with _ h
      subst h
      rfl
  | succ count ih =>
      rw [number?] at h
      split at h
      · contradiction
      next hnext =>
        split at h
        · contradiction
        next hnumber =>
          injection h with h
          injection h with _ h
          subst h
          have := size_of_next? hnext
          have := ih hnumber
          omega

end Source
end Quorum.Deflate
