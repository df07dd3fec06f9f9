import Quorum.Proofs.Deflate.Code

/-! # What lies ahead of a reader

A source is described by the bits that are ahead of it, up to the end of a byte, and the
bytes behind the last of them. Taking a number or a code word takes its bits and leaves the
others ahead, and what is left of a byte may be skipped.
-/

namespace Quorum.Deflate

/-! ## Bits of bytes -/

theorem bitsOf_append (bytes more : Bytes) : bitsOf (bytes ++ more) = bitsOf bytes ++ bitsOf more :=
  List.flatMap_append

theorem length_bitsOf (bytes : Bytes) : (bitsOf bytes).length = 8 * bytes.length := by
  induction bytes with
  | nil => rfl
  | cons byte rest ih =>
      rw [bitsOf, List.flatMap_cons, List.length_append, length_lowBits, ← bitsOf, ih,
        List.length_cons]
      omega

theorem eq_of_lowBits {byte other : UInt8} (h : lowBits 8 byte.toNat = lowBits 8 other.toNat) :
    byte = other := by
  have hvalue := congrArg bitsToNat h
  have hbyte := byte.toNat_lt
  have hother := other.toNat_lt
  rw [bitsToNat_lowBits, bitsToNat_lowBits, Nat.pow_eq, Nat.mod_eq_of_lt hbyte,
    Nat.mod_eq_of_lt hother] at hvalue
  exact UInt8.toNat.inj hvalue

/-- Bytes whose bits begin with those of other bytes begin with these. -/
theorem eq_append_of_bitsOf {bytes first : Bytes} {rest : List Bool}
    (h : bitsOf bytes = bitsOf first ++ rest) :
    ∃ more, bytes = first ++ more ∧ bitsOf more = rest := by
  induction first generalizing bytes with
  | nil => exact ⟨bytes, rfl, h⟩
  | cons byte first ih =>
      cases bytes with
      | nil =>
          have hlength := congrArg List.length h
          rw [List.length_append, length_bitsOf, length_bitsOf, List.length_cons,
            List.length_nil] at hlength
          omega
      | cons other bytes =>
          simp only [bitsOf, List.flatMap_cons, List.append_assoc] at h
          obtain ⟨hbyte, hrest⟩ := List.append_inj h (by simp only [length_lowBits])
          obtain ⟨more, rfl, hmore⟩ := ih hrest
          exact ⟨more, by rw [eq_of_lowBits hbyte]; rfl, hmore⟩

/-! ## Sources -/

namespace Source

/-- Ahead are these bits, up to the end of a byte, and behind them these bytes. -/
def Ahead (source : Source) (bits : List Bool) (behind : Bytes) : Prop :=
  source.pending.length < 8 ∧
    ∃ bytes, source.rest = bytes ++ behind ∧ source.pending ++ bitsOf bytes = bits

variable {source : Source} {bits filler rest : List Bool} {behind bytes : Bytes}

theorem ahead_ofBytes (bytes behind : Bytes) :
    (ofBytes (bytes ++ behind)).Ahead (bitsOf bytes) behind :=
  ⟨by simp [ofBytes], bytes, rfl, rfl⟩

theorem Ahead.next? {bit : Bool} (h : source.Ahead (bit :: bits) behind) :
    ∃ after, source.next? = some (bit, after) ∧ after.Ahead bits behind := by
  obtain ⟨hpending, bytes, hrest, hbits⟩ := h
  obtain ⟨pending, rest⟩ := source
  cases pending with
  | cons first pending =>
      simp only [List.cons_append, List.cons.injEq] at hbits
      obtain ⟨rfl, hbits⟩ := hbits
      exact ⟨⟨pending, rest⟩, rfl, Nat.lt_of_succ_lt hpending, bytes, hrest, hbits⟩
  | nil =>
      cases bytes with
      | nil => simp [bitsOf] at hbits
      | cons byte bytes =>
          simp only [bitsOf, List.flatMap_cons, lowBits, List.nil_append, List.cons_append,
            List.cons.injEq] at hbits
          obtain ⟨rfl, hbits⟩ := hbits
          subst hrest
          exact ⟨_, rfl, by simp [length_lowBits], bytes, rfl, hbits⟩

/-- With less than a byte ahead, what is left are the bytes behind. -/
theorem Ahead.aligned (h : source.Ahead bits behind) (hbits : bits.length < 8) :
    source.aligned = behind := by
  obtain ⟨-, bytes, hrest, rfl⟩ := h
  cases bytes with
  | nil => exact hrest
  | cons byte bytes =>
      rw [List.length_append, length_bitsOf, List.length_cons] at hbits
      omega

/-- Whole bytes ahead, behind what is left of the one in use. -/
theorem Ahead.skip (h : source.Ahead (filler ++ (bitsOf bytes ++ rest)) behind)
    (hfiller : filler.length < 8) (hrest : rest.length % 8 = 0) :
    ∃ more, source.aligned = bytes ++ (more ++ behind) ∧ bitsOf more = rest := by
  obtain ⟨hpending, ahead, haligned, hbits⟩ := h
  have hlength : source.pending.length = filler.length := by
    have := congrArg List.length hbits
    simp only [List.length_append, length_bitsOf] at this
    omega
  obtain ⟨more, rfl, hmore⟩ := eq_append_of_bitsOf (List.append_inj hbits hlength).2
  exact ⟨more, by rw [Source.aligned, haligned, List.append_assoc], hmore⟩

theorem Ahead.number? {word : List Bool} (h : source.Ahead (word ++ bits) behind) :
    ∃ after, source.number? word.length = some (bitsToNat word, after) ∧
      after.Ahead bits behind := by
  induction word generalizing source with
  | nil => exact ⟨source, rfl, h⟩
  | cons bit word ih =>
      obtain ⟨next, hnext, hahead⟩ := h.next?
      obtain ⟨after, hafter, hbehind⟩ := ih hahead
      exact ⟨after, by simp [Source.number?, hnext, hafter, bitsToNat], hbehind⟩

end Source

variable {source : Source} {bits : List Bool} {behind : Bytes}

/-- A number that was written with enough bits is read back. -/
theorem Source.Ahead.readNumber {count value : Nat} (hvalue : value < 2 ^ count)
    (h : source.Ahead (lowBits count value ++ bits) behind) :
    ∃ after, Deflate.readNumber count source = .ok (value, after) ∧ after.Ahead bits behind := by
  obtain ⟨after, hnumber, hahead⟩ := h.number?
  rw [length_lowBits, bitsToNat_lowBits, Nat.pow_eq, Nat.mod_eq_of_lt hvalue] at hnumber
  exact ⟨after, by rw [Deflate.readNumber, hnumber], hahead⟩

/-! ## Code words -/

namespace Tree

variable {tree : Tree} {word : List Bool} {symbol : Nat}

theorem walk_ahead (hfind : tree.find? word = some symbol)
    (h : source.Ahead (word ++ bits) behind) :
    ∃ after, tree.walk source = .ok (symbol, after) ∧ after.Ahead bits behind := by
  induction tree generalizing source word with
  | vacant => cases word <;> simp [find?] at hfind
  | leaf found =>
      cases word with
      | nil =>
          obtain rfl : found = symbol := by simpa [find?] using hfind
          exact ⟨source, rfl, h⟩
      | cons => simp [find?] at hfind
  | node left right ihl ihr =>
      cases word with
      | nil => simp [find?] at hfind
      | cons bit word =>
          obtain ⟨next, hnext, hahead⟩ := h.next?
          cases bit with
          | false =>
              obtain ⟨after, hwalk, hbehind⟩ := ihl hfind hahead
              exact ⟨after, by simp only [walk, hnext, hwalk], hbehind⟩
          | true =>
              obtain ⟨after, hwalk, hbehind⟩ := ihr hfind hahead
              exact ⟨after, by simp only [walk, hnext, hwalk], hbehind⟩

/-- A code word of at least one bit is read as the symbol it leads to. -/
theorem read_ahead (hfind : tree.find? word = some symbol) (hword : word ≠ [])
    (h : source.Ahead (word ++ bits) behind) :
    ∃ after, tree.read source = .ok (symbol, after) ∧ after.Ahead bits behind := by
  obtain ⟨after, hwalk, hbehind⟩ := walk_ahead hfind h
  refine ⟨after, ?_, hbehind⟩
  cases tree with
  | leaf found =>
      cases word with
      | nil => exact absurd rfl hword
      | cons => simp [find?] at hfind
  | vacant | node => exact hwalk

end Tree

/-- The words of a code are read with its tree. -/
theorem Source.Ahead.readWord {lengths : List Nat} (hlengths : kraftSum lengths ≤ 2 ^ maximalLength)
    {symbol : Nat} {word : List Bool} (hword : (symbol, word) ∈ codeWords lengths)
    (h : source.Ahead (word ++ bits) behind) :
    ∃ after, (treeOf lengths).read source = .ok (symbol, after) ∧ after.Ahead bits behind :=
  let ⟨hfind, hnonempty⟩ := find?_treeOf hlengths hword
  Tree.read_ahead hfind hnonempty h

end Quorum.Deflate
