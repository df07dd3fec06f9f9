import Quorum.Binary.Format
import Quorum.Except

/-! # Formats that lose nothing

A format is lossless if its reader takes exactly the bytes that its writer made off the
front of any longer byte string. Every way of making a format from others keeps that. The
lengths in front of lists and texts are numbers of 64 bits, so the law is about values
whose bytes fit in memory.
-/

namespace Quorum

/-- Bytes that fit in memory: their length is a number of 64 bits. -/
def Bytes.Fits (bytes : Bytes) : Prop :=
  bytes.length < UInt64.size

instance : DecidablePred Bytes.Fits :=
  fun bytes => inferInstanceAs (Decidable (bytes.length < UInt64.size))

theorem Bytes.Fits.of_append {first second : Bytes} (h : Bytes.Fits (first ++ second)) :
    first.Fits ∧ second.Fits := by
  simp only [Bytes.Fits, List.length_append] at h ⊢
  omega

namespace Binary.Format

variable {α β : Type}

/-- The bytes of a value read back as the value, whatever comes after them. -/
def ReadsBack (format : Format α) (value : α) : Prop :=
  (format.write value).Fits →
    ∀ rest, format.read (format.write value ++ rest) = .ok (value, rest)

/-- The bytes of every value read back. -/
def Lossless (format : Format α) : Prop :=
  ∀ value, format.ReadsBack value

theorem Lossless.decode_write {format : Format α} (h : format.Lossless) {value : α}
    (hfits : (format.write value).Fits) : format.decode (format.write value) = .ok value := by
  have hread := h value hfits []
  rw [List.append_nil] at hread
  rw [decode, hread]
  rfl

/-! ## Parts of formats -/

theorem readBytes_append (first rest : Bytes) :
    readBytes first.length (first ++ rest) = .ok (first, rest) := by
  rw [readBytes, Bytes.splitAt?_append]

/-- A number is read back from the digits behind a tag that announces enough of them. -/
theorem readNumber_tagged (kind : IntegerKind) (tag : UInt8) {size width n : Nat}
    {found : IntegerKind} (htag : ¬ tag < 251) (hannounced : announced tag = (size, found))
    (hfound : found ≠ .reserved) (hsize : size ≤ width) (hn : n < Nat.pow 256 size) (rest : Bytes) :
    readNumber kind width (tag :: (Bytes.littleEndian size n ++ rest)) = .ok (n, rest) := by
  have hdigits := readBytes_append (Bytes.littleEndian size n) rest
  rw [Bytes.length_littleEndian] at hdigits
  have hvalue : Bytes.toNat (Bytes.littleEndian size n) = n := by
    rw [Bytes.toNat_littleEndian, Nat.mod_eq_of_lt hn]
  simp [readNumber, byte, bind, Except.bind, htag, hannounced, hfound, hsize, hdigits, hvalue]

/-- Every number that the width holds is read back, however few bytes it was written in. -/
theorem readNumber_writeNumber (kind : IntegerKind) {width n : Nat}
    (hwidth : width = 2 ∨ width = 4 ∨ width = 8) (hn : n < Nat.pow 256 width) (rest : Bytes) :
    readNumber kind width (writeNumber n ++ rest) = .ok (n, rest) := by
  rw [writeNumber]
  split
  next hsmall =>
    have htag : UInt8.ofNat n < 251 := by
      rw [UInt8.lt_iff_toNat_lt, UInt8.toNat_ofNat']
      simp only [UInt8.reduceToNat]
      omega
    have hvalue : (UInt8.ofNat n).toNat = n := by
      rw [UInt8.toNat_ofNat']
      omega
    simp [readNumber, byte, bind, Except.bind, htag, hvalue]
  next hsmall =>
    split
    next h16 =>
      have hsize : 2 ≤ width := by omega
      exact readNumber_tagged kind 251 (by decide) rfl (by decide) hsize
        (by simpa [UInt16.size] using h16) rest
    next h16 =>
      split
      next h32 =>
        have hsize : 4 ≤ width := by
          rcases hwidth with rfl | rfl | rfl
          · simp [UInt16.size] at h16 hn
            omega
          · exact Nat.le_refl 4
          · decide
        exact readNumber_tagged kind 252 (by decide) rfl (by decide) hsize
          (by simpa [UInt32.size] using h32) rest
      next h32 =>
        have hwidth8 : width = 8 := by
          rcases hwidth with rfl | rfl | rfl
          · simp [UInt16.size] at h16 hn
            omega
          · simp [UInt32.size] at h32 hn
            omega
          · rfl
        subst hwidth8
        exact readNumber_tagged kind 253 (by decide) rfl (by decide) (Nat.le_refl 8)
          hn rest

theorem length_writeNumber_pos (n : Nat) : 0 < (writeNumber n).length := by
  unfold writeNumber
  split
  · simp
  · split
    · simp
    · split <;> simp

theorem length_writeNumber_le (n : Nat) : (writeNumber n).length ≤ 9 := by
  unfold writeNumber
  repeat' split
  all_goals simp [Bytes.length_littleEndian]

/-! ## Single values -/

theorem lossless_unit : unit.Lossless := by
  intro value _ rest
  rfl

theorem lossless_byte : byte.Lossless := by
  intro value _ rest
  rfl

theorem lossless_bool : bool.Lossless := by
  intro value _ rest
  cases value <;> rfl

theorem lossless_u64 : u64.Lossless := by
  intro value _ rest
  have hread := readNumber_writeNumber .u64 (.inr (.inr rfl)) value.toNat_lt rest
  simp [u64, hread, bind, Except.bind]

theorem lossless_u32 : u32.Lossless := by
  intro value _ rest
  have hread := readNumber_writeNumber .u32 (.inr (.inl rfl)) value.toNat_lt rest
  simp [u32, hread, bind, Except.bind]

theorem lossless_u16 : u16.Lossless := by
  intro value _ rest
  have hread := readNumber_writeNumber .u16 (.inl rfl) value.toNat_lt rest
  simp [u16, hread, bind, Except.bind]

theorem lossless_i64 : i64.Lossless := by
  intro value _ rest
  have hbound : zigzag value.toInt < Nat.pow 256 8 := by
    have hlow := value.le_toInt
    have hhigh := value.toInt_lt
    rw [zigzag, Nat.pow_eq]
    split <;> omega
  have hread := readNumber_writeNumber .u64 (.inr (.inr rfl)) hbound rest
  simp [i64, hread, unzigzag_zigzag]

theorem lossless_string : string.Lossless := by
  intro value hfits rest
  have hlength : (Text.Utf8.encode value).length < Nat.pow 256 8 := (Bytes.Fits.of_append hfits).2
  have hread := readNumber_writeNumber .u64 (.inr (.inr rfl)) hlength
    (Text.Utf8.encode value ++ rest)
  simp [string, hread, readBytes_append, bind, Except.bind]

/-! ## Formats made of formats -/

theorem Lossless.pair {first : Format α} {second : Format β} (hfirst : first.Lossless)
    (hsecond : second.Lossless) : (first.pair second).Lossless := by
  intro value hfits rest
  obtain ⟨ha, hb⟩ := Bytes.Fits.of_append hfits
  simp [Format.pair, hfirst value.1 ha, hsecond value.2 hb, bind, Except.bind]

theorem ReadsBack.convert {format : Format α} {pack : α → β} {unpack : β → α} {value : β}
    (h : format.ReadsBack (unpack value)) (hpack : pack (unpack value) = value) :
    (format.convert pack unpack).ReadsBack value := by
  intro hfits rest
  simp [Format.convert, h hfits, hpack, bind, Except.bind]

theorem Lossless.convert {format : Format α} {pack : α → β} {unpack : β → α}
    (h : format.Lossless) (hpack : ∀ value, pack (unpack value) = value) :
    (format.convert pack unpack).Lossless :=
  fun value => (h (unpack value)).convert (hpack value)

theorem Lossless.option {format : Format α} (h : format.Lossless) :
    (Format.option format).Lossless := by
  intro value hfits rest
  cases value with
  | none => rfl
  | some value =>
      have htagged : Bytes.Fits ([1] ++ format.write value) := hfits
      simp [Format.option, byte, h value htagged.of_append.2, bind, Except.bind]

/-- So many items are read back from the bytes of the items. -/
theorem readMany_flatMap {item : Format α} (h : item.Lossless) {values : List α}
    (hfits : Bytes.Fits (values.flatMap item.write)) (rest : Bytes) :
    readMany item values.length (values.flatMap item.write ++ rest) = .ok (values, rest) := by
  induction values with
  | nil => rfl
  | cons value values ih =>
      rw [List.flatMap_cons] at hfits ⊢
      obtain ⟨hvalue, hvalues⟩ := hfits.of_append
      simp [readMany, h value hvalue, ih hvalues, bind, Except.bind]

theorem length_le_flatMap {item : Format α} (hitem : ∀ value, 0 < (item.write value).length)
    (values : List α) : values.length ≤ (values.flatMap item.write).length := by
  induction values with
  | nil => simp
  | cons value values ih =>
      have hvalue := hitem value
      rw [List.flatMap_cons, List.length_append, List.length_cons]
      omega

/-- Items take bytes, so there are no more of them than bytes and their number fits in
memory too. -/
theorem Lossless.list {item : Format α} (h : item.Lossless)
    (hitem : ∀ value, 0 < (item.write value).length) : (Format.list item).Lossless := by
  intro values hfits rest
  have hitems := (Bytes.Fits.of_append hfits).2
  have hcount : values.length < Nat.pow 256 8 :=
    Nat.lt_of_le_of_lt (length_le_flatMap hitem values) hitems
  have hread := readNumber_writeNumber .usize (.inr (.inr rfl)) hcount
    (values.flatMap item.write ++ rest)
  simp [Format.list, hread, readMany_flatMap h hitems, bind, Except.bind]

theorem lossless_bytes : bytes.Lossless :=
  lossless_byte.list fun _ => Nat.one_pos

theorem fits_of_write_bytes {value : Bytes} (h : Bytes.Fits (bytes.write value)) :
    value.Fits :=
  Nat.lt_of_le_of_lt (@length_le_flatMap UInt8 byte (fun _ => Nat.one_pos) value) h.of_append.2

/-- Of a choice, only the alternative to which a value belongs has to read it back. -/
theorem ReadsBack.choice {count : Nat} {number : α → Nat} {alternative : Nat → Format α}
    {value : α} (hcount : count ≤ UInt32.size) (hnumber : number value < count)
    (h : (alternative (number value)).ReadsBack value) :
    (choice count number alternative).ReadsBack value := by
  intro hfits rest
  have hvalue := (Bytes.Fits.of_append hfits).2
  have hlt : number value < Nat.pow 256 4 := Nat.lt_of_lt_of_le hnumber hcount
  have hread := readNumber_writeNumber .u32 (.inr (.inl rfl)) hlt
    ((alternative (number value)).write value ++ rest)
  simp [Format.choice, hread, hnumber, h hvalue, bind, Except.bind]

theorem lossless_choice {count : Nat} {number : α → Nat} {alternative : Nat → Format α}
    (hcount : count ≤ UInt32.size) (hnumber : ∀ value, number value < count)
    (h : ∀ value, (alternative (number value)).ReadsBack value) :
    (choice count number alternative).Lossless :=
  fun value => (h value).choice hcount (hnumber value)

/-- A result is read back if what it holds is. -/
theorem decode_write_result {ε : Type} {valueFormat : Format α} {errorFormat : Format ε}
    {outcome : Except ε α}
    (hvalue : ∀ value, outcome = .ok value →
      valueFormat.decode (valueFormat.write value) = .ok value)
    (herror : ∀ error, outcome = .error error →
      errorFormat.decode (errorFormat.write error) = .ok error) :
    (result valueFormat errorFormat).decode ((result valueFormat errorFormat).write outcome) =
      .ok outcome := by
  have hzero (rest : Bytes) : readNumber .u32 4 (0 :: rest) = .ok (0, rest) := rfl
  have hone (rest : Bytes) : readNumber .u32 4 (1 :: rest) = .ok (1, rest) := rfl
  cases outcome with
  | ok value =>
      have hread := hvalue value rfl
      simp only [decode, map_eq_ok] at hread
      obtain ⟨⟨_, rest⟩, hread, rfl⟩ := hread
      simp [decode, result, hzero, hread, bind, Except.bind, Except.map]
  | error error =>
      have hread := herror error rfl
      simp only [decode, map_eq_ok] at hread
      obtain ⟨⟨_, rest⟩, hread, rfl⟩ := hread
      simp [decode, result, hone, hread, bind, Except.bind, Except.map]

end Binary.Format
end Quorum
