import Mathlib.Algebra.Group.Nat.Defs
import Quorum.Proofs.Wire.RoundTrip

/-! # Fields in any form

A number may be written in more bytes than it needs, and a message may hold fields that its
reader does not know, whole groups of them among these. Which bytes a number, a key or a value
may stand in is said here without the reader. The reader takes just these bytes, so it goes on
where the next field begins.
-/

namespace Quorum.Wire

/-! ## Numbers -/

namespace Varint

/-- Bytes that hold a number seven bits at a time, the lowest first. All but the last have their
high bit set; the last ones may hold nothing but zeros. -/
inductive Spells : Nat → Bytes → Prop where
  | last {byte : UInt8} (hbyte : byte < 128) : Spells byte.toNat [byte]
  | more {byte : UInt8} {high : Nat} {rest : Bytes} (hbyte : 128 ≤ byte)
      (hrest : Spells high rest) : Spells (byte.toNat - 128 + 128 * high) (byte :: rest)

/-- A form of a number of 64 bits that has at most ten bytes. -/
structure Admissible (n : Nat) (bytes : Bytes) : Prop where
  spells : Spells n bytes
  length_le : bytes.length ≤ 10
  lt_size : n < UInt64.size

variable {n : Nat} {bytes : Bytes}

theorem Spells.length_pos (h : Spells n bytes) : 0 < bytes.length := by
  cases h with
  | last => exact Nat.one_pos
  | more => exact Nat.succ_pos _

/-- Every form is read that has no more bytes, and whose number has no more bits, than the reader
has room for. -/
theorem Spells.readWithin (h : Spells n bytes) {left : Nat} (hlength : bytes.length ≤ left + 1)
    (hn : n < 2 * 128 ^ left) (rest : Bytes) :
    readWithin (left + 1) (bytes ++ rest) = some (n, rest) := by
  induction h generalizing left with
  | @last byte hbyte =>
      have hroom : ¬ (left = 0 ∧ 1 < byte) := by
        rintro ⟨rfl, hlt⟩
        have hlt : 1 < byte.toNat := UInt8.lt_iff_toNat_lt.mp hlt
        omega
      rw [List.singleton_append, Varint.readWithin, if_pos hbyte, if_neg hroom]
  | @more byte high tail hbyte hrest ih =>
      obtain ⟨left, rfl⟩ : ∃ before, left = before + 1 := by
        have := hrest.length_pos
        rw [List.length_cons] at hlength
        exact ⟨left - 1, by omega⟩
      rw [Nat.pow_succ] at hn
      have hhigh := ih (by simpa using hlength) (by omega)
      rw [List.cons_append, Varint.readWithin, if_neg (UInt8.not_lt.mpr hbyte), hhigh]

theorem Admissible.readVarint (h : Admissible n bytes) (rest : Bytes) :
    readVarint (bytes ++ rest) = .ok (n, rest) := by
  have hread := h.spells.readWithin h.length_le h.lt_size rest
  rw [Wire.readVarint, read, hread]

theorem admissible_byte {byte : UInt8} (hbyte : byte < 128) : Admissible byte.toNat [byte] where
  spells := .last hbyte
  length_le := by simp
  lt_size := Nat.lt_trans byte.toNat_lt (by decide)

/-- A number of fourteen bits in two bytes, of which the second one may be zero. -/
theorem admissible_bytes {low high : UInt8} (hlow : 128 ≤ low) (hhigh : high < 128) :
    Admissible (low.toNat - 128 + 128 * high.toNat) [low, high] where
  spells := .more hlow (.last hhigh)
  length_le := by simp
  lt_size := by
    have := low.toNat_lt
    have := high.toNat_lt
    simp only [UInt64.size]
    omega

/-- The form that is written is one of them. -/
theorem spells_write (n : Nat) : Spells n (write n) := by
  fun_induction write n with
  | case1 n hn =>
      have hbyte : (UInt8.ofNat n).toNat = n := by
        rw [UInt8.toNat_ofNat']
        omega
      have hsmall : UInt8.ofNat n < 128 := by
        rw [UInt8.lt_iff_toNat_lt, hbyte]
        exact hn
      have hlast := Spells.last hsmall
      rwa [hbyte] at hlast
  | case2 n hn ih =>
      have hbyte : (UInt8.ofNat (128 + n % 128)).toNat = 128 + n % 128 := by
        rw [UInt8.toNat_ofNat']
        omega
      have hlarge : 128 ≤ UInt8.ofNat (128 + n % 128) := by
        rw [UInt8.le_iff_toNat_le, hbyte]
        exact Nat.le_add_right 128 _
      have hmore := Spells.more hlarge ih
      rwa [hbyte, Nat.add_sub_cancel_left, Nat.mod_add_div] at hmore

theorem length_write_le {count : Nat} (hn : n < 128 ^ (count + 1)) :
    (write n).length ≤ count + 1 := by
  induction count generalizing n with
  | zero =>
      have hbyte : n < 128 := by simpa using hn
      rw [write, if_pos hbyte]
      exact Nat.le_refl 1
  | succ count ih =>
      rw [write]
      split
      next => exact Nat.succ_pos _
      next =>
        have hdiv : n / 128 < 128 ^ (count + 1) := by
          rw [Nat.pow_succ] at hn
          exact Nat.div_lt_of_lt_mul (by omega)
        exact Nat.succ_le_succ (ih hdiv)

theorem admissible_write (hn : n < UInt64.size) : Admissible n (write n) where
  spells := spells_write n
  length_le := length_write_le (Nat.lt_trans hn (by decide))
  lt_size := hn

end Varint

/-! ## Keys and values -/

/-- A key in any form of its number, which has 32 bits. -/
structure Key.Spells (key : Key) (bytes : Bytes) : Prop where
  positive : 0 < key.number
  bounded : 8 * key.number + key.shape.code < UInt32.size
  admissible : Varint.Admissible (8 * key.number + key.shape.code) bytes

/-- The number of a field with a small number takes one byte with its shape. -/
theorem Key.spells_byte {key : Key} {byte : UInt8} (hpositive : 0 < key.number)
    (hbyte : byte < 128) (hnumber : byte.toNat = 8 * key.number + key.shape.code) :
    key.Spells [byte] where
  positive := hpositive
  bounded := hnumber ▸ Nat.lt_trans byte.toNat_lt (by decide)
  admissible := hnumber ▸ Varint.admissible_byte hbyte

theorem Key.Spells.readKey {key : Key} {bytes : Bytes} (h : key.Spells bytes) (rest : Bytes) :
    readKey (bytes ++ rest) = .ok (key, rest) :=
  readKey_of_readVarint h.positive h.bounded (h.admissible.readVarint rest)

/-- Content with any form of its length in front. -/
def Delimited (content bytes : Bytes) : Prop :=
  ∃ front, Varint.Admissible content.length front ∧ bytes = front ++ content

theorem Delimited.readDelimited {content bytes : Bytes} (h : Delimited content bytes)
    (rest : Bytes) : readDelimited (bytes ++ rest) = .ok (content, rest) := by
  obtain ⟨front, hfront, rfl⟩ := h
  rw [List.append_assoc]
  exact readDelimited_of_readVarint (hfront.readVarint _)

theorem delimited_write {content : Bytes} (h : content.Fits) :
    Delimited content (writeDelimited content) :=
  ⟨Varint.write content.length, Varint.admissible_write h, rfl⟩

/-- The bytes of a value that is no group, by its shape. -/
inductive Plain : Shape → Bytes → Prop where
  | varint {n : Nat} {bytes : Bytes} (h : Varint.Admissible n bytes) : Plain .varint bytes
  | sixtyFourBit {bytes : Bytes} (h : bytes.length = 8) : Plain .sixtyFourBit bytes
  | lengthDelimited {content bytes : Bytes} (h : Delimited content bytes) :
      Plain .lengthDelimited bytes
  | thirtyTwoBit {bytes : Bytes} (h : bytes.length = 4) : Plain .thirtyTwoBit bytes

theorem readBytes_append {count : Nat} {bytes : Bytes} (h : bytes.length = count) (rest : Bytes) :
    readBytes count (bytes ++ rest) = .ok (bytes, rest) := by
  rw [readBytes, ← h, Bytes.splitAt?_append]

theorem Plain.skipPlain {shape : Shape} {bytes : Bytes} (h : Plain shape bytes) (rest : Bytes) :
    skipPlain shape (bytes ++ rest) = .ok rest := by
  cases h with
  | varint h => rw [Wire.skipPlain, h.readVarint, Except.map]
  | sixtyFourBit h => rw [Wire.skipPlain, readBytes_append h, Except.map]
  | lengthDelimited h => rw [Wire.skipPlain, h.readDelimited, Except.map]
  | thirtyTwoBit h => rw [Wire.skipPlain, readBytes_append h, Except.map]

/-! ## Groups -/

/-- Fields of any numbers within so many open groups. Each group that begins among them ends
there too, and every field stands within fewer groups than are too many. -/
inductive Enclosed : Nat → Bytes → Prop where
  | done {depth : Nat} : Enclosed depth []
  | plain {depth : Nat} {key : Key} {front value rest : Bytes} (hdepth : depth < maximalDepth)
      (hkey : key.Spells front) (hvalue : Plain key.shape value) (hrest : Enclosed depth rest) :
      Enclosed depth (front ++ (value ++ rest))
  | group {depth number : Nat} {front inner stop rest : Bytes} (hdepth : depth < maximalDepth)
      (hkey : Key.Spells ⟨number, .startGroup⟩ front) (hinner : Enclosed (depth + 1) inner)
      (hstop : Key.Spells ⟨number, .endGroup⟩ stop) (hrest : Enclosed depth rest) :
      Enclosed depth (front ++ (inner ++ (stop ++ rest)))

section

variable {number : Nat} {outer : List Nat} {bytes after rest : Bytes}

/-- The innermost group is closed by the end of a group of its number. -/
theorem closeGroups_of_end (hkey : readKey bytes = .ok (⟨number, .endGroup⟩, rest)) :
    closeGroups (number :: outer) bytes = closeGroups outer rest := by
  rw [closeGroups]
  split
  next heq =>
    rw [hkey] at heq
    cases heq
  next heq =>
    rw [hkey] at heq
    cases heq
    rw [if_pos rfl, if_pos rfl]

theorem closeGroups_of_start {inner : Nat} (hdepth : outer.length + 1 < maximalDepth)
    (hkey : readKey bytes = .ok (⟨inner, .startGroup⟩, rest)) :
    closeGroups (number :: outer) bytes = closeGroups (inner :: number :: outer) rest := by
  rw [closeGroups]
  split
  next heq =>
    rw [hkey] at heq
    cases heq
  next heq =>
    rw [hkey] at heq
    cases heq
    rw [if_neg (by simp), if_neg (Nat.not_le.mpr hdepth), if_pos rfl]

theorem closeGroups_of_plain {key : Key} (hdepth : outer.length + 1 < maximalDepth)
    (hkey : readKey bytes = .ok (key, after)) (hplain : skipPlain key.shape after = .ok rest) :
    closeGroups (number :: outer) bytes = closeGroups (number :: outer) rest := by
  -- What is stepped over like this neither begins nor ends a group.
  have hshape : key.shape ≠ .startGroup ∧ key.shape ≠ .endGroup := by
    constructor <;> intro heq <;> rw [heq] at hplain <;> cases hplain
  rw [closeGroups]
  split
  next heq =>
    rw [hkey] at heq
    cases heq
  next heq =>
    rw [hkey] at heq
    cases heq
    rw [if_neg hshape.2, if_neg (Nat.not_le.mpr hdepth), if_neg hshape.1]
    split
    next heq =>
      rw [hplain] at heq
      cases heq
    next heq =>
      rw [hplain] at heq
      cases heq
      rfl

end

/-- Closing groups steps over the fields within them. -/
theorem Enclosed.closeGroups {depth : Nat} {bytes : Bytes} (h : Enclosed depth bytes)
    {number : Nat} {outer : List Nat} (hdepth : outer.length + 1 = depth) (rest : Bytes) :
    closeGroups (number :: outer) (bytes ++ rest) = closeGroups (number :: outer) rest := by
  induction h generalizing number outer rest with
  | done => rfl
  | plain hlt hkey hvalue _ ih =>
      simp only [List.append_assoc]
      rw [closeGroups_of_plain (hdepth ▸ hlt) (hkey.readKey _) (hvalue.skipPlain _), ih hdepth]
  | group hlt hkey _ hstop _ ihinner ih =>
      simp only [List.append_assoc]
      rw [closeGroups_of_start (hdepth ▸ hlt) (hkey.readKey _),
        ihinner (by rw [List.length_cons, hdepth]), closeGroups_of_end (hstop.readKey _), ih hdepth]

/-- The bytes behind the key of a field that no reader has to know. -/
inductive Unread : Key → Bytes → Prop where
  | plain {key : Key} {bytes : Bytes} (h : Plain key.shape bytes) : Unread key bytes
  | group {number : Nat} {inner stop : Bytes} (hinner : Enclosed 1 inner)
      (hstop : Key.Spells ⟨number, .endGroup⟩ stop) :
      Unread ⟨number, .startGroup⟩ (inner ++ stop)

theorem Unread.skipValue {key : Key} {bytes : Bytes} (h : Unread key bytes) (rest : Bytes) :
    skipValue key (bytes ++ rest) = .ok rest := by
  cases h with
  | plain h =>
      have hskip := h.skipPlain rest
      rw [Wire.skipValue]
      split
      next heq =>
        rw [heq] at hskip
        cases hskip
      next => exact hskip
  | group hinner hstop =>
      rw [Wire.skipValue, List.append_assoc, hinner.closeGroups rfl,
        closeGroups_of_end (hstop.readKey rest), Wire.closeGroups]

end Quorum.Wire
