import Quorum.Gzip
import Quorum.Proofs.Deflate.RoundTrip

/-! # Gzip members

What a member looks like, whoever wrote it: its header may hold optional fields and a check
of its own, and its stream may be any stream of the content. The reader steps over each
field that the header's flags announce, so it finds the content of every member.
-/

namespace Quorum.Gzip

/-! ## Headers -/

/-- A text of a header. A zero stands behind it, so none is part of it. -/
structure Text where
  bytes : Bytes
  nonzero : ∀ byte ∈ bytes, byte ≠ 0
  length_le : bytes.length ≤ maximalField

/-- What the header of a member holds: six bytes with the time, the way it was packed and the
system, and fields that may be left out. -/
structure Header where
  isText : Bool
  isChecked : Bool
  details : Bytes
  extra : Option Bytes
  name : Option Text
  comment : Option Text
  length_details : details.length = 6
  length_extra : ∀ field ∈ extra, field.length < 0x10000

def Text.write (text : Text) : Bytes :=
  text.bytes ++ [0]

/-- The extra field behind its length. -/
def writeExtra (field : Bytes) : Bytes :=
  Bytes.littleEndian 2 field.length ++ field

/-- The bits of a header's fields in its flags. -/
def flagsOf (isText isChecked extra name comment : Bool) : UInt8 :=
  isText.toUInt8 ||| isChecked.toUInt8 <<< 1 ||| extra.toUInt8 <<< 2 ||| name.toUInt8 <<< 3 |||
    comment.toUInt8 <<< 4

namespace Header

def flags (header : Header) : UInt8 :=
  flagsOf header.isText header.isChecked header.extra.isSome header.name.isSome
    header.comment.isSome

/-- The bytes of a header that its check covers. -/
def unchecked (header : Header) : Bytes :=
  [0x1F, 0x8B, 8, header.flags] ++ header.details ++ header.extra.elim [] writeExtra ++
    header.name.elim [] Text.write ++ header.comment.elim [] Text.write

def write (header : Header) : Bytes :=
  header.unchecked ++
    if header.isChecked then Bytes.littleEndian 2 (Crc32.checksum header.unchecked).toNat else []

end Header

/-- Bytes that are a member with some content. -/
def IsMember (content bytes : Bytes) : Prop :=
  ∃ (header : Header) (stream : Bytes), Deflate.IsStream content stream ∧
    bytes = header.write ++ stream ++ trailer content

/-! ## Reading a header -/

theorem flags_masks : ∀ isText isChecked extra name comment : Bool,
    let flags := flagsOf isText isChecked extra name comment
    flags &&& 0xE0 = 0 ∧ decide (flags &&& 2 ≠ 0) = isChecked ∧ decide (flags &&& 4 ≠ 0) = extra ∧
      decide (flags &&& 8 ≠ 0) = name ∧ decide (flags &&& 16 ≠ 0) = comment := by
  decide

theorem readBytes_append (first rest : Bytes) :
    readBytes first.length (first ++ rest) = .ok (first, rest) := by
  rw [readBytes, Bytes.splitAt?_append]

theorem skipText_append {bytes : Bytes} {left : Nat} (hnonzero : ∀ byte ∈ bytes, byte ≠ 0)
    (hlength : bytes.length ≤ left) (rest : Bytes) :
    skipText left (bytes ++ 0 :: rest) = .ok rest := by
  induction bytes generalizing left with
  | nil => cases left <;> simp [skipText]
  | cons byte bytes ih =>
      obtain ⟨hbyte, hbytes⟩ := List.forall_mem_cons.mp hnonzero
      cases left with
      | zero => simp at hlength
      | succ left =>
          rw [List.cons_append, skipText, if_neg hbyte]
          exact ih hbytes (Nat.le_of_succ_le_succ hlength)

theorem skipText_write (text : Text) (rest : Bytes) :
    skipText maximalField (text.write ++ rest) = .ok rest := by
  rw [Text.write, List.append_assoc]
  exact skipText_append text.nonzero text.length_le rest

theorem skipExtra_write {field : Bytes} (hlength : field.length < 0x10000) (rest : Bytes) :
    skipExtra (writeExtra field ++ rest) = .ok rest := by
  have hprefix := readBytes_append (Bytes.littleEndian 2 field.length) (field ++ rest)
  have hfield := Bytes.toNat_littleEndian 2 field.length
  rw [Bytes.length_littleEndian] at hprefix
  rw [Nat.pow_eq, Nat.mod_eq_of_lt (by omega)] at hfield
  simp only [skipExtra, writeExtra, List.append_assoc, hprefix, hfield, readBytes_append, bind,
    Except.bind, pure, Except.pure]

/-- A field is stepped over if it is there. -/
theorem skipIf_write {α : Type} {field : Option α} {write : α → Bytes}
    {skip : Bytes → Except Fault Bytes}
    (hskip : ∀ value ∈ field, ∀ rest, skip (write value ++ rest) = .ok rest) (rest : Bytes) :
    skipIf field.isSome skip (field.elim [] write ++ rest) = .ok rest := by
  cases field with
  | none => rfl
  | some value => exact hskip value rfl rest

/-- The check that is written is that of the bytes in front of it. -/
theorem skipCheck_write (before rest : Bytes) :
    let check := Bytes.littleEndian 2 (Crc32.checksum before).toNat
    skipCheck (before ++ (check ++ rest)) (check ++ rest) = .ok rest := by
  intro check
  have hcheck := readBytes_append check rest
  rw [Bytes.length_littleEndian] at hcheck
  have hbefore : (before ++ (check ++ rest)).take
      ((before ++ (check ++ rest)).length - (check ++ rest).length) = before := by
    rw [List.length_append, Nat.add_sub_cancel, List.take_left]
  simp only [skipCheck, hcheck, hbefore, bind, Except.bind]
  exact if_pos (Bytes.toNat_littleEndian 2 _)

theorem skipHeader_write (header : Header) (rest : Bytes) :
    skipHeader (header.write ++ rest) = .ok rest := by
  obtain ⟨hreserved, hchecked, hextra, hname, hcomment⟩ := flags_masks header.isText
    header.isChecked header.extra.isSome header.name.isSome header.comment.isSome
  let check := if header.isChecked then
    Bytes.littleEndian 2 (Crc32.checksum header.unchecked).toNat else []
  let fixed := [0x1F, 0x8B, 8, header.flags] ++ header.details
  have hwhole : header.write ++ rest = header.unchecked ++ (check ++ rest) :=
    List.append_assoc ..
  have hfixed : readBytes 10 (header.write ++ rest) = .ok (fixed,
      header.extra.elim [] writeExtra ++ (header.name.elim [] Text.write ++
        (header.comment.elim [] Text.write ++ (check ++ rest)))) := by
    have hread := readBytes_append fixed (header.extra.elim [] writeExtra ++
      (header.name.elim [] Text.write ++ (header.comment.elim [] Text.write ++ (check ++ rest))))
    rw [show fixed.length = 10 by simp [fixed, header.length_details]] at hread
    simpa only [hwhole, Header.unchecked, fixed, List.append_assoc] using hread
  -- The check is of all bytes in front of it, so the header is looked at as a whole again.
  have hlast : skipIf header.isChecked (skipCheck (header.write ++ rest)) (check ++ rest) =
      .ok rest := by
    rw [hwhole]
    unfold check
    cases header.isChecked with
    | false => rfl
    | true => exact skipCheck_write header.unchecked rest
  have htexts : ∀ {field : Option Text} (rest : Bytes), skipIf field.isSome
      (skipText maximalField) (field.elim [] Text.write ++ rest) = .ok rest := fun rest =>
    skipIf_write (fun text _ => skipText_write text) rest
  simp only [skipHeader, hfixed, bind, Except.bind, fixed, List.cons_append, Header.flags,
    hreserved, hextra, hname, hcomment, hchecked, ne_eq, not_true_eq_false, if_false]
  rw [skipIf_write fun field hfield => skipExtra_write (header.length_extra field hfield)]
  simp only [htexts, hlast]

/-! ## Reading a member -/

theorem length_trailer (content : Bytes) : (trailer content).length = 8 := by
  simp [trailer, Bytes.length_littleEndian]

/-- The content of a member is found, whatever follows the member. -/
theorem IsMember.decompress {content bytes : Bytes} (h : IsMember content bytes) (behind : Bytes) :
    Gzip.decompress (bytes ++ behind) = .ok content := by
  obtain ⟨header, stream, hstream, rfl⟩ := h
  have htrailer := readBytes_append (trailer content) behind
  rw [length_trailer] at htrailer
  simp only [Gzip.decompress, List.append_assoc, skipHeader_write, hstream.inflate, htrailer, bind,
    Except.bind, Except.mapError, if_true]

/-! ## Writing a member -/

/-- The header that is written has no field that could be left out. -/
theorem write_plain : Header.write
    ⟨false, false, [0, 0, 0, 0, 0, 0xFF], none, none, none, rfl, by simp⟩ = header := by
  rfl

theorem isMember_compress (content : Bytes) : IsMember content (compress content) :=
  ⟨_, _, Deflate.isStream_deflate content, by rw [write_plain, compress]⟩

theorem decompress_compress (content behind : Bytes) :
    decompress (compress content ++ behind) = .ok content :=
  (isMember_compress content).decompress behind

end Quorum.Gzip
