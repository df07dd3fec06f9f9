import Quorum.Proofs.Command.Member
import Quorum.Proofs.Deflate.Recognized

/-! # Only members are unpacked

Whatever bytes have a content, a member of that content is at their front: each field that
was stepped over is one a header can hold, what was inflated is a stream, and the eight bytes
behind it are the trailer of the content. No member is the beginning of another one, so none
that was cut short has a content.
-/

namespace Quorum.Gzip

variable {bytes rest : Bytes}

/-! ## What was stepped over -/

theorem eq_append_of_readBytes {count : Nat} {first : Bytes}
    (h : readBytes count bytes = .ok (first, rest)) :
    bytes = first ++ rest ∧ first.length = count := by
  unfold readBytes at h
  split at h
  next heq =>
    cases h
    exact Bytes.eq_append_of_splitAt? heq
  next => contradiction

theorem eq_append_of_skipText {left : Nat} (h : skipText left bytes = .ok rest) :
    ∃ text : Bytes, bytes = text ++ 0 :: rest ∧ (∀ byte ∈ text, byte ≠ 0) ∧ text.length ≤ left := by
  fun_induction skipText left bytes with
  | case2 left bytes =>
      cases h
      exact ⟨[], rfl, by simp, Nat.zero_le left⟩
  | case4 byte bytes hnonzero left ih =>
      obtain ⟨text, rfl, htext, hlength⟩ := ih h
      exact ⟨byte :: text, rfl, List.forall_mem_cons.mpr ⟨hnonzero, htext⟩,
        Nat.succ_le_succ hlength⟩
  | _ => contradiction

theorem eq_write_of_skipText (h : skipText maximalField bytes = .ok rest) :
    ∃ text : Text, bytes = text.write ++ rest ∧ text.bytes.length ≤ maximalField := by
  obtain ⟨text, rfl, htext, hlength⟩ := eq_append_of_skipText h
  exact ⟨⟨text, htext, hlength⟩, by simp [Text.write], hlength⟩

theorem eq_write_of_skipExtra (h : skipExtra bytes = .ok rest) :
    ∃ field : Bytes, bytes = writeExtra field ++ rest ∧ field.length < 0x10000 := by
  obtain ⟨⟨length, fields⟩, hlength, h⟩ := bind_eq_ok.mp h
  obtain ⟨⟨field, last⟩, hfield, h⟩ := bind_eq_ok.mp h
  cases h
  obtain ⟨rfl, htwo⟩ := eq_append_of_readBytes hlength
  obtain ⟨rfl, hcount⟩ := eq_append_of_readBytes hfield
  have hwritten := Bytes.littleEndian_toNat length
  have hlt := Bytes.toNat_lt length
  rw [htwo, ← hcount] at hwritten
  rw [htwo, ← hcount] at hlt
  exact ⟨field, by rw [writeExtra, hwritten, List.append_assoc], hlt⟩

/-- A field is there if its flag is set. -/
theorem eq_write_of_skipIf {α : Type} {flag : Bool} {write : α → Bytes} {valid : α → Prop}
    {skip : Bytes → Except Fault Bytes}
    (hskip : skip bytes = .ok rest → ∃ value, bytes = write value ++ rest ∧ valid value)
    (h : skipIf flag skip bytes = .ok rest) :
    ∃ field : Option α, field.isSome = flag ∧ bytes = field.elim [] write ++ rest ∧
      ∀ value ∈ field, valid value := by
  cases flag with
  | false =>
      cases h
      exact ⟨none, rfl, rfl, by simp⟩
  | true =>
      obtain ⟨value, hbytes, hvalid⟩ := hskip h
      exact ⟨some value, rfl, hbytes, by simpa using hvalid⟩

/-- The check that was found is that of the bytes in front of it. -/
theorem eq_check_of_skipCheck {before : Bytes}
    (h : skipCheck (before ++ bytes) bytes = .ok rest) :
    bytes = Bytes.littleEndian 2 (Crc32.checksum before).toNat ++ rest := by
  obtain ⟨⟨check, last⟩, hcheck, h⟩ := bind_eq_ok.mp h
  obtain ⟨rfl, htwo⟩ := eq_append_of_readBytes hcheck
  dsimp only at h
  rw [List.length_append, Nat.add_sub_cancel, List.take_left] at h
  split at h
  next hvalue =>
    cases h
    have hwritten := Bytes.littleEndian_toNat check
    rw [htwo, hvalue] at hwritten
    rw [← hwritten]
    exact congrArg (· ++ rest) (Bytes.littleEndian_mod 2 _)
  next => contradiction

theorem eq_check_of_skipIf {flag : Bool} {before : Bytes}
    (h : skipIf flag (skipCheck (before ++ bytes)) bytes = .ok rest) :
    bytes = (if flag then Bytes.littleEndian 2 (Crc32.checksum before).toNat else []) ++ rest := by
  cases flag with
  | false =>
      cases h
      rfl
  | true => exact eq_check_of_skipCheck h

/-- Without the reserved bits, flags are those of the fields they announce. -/
theorem flagsOf_bits (flags : UInt8) (h : flags &&& 0xE0 = 0) :
    flagsOf (flags &&& 1 ≠ 0) (flags &&& 2 ≠ 0) (flags &&& 4 ≠ 0) (flags &&& 8 ≠ 0)
      (flags &&& 16 ≠ 0) = flags := by
  have hall : ∀ n < 256, UInt8.ofNat n &&& 0xE0 = 0 →
      flagsOf (UInt8.ofNat n &&& 1 ≠ 0) (UInt8.ofNat n &&& 2 ≠ 0) (UInt8.ofNat n &&& 4 ≠ 0)
        (UInt8.ofNat n &&& 8 ≠ 0) (UInt8.ofNat n &&& 16 ≠ 0) = UInt8.ofNat n := by
    decide +kernel
  simpa [h] using hall flags.toNat flags.toNat_lt

/-- What was stepped over is a header. -/
theorem eq_write_of_skipHeader (h : skipHeader bytes = .ok rest) :
    ∃ header : Header, bytes = header.write ++ rest := by
  obtain ⟨⟨fixed, fields⟩, hfixed, h⟩ := bind_eq_ok.mp h
  obtain ⟨rfl, hten⟩ := eq_append_of_readBytes hfixed
  dsimp only at h
  split at h
  next flags details _ =>
    split at h
    · contradiction
    next hreserved =>
      obtain ⟨texts, hextra, h⟩ := bind_eq_ok.mp h
      obtain ⟨last, hname, h⟩ := bind_eq_ok.mp h
      obtain ⟨checked, hcomment, hcheck⟩ := bind_eq_ok.mp h
      obtain ⟨extra, hextraFlag, rfl, hlength⟩ :=
        eq_write_of_skipIf eq_write_of_skipExtra hextra
      obtain ⟨name, hnameFlag, rfl, -⟩ := eq_write_of_skipIf eq_write_of_skipText hname
      obtain ⟨comment, hcommentFlag, rfl, -⟩ := eq_write_of_skipIf eq_write_of_skipText hcomment
      let header : Header := ⟨flags &&& 1 ≠ 0, flags &&& 2 ≠ 0, details, extra, name, comment,
        by simpa using hten, hlength⟩
      have hflags : header.flags = flags := by
        rw [Header.flags, hextraFlag, hnameFlag, hcommentFlag]
        exact flagsOf_bits flags (by simpa using hreserved)
      have hwhole : 0x1F :: 0x8B :: 8 :: flags :: details ++ (extra.elim [] writeExtra ++
          (name.elim [] Text.write ++ (comment.elim [] Text.write ++ checked))) =
            header.unchecked ++ checked := by
        simp only [Header.unchecked, hflags, header, List.cons_append, List.append_assoc,
          List.nil_append]
      rw [hwhole] at hcheck ⊢
      exact ⟨header, by rw [Header.write, List.append_assoc, ← eq_check_of_skipIf hcheck]⟩
  next => contradiction

/-! ## Trailers -/

theorem trailer_values (content : Bytes) :
    Bytes.toNat (Bytes.littleEndian 4 (Crc32.checksum content).toNat) =
        (Crc32.checksum content).toNat ∧
      Bytes.toNat (Bytes.littleEndian 4 content.length) = content.length % 2 ^ 32 := by
  refine ⟨?_, Bytes.toNat_littleEndian ..⟩
  rw [Bytes.toNat_littleEndian]
  exact Nat.mod_eq_of_lt (Crc32.checksum content).toNat_lt

/-- Eight bytes with the values of a trailer are that trailer. -/
theorem eq_trailer {content check length : Bytes} (hcheckWidth : check.length = 4)
    (hlengthWidth : length.length = 4)
    (hcheck : Bytes.toNat check = (Crc32.checksum content).toNat)
    (hlength : Bytes.toNat length = content.length % 2 ^ 32) :
    check ++ length = trailer content := by
  have hfirst := Bytes.littleEndian_toNat check
  have hsecond := Bytes.littleEndian_toNat length
  rw [hcheckWidth, hcheck] at hfirst
  rw [hlengthWidth, hlength] at hsecond
  rw [trailer, hfirst, ← hsecond]
  exact congrArg (check ++ ·) (Bytes.littleEndian_mod 4 content.length)

/-! ## What was unpacked -/

/-- The content is that of a member at the front. -/
theorem decompress_eq_ok_iff {content : Bytes} :
    decompress bytes = .ok content ↔
      ∃ packed behind, IsMember content packed ∧ bytes = packed ++ behind := by
  constructor
  · intro h
    obtain ⟨stream, hheader, h⟩ := bind_eq_ok.mp h
    obtain ⟨⟨found, last⟩, hinflate, h⟩ := bind_eq_ok.mp h
    obtain ⟨⟨check, behind⟩, hcheck, h⟩ := bind_eq_ok.mp h
    dsimp only at h
    split at h
    next htrailer =>
      cases h
      subst htrailer
      obtain ⟨header, rfl⟩ := eq_write_of_skipHeader hheader
      obtain ⟨rfl, -⟩ := eq_append_of_readBytes hcheck
      obtain ⟨packed, hpacked, rfl⟩ := Deflate.inflate_eq_ok_iff.mp (mapError_eq_ok.mp hinflate)
      exact ⟨_, behind, ⟨header, packed, hpacked, rfl⟩, by simp only [List.append_assoc]⟩
    next => contradiction
  · rintro ⟨packed, behind, hpacked, rfl⟩
    exact hpacked.decompress behind

/-- Of two members at the front of the same bytes, neither is longer. -/
theorem IsMember.unique {content other packed member behind more : Bytes}
    (h : IsMember content packed) (hmember : IsMember other member)
    (heq : packed ++ behind = member ++ more) : packed = member ∧ behind = more := by
  obtain ⟨header, stream, hstream, rfl⟩ := h
  obtain ⟨header', stream', hstream', rfl⟩ := hmember
  have hskipped := congrArg skipHeader heq
  simp only [List.append_assoc, skipHeader_write, Except.ok.injEq] at hskipped
  have hinflated := congrArg Deflate.inflate hskipped
  simp only [hstream.inflate, hstream'.inflate, Except.ok.injEq, Prod.mk.injEq] at hinflated
  have hbehind := (List.append_inj hinflated.2 (by simp only [length_trailer])).2
  subst hbehind
  exact ⟨List.append_cancel_right heq, rfl⟩

/-- A member that was cut short has no content. -/
theorem IsMember.decompress_front {content packed front more : Bytes} (h : IsMember content packed)
    (hcut : packed = front ++ more) (hmore : more ≠ []) (found : Bytes) :
    Gzip.decompress front ≠ .ok found := by
  intro hfound
  obtain ⟨member, behind, hmember, rfl⟩ := decompress_eq_ok_iff.mp hfound
  have hsame : packed ++ [] = member ++ (behind ++ more) := by
    rw [List.append_nil, hcut, List.append_assoc]
  have hrest : behind ++ more = [] := (h.unique hmember hsame).2.symm
  exact hmore (List.append_eq_nil_iff.mp hrest).2

end Quorum.Gzip
