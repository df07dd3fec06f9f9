import Quorum.Proofs.Command.Entry
import Quorum.Proofs.Command.Unpacked

/-! # Damaged entries

Only an entry of a command is taken for that command: its code, and a member of its data at
the front of what follows. So an entry that was cut short anywhere is refused, and one that
was damaged in another way is refused unless the damage made it an entry again, down to the
check and the length of the data.
-/

namespace Quorum

theorem Action.code_of_ofCode {code : UInt8} {action : Action}
    (h : ofCode code.toNat = .ok action) : code = action.code := by
  unfold ofCode at h
  split at h
  next hfound =>
    cases h
    exact UInt8.toNat.inj (ofCode?_eq_some hfound)
  next => contradiction

theorem Action.serialization_of_ofCode {code : Nat} {failure : Failure}
    (h : ofCode code = .error failure) : ∃ text, failure = .serialization text := by
  unfold ofCode at h
  split at h
  next => contradiction
  next =>
    cases h
    exact ⟨_, rfl⟩

namespace Command

theorem unpack_eq_ok_iff {bytes data : Bytes} :
    unpack bytes = .ok data ↔ Gzip.decompress bytes = .ok data := by
  unfold unpack
  cases Gzip.decompress bytes <;> simp

theorem serialization_of_unpack {bytes : Bytes} {failure : Failure}
    (h : unpack bytes = .error failure) : ∃ text, failure = .serialization text := by
  unfold unpack at h
  split at h
  next => contradiction
  next =>
    cases h
    exact ⟨_, rfl⟩

/-- An entry holds a command if it is an entry of this command, however the data was packed, and
in no other case. -/
theorem ofEntry_eq_ok_iff {entry : Bytes} {command : Command} :
    ofEntry entry = .ok command ↔ ∃ packed behind, Gzip.IsMember command.data packed ∧
      entry = command.action.code :: (packed ++ behind) := by
  constructor
  · intro h
    cases entry with
    | nil => cases h
    | cons code bytes =>
        obtain ⟨action, haction, h⟩ := bind_eq_ok.mp h
        obtain ⟨data, hdata, h⟩ := bind_eq_ok.mp h
        cases h
        obtain ⟨packed, behind, hpacked, rfl⟩ :=
          Gzip.decompress_eq_ok_iff.mp (unpack_eq_ok_iff.mp hdata)
        exact ⟨packed, behind, hpacked, by rw [Action.code_of_ofCode haction]⟩
  · rintro ⟨packed, behind, hpacked, rfl⟩
    exact ofEntry_member command hpacked behind

/-- Whatever is wrong with an entry, it is a matter of its form. -/
theorem ofEntry_error {entry : Bytes} {failure : Failure} (h : ofEntry entry = .error failure) :
    ∃ text, failure = .serialization text := by
  cases entry with
  | nil =>
      cases h
      exact ⟨_, rfl⟩
  | cons code bytes =>
      cases haction : Action.ofCode code.toNat with
      | error fault =>
          simp only [ofEntry, haction, bind, Except.bind, Except.error.injEq] at h
          exact h ▸ Action.serialization_of_ofCode haction
      | ok action =>
          cases hdata : unpack bytes with
          | error fault =>
              simp only [ofEntry, haction, hdata, bind, Except.bind, Except.error.injEq] at h
              exact h ▸ serialization_of_unpack hdata
          | ok data => simp [ofEntry, haction, hdata, bind, Except.bind, pure, Except.pure] at h

/-- An entry that ends before its member does is refused. -/
theorem ofEntry_cut {command : Command} {packed front : Bytes}
    (hpacked : Gzip.IsMember command.data packed) (hfront : front <+: command.action.code :: packed)
    (hcut : front ≠ command.action.code :: packed) :
    ∃ text, ofEntry front = .error (.serialization text) := by
  cases hread : ofEntry front with
  | error failure =>
      obtain ⟨text, rfl⟩ := ofEntry_error hread
      exact ⟨text, rfl⟩
  | ok found =>
      obtain ⟨member, behind, hmember, rfl⟩ := ofEntry_eq_ok_iff.mp hread
      obtain ⟨hcode, more, hmore⟩ := List.cons_prefix_cons.mp hfront
      have hrest : more ≠ [] := fun hnil =>
        hcut (by rw [hcode, ← hmore, hnil, List.append_nil])
      exact absurd (hmember.decompress behind) (hpacked.decompress_front hmore.symm hrest _)

/-- An entry of a command is its action's code and a member of its data. However the data was
packed, an entry that was cut short is refused for its form. And whatever bytes are taken for the
command, they are its action's code, the header of a member, a stream of its data and eight bytes
with the check of the data and its length; the bytes behind are ignored. -/
theorem damaged_entries_are_refused (command : Command) :
    (∃ packed, Gzip.IsMember command.data packed ∧
      command.toEntry = command.action.code :: packed) ∧
      (∀ packed front, Gzip.IsMember command.data packed →
        front <+: command.action.code :: packed → front ≠ command.action.code :: packed →
        ∃ text, ofEntry front = .error (.serialization text)) ∧
      ∀ entry, ofEntry entry = .ok command ↔
        ∃ (header : Gzip.Header) (stream check length behind : Bytes),
          entry = command.action.code ::
            (header.write ++ stream ++ (check ++ length) ++ behind) ∧
          Deflate.IsStream command.data stream ∧ check.length = 4 ∧ length.length = 4 ∧
          Bytes.toNat check = (Crc32.checksum command.data).toNat ∧
          Bytes.toNat length = command.data.length % 2 ^ 32 := by
  refine ⟨⟨_, Gzip.isMember_compress command.data, rfl⟩, fun _ _ => ofEntry_cut, fun entry => ?_⟩
  rw [ofEntry_eq_ok_iff]
  constructor
  · rintro ⟨_, behind, ⟨header, stream, hstream, rfl⟩, rfl⟩
    obtain ⟨hcheck, hlength⟩ := Gzip.trailer_values command.data
    exact ⟨header, stream, _, _, behind, rfl, hstream, Bytes.length_littleEndian ..,
      Bytes.length_littleEndian .., hcheck, hlength⟩
  · rintro ⟨header, stream, check, length, behind, rfl, hstream, hcheckWidth, hlengthWidth, hcheck,
      hlength⟩
    have htrailer := Gzip.eq_trailer hcheckWidth hlengthWidth hcheck hlength
    exact ⟨_, behind, ⟨header, stream, hstream, rfl⟩, by rw [← htrailer]⟩

/-- An entry that ends after two bytes of its stream, and one that has a name in its header and a
byte behind its member. -/
theorem damaged_entry_of_thirteen_bytes :
    let command : Command := ⟨.put, [7, 8]⟩
    (∃ text, ofEntry (command.toEntry.take 13) = .error (.serialization text)) ∧
      ofEntry [4, 0x1F, 0x8B, 8, 8, 0, 0, 0, 0, 0, 3, 97, 0, 1, 2, 0, 0xFD, 0xFF, 7, 8,
        10, 12, 67, 0, 2, 0, 0, 0, 9] = .ok command := by
  intro command
  obtain ⟨⟨packed, hpacked, hentry⟩, hrefused, htaken⟩ := damaged_entries_are_refused command
  have hlong : 19 ≤ command.toEntry.length := by
    simp [toEntry, Gzip.compress, Gzip.header, Gzip.length_trailer]
  have hcut : command.toEntry.take 13 ≠ command.toEntry := by
    intro heq
    have hlength := congrArg List.length heq
    rw [List.length_take] at hlength
    omega
  rw [hentry] at hcut
  refine ⟨?_, (htaken _).mpr ⟨⟨false, false, [0, 0, 0, 0, 0, 3], none,
      some ⟨[97], by simp, by simp [Gzip.maximalField]⟩, none, rfl, by simp⟩,
      Deflate.storeAll [7, 8], [10, 12, 67, 0], [2, 0, 0, 0], [9], ?_,
      Deflate.isStream_storeAll [7, 8], rfl, rfl, by decide +kernel, rfl⟩⟩
  · rw [hentry]
    exact hrefused packed _ hpacked (List.take_prefix 13 _) hcut
  · rw [Deflate.storeAll, if_pos (by decide)]
    decide +kernel

end Command
end Quorum
