import Quorum.Command.Basic
import Quorum.Proofs.Command.Member

/-! # Commands are read back from their entries

An entry is the code of a command's action and a gzip member with its data. The reader
takes any such entry, whatever packed the data, and it looks no further than the member.
-/

namespace Quorum.Command

/-- An entry of a command, however its data was packed, holds the command. -/
theorem ofEntry_member (command : Command) {packed : Bytes}
    (h : Gzip.IsMember command.data packed) (behind : Bytes) :
    ofEntry (command.action.code :: (packed ++ behind)) = .ok command := by
  have haction : Action.ofCode command.action.code.toNat = .ok command.action := by
    rw [Action.ofCode, Action.ofCode?_code]
  have hdata : unpack (packed ++ behind) = .ok command.data := by
    rw [unpack, h.decompress behind]
  simp only [ofEntry, haction, hdata, bind, Except.bind, pure, Except.pure]

/-- The entry of a command holds the command, whatever follows it. -/
theorem ofEntry_toEntry_append (command : Command) (behind : Bytes) :
    ofEntry (command.toEntry ++ behind) = .ok command :=
  ofEntry_member command (Gzip.isMember_compress command.data) behind

theorem ofEntry_toEntry (command : Command) : ofEntry command.toEntry = .ok command := by
  simpa using ofEntry_toEntry_append command []

/-- The entry of a command is the code of its action and a member that ends with the check
of the data and its length. The command is found in every entry of that form, and the data in
every member with it, no matter which stream of the data the member holds and what comes
behind it. -/
theorem entries_hold_their_commands (command : Command) :
    (∃ (header : Gzip.Header) (stream check length : Bytes),
      command.toEntry = command.action.code :: (header.write ++ stream ++ (check ++ length)) ∧
        Deflate.IsStream command.data stream ∧ check.length = 4 ∧ length.length = 4 ∧
        Bytes.toNat check = (Crc32.checksum command.data).toNat ∧
        Bytes.toNat length = command.data.length % 2 ^ 32) ∧
      (∀ behind, ofEntry (command.toEntry ++ behind) = .ok command) ∧
      (∀ behind, Gzip.decompress (Gzip.compress command.data ++ behind) = .ok command.data) ∧
      ∀ packed, Gzip.IsMember command.data packed → ∀ behind,
        ofEntry (command.action.code :: (packed ++ behind)) = .ok command ∧
          Gzip.decompress (packed ++ behind) = .ok command.data := by
  refine ⟨?_, ofEntry_toEntry_append command, Gzip.decompress_compress command.data,
    fun packed hpacked behind => ⟨ofEntry_member command hpacked behind,
      hpacked.decompress behind⟩⟩
  obtain ⟨header, stream, hstream, hbytes⟩ := Gzip.isMember_compress command.data
  refine ⟨header, stream, _, _, congrArg (command.action.code :: ·) hbytes, hstream,
    Bytes.length_littleEndian .., Bytes.length_littleEndian .., ?_, Bytes.toNat_littleEndian ..⟩
  rw [Bytes.toNat_littleEndian]
  exact Nat.mod_eq_of_lt (Crc32.checksum command.data).toNat_lt

/-- A member with a name, a comment and a check of its header, which this writer never makes. -/
theorem entry_with_named_member :
    let packed : Bytes := [0x1F, 0x8B, 8, 26, 0, 0, 0, 0, 0, 3, 97, 0, 98, 99, 0, 179, 86,
      1, 2, 0, 0xFD, 0xFF, 7, 8, 10, 12, 67, 0, 2, 0, 0, 0]
    Gzip.IsMember [7, 8] packed ∧
      ofEntry (4 :: (packed ++ [0, 9])) = .ok ⟨.put, [7, 8]⟩ := by
  intro packed
  have hmember : Gzip.IsMember [7, 8] packed :=
    ⟨⟨false, true, [0, 0, 0, 0, 0, 3], none, some ⟨[97], by simp, by simp [Gzip.maximalField]⟩,
      some ⟨[98, 99], by simp, by simp [Gzip.maximalField]⟩, rfl, by simp⟩, Deflate.storeAll [7, 8],
      Deflate.isStream_storeAll [7, 8], by
        rw [Deflate.storeAll, if_pos (by decide)]
        decide +kernel⟩
  exact ⟨hmember, ((entries_hold_their_commands ⟨.put, [7, 8]⟩).2.2.2 packed hmember [0, 9]).1⟩

end Quorum.Command
