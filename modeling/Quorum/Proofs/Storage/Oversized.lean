import Quorum.Proofs.Binary.Exchanged
import Quorum.Proofs.Storage.Files

/-! # Records that are too long

The length in front of a record has four bytes, so of a longer record only a part is read.
No entry is decoded from that part, and the log file is not loaded. A log that is loaded
from a file of frames is therefore the one that was written, however long its entries were.
-/

namespace Quorum

namespace Record

/-- Of a record that is too long only a part is read. -/
theorem read_oversized {record : Bytes} (h : ¬ Fits record) (rest : Bytes) :
    ∃ part records, part <+: record ∧ part ≠ record ∧
      (read (frame record ++ rest)).1 = part :: records := by
  let count := record.length % UInt32.size
  have hcount : count < record.length :=
    Nat.lt_of_lt_of_le (Nat.mod_lt _ (by decide)) (Nat.not_lt.mp h)
  have hlength : (record.take count).length = count :=
    List.length_take_of_le (Nat.le_of_lt hcount)
  have hheader := Bytes.splitAt?_append (Bytes.littleEndian 4 record.length) (record ++ rest)
  rw [Bytes.length_littleEndian] at hheader
  have hbody := Bytes.splitAt?_append (record.take count) (record.drop count ++ rest)
  rw [hlength, ← List.append_assoc, List.take_append_drop] at hbody
  have hunframe : unframe? (frame record ++ rest) =
      some (record.take count, record.drop count ++ rest) := by
    rw [unframe?, frame, List.append_assoc, hheader]
    simp only [Option.bind_eq_bind, Option.bind_some, Bytes.toNat_littleEndian]
    exact hbody
  refine ⟨record.take count, _, List.take_prefix _ _, fun heq => ?_,
    congrArg Prod.fst (read_of_unframe?_some hunframe)⟩
  rw [heq] at hlength
  omega

end Record

/-- Whether a payload together with a place in front of it is shorter than a length. -/
def Payload.Within (bound : Nat) (payload : Payload) : Prop :=
  (Payload.format.write payload).length + 27 < bound

instance (bound : Nat) : DecidablePred (Payload.Within bound) :=
  fun payload => inferInstanceAs (Decidable ((Payload.format.write payload).length + 27 < bound))

theorem Payload.Within.entry {bound : Nat} {payload : Payload} (h : payload.Within bound)
    (id : LogId) : (Entry.format.write ⟨id, payload⟩).length < bound := by
  have hid := id.length_write_le
  have hlength : (Entry.format.write ⟨id, payload⟩).length =
      (LogId.format.write id).length + (Payload.format.write payload).length := List.length_append
  simp only [Within] at h
  omega

/-- Whether an entry with the payload fits in memory. -/
abbrev Payload.Fits (payload : Payload) : Prop :=
  payload.Within UInt64.size

/-- Whether a record with the payload is not too long. -/
abbrev Payload.IsShort (payload : Payload) : Prop :=
  payload.Within UInt32.size

theorem Payload.fits_blank : Payload.blank.Fits := by
  decide

namespace Store

variable {slot : Slot} {log : Log}

/-- The records of frames are decoded only if none is too long. -/
theorem fits_of_decoded {entries : List Entry} {decoded : List Entry}
    (hfits : ∀ entry ∈ entries, (Entry.format.write entry).Fits)
    (hdecoded : (Record.read (Record.frames (entries.map Entry.format.write))).1.mapM
      (decodeStored Entry.format) = .ok decoded) :
    ∀ entry ∈ entries, Record.Fits (Entry.format.write entry) := by
  induction entries generalizing decoded with
  | nil => simp
  | cons entry rest ih =>
      rw [List.map_cons, Record.frames_cons] at hdecoded
      have hentry := hfits entry List.mem_cons_self
      by_cases hrecord : Record.Fits (Entry.format.write entry)
      · rw [Record.read_frame_append hrecord, List.mapM_cons] at hdecoded
        obtain ⟨_, -, hrest⟩ := bind_eq_ok.mp hdecoded
        obtain ⟨_, hrest, -⟩ := bind_eq_ok.mp hrest
        exact List.forall_mem_cons.mpr
          ⟨hrecord, ih (fun other hother => hfits other (List.mem_cons_of_mem _ hother)) hrest⟩
      · obtain ⟨part, records, hpart, hproper, hread⟩ :=
          Record.read_oversized hrecord (Record.frames (rest.map Entry.format.write))
        obtain ⟨_, hrefused⟩ := decodeStored_part Entry.lossless_format Entry.incremental_format
          hentry hpart hproper
        rw [hread, List.mapM_cons, hrefused] at hdecoded
        cases hdecoded

/-- A log file is the frames of the log's records, of whatever length. -/
structure WritesLog (slot : Slot) (log : Log) : Prop where
  usable : slot.Usable
  content : slot.content = Record.frames log.records
  fits : ∀ entry ∈ log.entries, (Entry.format.write entry).Fits

namespace WritesLog

/-- Where no record is too long the log is loaded again. -/
theorem holdsLog (h : WritesLog slot log)
    (hfits : ∀ entry ∈ log.entries, Record.Fits (Entry.format.write entry)) : HoldsLog slot log :=
  ⟨h.usable, log.entries, h.content, hfits, log.ofEntries_entries⟩

/-- A file that is loaded has no record that is too long. -/
theorem holdsLog_of_loaded (h : WritesLog slot log) {loaded : Log × Bool}
    (hload : loadLog slot = .ok loaded) : HoldsLog slot log := by
  refine h.holdsLog fun entry hentry => ?_
  have hcontent : slot.content = Record.frames (log.entries.map Entry.format.write) := h.content
  rw [loadLog, Slot.readRecords, Slot.read_of_usable h.usable] at hload
  by_cases hfile : slot.file = .absent
  · -- Without a file there are no frames, and so no entries.
    rw [Slot.content, hfile] at hcontent
    rw [List.map_eq_nil_iff.mp (Record.frames_eq_nil.mp hcontent.symm)] at hentry
    cases hentry
  · simp only [if_neg hfile, hcontent] at hload
    split at hload
    next => cases hload
    next decoded hdecoded => exact fits_of_decoded h.fits hdecoded entry hentry

theorem holding (hfits : ∀ entry ∈ log.entries, (Entry.format.write entry).Fits) :
    WritesLog (.holding (Record.frames log.records)) log :=
  ⟨Slot.usable_holding _, rfl, hfits⟩

/-- An entry that is added behind all others. -/
theorem append (h : WritesLog slot log) {entry : Entry}
    (hbehind : ∀ other ∈ log.entries, other.id.index < entry.id.index)
    (hfits : (Entry.format.write entry).Fits) :
    WritesLog { slot with file := .file (slot.content ++ Record.frames [Entry.format.write entry]) }
      (log.insert entry) where
  usable := Slot.usable_append h.usable _
  content := by
    rw [h.content, ← Record.frames_append, Log.records, Log.records,
      Log.entries_insert_of_behind hbehind, List.map_append]
    rfl
  fits := by
    rw [Log.entries_insert_of_behind hbehind]
    exact List.forall_mem_append.mpr ⟨h.fits, by simpa using hfits⟩

end WritesLog
end Store
end Quorum
