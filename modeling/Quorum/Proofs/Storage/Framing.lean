import Quorum.Storage.Log

/-! # Reading frames

From the frames of some records exactly these records are read. From bytes that end inside
a frame, the records of all frames before it are read and none is made of the torn one. A
length in front of a record has four bytes, so all this is about shorter records.
-/

namespace Quorum.Record

/-- A record whose length fits in front of it. -/
def Fits (record : Bytes) : Prop :=
  record.length < UInt32.size

instance : DecidablePred Fits :=
  fun record => inferInstanceAs (Decidable (record.length < UInt32.size))

theorem length_frame (record : Bytes) : (frame record).length = 4 + record.length := by
  rw [frame, List.length_append, Bytes.length_littleEndian]

theorem frames_cons (record : Bytes) (records : List Bytes) :
    frames (record :: records) = frame record ++ frames records :=
  List.flatMap_cons

theorem frames_eq_nil {records : List Bytes} : frames records = [] ↔ records = [] := by
  cases records with
  | nil => simp [frames]
  | cons record records =>
      have hlength := length_frame record
      rw [frames_cons, ← List.length_eq_zero_iff, List.length_append]
      simp only [reduceCtorEq, iff_false]
      omega

theorem frames_append (records more : List Bytes) :
    frames (records ++ more) = frames records ++ frames more :=
  List.flatMap_append

/-! ## One frame -/

theorem toNat_length {record : Bytes} (h : Fits record) :
    Bytes.toNat (Bytes.littleEndian 4 record.length) = record.length := by
  rw [Bytes.toNat_littleEndian]
  exact Nat.mod_eq_of_lt h

theorem unframe?_frame {record : Bytes} (h : Fits record) (rest : Bytes) :
    unframe? (frame record ++ rest) = some (record, rest) := by
  have hheader := Bytes.splitAt?_append (Bytes.littleEndian 4 record.length) (record ++ rest)
  rw [Bytes.length_littleEndian] at hheader
  rw [unframe?, frame, List.append_assoc, hheader]
  simp [toNat_length h, Bytes.splitAt?_append]

/-- A frame that was cut off is no whole frame: either its length is cut off, or it tells
of more bytes than there are. -/
theorem unframe?_take_frame {record : Bytes} (h : Fits record) {count : Nat}
    (hcount : count < (frame record).length) : unframe? ((frame record).take count) = none := by
  rw [length_frame] at hcount
  by_cases hheader : count < 4
  · have hsplit : Bytes.splitAt? 4 ((frame record).take count) = none := by
      rw [Bytes.splitAt?, if_neg]
      rw [List.length_take]
      omega
    simp [unframe?, hsplit]
  · obtain ⟨body, rfl⟩ := Nat.exists_eq_add_of_le (Nat.not_lt.mp hheader)
    have htake : (frame record).take (4 + body) =
        Bytes.littleEndian 4 record.length ++ record.take body := by
      have hlength := Bytes.length_littleEndian 4 record.length
      rw [frame, List.take_append, hlength, List.take_of_length_le (by omega),
        Nat.add_sub_cancel_left]
    have hsplit := Bytes.splitAt?_append (Bytes.littleEndian 4 record.length) (record.take body)
    rw [Bytes.length_littleEndian] at hsplit
    have hbody : Bytes.splitAt? record.length (record.take body) = none := by
      rw [Bytes.splitAt?, if_neg]
      rw [List.length_take]
      omega
    simp [unframe?, htake, hsplit, toNat_length h, hbody]

/-! ## All frames -/

theorem read_of_unframe?_none {bytes : Bytes} (h : unframe? bytes = none) :
    read bytes = ([], bytes) := by
  rw [read]
  split
  next => rfl
  next heq => rw [h] at heq; contradiction

theorem read_of_unframe?_some {bytes record rest : Bytes}
    (h : unframe? bytes = some (record, rest)) :
    read bytes = (record :: (read rest).1, (read rest).2) := by
  rw [read]
  split
  next heq => rw [h] at heq; contradiction
  next heq =>
    rw [h] at heq
    obtain ⟨rfl, rfl⟩ := Prod.mk.inj (Option.some.inj heq)
    rfl

theorem read_nil : read [] = ([], []) :=
  read_of_unframe?_none rfl

theorem read_frame_append {record : Bytes} (h : Fits record) (rest : Bytes) :
    read (frame record ++ rest) = (record :: (read rest).1, (read rest).2) :=
  read_of_unframe?_some (unframe?_frame h rest)

/-- Frames are read one after the other, and then what comes behind them. -/
theorem read_frames_append {records : List Bytes} (h : ∀ record ∈ records, Fits record)
    (rest : Bytes) :
    read (frames records ++ rest) = (records ++ (read rest).1, (read rest).2) := by
  induction records with
  | nil => rfl
  | cons record records ih =>
      have hrecord := h record List.mem_cons_self
      have htail := ih fun other hother => h other (List.mem_cons_of_mem _ hother)
      rw [frames_cons, List.append_assoc, read_frame_append hrecord, htail]
      rfl

theorem read_frames {records : List Bytes} (h : ∀ record ∈ records, Fits record) :
    read (frames records) = (records, []) := by
  have hread := read_frames_append h []
  rw [List.append_nil, read_nil, List.append_nil] at hread
  exact hread

/-- Of frames that were cut off anywhere, the records of the whole ones are read. -/
theorem read_take_frames {records : List Bytes} (h : ∀ record ∈ records, Fits record)
    (count : Nat) :
    ∃ whole tail, read ((frames records).take count) = (records.take whole, tail) := by
  induction records generalizing count with
  | nil => exact ⟨0, [], by simp [frames, read_nil]⟩
  | cons record records ih =>
      have hrecord := h record List.mem_cons_self
      have hrecords : ∀ other ∈ records, Fits other :=
        fun other hother => h other (List.mem_cons_of_mem _ hother)
      rw [frames_cons, List.take_append]
      by_cases hcount : count < (frame record).length
      · -- The cut is in the first frame.
        refine ⟨0, (frame record).take count, ?_⟩
        rw [Nat.sub_eq_zero_of_le (Nat.le_of_lt hcount), List.take_zero, List.append_nil,
          read_of_unframe?_none (unframe?_take_frame hrecord hcount), List.take_zero]
      · obtain ⟨whole, tail, hread⟩ := ih hrecords (count - (frame record).length)
        refine ⟨whole + 1, tail, ?_⟩
        rw [List.take_of_length_le (Nat.not_lt.mp hcount), read_frame_append hrecord, hread]
        rfl

end Quorum.Record
