import Quorum.Proofs.Storage.Files

/-! # Files of records

The records that are read from a file are those of its whole frames: what the file holds falls
apart into frames and a rest that begins with no whole frame, and it does so in one way only.
Hence records that were added to a file, or put in its place, are read again as they were.
-/

namespace Quorum

namespace Record

variable {bytes rest : Bytes} {record : Bytes} {records : List Bytes}

/-- Whether some bytes begin with a whole frame. -/
def BeginsWithFrame (bytes : Bytes) : Prop :=
  ∃ record, Fits record ∧ frame record <+: bytes

/-- Bytes that are the frames of some records, and behind them no other whole frame. -/
structure Splits (bytes : Bytes) (records : List Bytes) (rest : Bytes) : Prop where
  eq : bytes = frames records ++ rest
  fits : ∀ record ∈ records, Fits record
  torn : ¬ BeginsWithFrame rest

/-- A record that is taken off stood there in its frame. -/
theorem eq_of_unframe? (h : unframe? bytes = some (record, rest)) :
    Fits record ∧ bytes = frame record ++ rest := by
  simp only [unframe?, Option.bind_eq_bind, Option.bind_eq_some_iff, Prod.exists] at h
  obtain ⟨header, body, hheader, hbody⟩ := h
  obtain ⟨rfl, hwidth⟩ := Bytes.eq_append_of_splitAt? hheader
  obtain ⟨rfl, hlength⟩ := Bytes.eq_append_of_splitAt? hbody
  constructor
  · have hbound := Bytes.toNat_lt header
    rw [hwidth, ← hlength] at hbound
    exact hbound
  · -- The four bytes in front are the only ones that tell this length.
    have hwritten := Bytes.littleEndian_toNat header
    rw [hwidth, ← hlength] at hwritten
    rw [frame, hwritten, List.append_assoc]

theorem unframe?_eq_none_iff : unframe? bytes = none ↔ ¬ BeginsWithFrame bytes := by
  constructor
  · rintro h ⟨record, hfits, rest, rfl⟩
    rw [unframe?_frame hfits] at h
    contradiction
  · intro h
    cases hunframe : unframe? bytes with
    | none => rfl
    | some found =>
        obtain ⟨hfits, hbytes⟩ := eq_of_unframe? hunframe
        exact absurd ⟨found.1, hfits, found.2, hbytes.symm⟩ h

/-- Any bytes split into the records that are read and what is left. -/
theorem splits_read (bytes : Bytes) : Splits bytes (read bytes).1 (read bytes).2 := by
  induction bytes using read.induct with
  | case1 bytes hnone =>
      rw [read_of_unframe?_none hnone]
      exact ⟨rfl, List.forall_mem_nil _, unframe?_eq_none_iff.mp hnone⟩
  | case2 bytes record rest hsome records tail hread ih =>
      obtain ⟨hfits, hbytes⟩ := eq_of_unframe? hsome
      rw [read_of_unframe?_some hsome]
      refine ⟨?_, List.forall_mem_cons.mpr ⟨hfits, ih.fits⟩, ih.torn⟩
      rw [frames_cons, List.append_assoc, ← ih.eq]
      exact hbytes

/-- Bytes split in one way only, which the reader finds. -/
theorem read_eq_iff : read bytes = (records, rest) ↔ Splits bytes records rest := by
  constructor
  · intro h
    have hsplits := splits_read bytes
    rwa [h] at hsplits
  · rintro ⟨rfl, hfits, htorn⟩
    rw [read_frames_append hfits, read_of_unframe?_none (unframe?_eq_none_iff.mpr htorn),
      List.append_nil]

theorem splits_frames (h : ∀ record ∈ records, Fits record) : Splits (frames records) records [] :=
  read_eq_iff.mp (read_frames h)

end Record

open Record (Fits Splits frames)

namespace Slot

variable {slot after : Slot} {records more : List Bytes} {torn : Bool}

/-- Whatever a file holds is read, and something is torn off just if it is no record's. -/
theorem readRecords_of_read {bytes rest : Bytes} (h : slot.read = .ok (some bytes))
    (hsplits : Splits bytes records rest) : slot.readRecords = .ok (records, !rest.isEmpty) := by
  rw [readRecords, h]
  simp only [Record.read_eq_iff.mpr hsplits]

theorem readRecords_of_frames (h : slot.read = .ok (some (frames records)))
    (hfits : ∀ record ∈ records, Fits record) : slot.readRecords = .ok (records, false) :=
  readRecords_of_read h (Record.splits_frames hfits)

/-- The records that were read split off what the file holds. -/
theorem splits_of_readRecords {found : Option Bytes} (hread : slot.read = .ok found)
    (h : slot.readRecords = .ok (records, torn)) :
    ∃ rest, Splits (found.getD []) records rest ∧ torn = !rest.isEmpty := by
  rw [readRecords, hread] at h
  cases found with
  | none =>
      cases h
      exact ⟨[], Record.splits_frames (List.forall_mem_nil _), rfl⟩
  | some bytes =>
      cases h
      exact ⟨_, Record.splits_read bytes, rfl⟩

/-- Where bytes can be added at the end of a file that ends with a whole record, so can records,
and they are read behind those of before. -/
theorem readRecords_addRecords (hbarrier : slot.barrier = none) (hfile : slot.file ≠ .directory)
    (hread : slot.readRecords = .ok (records, false))
    (hfits : ∀ record ∈ records ++ more, Fits record) :
    ∃ after, slot.addRecords more = (after, .ok ()) ∧ after.barrier = none ∧
      after.file ≠ .directory ∧ after.readRecords = .ok (records ++ more, false) := by
  by_cases hnone : more = []
  · subst hnone
    exact ⟨slot, rfl, hbarrier, hfile, by rwa [List.append_nil]⟩
  · rw [addRecords_of_ne_nil hnone]
    obtain ⟨found, hfound, happend⟩ : ∃ found, slot.read = .ok found ∧ slot.append (frames more) =
        ({ slot with file := .file (found.getD [] ++ frames more) }, .ok ()) := by
      obtain ⟨barrier, file, temporary⟩ := slot
      subst hbarrier
      cases file with
      | absent => exact ⟨none, rfl, rfl⟩
      | file before => exact ⟨some before, rfl, rfl⟩
      | directory => exact absurd rfl hfile
    obtain ⟨rest, hsplits, htorn⟩ := splits_of_readRecords hfound hread
    obtain rfl : rest = [] := by simpa using htorn.symm
    have hcontent : found.getD [] = frames records := by simpa using hsplits.eq
    refine ⟨_, happend, hbarrier, by simp, readRecords_of_frames ?_ hfits⟩
    simp only [read, hbarrier, hcontent, Record.frames_append]

/-- Records that take the file's place are read again. -/
theorem readRecords_replace (h : slot.Usable) (hfits : ∀ record ∈ records, Fits record) :
    ∃ after, slot.replace (frames records) = (after, .ok ()) ∧
      after.readRecords = .ok (records, false) :=
  ⟨_, replace_of_usable h _, readRecords_of_frames rfl hfits⟩

end Slot

namespace Store

variable {σ : Type}

/-- A log is loaded by decoding the records that are read. -/
theorem loadLog_eq_ok_iff {slot : Slot} {log : Log} {torn : Bool} :
    loadLog slot = .ok (log, torn) ↔ ∃ records entries, slot.readRecords = .ok (records, torn) ∧
      records.mapM (decodeStored Entry.format) = .ok entries ∧ Log.ofEntries entries = log := by
  rw [loadLog]
  rcases slot.readRecords with cause | ⟨records, flag⟩
  · simp
  · constructor
    · intro h
      cases hdecoded : records.mapM (decodeStored Entry.format) with
      | error failure => simp [hdecoded] at h
      | ok entries =>
          simp only [hdecoded] at h
          cases h
          exact ⟨records, entries, rfl, hdecoded, rfl⟩
    · rintro ⟨records, entries, hread, hdecode, rfl⟩
      cases hread
      simp only [hdecode]

/-- Entries are added to the file by adding their records. -/
theorem log_append (store : Store σ) (entries : List Entry) :
    (store.append entries).1.volume.log =
      (store.volume.log.addRecords (entries.map Entry.format.write)).1 := by
  rw [append]
  rcases store.volume.log.addRecords (entries.map Entry.format.write) with ⟨slot, cause | _⟩
  · rfl
  · rfl

end Store

/-- What a file holds is read as the records of the whole frames at its front, which are the only
such records, and it is told whether anything is left behind them. So the records that are added
to a file that is not there yet, part by part, are read again and nothing is torn off, and the
same holds of records that take the place of the file, as those do that were just read from it.
The log of a store is read and added to in this way. -/
theorem record_files_read_exactly :
    (∀ (slot : Slot) (bytes : Bytes), slot.read = .ok (some bytes) →
      ∃ records torn rest, slot.readRecords = .ok (records, torn) ∧ Splits bytes records rest ∧
        (torn = true ↔ rest ≠ []) ∧
        ∀ others more, Splits bytes others more → others = records ∧ more = rest) ∧
    (∀ (slot : Slot) (first second : List Bytes), slot.barrier = none → slot.file = .absent →
      (∀ record ∈ first ++ second, Fits record) →
      ∃ between after, slot.addRecords first = (between, .ok ()) ∧
        between.addRecords second = (after, .ok ()) ∧
        after.readRecords = .ok (first ++ second, false)) ∧
    (∀ (slot : Slot) (records : List Bytes), slot.Usable → (∀ record ∈ records, Fits record) →
      ∃ after, slot.replace (frames records) = (after, .ok ()) ∧
        after.readRecords = .ok (records, false)) ∧
    (∀ (slot : Slot) (records : List Bytes) (torn : Bool), slot.Usable →
      slot.readRecords = .ok (records, torn) →
      ∃ after, slot.replace (frames records) = (after, .ok ()) ∧
        after.readRecords = .ok (records, false)) ∧
    (∀ (slot : Slot) (log : Log) (torn : Bool), Store.loadLog slot = .ok (log, torn) ↔
      ∃ records entries, slot.readRecords = .ok (records, torn) ∧
        records.mapM (decodeStored Entry.format) = .ok entries ∧ Log.ofEntries entries = log) ∧
    ∀ {σ : Type} (store : Store σ) (entries : List Entry), (store.append entries).1.volume.log =
      (store.volume.log.addRecords (entries.map Entry.format.write)).1 := by
  refine ⟨?_, ?_, fun _ _ => Slot.readRecords_replace, ?_, fun _ _ _ => Store.loadLog_eq_ok_iff,
    fun {σ} => Store.log_append⟩
  · intro slot bytes hread
    have hsplits := Record.splits_read bytes
    refine ⟨_, _, _, Slot.readRecords_of_read hread hsplits, hsplits, by simp, ?_⟩
    intro others more hothers
    have hsame := Record.read_eq_iff.mpr hothers
    exact ⟨(congrArg Prod.fst hsame).symm, (congrArg Prod.snd hsame).symm⟩
  · intro slot first second hbarrier hfile hfits
    have hnone : slot.readRecords = .ok ([], false) := by
      simp only [Slot.readRecords, Slot.read, hbarrier, hfile]
    have hfirst : ∀ record ∈ [] ++ first, Fits record :=
      fun record hrecord => hfits record (List.mem_append_left _ hrecord)
    obtain ⟨between, hadd, hopen, hplain, hbetween⟩ :=
      Slot.readRecords_addRecords hbarrier (by simp [hfile]) hnone hfirst
    obtain ⟨after, hmore, -, -, hafter⟩ :=
      Slot.readRecords_addRecords hopen hplain hbetween hfits
    exact ⟨between, after, hadd, hmore, hafter⟩
  · intro slot records torn husable hread
    obtain ⟨rest, hsplits, -⟩ := Slot.splits_of_readRecords (Slot.read_of_usable husable) hread
    exact Slot.readRecords_replace husable hsplits.fits

/-- A file with an empty record and a length that promises more bytes than there are is read, and
what was read, or another record, takes its place. Records are added to a file that is not there
yet in two parts, the second of them without a record. -/
theorem torn_file_reads_exactly :
    let torn := Slot.holding (frames [[1, 2], []] ++ [9, 0, 0, 0, 7])
    torn.read = .ok (some (frames [[1, 2], []] ++ [9, 0, 0, 0, 7])) ∧ torn.Usable ∧
      torn.readRecords = .ok ([[1, 2], []], true) ∧
      (∃ after, torn.replace (frames [[1, 2], []]) = (after, .ok ()) ∧
        after.readRecords = .ok ([[1, 2], []], false)) ∧
      (∃ after, torn.replace (frames [[7]]) = (after, .ok ()) ∧
        after.readRecords = .ok ([[7]], false)) ∧
      ∃ between after, ({} : Slot).addRecords [[5], []] = (between, .ok ()) ∧
        between.addRecords [] = (after, .ok ()) ∧ after.readRecords = .ok ([[5], []], false) := by
  intro torn
  obtain ⟨hparse, hadd, hreplace, hrewrite, -, -⟩ := record_files_read_exactly
  have husable : torn.Usable := Slot.usable_holding _
  obtain ⟨records, flag, rest, hread, -, htorn, hunique⟩ := hparse torn _ rfl
  have hsplits : Splits (frames [[1, 2], []] ++ [9, 0, 0, 0, 7]) [[1, 2], []] [9, 0, 0, 0, 7] :=
    ⟨rfl, by decide, Record.unframe?_eq_none_iff.mp rfl⟩
  obtain ⟨rfl, rfl⟩ := hunique _ _ hsplits
  obtain rfl : flag = true := htorn.mpr (by decide)
  exact ⟨rfl, husable, hread, hrewrite torn _ _ husable hread,
    hreplace torn [[7]] husable (by decide),
    by simpa using hadd {} [[5], []] [] rfl rfl (by decide)⟩

end Quorum
