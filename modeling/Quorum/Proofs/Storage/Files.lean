import Quorum.Except
import Quorum.Proofs.Binary.Stored
import Quorum.Proofs.Storage.Framing
import Quorum.Proofs.Storage.LogContents

/-! # What the files of a store hold

Each file of a store is tied to the part of memory that it stands for: the log file to a
log, the file of the hard state to a hard state and the snapshot file to a snapshot that
can be restored. Opening a store loads these parts again.
-/

namespace Quorum

/-! ## Slots -/

namespace Slot

variable {slot : Slot}

/-- A slot with nothing but a file of the given content. -/
def holding (content : Bytes) : Slot :=
  ⟨none, .file content, .absent⟩

/-- The bytes of the file, of which there are none without a file. -/
def content (slot : Slot) : Bytes :=
  match slot.file with
  | .file content => content
  | _ => []

theorem usable_holding (content : Bytes) : (holding content).Usable := by
  simp [Usable, holding]

/-- A replacement that failed leaves what is read. -/
theorem read_of_failed {slot after : Slot} {content : Bytes} {cause : IoCause}
    (h : slot.replace content = (after, .error cause)) : after.read = slot.read := by
  obtain ⟨barrier, file, temporary⟩ := slot
  cases barrier with
  | some barrier =>
      cases h
      rfl
  | none =>
      cases temporary <;> cases file <;> cases h <;> rfl

/-- A file is replaced just if it is usable, and if it is not what is read stays. -/
theorem replace_cases (slot : Slot) (content : Bytes) :
    (slot.Usable ∧ slot.replace content = (.holding content, .ok ())) ∨
    (¬ slot.Usable ∧ ∃ after cause, slot.replace content = (after, .error cause) ∧
      after.read = slot.read) := by
  by_cases husable : slot.Usable
  · exact .inl ⟨husable, replace_of_usable husable content⟩
  · refine .inr ⟨husable, ?_⟩
    rcases hreplace : slot.replace content with ⟨after, cause | _⟩
    · exact ⟨after, cause, rfl, read_of_failed hreplace⟩
    · refine absurd ?_ husable
      obtain ⟨barrier, file, temporary⟩ := slot
      cases barrier <;> cases temporary <;> cases file <;>
        simp [replace, prepare, commit, Usable] at hreplace ⊢

theorem append_of_usable (h : slot.Usable) (more : Bytes) :
    slot.append more = ({ slot with file := .file (slot.content ++ more) }, .ok ()) := by
  obtain ⟨barrier, file, temporary⟩ := slot
  obtain ⟨rfl, hfile, _⟩ := h
  cases file with
  | absent => rfl
  | file before => rfl
  | directory => exact absurd rfl hfile

theorem addRecords_of_ne_nil {records : List Bytes} (h : records ≠ []) :
    slot.addRecords records = slot.append (Record.frames records) := by
  rw [addRecords]
  split
  next hframes => exact absurd (Record.frames_eq_nil.mp hframes) h
  next => rfl

theorem usable_append (h : slot.Usable) (more : Bytes) :
    Usable { slot with file := .file (slot.content ++ more) } :=
  ⟨h.1, by simp, h.2.2⟩

/-- What is read of a usable slot is what its file holds. -/
theorem read_of_usable (h : slot.Usable) :
    slot.read = .ok (if slot.file = .absent then none else some slot.content) := by
  obtain ⟨barrier, file, temporary⟩ := slot
  obtain ⟨rfl, hfile, _⟩ := h
  cases file with
  | absent => rfl
  | file before => rfl
  | directory => exact absurd rfl hfile

end Slot

namespace Store

variable {σ : Type} {machine : StateMachine σ} {slot : Slot}

/-! ## The log file -/

/-- A log file is a run of frames with the records of entries that make the log. -/
structure HoldsLog (slot : Slot) (log : Log) : Prop where
  usable : slot.Usable
  written : ∃ entries : List Entry, slot.content = Record.frames (entries.map Entry.format.write) ∧
    (∀ entry ∈ entries, Record.Fits (Entry.format.write entry)) ∧ Log.ofEntries entries = log

theorem decode_entry {entry : Entry} (h : Record.Fits (Entry.format.write entry)) :
    decodeStored Entry.format (Entry.format.write entry) = .ok entry :=
  decodeStored_write Entry.lossless_format (Nat.lt_trans h (by decide))

theorem decode_entries {entries : List Entry}
    (h : ∀ entry ∈ entries, Record.Fits (Entry.format.write entry)) :
    (entries.map Entry.format.write).mapM (decodeStored Entry.format) = .ok entries := by
  induction entries with
  | nil => rfl
  | cons entry rest ih =>
      have hentry := decode_entry (h entry List.mem_cons_self)
      have hrest := ih fun other hother => h other (List.mem_cons_of_mem _ hother)
      rw [List.map_cons, List.mapM_cons, hentry, hrest]
      rfl

/-- The records that are read make the log, and whatever else there is was torn off. -/
theorem loadLog_of_read (h : slot.Usable) {entries : List Entry} {tail : Bytes}
    (hread : Record.read slot.content = (entries.map Entry.format.write, tail))
    (hfits : ∀ entry ∈ entries, Record.Fits (Entry.format.write entry)) :
    loadLog slot = .ok (.ofEntries entries, !tail.isEmpty) := by
  rw [loadLog, Slot.readRecords, Slot.read_of_usable h]
  by_cases hfile : slot.file = .absent
  · have hcontent : slot.content = [] := by rw [Slot.content, hfile]
    rw [hcontent, Record.read_nil] at hread
    obtain ⟨hentries, rfl⟩ := Prod.mk.inj hread
    rw [if_pos hfile, List.map_eq_nil_iff.mp hentries.symm]
    rfl
  · simp only [if_neg hfile, hread, decode_entries hfits]

theorem HoldsLog.loadLog {log : Log} (h : HoldsLog slot log) : loadLog slot = .ok (log, false) := by
  obtain ⟨entries, hcontent, hfits, rfl⟩ := h.written
  have hrecords : ∀ record ∈ entries.map Entry.format.write, Record.Fits record := by
    simpa using hfits
  have hread := Record.read_frames hrecords
  rw [← hcontent] at hread
  exact loadLog_of_read h.usable hread hfits

theorem HoldsLog.fits {log : Log} (h : HoldsLog slot log) :
    ∀ entry ∈ log.entries, Record.Fits (Entry.format.write entry) := by
  obtain ⟨entries, _, hfits, rfl⟩ := h.written
  intro entry hentry
  rcases Log.mem_insertAll hentry with hnew | hempty
  · exact hfits entry hnew
  · cases hempty

/-- A log that was written whole. -/
theorem holdsLog_holding {log : Log}
    (h : ∀ entry ∈ log.entries, Record.Fits (Entry.format.write entry)) :
    HoldsLog (.holding (Record.frames log.records)) log where
  usable := Slot.usable_holding _
  written := ⟨log.entries, rfl, h, log.ofEntries_entries⟩

/-- A log to which entries were added at the end of the file. -/
theorem HoldsLog.append {log : Log} (h : HoldsLog slot log) {entries : List Entry}
    (hfits : ∀ entry ∈ entries, Record.Fits (Entry.format.write entry)) :
    HoldsLog
      { slot with file := .file (slot.content ++ Record.frames (entries.map Entry.format.write)) }
      (log.insertAll entries) where
  usable := Slot.usable_append h.usable _
  written := by
    obtain ⟨before, hcontent, hbefore, rfl⟩ := h.written
    refine ⟨before ++ entries, ?_, ?_, Log.ofEntries_append before entries⟩
    · rw [Slot.content, hcontent, List.map_append, Record.frames_append]
    · intro entry hentry
      exact (List.mem_append.mp hentry).elim (hbefore entry) (hfits entry)

/-- If the bytes of new entries are cut off anywhere, some of the first of them are loaded
and none of the others. -/
theorem HoldsLog.loadLog_cut {log : Log} (h : HoldsLog slot log) {entries : List Entry}
    (hfits : ∀ entry ∈ entries, Record.Fits (Entry.format.write entry)) (count : Nat) :
    ∃ whole torn, Store.loadLog { slot with file := .file (slot.content ++
        (Record.frames (entries.map Entry.format.write)).take count) } =
      .ok (log.insertAll (entries.take whole), torn) := by
  obtain ⟨before, hcontent, hbefore, rfl⟩ := h.written
  have hrecords : ∀ record ∈ entries.map Entry.format.write, Record.Fits record := by
    simpa using hfits
  obtain ⟨whole, tail, hcut⟩ := Record.read_take_frames hrecords count
  refine ⟨whole, !tail.isEmpty, ?_⟩
  rw [← Log.ofEntries_append]
  refine loadLog_of_read (Slot.usable_append h.usable _) ?_ ?_
  · rw [Slot.content, hcontent, Record.read_frames_append (by simpa using hbefore), hcut,
      List.map_append, List.map_take]
  · intro entry hentry
    exact (List.mem_append.mp hentry).elim (hbefore entry)
      fun hnew => hfits entry (List.mem_of_mem_take hnew)

/-! ## The file of the hard state -/

/-- A file of a hard state from which it is loaded. -/
structure HoldsHardState (slot : Slot) (hardState : HardState) : Prop where
  usable : slot.Usable
  loaded : loadHardState slot = .ok hardState

/-- A hard state takes few bytes, whatever it is. -/
theorem fits_write_hardState (hardState : HardState) : (HardState.format.write hardState).Fits := by
  have hvote : ((Binary.Format.option Vote.format).write hardState.vote).length ≤ 20 := by
    cases hardState.vote with
    | none => simp [Binary.Format.option]
    | some vote =>
        have hlength := Vote.length_write_le vote
        simp only [Binary.Format.option, List.length_cons]
        omega
  have hcommitted := LogId.length_writeOption_le hardState.committed
  have hpurged := LogId.length_writeOption_le hardState.lastPurged
  simp only [Bytes.Fits, HardState.format, Binary.Format.convert, Binary.Format.pair,
    List.length_append, UInt64.size]
  omega

theorem holdsHardState_holding (hardState : HardState) :
    HoldsHardState (.holding (HardState.format.write hardState)) hardState where
  usable := Slot.usable_holding _
  loaded := decodeStored_write HardState.lossless_format (fits_write_hardState hardState)

/-! ## The snapshot file -/

/-- A snapshot whose data can be decoded and holds the given state. -/
def Restores (machine : StateMachine σ) (snapshot : Snapshot) (state : σ) : Prop :=
  ∃ content, decodeStored SnapshotContent.format snapshot.data = .ok content ∧
    machine.restore content.state = .ok state

/-- The data of a snapshot holds one state at most. -/
theorem Restores.unique {snapshot : Snapshot} {state otherState : σ}
    (h : Restores machine snapshot state) (hother : Restores machine snapshot otherState) :
    state = otherState := by
  obtain ⟨content, hcontent, hrestore⟩ := h
  obtain ⟨otherContent, hotherContent, hotherRestore⟩ := hother
  rw [hcontent] at hotherContent
  obtain rfl := Except.ok.inj hotherContent
  rw [hrestore] at hotherRestore
  exact Except.ok.inj hotherRestore

/-- A file of a snapshot that can be restored, and no file where there is no snapshot. -/
structure HoldsSnapshot (machine : StateMachine σ) (slot : Slot) (current : Option Snapshot) :
    Prop where
  usable : slot.Usable
  absent : current = none → slot.file = .absent
  written : ∀ snapshot ∈ current, slot.file = .file (Snapshot.format.write snapshot) ∧
    (Snapshot.format.write snapshot).Fits ∧ ∃ state, Restores machine snapshot state

/-- The snapshot that is loaded, with the state it holds, or nothing. -/
theorem HoldsSnapshot.loadSnapshot {current : Option Snapshot}
    (h : HoldsSnapshot machine slot current) :
    ∃ recovered, loadSnapshot machine (some slot) = .ok recovered ∧
      recovered.map Prod.fst = current ∧
      ∀ snapshot state, recovered = some (snapshot, state) → Restores machine snapshot state := by
  cases hcurrent : current with
  | none =>
      refine ⟨none, ?_, rfl, by simp⟩
      simp [Store.loadSnapshot, Slot.read_of_usable h.usable, h.absent hcurrent]
  | some snapshot =>
      obtain ⟨hfile, hfits, state, content, hcontent, hrestore⟩ := h.written snapshot hcurrent
      refine ⟨some (snapshot, state), ?_, rfl, ?_⟩
      · have hslot := decodeStored_write Snapshot.lossless_format hfits
        simp [Store.loadSnapshot, Slot.read_of_usable h.usable, Slot.content, hfile, hslot,
          hcontent, hrestore, bind, Except.bind, pure, Except.pure]
      · rintro _ _ ⟨⟩
        exact ⟨content, hcontent, hrestore⟩

theorem holdsSnapshot_holding {snapshot : Snapshot}
    (hfits : (Snapshot.format.write snapshot).Fits) {state : σ}
    (h : Restores machine snapshot state) :
    HoldsSnapshot machine (.holding (Snapshot.format.write snapshot)) (some snapshot) where
  usable := Slot.usable_holding _
  absent := by simp
  written := by
    rintro _ ⟨⟩
    exact ⟨rfl, hfits, state, h⟩

end Store
end Quorum
