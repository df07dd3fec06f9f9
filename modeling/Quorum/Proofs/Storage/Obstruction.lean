import Quorum.Proofs.Storage.Durable
import Quorum.Proofs.Storage.Outcome

/-! # Files with something in their way

A file cannot be replaced while something stands in the place of its temporary file, or
while its directory cannot be entered, but what it holds can still be read. Of such files
it is said here what each write does, and that the store is found again in them as long as
no write failed that changed what the store answers.
-/

namespace Quorum

variable {σ : Type} {machine : StateMachine σ} {store next : Store σ}

/-! ## Slots -/

namespace Slot

/-- Bytes are added to what was read, or nothing is done. -/
theorem append_cases (slot : Slot) (more : Bytes) :
    (∃ found after, slot.append more = (after, .ok ()) ∧ slot.read = .ok found ∧
      after.read = .ok (some (found.getD [] ++ more))) ∨
    ∃ cause, slot.append more = (slot, .error cause) := by
  obtain ⟨barrier, file, temporary⟩ := slot
  cases barrier with
  | some cause => exact .inr ⟨cause, rfl⟩
  | none =>
      cases file with
      | absent => exact .inl ⟨none, _, rfl, rfl, rfl⟩
      | file before => exact .inl ⟨some before, _, rfl, rfl, rfl⟩
      | directory => exact .inr ⟨_, rfl⟩

end Slot

/-- Files in which the same is read. -/
structure Volume.Alike (volume other : Volume) : Prop where
  log : volume.log.read = other.log.read
  hardState : volume.hardState.read = other.hardState.read
  snapshot : volume.snapshot.map Slot.read = other.snapshot.map Slot.read

namespace Store

/-! ## What is read -/

/-- A file in which records of entries are read that make the log. -/
def ReadsLog (slot : Slot) (log : Log) : Prop :=
  ∃ found entries, slot.read = .ok found ∧
    found.getD [] = Record.frames (entries.map Entry.format.write) ∧
    (∀ entry ∈ entries, Record.Fits (Entry.format.write entry)) ∧ Log.ofEntries entries = log

namespace ReadsLog

variable {slot : Slot} {log : Log}

theorem loadLog (h : ReadsLog slot log) : loadLog slot = .ok (log, false) := by
  obtain ⟨found, entries, hread, hcontent, hfits, rfl⟩ := h
  have hrecords : ∀ record ∈ entries.map Entry.format.write, Record.Fits record := by
    simpa using hfits
  rw [Store.loadLog, Slot.readRecords, hread]
  cases found with
  | none =>
      rw [Option.getD_none, eq_comm, Record.frames_eq_nil, List.map_eq_nil_iff] at hcontent
      rw [hcontent]
      rfl
  | some bytes =>
      rw [Option.getD_some] at hcontent
      simp only [hcontent, Record.read_frames hrecords, decode_entries hfits, List.isEmpty_nil,
        Bool.not_true]

theorem fits (h : ReadsLog slot log) :
    ∀ entry ∈ log.entries, Record.Fits (Entry.format.write entry) := by
  obtain ⟨_, entries, _, _, hfits, rfl⟩ := h
  intro entry hentry
  rcases Log.mem_insertAll hentry with hnew | hempty
  · exact hfits entry hnew
  · cases hempty

/-- A log that was written whole. -/
theorem holding (h : ∀ entry ∈ log.entries, Record.Fits (Entry.format.write entry)) :
    ReadsLog (.holding (Record.frames log.records)) log :=
  ⟨_, log.entries, rfl, rfl, h, log.ofEntries_entries⟩

/-- A log to which entries were added at the end of what is read. -/
theorem append (h : ReadsLog slot log) {found : Option Bytes} (hread : slot.read = .ok found)
    {entries : List Entry} (hfits : ∀ entry ∈ entries, Record.Fits (Entry.format.write entry))
    {after : Slot} (hafter : after.read =
      .ok (some (found.getD [] ++ Record.frames (entries.map Entry.format.write)))) :
    ReadsLog after (log.insertAll entries) := by
  obtain ⟨_, before, hbefore, hcontent, hall, rfl⟩ := h
  obtain rfl := Except.ok.inj (hread.symm.trans hbefore)
  refine ⟨_, before ++ entries, hafter, ?_, ?_, Log.ofEntries_append before entries⟩
  · rw [Option.getD_some, hcontent, List.map_append, Record.frames_append]
  · intro entry hentry
    exact (List.mem_append.mp hentry).elim (hall entry) (hfits entry)

end ReadsLog

/-- The store is found again in its files, whatever stands in their way. -/
structure Backed (machine : StateMachine σ) (store : Store σ) : Prop where
  log : ReadsLog store.volume.log store.log
  hardState : loadHardState store.volume.hardState = .ok store.hardState
  snapshot : ∃ recovered, loadSnapshot machine store.volume.snapshot = .ok recovered

theorem loadHardState_congr {slot other : Slot} (h : slot.read = other.read) :
    loadHardState slot = loadHardState other := by
  rw [loadHardState, loadHardState, h]

theorem loadSnapshot_congr {slot other : Option Slot}
    (h : slot.map Slot.read = other.map Slot.read) :
    loadSnapshot machine slot = loadSnapshot machine other := by
  rw [loadSnapshot, loadSnapshot, h]

/-- A snapshot that was written is read back and restored. -/
theorem exists_loadSnapshot {slot other : Option Slot} {snapshot : Snapshot} {state : σ}
    (hfits : (Snapshot.format.write snapshot).Fits) (hstate : Restores machine snapshot state)
    (hread : slot.map Slot.read = other.map fun _ => .ok (some (Snapshot.format.write snapshot))) :
    ∃ recovered, loadSnapshot machine slot = .ok recovered := by
  rw [loadSnapshot, hread]
  cases other with
  | none => exact ⟨none, rfl⟩
  | some _ =>
      obtain ⟨content, hcontent, hrestore⟩ := hstate
      simp [decodeStored_write Snapshot.lossless_format hfits, hcontent, hrestore, bind,
        Except.bind, pure, Except.pure]

/-! ## Writes -/

theorem persistHardState_cases (store : Store σ) (hardState : HardState) :
    { store with hardState }.persistHardState = (store.withHardState hardState, .ok ()) ∨
    ∃ volume cause,
      { store with hardState }.persistHardState =
        ({ store with hardState, volume }, .error cause) ∧ volume.Alike store.volume := by
  rcases store.volume.hardState.replace_cases (HardState.format.write hardState) with
    ⟨-, hreplace⟩ | ⟨-, slot, cause, hreplace, hread⟩
  · left
    simp only [persistHardState, hreplace]
    rfl
  · refine .inr ⟨{ store.volume with hardState := slot }, cause, ?_, rfl, hread, rfl⟩
    simp only [persistHardState, hreplace]

theorem rewriteLog_cases (store : Store σ) (log : Log) :
    (store.volume.log.Usable ∧ { store with log }.rewriteLog = (store.withLog log, .ok ())) ∨
    (¬ store.volume.log.Usable ∧ ∃ volume cause,
      { store with log }.rewriteLog = ({ store with log, volume }, .error cause) ∧
      volume.Alike store.volume) := by
  rcases store.volume.log.replace_cases (Record.frames log.records) with
    ⟨husable, hreplace⟩ | ⟨husable, slot, cause, hreplace, hread⟩
  · refine .inl ⟨husable, ?_⟩
    simp only [rewriteLog, hreplace]
    rfl
  · refine .inr ⟨husable, { store.volume with log := slot }, cause, ?_, hread, rfl, rfl⟩
    simp only [rewriteLog, hreplace]

/-- Entries are added to the file and to memory, or nothing is done. -/
theorem append_cases (store : Store σ) (entries : List Entry) :
    (entries = [] ∧ store.append entries = (store, .ok ())) ∨
    (∃ found slot, store.append entries =
      ({ store with
          log := store.log.insertAll entries
          volume := { store.volume with log := slot } }, .ok ()) ∧
      store.volume.log.read = .ok found ∧ slot.read =
        .ok (some (found.getD [] ++ Record.frames (entries.map Entry.format.write)))) ∨
    ∃ error, store.append entries = (store, .error (.failed error)) := by
  by_cases hentries : entries = []
  · exact .inl ⟨hentries, by rw [hentries]; rfl⟩
  · rw [append, Slot.addRecords_of_ne_nil (mt List.map_eq_nil_iff.mp hentries)]
    rcases store.volume.log.append_cases (Record.frames (entries.map Entry.format.write)) with
      ⟨found, slot, hdone, hread, hslot⟩ | ⟨cause, hfail⟩
    · exact .inr (.inl ⟨found, slot, by rw [hdone], hread, hslot⟩)
    · exact .inr (.inr ⟨_, by rw [hfail]⟩)

/-- The store as a purge leaves it that failed, with whatever files. -/
def cut (store : Store σ) (id : LogId) (volume : Volume) : Store σ :=
  { store with log := store.log.since (id.index + 1), volume }

/-- The store as a purge leaves it that failed at the mark in the hard state. -/
def marked (store : Store σ) (id : LogId) (volume : Volume) : Store σ :=
  { store.cut id volume with hardState := { store.hardState with lastPurged := some id } }

/-- A purge that has a next index fails at the log file, or at the file of the hard state, or is
done. -/
theorem dropThrough_cases (store : Store σ) (id : LogId) :
    store.dropThrough id = (store.purged id, .ok ()) ∨
    (¬ store.volume.log.Usable ∧ ∃ volume cause,
      store.dropThrough id = (store.cut id volume, .error cause) ∧ volume.Alike store.volume) ∨
    (store.volume.log.Usable ∧ ∃ volume cause,
      store.dropThrough id = (store.marked id volume, .error cause) ∧
      volume.Alike (store.withLog (store.log.since (id.index + 1))).volume) := by
  rcases store.rewriteLog_cases (store.log.since (id.index + 1)) with
    ⟨husable, hlog⟩ | ⟨husable, volume, cause, hlog, hread⟩
  · rcases (store.withLog (store.log.since (id.index + 1))).persistHardState_cases
      { store.hardState with lastPurged := some id } with hhard | ⟨volume, cause, hhard, hread⟩
    · left
      simp only [dropThrough, hlog]
      exact hhard
    · refine .inr (.inr ⟨husable, volume, cause, ?_, hread⟩)
      simp only [dropThrough, hlog]
      exact hhard
  · refine .inr (.inl ⟨husable, volume, cause, ?_, hread⟩)
    simp only [dropThrough, hlog]
    rfl

end Store

/-- Whether an operation writes the hard state or the log, and nothing else. -/
def Operation.IsWrite : Operation → Prop
  | .apply _ | .build | .install _ => False
  | _ => True

/-- What a write left that was done. -/
inductive Written (store : Store σ) : Operation → Store σ → Prop where
  | vote {vote : Vote} : Written store (.saveVote vote)
      (store.withHardState { store.hardState with vote := some vote })
  | committed {committed : Option LogId} : Written store (.saveCommitted committed)
      (store.withHardState { store.hardState with committed })
  | nothing : Written store (.append []) store
  | append {entries : List Entry} {found : Option Bytes} {slot : Slot}
      (hread : store.volume.log.read = .ok found)
      (hslot : slot.read =
        .ok (some (found.getD [] ++ Record.frames (entries.map Entry.format.write)))) :
      Written store (.append entries) { store with
        log := store.log.insertAll entries
        volume := { store.volume with log := slot } }
  | delete {id : LogId} : Written store (.deleteSince id)
      (store.withLog (store.log.below id.index))
  | purge {id : LogId} : Written store (.purge id) (store.purged id)

/-- What a write left that failed: memory as far as the write came, and files in which the same
is read as before, but for a log file that was purged already. -/
inductive Unwritten (store : Store σ) : Operation → Store σ → Prop where
  | vote {vote : Vote} {volume : Volume} (hvolume : volume.Alike store.volume) :
      Unwritten store (.saveVote vote)
        { store with hardState := { store.hardState with vote := some vote }, volume }
  | committed {committed : Option LogId} {volume : Volume} (hvolume : volume.Alike store.volume) :
      Unwritten store (.saveCommitted committed)
        { store with hardState := { store.hardState with committed }, volume }
  | append {entries : List Entry} : Unwritten store (.append entries) store
  | delete {id : LogId} {volume : Volume} (hvolume : volume.Alike store.volume) :
      Unwritten store (.deleteSince id) { store with log := store.log.below id.index, volume }
  | cut {id : LogId} {volume : Volume} (hlog : ¬ store.volume.log.Usable)
      (hvolume : volume.Alike store.volume) : Unwritten store (.purge id) (store.cut id volume)
  | marked {id : LogId} {volume : Volume} (hlog : store.volume.log.Usable)
      (hvolume : volume.Alike (store.withLog (store.log.since (id.index + 1))).volume) :
      Unwritten store (.purge id) (store.marked id volume)

/-- A write is done or failed, unless it is a purge that breaks off before anything. -/
theorem Operation.write_cases (machine : StateMachine σ) (store : Store σ)
    {operation : Operation} (hwrite : operation.IsWrite) :
    (∃ next, operation.perform machine store = (next, .ok ()) ∧ Written store operation next) ∨
    (∃ next error, operation.perform machine store = (next, .error (.failed error)) ∧
      Unwritten store operation next) ∨
    operation.perform machine store = (store, .error .overflow) := by
  cases operation with
  | saveVote vote =>
      rcases store.persistHardState_cases { store.hardState with vote := some vote } with
        hdone | ⟨volume, cause, hfail, hread⟩
      · exact .inl ⟨_, by rw [perform, Store.saveVote, hdone]; rfl, .vote⟩
      · exact .inr (.inl ⟨_, _, by rw [perform, Store.saveVote, hfail]; rfl, .vote hread⟩)
  | saveCommitted committed =>
      rcases store.persistHardState_cases { store.hardState with committed } with
        hdone | ⟨volume, cause, hfail, hread⟩
      · exact .inl ⟨_, by rw [perform, Store.saveCommitted, hdone]; rfl, .committed⟩
      · exact .inr (.inl
          ⟨_, _, by rw [perform, Store.saveCommitted, hfail]; rfl, .committed hread⟩)
  | append entries =>
      rcases store.append_cases entries with
        ⟨rfl, hdone⟩ | ⟨found, slot, hdone, hread, hslot⟩ | ⟨error, hfail⟩
      · exact .inl ⟨_, hdone, .nothing⟩
      · exact .inl ⟨_, hdone, .append hread hslot⟩
      · exact .inr (.inl ⟨_, error, hfail, .append⟩)
  | deleteSince id =>
      rcases store.rewriteLog_cases (store.log.below id.index) with
        ⟨-, hdone⟩ | ⟨-, volume, cause, hfail, hread⟩
      · exact .inl ⟨_, by rw [perform, Store.deleteSince, hdone]; rfl, .delete⟩
      · exact .inr (.inl ⟨_, _, by rw [perform, Store.deleteSince, hfail]; rfl, .delete hread⟩)
  | purge id =>
      by_cases hnext : id.HasNext
      · rw [perform, Store.purge_of_hasNext hnext]
        rcases store.dropThrough_cases id with
          hdone | ⟨hlog, volume, cause, hfail, hread⟩ | ⟨hlog, volume, cause, hfail, hread⟩
        · exact .inl ⟨_, by rw [hdone]; rfl, .purge⟩
        · exact .inr (.inl ⟨_, _, by rw [hfail]; rfl, .cut hlog hread⟩)
        · exact .inr (.inl ⟨_, _, by rw [hfail]; rfl, .marked hlog hread⟩)
      · exact .inr (.inr (Store.purge_of_not_hasNext hnext))
  | apply | build | install => exact hwrite.elim

namespace Store

/-! ## Answers -/

/-- What a store answers about its vote, its marks and its log. -/
structure Answers where
  vote : Option Vote
  committed : Option LogId
  lastPurged : Option LogId
  lastLogId : Option LogId
  /-- The entries of every range. -/
  entries : UInt64 → Option (UInt64 × Bool) → List Entry

def answers (store : Store σ) : Answers where
  vote := store.hardState.vote
  committed := store.hardState.committed
  lastPurged := store.hardState.lastPurged
  lastLogId := store.lastLogId
  entries := store.log.range

attribute [ext] HardState

/-- Stores with the same answers have the same hard state and the same log. -/
theorem answers_eq_iff {other : Store σ} :
    store.answers = other.answers ↔ store.hardState = other.hardState ∧ store.log = other.log := by
  constructor
  · intro h
    simp only [answers, Answers.mk.injEq] at h
    obtain ⟨hvote, hcommitted, hpurged, -, hentries⟩ := h
    have hall (log : Log) : log.range 0 none = log.entries := by simp [Log.range]
    refine ⟨HardState.ext hvote hcommitted hpurged, Log.eq_of_entries_eq ?_⟩
    rw [← hall, ← hall, hentries]
  · rintro ⟨hhard, hlog⟩
    simp only [answers, lastLogId, hhard, hlog]

namespace Backed

theorem withHardState (h : Backed machine store) (hardState : HardState) :
    Backed machine (store.withHardState hardState) where
  log := h.log
  hardState := (holdsHardState_holding hardState).loaded
  snapshot := h.snapshot

/-- A log that is written again holds nothing that was not read before. -/
theorem withLog_filter (h : Backed machine store) (test : Entry → Bool) :
    Backed machine (store.withLog (store.log.filter test)) where
  log := .holding fun entry hentry => h.log.fits entry (Log.mem_of_mem_filter hentry)
  hardState := h.hardState
  snapshot := h.snapshot

/-- As long as the answers stay, the files may be any in which the same is read. -/
theorem of_alike (h : Backed machine store) (hvolume : next.volume.Alike store.volume)
    (hanswers : next.answers = store.answers) : Backed machine next := by
  obtain ⟨hhard, hlog⟩ := answers_eq_iff.mp hanswers
  obtain ⟨found, entries, hread, hentries⟩ := h.log
  refine ⟨⟨found, entries, hvolume.log.trans hread, ?_⟩, ?_, ?_⟩
  · rwa [hlog]
  · rw [loadHardState_congr hvolume.hardState, h.hardState, hhard]
  · rw [loadSnapshot_congr hvolume.snapshot]
    exact h.snapshot

theorem of_written (h : Backed machine store) {operation : Operation}
    (hsized : operation.Sized machine store) (hnext : Written store operation next) :
    Backed machine next := by
  cases hnext with
  | vote | committed => exact h.withHardState _
  | nothing => exact h
  | append hread hslot => exact ⟨h.log.append hread hsized hslot, h.hardState, h.snapshot⟩
  | delete => exact h.withLog_filter _
  | purge => exact (h.withLog_filter _).withHardState _

/-- A write that failed leaves the store backed if it left the answers as they were. -/
theorem of_unwritten (h : Backed machine store) {operation : Operation}
    (hnext : Unwritten store operation next) (hanswers : next.answers = store.answers) :
    Backed machine next := by
  cases hnext with
  | vote hvolume | committed hvolume | delete hvolume | cut _ hvolume =>
      exact h.of_alike hvolume hanswers
  | append => exact h
  | marked _ hvolume =>
      -- The log file was written again already, and only the mark is missing in its file.
      obtain ⟨hhard, hlog⟩ := answers_eq_iff.mp hanswers
      exact (h.withLog_filter _).of_alike hvolume (answers_eq_iff.mpr ⟨hhard, rfl⟩)

end Backed

namespace Backed

theorem write (h : Backed machine store) {operation : Operation} (hwrite : operation.IsWrite)
    (hsized : operation.Sized machine store) {result : Except (Halt StorageError) Unit}
    (hperform : operation.perform machine store = (next, result))
    (hkept : result = .ok () ∨ next.answers = store.answers) : Backed machine next := by
  rcases operation.write_cases machine store hwrite with
    ⟨after, hdone, hafter⟩ | ⟨after, error, hfail, hafter⟩ | hoverflow
  · obtain ⟨rfl, -⟩ := Prod.mk.inj (hdone.symm.trans hperform)
    exact h.of_written hsized hafter
  · obtain ⟨rfl, rfl⟩ := Prod.mk.inj (hfail.symm.trans hperform)
    exact h.of_unwritten hafter (hkept.resolve_left nofun)
  · obtain ⟨rfl, -⟩ := Prod.mk.inj (hoverflow.symm.trans hperform)
    exact h

theorem build (hmachine : machine.Recoverable) (h : Backed machine store)
    (hsized : Operation.build.Sized machine store) :
    Backed machine (store.buildSnapshot machine).1 := by
  rcases store.buildSnapshot_cases machine with
    ⟨error, hfail⟩ | ⟨state, hstate, ⟨slot, error, hfail, hread⟩ | ⟨slot, hdone, hread⟩⟩
  · rw [hfail]
    exact h
  · rw [hfail]
    exact ⟨h.log, h.hardState, (loadSnapshot_congr hread).symm ▸ h.snapshot⟩
  · have hfits := hsized _ (congrArg Prod.snd hdone)
    obtain ⟨restored, hrestore⟩ := hmachine _ _ hstate (fits_state_of_nextSnapshot hfits)
    rw [hdone]
    exact ⟨h.log, h.hardState,
      exists_loadSnapshot hfits (restores_nextSnapshot hfits hrestore) hread⟩

theorem install (h : Backed machine store) {snapshot : Snapshot}
    (hfits : (Snapshot.format.write snapshot).Fits) {result : Except (Halt StorageError) Unit}
    (hperform : store.installSnapshot machine snapshot = (next, result))
    (hkept : result = .ok () ∨ next.answers = store.answers) : Backed machine next := by
  cases installation_of_install hperform with
  | unread => exact h
  | unfiled _ _ hread => exact ⟨h.log, h.hardState, (loadSnapshot_congr hread).symm ▸ h.snapshot⟩
  | whole hstate hread =>
      exact ⟨h.log, h.hardState, exists_loadSnapshot hfits hstate hread⟩
  | @purging state slot id _ _ hstate _ hread _ hpurge =>
      have hpublished : Backed machine (store.published snapshot state slot) :=
        ⟨h.log, h.hardState, exists_loadSnapshot hfits hstate hread⟩
      have hperformed : (Operation.purge id).perform machine
          (store.published snapshot state slot) = (next, result) := hpurge
      exact hpublished.write (by trivial) (by trivial) hperformed hkept

/-- A store stays backed as long as what it does is done or leaves its answers as they were. -/
theorem perform (hmachine : machine.Recoverable) (h : Backed machine store)
    {operation : Operation} (hsized : operation.Sized machine store)
    {result : Except (Halt StorageError) Unit}
    (hperform : operation.perform machine store = (next, result))
    (hkept : result = .ok () ∨ next.answers = store.answers) : Backed machine next := by
  cases operation with
  | saveVote | saveCommitted | append | deleteSince | purge =>
      exact h.write (by trivial) hsized hperform hkept
  | apply entries =>
      obtain ⟨rfl, -⟩ := Prod.mk.inj hperform
      rw [applyAll_eq_resume]
      exact ⟨h.log, h.hardState, h.snapshot⟩
  | build =>
      obtain ⟨rfl, -⟩ := Prod.mk.inj hperform
      exact h.build hmachine hsized
  | install snapshot => exact h.install hsized hperform hkept

end Backed

/-! ## Reachable stores -/

/-- The stores that are reached from empty files while things are put in the way of the files
and taken away again, as long as no operation failed that changed the answers. -/
inductive Reached (setup : Setup σ) : Store σ → Prop where
  | start {volume : Volume} {store : Store σ}
      (hdone : setup.open (.empty setup.useSnapshot) = (volume, .ok store)) : Reached setup store
  | perform {store next : Store σ} {operation : Operation}
      {result : Except (Halt StorageError) Unit}
      (before : Reached setup store) (hsized : operation.Sized setup.machine store)
      (hperform : operation.perform setup.machine store = (next, result))
      (hkept : result = .ok () ∨ next.answers = store.answers) : Reached setup next
  | obstruct {store : Store σ} {volume : Volume} (before : Reached setup store)
      (hvolume : volume.Alike store.volume) : Reached setup { store with volume }
  | reopen {store next : Store σ} {volume : Volume} (before : Reached setup store)
      (hdone : setup.open store.volume = (volume, .ok next)) : Reached setup next

/-- A store that is found in its files is found there by opening them, which changes none. -/
theorem Backed.exists_open {setup : Setup σ} (h : Backed setup.machine store) :
    ∃ reopened, setup.open store.volume = (store.volume, .ok reopened) ∧
      Backed setup.machine reopened ∧ reopened.answers = store.answers := by
  obtain ⟨recovered, hrecovered⟩ := h.snapshot
  refine ⟨setup.store store.volume store.log store.hardState recovered,
    Setup.open_eq h.hardState h.log.loadLog rfl hrecovered, ⟨?_, ?_, recovered, ?_⟩, ?_⟩
  · rw [Setup.store_volume, Setup.store_log]
    exact h.log
  · rw [Setup.store_volume, Setup.store_hardState]
    exact h.hardState
  · rw [Setup.store_volume]
    exact hrecovered
  · exact answers_eq_iff.mpr ⟨Setup.store_hardState, Setup.store_log⟩

theorem Reached.backed {setup : Setup σ} (hmachine : setup.machine.Recoverable)
    (reached : Reached setup store) : Backed setup.machine store := by
  induction reached with
  | start hdone =>
      obtain rfl := Setup.eq_first_of_open hdone
      have hfirst := setup.durable_first
      obtain ⟨recovered, hrecovered, -⟩ := hfirst.loadSnapshot
      exact ⟨⟨none, [], rfl, rfl, by simp, rfl⟩, hfirst.hardState.loaded, recovered, hrecovered⟩
  | perform _ hsized hperform hkept ih => exact ih.perform hmachine hsized hperform hkept
  | obstruct _ hvolume ih => exact ih.of_alike hvolume rfl
  | reopen _ hdone ih =>
      obtain ⟨reopened, hopen, hbacked, -⟩ := ih.exists_open
      rw [hopen] at hdone
      obtain rfl := Except.ok.inj (Prod.mk.inj hdone).2
      exact hbacked

end Store
end Quorum
