import Quorum.Proofs.Storage.Durable

/-! # Interrupted operations

An interruption stops the writing of a file at any byte. A file that is replaced keeps its
content until the new one takes its place in one step; of bytes that are added at the end
any first part may be there. Whatever is left, the files can be opened, and nothing but
the interrupted change is in doubt.
-/

namespace Quorum

/-! ## Slots -/

namespace Slot

variable {slot after : Slot} {content : Bytes}

/-- What a replacement leaves that is interrupted before its last step: the slot as it was,
or with any first part of the content in the temporary file. -/
inductive Unfinished (slot : Slot) (content : Bytes) : Slot → Prop where
  | untouched : Unfinished slot content slot
  | writing {after : Slot} (count : Nat) (h : slot.prepare (content.take count) = .ok after) :
      Unfinished slot content after

/-- What an interrupted replacement leaves. -/
inductive Interrupted (slot : Slot) (content : Bytes) : Slot → Prop where
  | unfinished {after : Slot} (h : slot.Unfinished content after) : Interrupted slot content after
  | replaced {after : Slot} (h : slot.replace content = (after, .ok ())) :
      Interrupted slot content after

/-- What is left when bytes are added to a file and any number of them is written. -/
inductive CutOff (slot : Slot) (content : Bytes) : Slot → Prop where
  | untouched : CutOff slot content slot
  | adding {after : Slot} (count : Nat) (h : slot.append (content.take count) = (after, .ok ())) :
      CutOff slot content after

theorem prepare_of_usable (h : slot.Usable) (content : Bytes) :
    slot.prepare content = .ok { slot with temporary := .file content } := by
  obtain ⟨barrier, file, temporary⟩ := slot
  obtain ⟨rfl, _, htemporary⟩ := h
  cases temporary with
  | absent => rfl
  | file before => rfl
  | directory => exact absurd rfl htemporary

theorem Unfinished.of_failed {cause : IoCause}
    (h : slot.replace content = (after, .error cause)) : slot.Unfinished content after := by
  unfold replace at h
  split at h
  next =>
    obtain ⟨rfl, _⟩ := Prod.mk.inj h
    exact .untouched
  next prepared hprepared =>
    split at h
    next =>
      obtain ⟨rfl, _⟩ := Prod.mk.inj h
      exact .writing content.length (by rwa [List.take_length])
    next => simp at h

theorem Unfinished.same_file (h : slot.Unfinished content after) (husable : slot.Usable) :
    after.Usable ∧ after.file = slot.file := by
  cases h with
  | untouched => exact ⟨husable, rfl⟩
  | writing count hafter =>
      rw [prepare_of_usable husable] at hafter
      obtain rfl := Except.ok.inj hafter
      exact ⟨⟨husable.1, husable.2.1, by simp⟩, rfl⟩

/-- An interrupted replacement leaves the old content or the new one. -/
theorem Interrupted.old_or_new (h : slot.Interrupted content after) (husable : slot.Usable) :
    after.Usable ∧ (after.file = slot.file ∨ after.file = .file content) := by
  cases h with
  | unfinished hafter =>
      obtain ⟨hafterUsable, hfile⟩ := hafter.same_file husable
      exact ⟨hafterUsable, .inl hfile⟩
  | replaced hafter =>
      rw [replace_of_usable husable] at hafter
      obtain rfl := (Prod.mk.inj hafter).1
      exact ⟨usable_holding content, .inr rfl⟩

/-- Whatever a replacement reports, it leaves what an interruption may leave. -/
theorem Interrupted.of_replace (slot : Slot) (content : Bytes) :
    slot.Interrupted content (slot.replace content).1 := by
  cases hdone : slot.replace content with
  | mk after result =>
      cases result with
      | ok => exact .replaced hdone
      | error cause => exact .unfinished (.of_failed hdone)

theorem CutOff.of_append (slot : Slot) (content : Bytes) :
    slot.CutOff content (slot.append content).1 := by
  cases hdone : slot.append content with
  | mk after result =>
      cases result with
      | ok => exact .adding content.length (by rwa [List.take_length])
      | error cause =>
          obtain ⟨barrier, file, temporary⟩ := slot
          cases barrier with
          | some barrier =>
              obtain ⟨rfl, _⟩ := Prod.mk.inj hdone
              exact .untouched
          | none =>
              cases file with
              | directory =>
                  obtain ⟨rfl, _⟩ := Prod.mk.inj hdone
                  exact .untouched
              | absent => simp [append] at hdone
              | file before => simp [append] at hdone

theorem CutOff.of_addRecords (slot : Slot) (records : List Bytes) :
    slot.CutOff (Record.frames records) (slot.addRecords records).1 := by
  by_cases hnone : records = []
  · subst hnone
    exact .untouched
  · rw [addRecords_of_ne_nil hnone]
    exact .of_append slot _

theorem CutOff.first_part (h : slot.CutOff content after) (husable : slot.Usable) :
    after = slot ∨ ∃ count,
      after = { slot with file := .file (slot.content ++ content.take count) } := by
  cases h with
  | untouched => exact .inl rfl
  | adding count hafter =>
      rw [append_of_usable husable] at hafter
      exact .inr ⟨count, (Prod.mk.inj hafter).1.symm⟩

/-- What is read does not depend on the temporary file. -/
theorem read_congr {other : Slot} (h : slot.Usable) (hother : other.Usable)
    (hfile : other.file = slot.file) : other.read = slot.read := by
  rw [read_of_usable h, read_of_usable hother, content, content, hfile]

end Slot

/-! ## Stores -/

namespace Store

variable {σ : Type} {slot after : Slot} {log : Log} {hardState changed : HardState}

/-- The files that are left when an operation on a store is interrupted. -/
inductive Interrupted (store : Store σ) : Operation → Volume → Prop where
  | saveVote {vote : Vote} {slot : Slot}
      (h : store.volume.hardState.Interrupted
        (HardState.format.write { store.hardState with vote := some vote }) slot) :
      Interrupted store (.saveVote vote) { store.volume with hardState := slot }
  | saveCommitted {committed : Option LogId} {slot : Slot}
      (h : store.volume.hardState.Interrupted
        (HardState.format.write { store.hardState with committed }) slot) :
      Interrupted store (.saveCommitted committed) { store.volume with hardState := slot }
  | append {entries : List Entry} {slot : Slot}
      (h : store.volume.log.CutOff (Record.frames (entries.map Entry.format.write)) slot) :
      Interrupted store (.append entries) { store.volume with log := slot }
  | deleteSince {id : LogId} {slot : Slot}
      (h : store.volume.log.Interrupted
        (Record.frames (store.log.below id.index).records) slot) :
      Interrupted store (.deleteSince id) { store.volume with log := slot }

/-- Whatever an operation reports, the files it leaves are left by an interruption too. -/
theorem Interrupted.of_perform (machine : StateMachine σ) (store : Store σ)
    (operation : Operation) :
    match operation with
    | .saveVote _ | .saveCommitted _ | .append _ | .deleteSince _ =>
        store.Interrupted operation (operation.perform machine store).1.volume
    | .purge _ | .apply _ | .build | .install _ => True := by
  cases operation with
  | saveVote vote => exact .saveVote (.of_replace _ _)
  | saveCommitted committed => exact .saveCommitted (.of_replace _ _)
  | append entries =>
      have hslot := Slot.CutOff.of_addRecords store.volume.log (entries.map Entry.format.write)
      dsimp only [Operation.perform, Store.append]
      split
      next heq =>
        rw [heq] at hslot
        exact .append hslot
      next heq =>
        rw [heq] at hslot
        exact .append hslot
  | deleteSince id => exact .deleteSince (.of_replace _ _)
  | purge | apply | build | install => trivial

/-- A store that was opened before and one that is opened after an interruption differ in
the part that the operation changes, and in nothing else. -/
def Outcome (before reopened : Store σ) : Operation → Prop
  | .saveVote vote => ∃ hardState,
      (hardState = before.hardState ∨
        hardState = { before.hardState with vote := some vote }) ∧
      reopened = { before with volume := reopened.volume, hardState }
  | .saveCommitted committed => ∃ hardState,
      (hardState = before.hardState ∨ hardState = { before.hardState with committed }) ∧
      reopened = { before with volume := reopened.volume, hardState }
  | .append entries => ∃ whole,
      reopened = { before with
        volume := reopened.volume
        log := before.log.insertAll (entries.take whole) }
  | .deleteSince id => ∃ log,
      (log = before.log ∨ log = before.log.below id.index) ∧
      reopened = { before with volume := reopened.volume, log }
  | .purge _ | .apply _ | .build | .install _ => True

theorem HoldsLog.of_file (h : HoldsLog slot log) (husable : after.Usable)
    (hfile : after.file = slot.file) : HoldsLog after log where
  usable := husable
  written := by
    obtain ⟨entries, hcontent, hentries⟩ := h.written
    refine ⟨entries, ?_, hentries⟩
    rw [← hcontent, Slot.content, Slot.content, hfile]

theorem HoldsHardState.of_file (h : HoldsHardState slot hardState) (husable : after.Usable)
    (hfile : after.file = slot.file) : HoldsHardState after hardState where
  usable := husable
  loaded := by
    rw [loadHardState, Slot.read_congr h.usable husable hfile]
    exact h.loaded

/-- The old hard state or the new one is loaded. -/
theorem HoldsHardState.interrupted (h : HoldsHardState slot hardState)
    (hslot : slot.Interrupted (HardState.format.write changed) after) :
    ∃ found, (found = hardState ∨ found = changed) ∧ HoldsHardState after found := by
  obtain ⟨husable, hold | hnew⟩ := hslot.old_or_new h.usable
  · exact ⟨hardState, .inl rfl, h.of_file husable hold⟩
  · exact ⟨changed, .inr rfl, (holdsHardState_holding changed).of_file husable hnew⟩

theorem HoldsLog.interrupted (h : HoldsLog slot log) (test : Entry → Bool)
    (hslot : slot.Interrupted (Record.frames (log.filter test).records) after) :
    ∃ found, (found = log ∨ found = log.filter test) ∧ HoldsLog after found := by
  obtain ⟨husable, hold | hnew⟩ := hslot.old_or_new h.usable
  · exact ⟨log, .inl rfl, h.of_file husable hold⟩
  · have hfits : ∀ entry ∈ (log.filter test).entries, Record.Fits (Entry.format.write entry) :=
      fun entry hentry => h.fits entry (Log.mem_of_mem_filter hentry)
    exact ⟨log.filter test, .inr rfl, (holdsLog_holding hfits).of_file husable hnew⟩

/-- Whatever is left of added records, some of the first of them are loaded. -/
theorem HoldsLog.cutOff (h : HoldsLog slot log) {entries : List Entry}
    (hfits : ∀ entry ∈ entries, Record.Fits (Entry.format.write entry))
    (hslot : slot.CutOff (Record.frames (entries.map Entry.format.write)) after) :
    after.Usable ∧ ∃ whole torn,
      Store.loadLog after = .ok (log.insertAll (entries.take whole), torn) := by
  rcases hslot.first_part h.usable with rfl | ⟨count, rfl⟩
  · exact ⟨h.usable, 0, false, h.loadLog⟩
  · exact ⟨Slot.usable_append h.usable _, h.loadLog_cut hfits count⟩

end Store

/-! ## Opening what is left -/

variable {σ : Type} {setup : Setup σ} {store : Store σ} {volume : Volume}

/-- Files whose parts can be loaded are opened, a torn log is mended by that, and opening
them once more makes the same store. -/
theorem Setup.open_settles {log : Log} {torn : Bool} {hardState : HardState}
    {recovered : Option (Snapshot × σ)}
    (hhard : Store.loadHardState volume.hardState = .ok hardState)
    (husable : volume.log.Usable) (hlog : Store.loadLog volume.log = .ok (log, torn))
    (hfits : ∀ entry ∈ log.entries, Record.Fits (Entry.format.write entry))
    (hsnapshot : Store.loadSnapshot setup.machine volume.snapshot = .ok recovered) :
    ∃ mended, setup.open volume = (mended, .ok (setup.store mended log hardState recovered)) ∧
      setup.open mended = (mended, .ok (setup.store mended log hardState recovered)) := by
  cases torn with
  | false =>
      have hopen := Setup.open_eq hhard hlog rfl hsnapshot
      exact ⟨volume, hopen, hopen⟩
  | true =>
      have hmend : Store.mendLog volume log true =
          ({ volume with log := .holding (Record.frames log.records) }, .ok ()) := by
        simp only [Store.mendLog, Slot.replace_of_usable husable]
        rfl
      refine ⟨_, Setup.open_eq hhard hlog hmend hsnapshot, ?_⟩
      exact Setup.open_eq hhard (Store.holdsLog_holding hfits).loadLog rfl hsnapshot

/-- The files that an interrupted operation leaves hold a hard state and a log again. -/
theorem Store.Interrupted.loads (h : store.Durable setup.machine) {operation : Operation}
    (hsized : operation.Sized setup.machine store) (hleft : store.Interrupted operation volume) :
    volume.log.Usable ∧ volume.snapshot = store.volume.snapshot ∧ ∃ log torn hardState,
      loadHardState volume.hardState = .ok hardState ∧
      loadLog volume.log = .ok (log, torn) ∧
      (∀ entry ∈ log.entries, Record.Fits (Entry.format.write entry)) ∧
      ∀ mended recovered,
        (setup.store store.volume store.log store.hardState recovered).Outcome
          (setup.store mended log hardState recovered) operation := by
  cases hleft with
  | saveVote hslot =>
      obtain ⟨found, hfound, hholds⟩ := h.hardState.interrupted hslot
      refine ⟨h.log.usable, rfl, _, false, _, hholds.loaded, h.log.loadLog, h.log.fits, ?_⟩
      intro mended recovered
      refine ⟨found, ?_, by cases recovered <;> rfl⟩
      rwa [Setup.store_hardState]
  | saveCommitted hslot =>
      obtain ⟨found, hfound, hholds⟩ := h.hardState.interrupted hslot
      refine ⟨h.log.usable, rfl, _, false, _, hholds.loaded, h.log.loadLog, h.log.fits, ?_⟩
      intro mended recovered
      refine ⟨found, ?_, by cases recovered <;> rfl⟩
      rwa [Setup.store_hardState]
  | @append entries slot hslot =>
      obtain ⟨husable, whole, torn, hload⟩ := h.log.cutOff hsized hslot
      refine ⟨husable, rfl, _, torn, _, h.hardState.loaded, hload, ?_, ?_⟩
      · intro entry hentry
        rcases Log.mem_insertAll hentry with hnew | hold
        · exact hsized entry (List.mem_of_mem_take hnew)
        · exact h.log.fits entry hold
      · intro mended recovered
        exact ⟨whole, by cases recovered <;> rfl⟩
  | deleteSince hslot =>
      obtain ⟨found, hfound, hholds⟩ := h.log.interrupted _ hslot
      refine ⟨hholds.usable, rfl, _, false, _, h.hardState.loaded, hholds.loadLog, hholds.fits, ?_⟩
      intro mended recovered
      refine ⟨found, ?_, by cases recovered <;> rfl⟩
      rwa [Setup.store_log]

/-- After any interruption of an operation that writes one file, the store can be opened.
It has all that it would have had without the operation, but for what the operation
changes: of appended entries some of the first are there, and what is deleted or saved is
as it was or as it should be. Opening the store once more changes nothing. -/
theorem interruption_recovers (hmachine : setup.machine.Recoverable) {events : List Event}
    (hrun : Run setup (fun store operation => operation.Sized setup.machine store) events store)
    {operation : Operation} (hsized : operation.Sized setup.machine store)
    (hleft : store.Interrupted operation volume) :
    ∃ before reopened, setup.open store.volume = (store.volume, .ok before) ∧
      before.log = store.log ∧ before.hardState = store.hardState ∧
      (setup.useSnapshot → before.current = store.current) ∧
      setup.open volume = (reopened.volume, .ok reopened) ∧
      before.Outcome reopened operation ∧
      setup.open reopened.volume = (reopened.volume, .ok reopened) := by
  have hdurable := hrun.durable hmachine fun _ _ hallowed => hallowed
  have hisSome := hrun.snapshot_isSome hmachine fun _ _ hallowed => hallowed
  obtain ⟨recovered, hrecovered, hcurrent, _⟩ := hdurable.loadSnapshot
  obtain ⟨husable, hsnapshot, log, torn, hardState, hhard, hlog, hfits, houtcome⟩ :=
    hleft.loads hdurable hsized
  rw [← hsnapshot] at hrecovered
  obtain ⟨mended, hopen, hagain⟩ := Setup.open_settles hhard husable hlog hfits hrecovered
  rw [hsnapshot] at hrecovered
  refine ⟨_, setup.store mended log hardState recovered,
    Setup.open_durable hdurable hrecovered, Setup.store_log, Setup.store_hardState, ?_, ?_,
    houtcome mended recovered, ?_⟩
  · intro huse
    rw [Setup.store_current]
    exact hcurrent (hisSome.trans huse)
  · rw [Setup.store_volume]
    exact hopen
  · rw [Setup.store_volume]
    exact hagain

theorem append_cut_in_length_recovers :
    ∃ store volume,
      Run (Memory.setup ⟨"db-s"⟩ "raft_log.bin")
        (fun store operation => operation.Sized Memory.machine store)
        [.performed (.append [⟨⟨1, 1, 0⟩, .blank⟩])] store ∧
      store.Interrupted (.append [⟨⟨1, 1, 1⟩, .blank⟩, ⟨⟨1, 1, 2⟩, .blank⟩]) volume ∧
      volume.log.content.length = 18 ∧
      ∃ before reopened : Store Memory, before.log = store.log ∧
        (Memory.setup ⟨"db-s"⟩ "raft_log.bin").open volume = (reopened.volume, .ok reopened) ∧
        before.Outcome reopened (.append [⟨⟨1, 1, 1⟩, .blank⟩, ⟨⟨1, 1, 2⟩, .blank⟩]) := by
  have hsized : ∀ store : Store Memory, Operation.Sized Memory.machine store
      (.append [⟨⟨1, 1, 1⟩, .blank⟩, ⟨⟨1, 1, 2⟩, .blank⟩]) := fun _ =>
    show ∀ entry ∈ _, Record.Fits _ by decide
  have hfirst : Operation.Sized Memory.machine (Memory.setup ⟨"db-s"⟩ "raft_log.bin").first
      (.append [⟨⟨1, 1, 0⟩, .blank⟩]) :=
    show ∀ entry ∈ _, Record.Fits _ by decide
  let store := ((Memory.setup ⟨"db-s"⟩ "raft_log.bin").first.append [⟨⟨1, 1, 0⟩, .blank⟩]).1
  have hrun := Run.perform (.start (Setup.open_empty _)) hfirst (show _ = (store, _) from rfl)
  -- The first new record and two bytes of the length of the second are written.
  have hleft : store.Interrupted (.append [⟨⟨1, 1, 1⟩, .blank⟩, ⟨⟨1, 1, 2⟩, .blank⟩]) _ :=
    .append (.adding 10 rfl)
  obtain ⟨before, reopened, _, hlog, _, _, hopen, houtcome, _⟩ :=
    interruption_recovers Memory.recoverable hrun (hsized store) hleft
  exact ⟨store, _, hrun, hleft, rfl, before, reopened, hlog, hopen, houtcome⟩

end Quorum
