import Quorum.Proofs.Storage.Recovery

/-! # What was purged is covered

A log is purged up to a place that the current snapshot covers. A reopening restores that
snapshot if it has a file, and goes by nothing else. While entries are applied in order, no
snapshot is replaced by one that covers less than was purged, so with a file nothing that was
purged is missing from what is restored. A snapshot without a file is gone after a reopening,
but the purge at the end of an installation stays.
-/

namespace Quorum

variable {σ : Type} {machine : StateMachine σ} {store next : Store σ}

/-! ## Careful operations -/

/-- The place up to which the current snapshot covers the log. -/
def Store.snapshotPlace (store : Store σ) : Option LogId :=
  store.current.bind (·.description.lastLogId)

/-- Only what the current snapshot covers is purged, and no snapshot is installed that covers
less than was purged. -/
def Operation.Cautious (store : Store σ) : Operation → Prop
  | .purge id => LogId.covers store.snapshotPlace id.index
  | .install snapshot => ∀ place ∈ store.hardState.lastPurged,
      LogId.covers snapshot.description.lastLogId place.index
  | _ => True

/-- No entries are applied from before the current snapshot. -/
def Operation.Onward (store : Store σ) : Operation → Prop
  | .apply entries => ∀ place ∈ store.snapshotPlace, ∀ entry ∈ entries,
      place.index ≤ entry.id.index
  | _ => True

/-- The bytes of a snapshot fit in memory. -/
def Operation.FittingSnapshot (machine : StateMachine σ) (store : Store σ) : Operation → Prop
  | .build => ∀ snapshot, (store.buildSnapshot machine).2 = .ok snapshot →
      (Snapshot.format.write snapshot).Fits
  | .install snapshot => (Snapshot.format.write snapshot).Fits
  | _ => True

theorem Operation.Sized.fittingSnapshot {operation : Operation}
    (h : operation.Sized machine store) : operation.FittingSnapshot machine store := by
  cases operation with
  | build | install => exact h
  | saveVote | saveCommitted | append | deleteSince | purge | apply => trivial

namespace Store

/-! ## The file of the current snapshot -/

/-- A file with the current snapshot, and no file where there is none. -/
structure KeepsSnapshot (slot : Slot) (current : Option Snapshot) : Prop where
  usable : slot.Usable
  absent : current = none → slot.file = .absent
  written : ∀ snapshot ∈ current, slot.file = .file (Snapshot.format.write snapshot) ∧
    (Snapshot.format.write snapshot).Fits

theorem keepsSnapshot_holding {snapshot : Snapshot} (h : (Snapshot.format.write snapshot).Fits) :
    KeepsSnapshot (.holding (Snapshot.format.write snapshot)) (some snapshot) where
  usable := Slot.usable_holding _
  absent := by simp
  written := by
    rintro _ ⟨⟩
    exact ⟨rfl, h⟩

/-- If a snapshot is loaded at all, it is the current one. -/
theorem KeepsSnapshot.eq_of_loaded {slot : Slot} {current : Option Snapshot}
    (h : KeepsSnapshot slot current) {recovered : Option (Snapshot × σ)}
    (hload : loadSnapshot machine (some slot) = .ok recovered) :
    recovered.map Prod.fst = current := by
  cases hcurrent : current with
  | none =>
      simp only [loadSnapshot, Option.map_some, Slot.read_of_usable h.usable,
        if_pos (h.absent hcurrent)] at hload
      cases hload
      rfl
  | some snapshot =>
      obtain ⟨hfile, hfits⟩ := h.written snapshot hcurrent
      have hslot := decodeStored_write Snapshot.lossless_format hfits
      have hread : slot.read = .ok (some (Snapshot.format.write snapshot)) := by
        rw [Slot.read_of_usable h.usable, if_neg (by simp [hfile]), Slot.content, hfile]
      simp only [loadSnapshot, Option.map_some, hread, hslot] at hload
      obtain ⟨found, ⟨⟩, hload⟩ := bind_eq_ok.mp hload
      obtain ⟨content, -, hload⟩ := bind_eq_ok.mp hload
      obtain ⟨state, -, ⟨⟩⟩ := bind_eq_ok.mp hload
      rfl

/-- The state that is loaded is the one that the snapshot holds. -/
theorem restores_of_loaded {slot : Option Slot} {snapshot : Snapshot} {state : σ}
    (hload : loadSnapshot machine slot = .ok (some (snapshot, state))) :
    Restores machine snapshot state := by
  unfold loadSnapshot at hload
  split at hload
  next => cases hload
  next => cases hload
  next => cases hload
  next =>
    obtain ⟨found, -, hload⟩ := bind_eq_ok.mp hload
    obtain ⟨content, hcontent, hload⟩ := bind_eq_ok.mp hload
    obtain ⟨restored, hrestore, ⟨⟩⟩ := bind_eq_ok.mp hload
    exact ⟨content, hcontent, hrestore⟩

/-! ## What every operation keeps -/

/-- The files hold how far the log was purged and the current snapshot. -/
structure KeepsPurged (store : Store σ) : Prop where
  log : store.volume.log.Usable
  hardState : HoldsHardState store.volume.hardState store.hardState
  snapshot : ∀ slot ∈ store.volume.snapshot, KeepsSnapshot slot store.current

namespace KeepsPurged

theorem usable (h : KeepsPurged store) : store.volume.Usable where
  log := h.log
  hardState := h.hardState.usable
  snapshot := fun slot hslot => (h.snapshot slot hslot).usable

theorem withHardState (h : KeepsPurged store) (hardState : HardState) :
    KeepsPurged (store.withHardState hardState) :=
  ⟨h.log, holdsHardState_holding hardState, h.snapshot⟩

theorem withLog (h : KeepsPurged store) (log : Log) : KeepsPurged (store.withLog log) :=
  ⟨Slot.usable_holding _, h.hardState, h.snapshot⟩

theorem withSnapshot (h : KeepsPurged store) {snapshot : Snapshot}
    (hfits : (Snapshot.format.write snapshot).Fits) :
    KeepsPurged (store.withSnapshot snapshot) where
  log := h.log
  hardState := h.hardState
  snapshot := by
    intro slot hslot
    obtain ⟨before, _, rfl⟩ := Option.map_eq_some_iff.mp hslot
    exact keepsSnapshot_holding hfits

theorem resume (h : KeepsPurged store) (progress : Progress σ) :
    KeepsPurged (store.resume progress) :=
  ⟨h.log, h.hardState, h.snapshot⟩

end KeepsPurged

/-- What is true of the places of a store that has a file for its snapshot: the snapshot covers
what was purged, and was itself applied. -/
structure CoversInOrder (store : Store σ) : Prop where
  purged : ∀ place ∈ store.hardState.lastPurged, LogId.covers store.snapshotPlace place.index
  ahead : ∀ place ∈ store.snapshotPlace, LogId.covers store.lastApplied place.index

/-- What was applied stays applied while no entries from before are applied again. -/
theorem covers_applyAll {entries : List Entry} {index : UInt64}
    (h : LogId.covers store.lastApplied index)
    (honward : ∀ entry ∈ entries, index ≤ entry.id.index) :
    LogId.covers (store.applyAll machine entries).1.lastApplied index := by
  induction entries generalizing store with
  | nil => exact h
  | cons entry rest ih =>
      have hentry : LogId.covers (store.applyEntry machine entry).1.lastApplied index := by
        rw [lastApplied_applyEntry, LogId.covers_some]
        exact honward entry List.mem_cons_self
      exact ih hentry fun other hother => honward other (List.mem_cons_of_mem _ hother)

/-- A snapshot of what was applied covers what was purged. -/
theorem CoversInOrder.applied (h : CoversInOrder store) :
    ∀ place ∈ store.hardState.lastPurged, LogId.covers store.lastApplied place.index := by
  intro place hplace
  have hcovers := h.purged place hplace
  cases hsnapshot : store.snapshotPlace with
  | none => simp [hsnapshot] at hcovers
  | some last =>
      rw [hsnapshot, LogId.covers_some] at hcovers
      exact LogId.covers_of_le hcovers (h.ahead last hsnapshot)

/-- Whatever is done leaves a place for the snapshot as it is, and keeps the files in step. With
care and in order it also keeps covered what was purged. -/
theorem KeepsPurged.perform (h : KeepsPurged store) {operation : Operation}
    (hfits : operation.FittingSnapshot machine store)
    (hdone : operation.perform machine store = (next, .ok ())) :
    KeepsPurged next ∧ next.volume.snapshot.isSome = store.volume.snapshot.isSome ∧
      (CoversInOrder store → operation.Cautious store → operation.Onward store →
        CoversInOrder next) := by
  have husable := h.usable
  cases operation with
  | saveVote | saveCommitted =>
      simp only [Operation.perform, saveVote_eq husable, saveCommitted_eq husable] at hdone
      cases hdone
      exact ⟨h.withHardState _, rfl, fun horder _ _ => ⟨horder.purged, horder.ahead⟩⟩
  | append entries =>
      by_cases hentries : entries = []
      · subst hentries
        cases hdone
        exact ⟨h, rfl, fun horder _ _ => horder⟩
      · rw [Operation.perform, append_eq husable hentries] at hdone
        cases hdone
        exact ⟨⟨Slot.usable_append h.log _, h.hardState, h.snapshot⟩, rfl,
          fun horder _ _ => ⟨horder.purged, horder.ahead⟩⟩
  | deleteSince id =>
      rw [Operation.perform, deleteSince_eq husable] at hdone
      cases hdone
      exact ⟨h.withLog _, rfl, fun horder _ _ => ⟨horder.purged, horder.ahead⟩⟩
  | purge id =>
      rw [Operation.perform, purge_eq husable (hasNext_of_purge hdone)] at hdone
      cases hdone
      refine ⟨(h.withLog _).withHardState _, rfl, fun horder hcautious _ => ⟨?_, horder.ahead⟩⟩
      rintro _ ⟨⟩
      exact hcautious
  | apply entries =>
      cases hdone
      rw [applyAll_eq_resume]
      refine ⟨h.resume _, rfl, fun horder _ honward => ⟨horder.purged, fun place hplace => ?_⟩⟩
      exact covers_applyAll (horder.ahead place hplace) (honward place hplace)
  | build =>
      simp only [Operation.perform, Operation.FittingSnapshot, buildSnapshot_eq husable]
        at hdone hfits
      cases hstate : machine.snapshot store.state with
      | error failure => simp [hstate, Except.map] at hdone
      | ok state =>
          simp only [hstate] at hdone hfits
          cases hdone
          obtain ⟨hlog, hhard, hsnapshot⟩ := h.withSnapshot (hfits _ rfl)
          exact ⟨⟨hlog, hhard, hsnapshot⟩, Option.isSome_map,
            fun horder _ _ => ⟨horder.applied, fun _ => LogId.covers_self⟩⟩
  | install snapshot =>
      obtain ⟨state, hstate⟩ := restores_of_installSnapshot hdone
      rw [Operation.perform,
        installSnapshot_eq husable hstate (hasNext_of_installSnapshot hdone)] at hdone
      cases hdone
      have hnext := (h.resume
        ⟨state, snapshot.description.lastLogId, snapshot.description.lastMembership⟩).withSnapshot
          hfits
      unfold installed
      split
      next =>
        exact ⟨hnext, Option.isSome_map,
          fun _ hcautious _ => ⟨hcautious, fun _ => LogId.covers_self⟩⟩
      next id hid =>
        refine ⟨(hnext.withLog _).withHardState _, Option.isSome_map,
          fun _ _ _ => ⟨?_, fun _ => LogId.covers_self⟩⟩
        rintro _ ⟨⟩
        exact LogId.covers_self hid

end Store

/-! ## Reopening -/

namespace Setup

variable {setup : Setup σ} {volume : Volume}

/-- What a reopened store applied last is what its snapshot covers. -/
theorem lastApplied_store {log : Log} {hardState : HardState} {recovered : Option (Snapshot × σ)} :
    (setup.store volume log hardState recovered).lastApplied =
      (setup.store volume log hardState recovered).snapshotPlace := by
  cases recovered <;> rfl

end Setup

/-- What is restored from the files of a store: the snapshot in its file covers a place, and its
state is the one of the store. -/
def Store.Restored (machine : StateMachine σ) (store : Store σ) (place : LogId) : Prop :=
  ∃ slot snapshot last, store.volume.snapshot = some slot ∧
    slot.file = .file (Snapshot.format.write snapshot) ∧
    store.current = some snapshot ∧ snapshot.description.lastLogId = some last ∧
    Restores machine snapshot store.state ∧ store.lastApplied = some last ∧
    place.index ≤ last.index

namespace Store.KeepsPurged

variable {setup : Setup σ} {after : Volume}

theorem first (setup : Setup σ) : setup.first.KeepsPurged where
  log := setup.durable_first.log.usable
  hardState := setup.durable_first.hardState
  snapshot := fun slot hslot =>
    ⟨(setup.durable_first.snapshot slot hslot).usable,
      (setup.durable_first.snapshot slot hslot).absent, by simp [Setup.first]⟩

/-- A reopening finds the hard state again, and the current snapshot if it has a file. -/
theorem reopen (h : KeepsPurged store) (hdone : setup.open store.volume = (after, .ok next)) :
    KeepsPurged next ∧ next.volume.snapshot = store.volume.snapshot ∧
      next.hardState = store.hardState ∧ next.lastApplied = next.snapshotPlace ∧
      next.current = (if store.volume.snapshot.isSome then store.current else none) ∧
      ∀ snapshot ∈ next.current, Restores setup.machine snapshot next.state := by
  obtain ⟨slot, log, hardState, recovered, hslot, hhard, hrecovered, -, rfl⟩ :=
    Setup.of_open hdone
  obtain rfl : store.hardState = hardState := by simpa [h.hardState.loaded] using hhard
  have hlog : slot.Usable := hslot.elim (fun heq => heq ▸ h.log) fun husable => husable.2
  have hcurrent : recovered.map Prod.fst =
      if store.volume.snapshot.isSome then store.current else none := by
    cases hsnapshot : store.volume.snapshot with
    | none =>
        rw [hsnapshot] at hrecovered
        cases hrecovered
        rfl
    | some slot =>
        rw [hsnapshot] at hrecovered
        exact (h.snapshot slot hsnapshot).eq_of_loaded hrecovered
  refine ⟨⟨by simpa using hlog, by simpa using h.hardState, ?_⟩, by simp, Setup.store_hardState,
    Setup.lastApplied_store, Setup.store_current.trans hcurrent, ?_⟩
  · intro slot hslot
    rw [Setup.store_volume] at hslot
    rw [Setup.store_current, hcurrent, Option.mem_def.mp hslot]
    exact h.snapshot slot hslot
  · intro snapshot hsnapshot
    rw [Setup.store_current] at hsnapshot
    obtain ⟨⟨_, state⟩, rfl, rfl⟩ := Option.map_eq_some_iff.mp hsnapshot
    exact restores_of_loaded hrecovered

/-- What a reopening restores covers a place just if the current snapshot does and has a file. -/
theorem covers_reopened_iff (h : KeepsPurged store)
    (hdone : setup.open store.volume = (after, .ok next)) {index : UInt64} :
    LogId.covers next.lastApplied index ↔
      store.volume.snapshot.isSome = true ∧ LogId.covers store.snapshotPlace index := by
  obtain ⟨-, -, -, happlied, hcurrent, -⟩ := h.reopen hdone
  rw [happlied, snapshotPlace, hcurrent]
  split
  next hsome => exact (and_iff_right hsome).symm
  next hnone => simp [hnone]

theorem restored (h : KeepsPurged store) (hdone : setup.open store.volume = (after, .ok next))
    {place : LogId} (hcovers : LogId.covers next.lastApplied place.index) :
    next.Restored setup.machine place := by
  obtain ⟨hnext, hplace, -, happlied, hcurrent, hrestores⟩ := h.reopen hdone
  cases hlast : next.lastApplied with
  | none => simp [hlast] at hcovers
  | some last =>
      have hle : place.index ≤ last.index := by simpa [hlast] using hcovers
      rw [happlied, snapshotPlace, Option.bind_eq_some_iff] at hlast
      obtain ⟨snapshot, hsnapshot, hid⟩ := hlast
      cases hslot : store.volume.snapshot with
      | none =>
          simp only [hslot] at hcurrent
          cases hcurrent.symm.trans hsnapshot
      | some slot =>
          rw [hslot] at hplace
          obtain ⟨hfile, -⟩ := (hnext.snapshot slot hplace).written snapshot hsnapshot
          refine ⟨slot, snapshot, last, hplace, hfile, hsnapshot, hid,
            hrestores snapshot hsnapshot, ?_, hle⟩
          rw [happlied, snapshotPlace, hsnapshot]
          exact hid

end Store.KeepsPurged

/-! ## Runs -/

section

variable {setup : Setup σ} {allowed : Store σ → Operation → Prop} {events : List Event}

/-- Along every run the files hold how far the log was purged and the current snapshot. -/
theorem Run.keepsPurged
    (hfits : ∀ store operation, allowed store operation →
      operation.FittingSnapshot setup.machine store)
    (hrun : Run setup allowed events store) :
    store.KeepsPurged ∧ store.volume.snapshot.isSome = setup.useSnapshot := by
  induction hrun with
  | start hdone =>
      obtain rfl := Setup.eq_first_of_open hdone
      refine ⟨.first setup, ?_⟩
      rw [Setup.first, Setup.store_volume, Volume.empty]
      cases setup.useSnapshot <;> rfl
  | perform before hstep hdone ih =>
      obtain ⟨hkeeps, hplace⟩ := ih
      obtain ⟨hnext, hsame, -⟩ := hkeeps.perform (hfits _ _ hstep) hdone
      exact ⟨hnext, hsame.trans hplace⟩
  | reopen before hdone ih =>
      obtain ⟨hkeeps, hplace⟩ := ih
      obtain ⟨hnext, hsame, -⟩ := hkeeps.reopen hdone
      exact ⟨hnext, by rw [hsame, hplace]⟩

/-- With a file for the snapshot, what was purged stays covered along every run of operations that
are done with care and in order. -/
theorem Run.coversInOrder
    (hallowed : ∀ store operation, allowed store operation → operation.Cautious store ∧
      operation.Onward store ∧ operation.FittingSnapshot setup.machine store)
    (hfile : setup.useSnapshot = true) (hrun : Run setup allowed events store) :
    store.CoversInOrder := by
  have hfits := fun store operation hstep => (hallowed store operation hstep).2.2
  induction hrun with
  | start hdone =>
      obtain rfl := Setup.eq_first_of_open hdone
      exact ⟨by simp [Setup.first, Setup.store], by simp [Store.snapshotPlace, Setup.first]⟩
  | perform before hstep hdone ih =>
      obtain ⟨hcautious, honward, hfit⟩ := hallowed _ _ hstep
      obtain ⟨hkeeps, -⟩ := before.keepsPurged hfits
      exact (hkeeps.perform hfit hdone).2.2 ih hcautious honward
  | reopen before hdone ih =>
      obtain ⟨hkeeps, hplace⟩ := before.keepsPurged hfits
      obtain ⟨-, -, hhard, happlied, hcurrent, -⟩ := hkeeps.reopen hdone
      rw [hplace, hfile, if_pos rfl] at hcurrent
      refine ⟨fun place hpurged => ?_, fun place hsnapshot => ?_⟩
      · rw [hhard] at hpurged
        rw [Store.snapshotPlace, hcurrent]
        exact ih.purged place hpurged
      · rw [happlied]
        exact LogId.covers_self hsnapshot

/-- What a durable store is opened to, of what a restart keeps. -/
theorem Setup.reopened_durable (h : store.Durable setup.machine) :
    ∃ reopened, setup.open store.volume = (store.volume, .ok reopened) ∧
      reopened.hardState = store.hardState ∧
      reopened.lastApplied =
        if store.volume.snapshot.isSome then store.snapshotPlace else none := by
  obtain ⟨recovered, hrecovered, hcurrent, -⟩ := h.loadSnapshot
  refine ⟨_, Setup.open_durable h hrecovered, Setup.store_hardState, ?_⟩
  rw [Setup.lastApplied_store, Store.snapshotPlace, Setup.store_current]
  split
  next hsome => rw [hcurrent hsome, Store.snapshotPlace]
  next hnone =>
    rw [Option.not_isSome_iff_eq_none] at hnone
    rw [hnone] at hrecovered
    cases hrecovered
    rfl

/-- After a reopening a place up to which the log was purged is covered just if the current
snapshot covered it and has a file, and then it is this snapshot that is restored. Where entries
were applied in order, that is so just if there is a place for the file: what a store without one
purged is never covered again. A reopening succeeds if the entries and snapshots can be read. -/
theorem purged_is_covered_iff
    (hallowed : ∀ store operation, allowed store operation →
      operation.Cautious store ∧ operation.FittingSnapshot setup.machine store)
    (hrun : Run setup allowed events store) :
    (∀ after reopened, setup.open store.volume = (after, .ok reopened) →
      reopened.hardState = store.hardState ∧
      ∀ place ∈ store.hardState.lastPurged,
        (LogId.covers reopened.lastApplied place.index ↔
          setup.useSnapshot = true ∧ LogId.covers store.snapshotPlace place.index) ∧
        (LogId.covers reopened.lastApplied place.index →
          reopened.Restored setup.machine place) ∧
        ((∀ store operation, allowed store operation → operation.Onward store) →
          (LogId.covers reopened.lastApplied place.index ↔ setup.useSnapshot = true))) ∧
    (setup.machine.Recoverable →
      (∀ store operation, allowed store operation → operation.Sized setup.machine store) →
      ∃ reopened, setup.open store.volume = (store.volume, .ok reopened)) := by
  obtain ⟨hkeeps, hplace⟩ := hrun.keepsPurged fun _ _ hstep => (hallowed _ _ hstep).2
  constructor
  · intro after reopened hdone
    obtain ⟨-, -, hhard, -⟩ := hkeeps.reopen hdone
    refine ⟨hhard, fun place hpurged => ?_⟩
    have hcovers : LogId.covers reopened.lastApplied place.index ↔
        setup.useSnapshot = true ∧ LogId.covers store.snapshotPlace place.index := by
      rw [← hplace]
      exact hkeeps.covers_reopened_iff hdone
    refine ⟨hcovers, hkeeps.restored hdone, fun honward => hcovers.trans ?_⟩
    refine and_iff_left_of_imp fun hfile => ?_
    refine (hrun.coversInOrder (fun store operation hstep => ?_) hfile).purged place hpurged
    obtain ⟨hcautious, hfits⟩ := hallowed store operation hstep
    exact ⟨hcautious, honward store operation hstep, hfits⟩
  · intro hmachine hsized
    obtain ⟨reopened, hopen, -⟩ := Setup.reopened_durable (hrun.durable hmachine hsized)
    exact ⟨reopened, hopen⟩

end

namespace Memory

/-- The snapshot of an empty memory that covers the log up to a place. -/
def blankSnapshot (id : LogId) : Snapshot where
  description := { lastLogId := some id }
  data := SnapshotContent.format.write ⟨some id, {}, Memory.snapshot {}⟩

theorem restores_blankSnapshot : Store.Restores Memory.machine (blankSnapshot ⟨1, 1, 5⟩) {} := by
  have hfits : (Memory.snapshot {}).Fits := by decide
  exact ⟨_, decodeStored_write SnapshotContent.lossless_format (by decide),
    Memory.restore_snapshot hfits⟩

theorem install_performed {memory : Store Memory} (h : memory.volume.Usable) :
    (Operation.install (blankSnapshot ⟨1, 1, 5⟩)).perform Memory.machine memory =
      (memory.installed (blankSnapshot ⟨1, 1, 5⟩) {}, .ok ()) :=
  Store.installSnapshot_eq h restores_blankSnapshot (by rintro _ ⟨⟩; decide)

end Memory

/-- A snapshot is installed in a store and the files are opened again. With a file the snapshot
is restored; without one nothing is, though the log was purged up to its end. -/
theorem installed_uncovered_without_file :
    let setup (useSnapshot : Bool) : Setup Memory :=
      { Memory.setup ⟨"db-s"⟩ "raft_log.bin" with useSnapshot }
    ∀ useSnapshot, ∃ store reopened,
      Run (setup useSnapshot)
        (fun store operation => operation.Cautious store ∧ operation.Onward store ∧
          operation.Sized Memory.machine store)
        [.performed (.install (Memory.blankSnapshot ⟨1, 1, 5⟩))] store ∧
      (setup useSnapshot).open store.volume = (store.volume, .ok reopened) ∧
      reopened.hardState.lastPurged = some ⟨1, 1, 5⟩ ∧
      (LogId.covers reopened.lastApplied 5 ↔ useSnapshot = true) := by
  intro setup useSnapshot
  let allowed (store : Store Memory) (operation : Operation) : Prop :=
    operation.Cautious store ∧ operation.Onward store ∧ operation.Sized Memory.machine store
  have hinstall : allowed (setup useSnapshot).first (.install (Memory.blankSnapshot ⟨1, 1, 5⟩)) :=
    ⟨nofun, trivial, show Bytes.Fits _ by decide⟩
  have hstart : Run (setup useSnapshot) allowed [] (setup useSnapshot).first :=
    .start (Setup.open_empty _)
  have hrun := hstart.perform hinstall
    (Memory.install_performed (Setup.durable_first _).usable)
  obtain ⟨hcovered, hopens⟩ := purged_is_covered_iff
    (fun _ operation hstep => ⟨hstep.1, hstep.2.2.fittingSnapshot⟩) hrun
  obtain ⟨reopened, hopen⟩ := hopens Memory.recoverable fun _ _ hstep => hstep.2.2
  obtain ⟨hhard, hplace⟩ := hcovered _ _ hopen
  obtain ⟨-, -, hiff⟩ := hplace ⟨1, 1, 5⟩ rfl
  exact ⟨_, reopened, hrun, hopen, by rw [hhard]; rfl, hiff fun _ _ hstep => hstep.2.1⟩

end Quorum
