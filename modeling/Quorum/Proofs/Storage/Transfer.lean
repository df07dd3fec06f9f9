import Quorum.Proofs.Storage.Outcome
import Quorum.Proofs.Storage.PurgeCovered

/-! # Snapshots taken over from another store

A snapshot that one store built and another one installed carries the progress of the first
to the second, and leaves nothing else behind but the entries that the second one stored
after it. From there on both make the same of the same entries.
-/

namespace Quorum

variable {σ : Type} {machine : StateMachine σ} {sender built receiver after : Store σ}
  {snapshot : Snapshot}

/-- If an index has a next one, from there on are the entries after it. -/
theorem Log.entries_since (log : Log) {id : LogId} (h : id.index.toNat + 1 < UInt64.size) :
    (log.since (id.index + 1)).entries = log.after (some id) := by
  refine List.filter_congr fun entry _ => ?_
  rw [Bool.eq_iff_iff, Bool.not_eq_true', ← Bool.not_eq_true, LogId.covers_some,
    decide_eq_true_iff, UInt64.le_iff_toNat_le, UInt64.le_iff_toNat_le, toNat_succ h]
  omega

theorem Log.after_none (log : Log) : log.after none = log.entries :=
  List.filter_eq_self.mpr fun _ _ => rfl

namespace Store

/-- A snapshot is loaded from a file with its bytes. -/
theorem loadSnapshot_of_read {slot : Option Slot} {state : σ}
    (hread : slot.map Slot.read = some (.ok (some (Snapshot.format.write snapshot))))
    (hfits : (Snapshot.format.write snapshot).Fits) (hstate : Restores machine snapshot state) :
    loadSnapshot machine slot = .ok (some (snapshot, state)) := by
  obtain ⟨content, hcontent, hrestore⟩ := hstate
  have hsnapshot := decodeStored_write Snapshot.lossless_format hfits
  simp [loadSnapshot, hread, hsnapshot, hcontent, hrestore, bind, Except.bind, pure, Except.pure]

/-- A snapshot holds the state it was built of. -/
theorem restores_built (hmachine : machine.Faithful)
    (hbuild : sender.buildSnapshot machine = (built, .ok snapshot))
    (hfits : (Snapshot.format.write snapshot).Fits) :
    Restores machine snapshot sender.state := by
  obtain ⟨bytes, hbytes, rfl, -, -⟩ := of_buildSnapshot hbuild
  exact restores_nextSnapshot hfits
    (hmachine _ _ hbytes (fits_state_of_nextSnapshot hfits))

/-- What is left of the receiver, and of it only the entries after the snapshot. -/
theorem transferred (hmachine : machine.Faithful)
    (hbuild : sender.buildSnapshot machine = (built, .ok snapshot))
    (hfits : (Snapshot.format.write snapshot).Fits)
    (hinstall : receiver.installSnapshot machine snapshot = (after, .ok ())) :
    Installed receiver after snapshot sender.state ∧ after.progress = sender.progress := by
  have hrestores := restores_built hmachine hbuild hfits
  rcases receiver.installSnapshot_cases machine snapshot with
    ⟨state, hstate, hinstalled⟩ | ⟨hfailed, -⟩
  · rw [hinstall] at hinstalled
    obtain rfl := hrestores.unique hstate
    refine ⟨hinstalled, hinstalled.progress.trans ?_⟩
    obtain ⟨bytes, -, rfl, -, -⟩ := of_buildSnapshot hbuild
    rfl
  · rw [hinstall] at hfailed
    exact absurd rfl hfailed

theorem Installed.entries {state : σ} (h : Installed receiver after snapshot state)
    (hindex : ∀ id ∈ snapshot.description.lastLogId, id.index.toNat + 1 < UInt64.size) :
    after.log.entries = receiver.log.after snapshot.description.lastLogId := by
  rw [h.log hindex]
  cases hlast : snapshot.description.lastLogId with
  | none => exact receiver.log.after_none.symm
  | some id => exact receiver.log.entries_since (hindex id hlast)

/-- Opening the files again finds the snapshot and what it covers. -/
theorem Installed.reopened {setup : Setup σ} {state : σ} {volume : Volume} {reopened : Store σ}
    (h : Installed receiver after snapshot state) (hfile : receiver.volume.snapshot.isSome)
    (hfits : (Snapshot.format.write snapshot).Fits)
    (hstate : Restores setup.machine snapshot state)
    (hdone : setup.open after.volume = (volume, .ok reopened)) :
    reopened.current = some snapshot ∧ reopened.progress = after.progress := by
  obtain ⟨before, hbefore⟩ := Option.isSome_iff_exists.mp hfile
  have hread := h.file
  rw [hbefore] at hread
  obtain ⟨slot, log, hardState, recovered, -, -, hrecovered, -, rfl⟩ := Setup.of_open hdone
  rw [loadSnapshot_of_read hread hfits hstate] at hrecovered
  cases hrecovered
  exact ⟨rfl, h.progress.symm⟩

end Store

/-- A snapshot that was built by one store and installed by another one makes the second go on
where the first is: with the same progress, the same snapshot, and the same results of
whatever is applied next. Of its own it keeps the entries behind the snapshot. If the snapshot
has a file, it is found there when the files are opened again, and they can be opened if
everything was done that led to the second store. The snapshot's bytes fit in memory. -/
theorem transferred_snapshot_makes_equal {sender built receiver after : Store Memory}
    (hbuild : sender.buildSnapshot Memory.machine = (built, .ok snapshot))
    (hindex : ∀ id ∈ snapshot.description.lastLogId, id.index.toNat + 1 < UInt64.size)
    (hfits : (Snapshot.format.write snapshot).Fits)
    (hinstall : receiver.installSnapshot Memory.machine snapshot = (after, .ok ())) :
    built.progress = sender.progress ∧ after.progress = sender.progress ∧
      after.current = some snapshot ∧
      after.log.entries = receiver.log.after snapshot.description.lastLogId ∧
      (∀ entries,
        (after.applyAll Memory.machine entries).2 = (built.applyAll Memory.machine entries).2 ∧
          (after.applyAll Memory.machine entries).1.progress =
            (built.applyAll Memory.machine entries).1.progress) ∧
      ∀ group logPath,
        (receiver.volume.snapshot.isSome → ∀ volume reopened,
          (Memory.setup group logPath).open after.volume = (volume, .ok reopened) →
            reopened.current = some snapshot ∧ reopened.progress = sender.progress) ∧
        ∀ events, Run (Memory.setup group logPath)
            (fun store operation => operation.Sized Memory.machine store) events receiver →
          ∃ reopened, (Memory.setup group logPath).open after.volume =
            (after.volume, .ok reopened) := by
  obtain ⟨hinstalled, hprogress⟩ := Store.transferred Memory.faithful hbuild hfits hinstall
  obtain ⟨_, -, -, hbuilt, -⟩ := Store.of_buildSnapshot hbuild
  have hequal : after.progress = built.progress := hprogress.trans hbuilt.symm
  refine ⟨hbuilt, hprogress, hinstalled.current, hinstalled.entries hindex, fun entries =>
    ⟨Store.results_applyAll hequal entries, Store.progress_applyAll hequal entries⟩,
    fun group logPath => ⟨fun hfile volume reopened hdone => ?_, fun events hrun => ?_⟩⟩
  · rw [← hprogress]
    exact hinstalled.reopened hfile hfits (Store.restores_built Memory.faithful hbuild hfits) hdone
  · have hdone : (Operation.install snapshot).perform Memory.machine receiver = (after, .ok ()) :=
      hinstall
    -- The install is one more operation of the run, and what a run leaves can be opened.
    have hafter := (hrun.perform (show Operation.Sized _ _ (.install snapshot) from hfits)
      hdone).durable Memory.recoverable fun _ _ hallowed => hallowed
    obtain ⟨reopened, hopen, -⟩ := Setup.reopened_durable hafter
    exact ⟨reopened, hopen⟩

/-- Of five entries those behind the snapshot are kept, and a command that only the sender had
applied is there after a reopening. -/
theorem snapshot_taken_over :
    ∃ (sender built receiver after reopened : Store Memory) (snapshot : Snapshot),
      sender.state.commands = [⟨.put, [7]⟩] ∧
      sender.buildSnapshot Memory.machine = (built, .ok snapshot) ∧
      snapshot.description.lastLogId = some ⟨1, 1, 3⟩ ∧
      receiver.log.entries.map (·.id.index) = [1, 2, 3, 4] ∧
      receiver.installSnapshot Memory.machine snapshot = (after, .ok ()) ∧
      after.log.entries.map (·.id.index) = [4] ∧
      (Memory.setup ⟨"db-s"⟩ "raft_log.bin").open after.volume = (after.volume, .ok reopened) ∧
      reopened.current = some snapshot ∧ reopened.state.commands = [⟨.put, [7]⟩] := by
  let setup : Setup Memory := Memory.setup ⟨"db-s"⟩ "raft_log.bin"
  let sender : Store Memory :=
    { setup.first with
      state := { lastIndex := 3, lastTerm := 1, commands := [⟨.put, [7]⟩] }
      lastApplied := some ⟨1, 1, 3⟩ }
  let snapshot := sender.nextSnapshot sender.state.snapshot
  have hfits : (Snapshot.format.write snapshot).Fits := by decide
  have husable : sender.volume.Usable := setup.durable_first.usable
  have hbuild : sender.buildSnapshot Memory.machine = (_, .ok snapshot) :=
    Store.buildSnapshot_eq husable
  have hrestores := Store.restores_built Memory.faithful hbuild hfits
  let append : Operation := .append
    [⟨⟨1, 1, 1⟩, .blank⟩, ⟨⟨1, 1, 2⟩, .blank⟩, ⟨⟨1, 1, 3⟩, .blank⟩, ⟨⟨1, 1, 4⟩, .blank⟩]
  have hsized : append.Sized Memory.machine setup.first :=
    show ∀ entry ∈ _, Record.Fits _ by decide
  have hrun := Run.perform (.start setup.open_empty) hsized
    (Store.append_eq setup.durable_first.usable (List.cons_ne_nil _ _))
  have hreceiver := (hrun.durable Memory.recoverable fun _ _ hallowed => hallowed).usable
  have hinstall := Store.installSnapshot_eq hreceiver hrestores (by rintro _ ⟨⟩; decide)
  obtain ⟨-, hprogress, -, hentries, -, hopens⟩ :=
    transferred_snapshot_makes_equal hbuild (by rintro _ ⟨⟩; decide) hfits hinstall
  obtain ⟨hfound, hsucceeds⟩ := hopens ⟨"db-s"⟩ "raft_log.bin"
  obtain ⟨reopened, hopen⟩ := hsucceeds _ hrun
  obtain ⟨hcurrent, hreopened⟩ := hfound rfl _ _ hopen
  refine ⟨sender, _, _, _, reopened, snapshot, rfl, hbuild, rfl, rfl, hinstall, ?_, hopen,
    hcurrent, congrArg (fun progress => progress.state.commands) hreopened⟩
  rw [hentries]
  rfl

end Quorum
