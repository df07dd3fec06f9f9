import Quorum.Proofs.Storage.InterruptedPurge
import Quorum.Proofs.Storage.PurgeCovered
import Quorum.Proofs.Storage.Restart

/-! # Logs without gaps

A log is cut from either end: entries are removed from an index on, and it is purged up to a
place, which may lie beyond its last entry. As long as new entries follow the last place and
no purge goes back behind an earlier one, the log holds an entry for every index between the
place it was purged to and its last one. This is kept by each operation, and a reopening
finds the same log and the same place in two different files.
-/

namespace Quorum

variable {σ : Type} {machine : StateMachine σ} {store next : Store σ}

/-- The first index behind a place. It is a number, so the greatest index has one too. -/
def LogId.behind : Option LogId → Nat
  | none => 0
  | some id => id.index.toNat + 1

theorem LogId.covers_iff_lt_behind {place : Option LogId} {index : UInt64} :
    covers place index ↔ index.toNat < behind place := by
  cases place with
  | none => simp [behind]
  | some id => rw [covers_some, UInt64.le_iff_toNat_le, behind, Nat.lt_succ_iff]

theorem LogId.covers_trans {first last : Option LogId}
    (h : ∀ id ∈ first, covers last id.index) {index : UInt64} (hindex : covers first index) :
    covers last index := by
  cases first with
  | none => cases hindex
  | some id => exact covers_of_le (covers_some.mp hindex) (h id rfl)

/-- Entries for one index after the other. -/
def Consecutive : (first : Nat) → List Entry → Prop
  | _, [] => True
  | first, entry :: rest => entry.id.index.toNat = first ∧ Consecutive (first + 1) rest

namespace Operation

/-- New entries follow the last place of the log, and no purge goes back behind an earlier
one. Entries may be removed from any index on. The bytes of entries and the index up to which
the log is purged are in range. -/
def Seamless (store : Store σ) : Operation → Prop
  | .append entries => Consecutive (LogId.behind store.lastLogId) entries ∧
      ∀ entry ∈ entries, Record.Fits (Entry.format.write entry)
  | .purge id => (∀ purged ∈ store.hardState.lastPurged, purged.index ≤ id.index) ∧
      id.index.toNat + 1 < UInt64.size
  | .install snapshot =>
      (∀ purged ∈ store.hardState.lastPurged,
        LogId.covers snapshot.description.lastLogId purged.index) ∧
      ∀ id ∈ snapshot.description.lastLogId, id.index.toNat + 1 < UInt64.size
  | _ => True

/-- The log after an operation. -/
def logAfter (log : Log) : Operation → Log
  | .append entries => log.insertAll entries
  | .deleteSince id => log.below id.index
  | .purge id => log.since (id.index + 1)
  | .install snapshot =>
      snapshot.description.lastLogId.elim log fun id => log.since (id.index + 1)
  | _ => log

/-- The place up to which the log is purged after an operation. -/
def purgedAfter (purged : Option LogId) : Operation → Option LogId
  | .purge id => some id
  | .install snapshot => snapshot.description.lastLogId.or purged
  | _ => purged

end Operation

namespace Store

/-! ## Cutting and extending a log -/

theorem gapless_iff : store.Gapless ↔ store.Unbroken ∧
    ∀ entry ∈ store.log.entries, ¬ LogId.covers store.hardState.lastPurged entry.id.index := by
  constructor
  · intro h
    refine ⟨h.unbroken, fun entry hentry => ?_⟩
    have hheld := Log.get?_eq_some_iff.mpr hentry
    exact ((h entry.id.index).mp (by rw [hheld]; rfl)).1
  · rintro ⟨hunbroken, hbehind⟩ index
    refine ⟨fun hheld => ?_, fun ⟨hnot, hcovers⟩ => hunbroken index hnot hcovers⟩
    obtain ⟨entry, hentry⟩ := Option.isSome_iff_exists.mp hheld
    obtain rfl := Log.index_of_get? hentry
    have hmem := Log.get?_eq_some_iff.mp hentry
    have hnot := hbehind entry hmem
    exact ⟨hnot, (covers_lastLogId_iff hnot).mpr ⟨entry, hmem, UInt64.le_refl _⟩⟩

/-- The last place of the log is not before the place it was purged to. -/
theorem Gapless.covers_lastLogId (h : store.Gapless) {index : UInt64}
    (hindex : LogId.covers store.hardState.lastPurged index) :
    LogId.covers store.lastLogId index := by
  rw [lastLogId]
  split
  next last hlast =>
    have hnot := (gapless_iff.mp h).2 last (List.mem_of_getLast? hlast)
    refine LogId.covers_some.mpr (UInt64.not_lt.mp fun hlt => hnot ?_)
    exact LogId.covers_of_le (UInt64.le_of_lt hlt) hindex
  next => exact hindex

theorem Gapless.congr (h : store.Gapless) (hlog : next.log = store.log)
    (hpurged : next.hardState.lastPurged = store.hardState.lastPurged) : next.Gapless := by
  intro index
  rw [lastLogId, hlog, hpurged]
  exact h index

theorem Gapless.below (h : store.Gapless) {bound : UInt64}
    (hlog : next.log = store.log.below bound)
    (hpurged : next.hardState.lastPurged = store.hardState.lastPurged) : next.Gapless := by
  have hentries : ∀ entry ∈ next.log.entries, entry ∈ store.log.entries := fun entry hentry =>
    Log.mem_of_mem_filter (hlog ▸ hentry)
  refine gapless_iff.mpr ⟨?_, fun entry hentry => ?_⟩
  · refine h.unbroken_of_kept hentries (fun index hcovers => hpurged ▸ hcovers) ?_
    rintro index _ ⟨entry, hentry, hle⟩
    rw [hlog] at hentry ⊢
    have hbound : entry.id.index < bound := of_decide_eq_true (List.mem_filter.mp hentry).2
    rw [Log.get?_below, if_pos (UInt64.lt_of_le_of_lt hle hbound)]
  · rw [hpurged]
    exact (gapless_iff.mp h).2 entry (hentries entry hentry)

theorem Gapless.since (h : store.Gapless) {id : LogId} (hid : id.index.toNat + 1 < UInt64.size)
    (hbefore : ∀ purged ∈ store.hardState.lastPurged, purged.index ≤ id.index)
    (hlog : next.log = store.log.since (id.index + 1))
    (hpurged : next.hardState.lastPurged = some id) : next.Gapless := by
  refine gapless_iff.mpr ⟨h.unbroken_after hlog hpurged hbefore, fun entry hentry => ?_⟩
  rw [hlog] at hentry
  have hsince : id.index + 1 ≤ entry.id.index := of_decide_eq_true (List.mem_filter.mp hentry).2
  rw [hpurged, LogId.covers_some]
  exact UInt64.not_le.mpr (UInt64.lt_of_lt_of_le (lt_succ hid) hsince)

/-- An entry at the first index behind the last place becomes the last one. -/
theorem Gapless.insert (h : store.Gapless) {entry : Entry}
    (hentry : entry.id.index.toNat = LogId.behind store.lastLogId)
    (hlog : next.log = store.log.insert entry)
    (hpurged : next.hardState.lastPurged = store.hardState.lastPurged) :
    next.Gapless ∧ next.lastLogId = some entry.id := by
  have hbehind : ∀ other ∈ store.log.entries, other.id.index < entry.id.index := by
    intro other hother
    have hheld := Log.get?_eq_some_iff.mpr hother
    have hcovers := ((h other.id.index).mp (by rw [hheld]; rfl)).2
    rw [UInt64.lt_iff_toNat_lt, hentry]
    exact LogId.covers_iff_lt_behind.mp hcovers
  have hlast : next.lastLogId = some entry.id := by
    rw [lastLogId, hlog, Log.last?_insert hbehind]
  refine ⟨fun index => ?_, hlast⟩
  have hindex := h index
  -- Nothing behind the last place was purged, so neither was the new index.
  have hmark := @Gapless.covers_lastLogId _ _ h index
  have hnext : LogId.behind (some entry.id) = LogId.behind store.lastLogId + 1 :=
    congrArg (· + 1) hentry
  rw [hlog, hpurged, hlast, Log.get?_insert]
  simp only [LogId.covers_iff_lt_behind, hnext] at hindex hmark ⊢
  split
  next heq =>
    subst heq
    simp only [Option.isSome_some, true_iff]
    omega
  next hne =>
    have hneNat : index.toNat ≠ LogId.behind store.lastLogId := fun heq =>
      hne (UInt64.toNat_inj.mp (hentry.trans heq.symm))
    rw [hindex]
    omega

theorem Gapless.insertAll (h : store.Gapless) {entries : List Entry}
    (hentries : Consecutive (LogId.behind store.lastLogId) entries)
    (hlog : next.log = store.log.insertAll entries)
    (hpurged : next.hardState.lastPurged = store.hardState.lastPurged) : next.Gapless := by
  induction entries generalizing store with
  | nil => exact h.congr hlog hpurged
  | cons entry rest ih =>
      obtain ⟨hentry, hrest⟩ := hentries
      let one : Store σ := { store with log := store.log.insert entry }
      obtain ⟨hone, hlast⟩ := h.insert hentry (show one.log = _ from rfl) rfl
      refine ih hone ?_ hlog hpurged
      rwa [hlast, LogId.behind, hentry]

/-- No operation leaves a gap, and none takes back what was purged. -/
theorem Gapless.perform (h : store.Gapless) {operation : Operation}
    (hseamless : operation.Seamless store)
    (hlog : next.log = operation.logAfter store.log)
    (hpurged : next.hardState.lastPurged = operation.purgedAfter store.hardState.lastPurged) :
    next.Gapless ∧ ∀ index, LogId.covers store.hardState.lastPurged index →
      LogId.covers next.hardState.lastPurged index := by
  have hkept : next.hardState.lastPurged = store.hardState.lastPurged →
      ∀ index, LogId.covers store.hardState.lastPurged index →
        LogId.covers next.hardState.lastPurged index := fun hsame index hcovers =>
    hsame ▸ hcovers
  cases operation with
  | saveVote | saveCommitted | apply | build => exact ⟨h.congr hlog hpurged, hkept hpurged⟩
  | append entries => exact ⟨h.insertAll hseamless.1 hlog hpurged, hkept hpurged⟩
  | deleteSince id => exact ⟨h.below hlog hpurged, hkept hpurged⟩
  | purge id =>
      obtain ⟨hbefore, hid⟩ := hseamless
      refine ⟨h.since hid hbefore hlog hpurged, fun index => LogId.covers_trans ?_⟩
      intro purged hmem
      rw [hpurged]
      exact LogId.covers_some.mpr (hbefore purged hmem)
  | install snapshot =>
      obtain ⟨hbefore, hbounded⟩ := hseamless
      simp only [Operation.logAfter, Operation.purgedAfter] at hlog hpurged
      cases hlast : snapshot.description.lastLogId with
      | none =>
          rw [hlast] at hlog hpurged
          exact ⟨h.congr hlog hpurged, hkept hpurged⟩
      | some id =>
          rw [hlast] at hlog hpurged hbefore
          refine ⟨h.since (hbounded id hlast) (fun purged hmem => ?_) hlog hpurged,
            fun index => LogId.covers_trans ?_⟩
          · exact LogId.covers_some.mp (hbefore purged hmem)
          · rw [hpurged]
            exact hbefore

/-! ## The files of the log and of the hard state -/

/-- The files hold the log and the hard state of memory, whatever the snapshot's file holds. -/
structure Recorded (store : Store σ) : Prop where
  usable : store.volume.Usable
  log : HoldsLog store.volume.log store.log
  hardState : HoldsHardState store.volume.hardState store.hardState

namespace Recorded

theorem withHardState (h : store.Recorded) (hardState : HardState) :
    (store.withHardState hardState).Recorded where
  usable := ⟨h.usable.log, Slot.usable_holding _, h.usable.snapshot⟩
  log := h.log
  hardState := holdsHardState_holding hardState

theorem withLog_filter (h : store.Recorded) (test : Entry → Bool) :
    (store.withLog (store.log.filter test)).Recorded where
  usable := ⟨Slot.usable_holding _, h.usable.hardState, h.usable.snapshot⟩
  log := holdsLog_holding fun entry hentry => h.log.fits entry (Log.mem_of_mem_filter hentry)
  hardState := h.hardState

theorem withSnapshot (h : store.Recorded) (snapshot : Snapshot) :
    (store.withSnapshot snapshot).Recorded where
  usable := usable_withSnapshot h.usable snapshot
  log := h.log
  hardState := h.hardState

/-- An operation that was reported done changed the log and the place it is purged to as it
should, in memory and in the files. -/
theorem perform (h : store.Recorded) {operation : Operation}
    (hseamless : operation.Seamless store)
    (hdone : operation.perform machine store = (next, .ok ())) :
    next.Recorded ∧ next.log = operation.logAfter store.log ∧
      next.hardState.lastPurged = operation.purgedAfter store.hardState.lastPurged := by
  have husable := h.usable
  cases operation with
  | saveVote | saveCommitted =>
      simp only [Operation.perform, saveVote_eq husable, saveCommitted_eq husable] at hdone
      cases hdone
      exact ⟨h.withHardState _, rfl, rfl⟩
  | append entries =>
      by_cases hentries : entries = []
      · subst hentries
        cases hdone
        exact ⟨h, rfl, rfl⟩
      · rw [Operation.perform, append_eq husable hentries] at hdone
        cases hdone
        have hlog := h.log.append hseamless.2
        exact ⟨⟨⟨hlog.usable, husable.hardState, husable.snapshot⟩, hlog, h.hardState⟩, rfl, rfl⟩
  | deleteSince id =>
      rw [Operation.perform, deleteSince_eq husable] at hdone
      cases hdone
      exact ⟨h.withLog_filter _, rfl, rfl⟩
  | purge id =>
      rw [Operation.perform, purge_eq husable (hasNext_of_purge hdone)] at hdone
      cases hdone
      exact ⟨(h.withLog_filter _).withHardState _, rfl, rfl⟩
  | apply entries =>
      cases hdone
      rw [applyAll_eq_resume]
      exact ⟨⟨husable, h.log, h.hardState⟩, rfl, rfl⟩
  | build =>
      rw [Operation.perform, buildSnapshot_eq husable] at hdone
      cases hstate : machine.snapshot store.state with
      | error failure => simp [hstate, Except.map] at hdone
      | ok state =>
          simp only [hstate] at hdone
          cases hdone
          have hnext := h.withSnapshot (store.nextSnapshot state)
          exact ⟨⟨hnext.usable, hnext.log, hnext.hardState⟩, rfl, rfl⟩
  | install snapshot =>
      obtain ⟨state, hstate⟩ := restores_of_installSnapshot hdone
      rw [Operation.perform,
        installSnapshot_eq husable hstate (hasNext_of_installSnapshot hdone)] at hdone
      cases hdone
      have hstarted : (store.atSnapshot snapshot state).Recorded := ⟨husable, h.log, h.hardState⟩
      have hnext := hstarted.withSnapshot snapshot
      simp only [installed, Operation.logAfter, Operation.purgedAfter]
      cases snapshot.description.lastLogId with
      | none => exact ⟨hnext, rfl, rfl⟩
      | some id => exact ⟨(hnext.withLog_filter _).withHardState _, rfl, rfl⟩

variable {setup : Setup σ} {volume : Volume}

theorem reopen (h : store.Recorded) (hdone : setup.open store.volume = (volume, .ok next)) :
    next.Recorded ∧ next.log = store.log ∧ next.hardState = store.hardState := by
  -- All of the file is read as records, so there is nothing to mend.
  have hmend : mendLog store.volume store.log false = (store.volume, .ok ()) := rfl
  rcases hsnapshot : loadSnapshot setup.machine store.volume.snapshot with failure | recovered
  · simp [Setup.open, Store.open, h.hardState.loaded, h.log.loadLog, hmend, hsnapshot] at hdone
  · rw [Setup.open_eq h.hardState.loaded h.log.loadLog hmend hsnapshot] at hdone
    cases hdone
    exact ⟨⟨by simpa using h.usable, by simpa using h.log, by simpa using h.hardState⟩,
      Setup.store_log, Setup.store_hardState⟩

theorem first (setup : Setup σ) : setup.first.Recorded where
  usable := setup.durable_first.usable
  log := setup.durable_first.log
  hardState := setup.durable_first.hardState

end Recorded

theorem gapless_first (setup : Setup σ) : setup.first.Gapless := by
  intro index
  simp [Setup.first, lastLogId, Log.last?, Log.empty, Log.get?, Setup.store]

end Store

/-! ## Runs -/

section

variable {setup : Setup σ} {events earlier : List Event}

theorem Run.recorded (hrun : Run setup Operation.Seamless events store) : store.Recorded := by
  induction hrun with
  | start hdone =>
      obtain rfl := Setup.eq_first_of_open hdone
      exact .first setup
  | perform before hseamless hdone ih => exact (ih.perform hseamless hdone).1
  | reopen before hdone ih => exact (ih.reopen hdone).1

theorem Run.gapless (hrun : Run setup Operation.Seamless events store) : store.Gapless := by
  induction hrun with
  | start hdone =>
      obtain rfl := Setup.eq_first_of_open hdone
      exact Store.gapless_first setup
  | perform before hseamless hdone ih =>
      obtain ⟨-, hlog, hpurged⟩ := before.recorded.perform hseamless hdone
      exact (ih.perform hseamless hlog hpurged).1
  | reopen before hdone ih =>
      obtain ⟨-, hlog, hhard⟩ := before.recorded.reopen hdone
      exact ih.congr hlog (congrArg HardState.lastPurged hhard)

/-- Along a run the log is never purged to an earlier place. -/
theorem Run.covers_lastPurged (hrun : Run setup Operation.Seamless events store)
    {before : Store σ} (hearlier : earlier <+: events)
    (hbefore : Run setup Operation.Seamless earlier before) {index : UInt64}
    (hindex : LogId.covers before.hardState.lastPurged index) :
    LogId.covers store.hardState.lastPurged index := by
  induction hrun with
  | start hdone =>
      obtain rfl := List.prefix_nil.mp hearlier
      obtain rfl := hbefore.unique (.start hdone)
      exact hindex
  | perform run hseamless hdone ih =>
      rcases List.prefix_concat_iff.mp hearlier with rfl | hprefix
      · obtain rfl := hbefore.unique (.perform run hseamless hdone)
        exact hindex
      · obtain ⟨-, hlog, hpurged⟩ := run.recorded.perform hseamless hdone
        obtain ⟨-, hgrows⟩ := run.gapless.perform hseamless hlog hpurged
        exact hgrows index (ih hprefix)
  | reopen run hdone ih =>
      rcases List.prefix_concat_iff.mp hearlier with rfl | hprefix
      · obtain rfl := hbefore.unique (.reopen run hdone)
        exact hindex
      · obtain ⟨-, -, hhard⟩ := run.recorded.reopen hdone
        rw [hhard]
        exact ih hprefix

/-- After any run the log holds entries for just the indexes behind the place it was purged to,
up to its last place, which is not before that, and each is found under its own index. No
purge of the run was taken back. -/
theorem log_has_no_gaps (hrun : Run setup Operation.Seamless events store) :
    store.Gapless ∧
      (∀ index entry, store.log.get? index = some entry → entry.id.index = index) ∧
      (∀ purged ∈ store.hardState.lastPurged, LogId.covers store.lastLogId purged.index) ∧
      ∀ earlier before, earlier <+: events → Run setup Operation.Seamless earlier before →
        ∀ purged ∈ before.hardState.lastPurged,
          LogId.covers store.hardState.lastPurged purged.index := by
  refine ⟨hrun.gapless, fun index entry => Log.index_of_get?, fun purged hpurged => ?_, ?_⟩
  · exact hrun.gapless.covers_lastLogId (LogId.covers_self hpurged)
  · intro earlier before hearlier hbefore purged hpurged
    exact hrun.covers_lastPurged hearlier hbefore (LogId.covers_self hpurged)

end

/-- A snapshot that covers more than the log holds empties it, and the log goes on behind
the snapshot. -/
theorem no_gaps_around_install :
    ∃ purged store, Run (Memory.setup ⟨"db-s"⟩ "raft_log.bin") Operation.Seamless
        [.performed (.append
            [⟨⟨1, 1, 0⟩, .blank⟩, ⟨⟨1, 1, 1⟩, .blank⟩, ⟨⟨1, 1, 2⟩, .blank⟩]),
          .performed (.purge ⟨1, 1, 1⟩)] purged ∧
      Run (Memory.setup ⟨"db-s"⟩ "raft_log.bin") Operation.Seamless
        [.performed (.append
            [⟨⟨1, 1, 0⟩, .blank⟩, ⟨⟨1, 1, 1⟩, .blank⟩, ⟨⟨1, 1, 2⟩, .blank⟩]),
          .performed (.purge ⟨1, 1, 1⟩), .reopened,
          .performed (.install (Memory.blankSnapshot ⟨1, 1, 5⟩)),
          .performed (.append [⟨⟨1, 1, 6⟩, .blank⟩])] store ∧
      purged.lastLogId = some ⟨1, 1, 2⟩ ∧ store.lastLogId = some ⟨1, 1, 6⟩ ∧ store.Gapless ∧
      ∀ place ∈ purged.hardState.lastPurged,
        LogId.covers store.hardState.lastPurged place.index := by
  let setup : Setup Memory := Memory.setup ⟨"db-s"⟩ "raft_log.bin"
  let appended := (setup.first.append
    [⟨⟨1, 1, 0⟩, .blank⟩, ⟨⟨1, 1, 1⟩, .blank⟩, ⟨⟨1, 1, 2⟩, .blank⟩]).1
  let purged := appended.purged ⟨1, 1, 1⟩
  let reopened := setup.store purged.volume purged.log purged.hardState none
  let installed := reopened.installed (Memory.blankSnapshot ⟨1, 1, 5⟩) {}
  have hstart : Run setup Operation.Seamless [] setup.first := .start setup.open_empty
  have happend : (Operation.append [⟨⟨1, 1, 0⟩, .blank⟩, ⟨⟨1, 1, 1⟩, .blank⟩,
      ⟨⟨1, 1, 2⟩, .blank⟩]).Seamless setup.first :=
    ⟨⟨rfl, rfl, rfl, trivial⟩, show ∀ entry ∈ _, Record.Fits _ by decide⟩
  have hrun := hstart.perform happend (show _ = (appended, _) from rfl)
  have hpurge : (Operation.purge ⟨1, 1, 1⟩).Seamless appended :=
    ⟨nofun, show _ < _ by decide⟩
  have hpurged := hrun.perform hpurge
    (show _ = (purged, _) from Store.purge_eq hrun.recorded.usable (by decide))
  have hload : Store.loadSnapshot Memory.machine purged.volume.snapshot = .ok none := rfl
  have hopen : setup.open purged.volume = (purged.volume, .ok reopened) :=
    Setup.open_eq hpurged.recorded.hardState.loaded hpurged.recorded.log.loadLog rfl hload
  have hreopened := hpurged.reopen hopen
  have hinstall : (Operation.install (Memory.blankSnapshot ⟨1, 1, 5⟩)).Seamless reopened := by
    refine ⟨?_, ?_⟩
    · rintro _ ⟨⟩
      decide
    · rintro _ ⟨⟩
      decide
  have hinstalled := hreopened.perform hinstall
    (show _ = (installed, _) from Memory.install_performed hreopened.recorded.usable)
  have hfollow : (Operation.append [⟨⟨1, 1, 6⟩, .blank⟩]).Seamless installed :=
    ⟨⟨rfl, trivial⟩, show ∀ entry ∈ _, Record.Fits _ by decide⟩
  have hlast := hinstalled.perform hfollow
    (Store.append_eq hinstalled.recorded.usable (List.cons_ne_nil _ _))
  obtain ⟨hgapless, -, -, hgrows⟩ := log_has_no_gaps hlast
  exact ⟨purged, _, hpurged, hlast, rfl, rfl, hgapless,
    hgrows _ purged (by exact ⟨_, rfl⟩) hpurged⟩

end Quorum
