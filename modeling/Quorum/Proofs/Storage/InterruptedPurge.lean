import Quorum.Proofs.Storage.Interruption

/-! # Interrupted purges

A purge replaces two files: first that of the log, from which entries are gone then, and
after it that of the hard state, which tells how far the log was purged. An interruption
between the two leaves a log that begins behind a place up to which, by the hard state, it
was never purged. Unless nothing or everything was to be purged, that log has a hole.
-/

namespace Quorum

variable {σ : Type} {store next : Store σ} {id : LogId} {volume : Volume}

/-! ## Unbroken logs -/

namespace Store

/-- The log holds an entry for each index after the place it was purged to, up to its last
place. -/
def Unbroken (store : Store σ) : Prop :=
  ∀ index, ¬ LogId.covers store.hardState.lastPurged index →
    LogId.covers store.lastLogId index → (store.log.get? index).isSome

/-- The log holds entries for just these indexes. -/
def Gapless (store : Store σ) : Prop :=
  ∀ index, (store.log.get? index).isSome ↔
    ¬ LogId.covers store.hardState.lastPurged index ∧ LogId.covers store.lastLogId index

/-- Behind the place a log was purged to, its last place covers what is not after an entry. -/
theorem covers_lastLogId_iff {index : UInt64}
    (h : ¬ LogId.covers store.hardState.lastPurged index) :
    LogId.covers store.lastLogId index ↔
      ∃ entry ∈ store.log.entries, index ≤ entry.id.index := by
  constructor
  · intro hcovers
    rw [lastLogId] at hcovers
    split at hcovers
    next entry hentry =>
      exact ⟨entry, List.mem_of_getLast? hentry, LogId.covers_some.mp hcovers⟩
    next => exact absurd hcovers h
  · rintro ⟨entry, hentry, hle⟩
    obtain ⟨last, hlast, hentryLe⟩ := Log.le_last hentry
    rw [lastLogId, hlast, LogId.covers_some]
    exact UInt64.le_trans hle hentryLe

theorem Gapless.unbroken (h : store.Gapless) : store.Unbroken :=
  fun index hnot hcovers => (h index).mpr ⟨hnot, hcovers⟩

/-- A log that lost nothing but what it tells to be purged is unbroken still. -/
theorem Gapless.unbroken_of_kept (h : store.Gapless)
    (hentries : ∀ entry ∈ next.log.entries, entry ∈ store.log.entries)
    (hpurged : ∀ index, LogId.covers store.hardState.lastPurged index →
      LogId.covers next.hardState.lastPurged index)
    (hkept : ∀ index, ¬ LogId.covers next.hardState.lastPurged index →
      (∃ entry ∈ next.log.entries, index ≤ entry.id.index) →
      next.log.get? index = store.log.get? index) : next.Unbroken := by
  intro index hnot hcovers
  obtain ⟨entry, hentry, hle⟩ := (covers_lastLogId_iff hnot).mp hcovers
  have hnotStore := fun hstore => hnot (hpurged index hstore)
  rw [hkept index hnot ⟨entry, hentry, hle⟩]
  exact (h index).mpr
    ⟨hnotStore, (covers_lastLogId_iff hnotStore).mpr ⟨entry, hentries entry hentry, hle⟩⟩

end Store

/-! ## Interruptions -/

/-- Where a purge is interrupted: before, between or after its two replacements. -/
inductive Stage where
  | before
  | between
  | after
  deriving DecidableEq, Repr

namespace Store

/-- The log file and the hard state that a purge puts in place of the old ones. -/
def purgedLog (store : Store σ) (id : LogId) : Bytes :=
  Record.frames (store.log.since (id.index + 1)).records

def purgedHardState (store : Store σ) (id : LogId) : HardState :=
  { store.hardState with lastPurged := some id }

/-- The files that a purge leaves when it is interrupted. Without a next index it does not come
to its replacements. -/
inductive Purging (store : Store σ) (id : LogId) : Stage → Volume → Prop where
  | untouched : Purging store id .before store.volume
  | before {slot : Slot} (hnext : id.HasNext)
      (h : store.volume.log.Unfinished (store.purgedLog id) slot) :
      Purging store id .before { store.volume with log := slot }
  | between {log slot : Slot} (hnext : id.HasNext)
      (hlog : store.volume.log.replace (store.purgedLog id) = (log, .ok ()))
      (h : store.volume.hardState.Unfinished
        (HardState.format.write (store.purgedHardState id)) slot) :
      Purging store id .between { store.volume with log, hardState := slot }
  | after {log slot : Slot} (hnext : id.HasNext)
      (hlog : store.volume.log.replace (store.purgedLog id) = (log, .ok ()))
      (h : store.volume.hardState.replace
        (HardState.format.write (store.purgedHardState id)) = (slot, .ok ())) :
      Purging store id .after { store.volume with log, hardState := slot }

/-- Whatever a purge reports, the files it leaves are left by an interruption too. -/
theorem Purging.of_purge (store : Store σ) (id : LogId) :
    ∃ stage, store.Purging id stage (store.purge id).1.volume := by
  by_cases hnext : id.HasNext
  · rw [purge_of_hasNext hnext]
    cases hlog : store.volume.log.replace (store.purgedLog id) with
    | mk log result =>
        cases result with
        | error cause =>
            refine ⟨.before, ?_⟩
            have hdrop : (store.dropThrough id).1.volume = { store.volume with log } := by
              simp only [purgedLog] at hlog
              simp only [dropThrough, rewriteLog, hlog]
            rw [hdrop]
            exact .before hnext (.of_failed hlog)
        | ok =>
            cases hhard : store.volume.hardState.replace
                (HardState.format.write (store.purgedHardState id)) with
            | mk slot result =>
                have hdrop : (store.dropThrough id).1.volume =
                    { store.volume with log, hardState := slot } := by
                  simp only [purgedLog, purgedHardState] at hlog hhard
                  simp only [dropThrough, rewriteLog, persistHardState, hlog, hhard]
                rw [hdrop]
                cases result with
                | error cause => exact ⟨.between, .between hnext hlog (.of_failed hhard)⟩
                | ok => exact ⟨.after, .after hnext hlog hhard⟩
  · rw [purge_of_not_hasNext hnext]
    exact ⟨.before, .untouched⟩

/-- What is found after an interruption. -/
def leftLog (store : Store σ) (id : LogId) : Stage → Log
  | .before => store.log
  | .between | .after => store.log.since (id.index + 1)

def leftHardState (store : Store σ) (id : LogId) : Stage → HardState
  | .before | .between => store.hardState
  | .after => store.purgedHardState id

variable {machine : StateMachine σ} {stage : Stage}

theorem Purging.hasNext (hleft : store.Purging id .between volume) : id.HasNext := by
  cases hleft
  assumption

theorem Purging.holds (h : store.Durable machine) (hleft : store.Purging id stage volume) :
    HoldsLog volume.log (store.leftLog id stage) ∧
      HoldsHardState volume.hardState (store.leftHardState id stage) ∧
      volume.snapshot = store.volume.snapshot := by
  have hlogUsable := h.log.usable
  have hhardUsable := h.hardState.usable
  have hpurged := (h.withLog_filter fun entry => decide (id.index + 1 ≤ entry.id.index)).log
  cases hleft with
  | untouched => exact ⟨h.log, h.hardState, rfl⟩
  | before _ hslot =>
      obtain ⟨husable, hfile⟩ := hslot.same_file hlogUsable
      exact ⟨h.log.of_file husable hfile, h.hardState, rfl⟩
  | between _ hlog hslot =>
      rw [Slot.replace_of_usable hlogUsable] at hlog
      obtain rfl := (Prod.mk.inj hlog).1
      obtain ⟨husable, hfile⟩ := hslot.same_file hhardUsable
      exact ⟨hpurged, h.hardState.of_file husable hfile, rfl⟩
  | after _ hlog hslot =>
      rw [Slot.replace_of_usable hlogUsable] at hlog
      obtain rfl := (Prod.mk.inj hlog).1
      rw [Slot.replace_of_usable hhardUsable] at hslot
      obtain rfl := (Prod.mk.inj hslot).1
      exact ⟨hpurged, holdsHardState_holding _, rfl⟩

/-! ## Where a hole is left -/

theorem Gapless.unbroken_before (h : store.Gapless) (hlog : next.log = store.log)
    (hhard : next.hardState = store.hardState) : next.Unbroken := by
  intro index hnot hcovers
  rw [lastLogId, hlog, hhard] at hcovers
  rw [hhard] at hnot
  rw [hlog]
  exact h.unbroken index hnot hcovers

/-- Between the replacements entries are gone that no file tells to be purged. -/
theorem Gapless.broken_between (h : store.Gapless)
    (hlog : next.log = store.log.since (id.index + 1))
    (hhard : next.hardState = store.hardState)
    (hnot : ¬ LogId.covers store.hardState.lastPurged id.index) {last : LogId}
    (hlast : store.lastLogId = some last) (hlt : id.index < last.index) : ¬ next.Unbroken := by
  intro hunbroken
  have hnotLast : ¬ LogId.covers store.hardState.lastPurged last.index :=
    fun hcovers => hnot (LogId.covers_of_le (UInt64.le_of_lt hlt) hcovers)
  have hcoversLast : LogId.covers store.lastLogId last.index := by
    rw [hlast, LogId.covers_some]
    exact UInt64.le_refl _
  obtain ⟨entry, hentry⟩ := Option.isSome_iff_exists.mp ((h last.index).mpr ⟨hnotLast, hcoversLast⟩)
  have hindex := Log.index_of_get? hentry
  have hkept : entry ∈ next.log.entries := by
    refine Log.get?_eq_some_iff.mp ?_
    rw [hlog, hindex, Log.get?_since_of_lt _ hlt]
    exact hentry
  rw [← hhard] at hnot
  have hcovers := (covers_lastLogId_iff hnot).mpr ⟨entry, hkept, hindex ▸ UInt64.le_of_lt hlt⟩
  have hnext : id.index.toNat + 1 < UInt64.size :=
    Nat.lt_of_le_of_lt (UInt64.lt_iff_toNat_lt.mp hlt) last.index.toNat_lt
  have hheld := hunbroken id.index hnot hcovers
  rw [hlog, Log.get?_since_succ _ hnext, if_pos (UInt64.le_refl _)] at hheld
  cases hheld

/-- Nothing is missing if nothing was to be purged, or all there was. -/
theorem Gapless.unbroken_between (h : store.Gapless) (hnext : id.HasNext)
    (hlog : next.log = store.log.since (id.index + 1))
    (hhard : next.hardState = store.hardState)
    (hid : LogId.covers store.hardState.lastPurged id.index ∨
      ∀ last ∈ store.lastLogId, last.index ≤ id.index) : next.Unbroken := by
  refine h.unbroken_of_kept ?_ (fun index hcovers => hhard ▸ hcovers) ?_
  · intro entry hentry
    rw [hlog] at hentry
    exact Log.mem_of_mem_filter hentry
  rintro index hnot ⟨entry, hentry, hle⟩
  rw [hhard] at hnot
  rw [hlog] at hentry ⊢
  rcases hid with hcovered | hall
  · refine store.log.get?_since_of_lt (UInt64.not_le.mp fun hindex => ?_)
    exact hnot (LogId.covers_of_le hindex hcovered)
  · -- Nothing is kept, for what is kept lies behind the last place.
    obtain ⟨hstored, hsince⟩ := List.mem_filter.mp hentry
    obtain ⟨last, hlast, hentryLe⟩ := Log.le_last hstored
    have hlastId : store.lastLogId = some last.id := by rw [lastLogId, hlast]
    have hbehind : id.index + 1 ≤ id.index :=
      UInt64.le_trans (of_decide_eq_true hsince) (UInt64.le_trans hentryLe (hall _ hlastId))
    rw [UInt64.le_iff_toNat_le, toNat_succ hnext] at hbehind
    exact absurd hbehind (Nat.not_succ_le_self _)

theorem Gapless.unbroken_after (h : store.Gapless)
    (hlog : next.log = store.log.since (id.index + 1))
    (hpurged : next.hardState.lastPurged = some id)
    (hid : ∀ purged ∈ store.hardState.lastPurged, purged.index ≤ id.index) :
    next.Unbroken := by
  refine h.unbroken_of_kept ?_ ?_ ?_
  · intro entry hentry
    rw [hlog] at hentry
    exact Log.mem_of_mem_filter hentry
  · intro index hcovers
    rw [hpurged, LogId.covers_some]
    cases hbefore : store.hardState.lastPurged with
    | none =>
        rw [hbefore] at hcovers
        cases hcovers
    | some purged =>
        rw [hbefore, LogId.covers_some] at hcovers
        exact UInt64.le_trans hcovers (hid purged hbefore)
  · intro index hnot _
    rw [hpurged, LogId.covers_some] at hnot
    rw [hlog]
    exact store.log.get?_since_of_lt (UInt64.not_le.mp hnot)

end Store

/-- After an interrupted purge the store can be opened. Its log is unbroken, unless the
purge was interrupted between its two replacements while some entries, but not all, were
to be purged: then there is a hole. -/
theorem interrupted_purge_unbroken_iff {setup : Setup σ} (hmachine : setup.machine.Recoverable)
    {events : List Event}
    (hrun : Run setup (fun store operation => operation.Sized setup.machine store) events store)
    (hgapless : store.Gapless)
    (hid : ∀ purged ∈ store.hardState.lastPurged, purged.index ≤ id.index)
    {stage : Stage} (hleft : store.Purging id stage volume) :
    ∃ reopened, setup.open volume = (volume, .ok reopened) ∧
      (reopened.Unbroken ↔ ¬ (stage = .between ∧
        ¬ LogId.covers store.hardState.lastPurged id.index ∧
        ∃ last ∈ store.lastLogId, id.index < last.index)) := by
  have hdurable := hrun.durable hmachine fun _ _ hallowed => hallowed
  obtain ⟨recovered, hrecovered, _⟩ := hdurable.loadSnapshot
  obtain ⟨hlog, hhard, hsnapshot⟩ := hleft.holds hdurable
  rw [← hsnapshot] at hrecovered
  refine ⟨_, Setup.open_eq hhard.loaded hlog.loadLog rfl hrecovered, ?_⟩
  have hleftLog := @Setup.store_log σ setup volume (store.leftLog id stage)
    (store.leftHardState id stage) recovered
  have hleftHard := @Setup.store_hardState σ setup volume (store.leftLog id stage)
    (store.leftHardState id stage) recovered
  cases stage with
  | before =>
      have hunbroken := hgapless.unbroken_before hleftLog hleftHard
      simp [hunbroken]
  | after =>
      have hunbroken :=
        hgapless.unbroken_after hleftLog (congrArg HardState.lastPurged hleftHard) hid
      simp [hunbroken]
  | between =>
      constructor
      · rintro hunbroken ⟨_, hnot, last, hlast, hlt⟩
        exact hgapless.broken_between hleftLog hleftHard hnot hlast hlt hunbroken
      · intro hnot
        refine hgapless.unbroken_between hleft.hasNext hleftLog hleftHard ?_
        by_cases hcovered : LogId.covers store.hardState.lastPurged id.index
        · exact .inl hcovered
        · refine .inr fun last hlast => UInt64.not_lt.mp fun hlt => ?_
          exact hnot ⟨rfl, hcovered, last, hlast, hlt⟩

theorem purge_between_leaves_hole :
    ∃ (store : Store Memory) (volume : Volume) (reopened : Store Memory),
      Run (Memory.setup ⟨"db-s"⟩ "raft_log.bin")
        (fun store operation => operation.Sized Memory.machine store)
        [.performed (.append
          [⟨⟨1, 1, 0⟩, .blank⟩, ⟨⟨1, 1, 1⟩, .blank⟩, ⟨⟨1, 1, 2⟩, .blank⟩])] store ∧
      store.Gapless ∧ store.Purging ⟨1, 1, 0⟩ .between volume ∧
      (Memory.setup ⟨"db-s"⟩ "raft_log.bin").open volume = (volume, .ok reopened) ∧
      ¬ reopened.Unbroken := by
  have hsized : Operation.Sized Memory.machine (Memory.setup ⟨"db-s"⟩ "raft_log.bin").first
      (.append [⟨⟨1, 1, 0⟩, .blank⟩, ⟨⟨1, 1, 1⟩, .blank⟩, ⟨⟨1, 1, 2⟩, .blank⟩]) :=
    show ∀ entry ∈ _, Record.Fits _ by decide
  let store := ((Memory.setup ⟨"db-s"⟩ "raft_log.bin").first.append
    [⟨⟨1, 1, 0⟩, .blank⟩, ⟨⟨1, 1, 1⟩, .blank⟩, ⟨⟨1, 1, 2⟩, .blank⟩]).1
  have hrun := Run.perform (.start (Setup.open_empty _)) hsized (show _ = (store, _) from rfl)
  have hgapless : store.Gapless := by
    intro index
    have hentries : store.log.entries =
        [⟨⟨1, 1, 0⟩, .blank⟩, ⟨⟨1, 1, 1⟩, .blank⟩, ⟨⟨1, 1, 2⟩, .blank⟩] := rfl
    have hlast : store.lastLogId = some ⟨1, 1, 2⟩ := rfl
    have hpurged : store.hardState.lastPurged = none := rfl
    rw [hlast, hpurged, Log.get?, hentries, LogId.covers_some, List.find?_isSome]
    simp [← UInt64.toNat_inj, UInt64.le_iff_toNat_le]
    omega
  have hleft : store.Purging ⟨1, 1, 0⟩ .between _ := .between (by decide) rfl .untouched
  obtain ⟨reopened, hopen, hiff⟩ :=
    interrupted_purge_unbroken_iff Memory.recoverable hrun hgapless (by rintro purged ⟨⟩) hleft
  refine ⟨store, _, reopened, hrun, hgapless, hleft, hopen, fun hunbroken => ?_⟩
  exact hiff.mp hunbroken ⟨rfl, by decide, _, rfl, by decide⟩

end Quorum
