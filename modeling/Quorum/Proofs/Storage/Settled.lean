import Quorum.Proofs.Storage.Oversized
import Quorum.Proofs.Storage.Seamless
import Quorum.Replica.Basic

/-! # Stores of a sole member

Where one node alone decides, its whole log is committed and applied whenever nothing is
under way. The files then hold the log, the hard state and the snapshot, and from the
snapshot the log leads back to the state. No entry is too long for that: if it is, the
files cannot be opened, and otherwise opening them finds everything again.
-/

namespace Quorum

namespace LogId

theorem le_refl (id : LogId) : id.le id = true := by
  simp [le]

theorem le_trans {a b c : LogId} (hab : a.le b = true) (hbc : b.le c = true) : a.le c = true := by
  simp only [le, Bool.or_eq_true, Bool.and_eq_true, decide_eq_true_eq, beq_iff_eq,
    UInt64.lt_iff_toNat_lt, UInt64.le_iff_toNat_le, ← UInt64.toNat_inj] at *
  omega

theorem le_antisymm {a b : LogId} (hab : a.le b = true) (hba : b.le a = true) : a = b := by
  have hparts : a.term = b.term ∧ a.node = b.node ∧ a.index = b.index := by
    simp only [le, Bool.or_eq_true, Bool.and_eq_true, decide_eq_true_eq, beq_iff_eq,
      UInt64.lt_iff_toNat_lt, UInt64.le_iff_toNat_le, ← UInt64.toNat_inj] at *
    omega
  cases a
  cases b
  simpa using hparts

theorem toNat_next {id : LogId} (h : id.index.toNat + 1 < UInt64.size) :
    (next (some id)).toNat = id.index.toNat + 1 :=
  toNat_succ h

/-- The place behind another one under a leadership. -/
abbrev successor (last : LogId) (term node : UInt64) : LogId :=
  ⟨term, node, last.index + 1⟩

/-- An index is not behind a place exactly if the place covers it. -/
theorem next_le_iff {place : Option LogId} (h : ∀ id ∈ place, id.index.toNat + 1 < UInt64.size)
    (index : UInt64) : next place ≤ index ↔ ¬ covers place index := by
  cases place with
  | none => simp [next, UInt64.le_iff_toNat_le]
  | some id =>
      rw [UInt64.le_iff_toNat_le, toNat_next (h id rfl), covers_some, UInt64.le_iff_toNat_le]
      omega

end LogId

namespace Log

variable {log : Log} {place : Option LogId} {entry : Entry}

/-- The entries that a commit up to a place applies. -/
theorem range_eq_between (h : ∀ id ∈ place, id.index.toNat + 1 < UInt64.size) (last : LogId) :
    log.range (LogId.next place) (some (last.index, true)) = log.between place (some last) := by
  refine List.filter_congr fun entry _ => ?_
  rw [Bool.eq_iff_iff]
  simp [LogId.next_le_iff h, LogId.covers]

theorem since_eq_after (h : ∀ id ∈ place, id.index.toNat + 1 < UInt64.size) :
    (log.since (LogId.next place)).entries = log.after place := by
  refine List.filter_congr fun entry _ => ?_
  rw [Bool.eq_iff_iff]
  simp [LogId.next_le_iff h]

theorem between_last (h : log.last? = some entry) :
    log.between place (some entry.id) = log.after place := by
  refine List.filter_congr fun other hother => ?_
  obtain ⟨last, hlast, hle⟩ := le_last hother
  obtain rfl : entry = last := Option.some.inj (h.symm.trans hlast)
  rw [LogId.covers_some.mpr hle, Bool.and_true]

/-- Behind a place that covers all entries is only what is added. -/
theorem after_insert (hcovered : ∀ other ∈ log.entries, LogId.covers place other.id.index)
    (hnew : ¬ LogId.covers place entry.id.index) : (log.insert entry).after place = [entry] := by
  have hbehind : ∀ other ∈ log.entries, other.id.index < entry.id.index := fun other hother =>
    UInt64.not_le.mp fun hle => hnew (LogId.covers_of_le hle (hcovered other hother))
  have hnone : log.entries.filter (fun other => !LogId.covers place other.id.index) = [] :=
    List.filter_eq_nil_iff.mpr fun other hother => by simp [hcovered other hother]
  change (log.insert entry).entries.filter (fun other => !LogId.covers place other.id.index) = _
  rw [entries_insert_of_behind hbehind, List.filter_append, hnone]
  simp [hnew]

theorem getLast?_after (h : log.last? = some entry) (hnew : ¬ LogId.covers place entry.id.index) :
    (log.after place).getLast? = some entry := by
  obtain ⟨before, hbefore⟩ := List.getLast?_eq_some_iff.mp h
  change (log.entries.filter fun other => !LogId.covers place other.id.index).getLast? = some entry
  rw [hbefore, List.filter_append]
  simp [hnew]

/-- The last entry stays the last one where the log is cut off in front of it. -/
theorem last?_since {index : UInt64} (h : log.last? = some entry)
    (hindex : index ≤ entry.id.index) :
    (log.since index).last? = some entry := by
  obtain ⟨before, hbefore⟩ := List.getLast?_eq_some_iff.mp h
  change (log.entries.filter (index ≤ ·.id.index)).getLast? = some entry
  rw [hbefore, List.filter_append]
  simp [hindex]

end Log

variable {σ : Type} {setup : Setup σ} {store next : Store σ} {entry : Entry}

/-- A membership in which one node alone decides. -/
structure Membership.Sole (membership : Membership) (number : UInt64) : Prop where
  decides : membership.isDecidedBy number = true
  votes : membership.isVoter number = true
  belongs : membership.contains number = true

/-- The membership that an entry sets. -/
def Entry.membership? (entry : Entry) : Option StoredMembership :=
  match entry.payload with
  | .membership membership => some ⟨some entry.id, membership⟩
  | _ => none

/-- The origin is where the current snapshot ends. -/
theorem Setup.Origin.lastApplied {origin : Progress σ} (h : setup.Origin origin store.current) :
    origin.lastApplied = store.snapshotPlace := by
  rw [Store.snapshotPlace]
  cases hcurrent : store.current with
  | none =>
      rw [hcurrent] at h
      exact congrArg Progress.lastApplied h
  | some snapshot =>
      rw [hcurrent] at h
      obtain ⟨_, _, rfl⟩ := h
      rfl

namespace Store

/-! ## Applying what is pending -/

theorem lastApplied_applyAll (machine : StateMachine σ) (store : Store σ) {entries : List Entry}
    (h : entries.getLast? = some entry) :
    (store.applyAll machine entries).1.lastApplied = some entry.id := by
  obtain ⟨before, rfl⟩ := List.getLast?_eq_some_iff.mp h
  rw [applyAll_append]
  exact lastApplied_applyEntry _ entry

theorem log_applyEntry (machine : StateMachine σ) (store : Store σ) (entry : Entry) :
    (store.applyEntry machine entry).1.log = store.log := by
  rw [applyEntry_eq_resume]
  rfl

/-- Whether the entries that a store has more than another one have some payloads only. -/
def Extends (before after : Store σ) (payloads : List Payload) : Prop :=
  ∀ entry ∈ after.log.entries, entry ∈ before.log.entries ∨ entry.payload ∈ payloads

namespace Extends

variable {before after : Store σ} {payloads : List Payload}

theorem refl (store : Store σ) : Extends store store payloads :=
  fun _ hentry => .inl hentry

theorem applyEntry (h : Extends before after payloads) (machine : StateMachine σ) (entry : Entry) :
    Extends before (after.applyEntry machine entry).1 payloads := by
  rw [Extends, log_applyEntry]
  exact h

end Extends

theorem lastMembership_applyEntry (machine : StateMachine σ) (store : Store σ) (entry : Entry) :
    (store.applyEntry machine entry).1.lastMembership =
      entry.membership?.getD store.lastMembership := by
  unfold applyEntry Entry.membership?
  cases entry.payload with
  | blank => rfl
  | normal data =>
      simp only [feed]
      split
      next => rfl
      next => split <;> rfl
  | membership membership => rfl

/-- The last membership of the log is in force once all of the log is applied. -/
theorem lastMembership_applyAll (machine : StateMachine σ) (store : Store σ)
    (entries : List Entry) :
    (store.applyAll machine entries).1.lastMembership =
      (entries.filterMap Entry.membership?).getLast?.getD store.lastMembership := by
  induction entries generalizing store with
  | nil => rfl
  | cons entry rest ih =>
      have hrest := ih (store.applyEntry machine entry).1
      rw [lastMembership_applyEntry] at hrest
      refine hrest.trans ?_
      cases hentry : entry.membership? with
      | none => simp [hentry]
      | some membership => simp [hentry, List.getLast?_cons]

theorem membership_eq (h : ∀ id ∈ store.lastApplied, id.index.toNat + 1 < UInt64.size) :
    store.membership =
      ((store.log.after store.lastApplied).filterMap Entry.membership?).getLast?.getD
        store.lastMembership := by
  rw [membership, pendingMemberships, Log.since_eq_after h]
  rfl

theorem lastLogId_of_last? (h : store.log.last? = some entry) :
    store.lastLogId = some entry.id := by
  rw [lastLogId, h]

/-- The last place of the log stays when the log is purged up to one of its entries. -/
theorem lastLogId_purged (hentry : entry ∈ store.log.entries) (hnext : entry.id.HasNext) :
    (store.purged entry.id).lastLogId = store.lastLogId := by
  obtain ⟨last, hlast, hle⟩ := Log.le_last hentry
  have hsucc := toNat_succ hnext
  rw [lastLogId_of_last? hlast]
  by_cases hbefore : entry.id.index < last.id.index
  · refine lastLogId_of_last? (Log.last?_since hlast ?_)
    rw [UInt64.le_iff_toNat_le, hsucc]
    exact UInt64.lt_iff_toNat_lt.mp hbefore
  · -- The entry is the last one, and nothing is kept behind it.
    have heq : entry.id.index = last.id.index :=
      UInt64.le_antisymm hle (UInt64.not_lt.mp hbefore)
    have hget := Log.get?_eq_some_iff.mpr hentry
    rw [heq, Log.get?_eq_some_iff.mpr (List.mem_of_getLast? hlast)] at hget
    obtain rfl := Option.some.inj hget
    have hnone : (store.purged last.id).log.last? = none := by
      refine List.getLast?_eq_none_iff.mpr (List.filter_eq_nil_iff.mpr fun other hother => ?_)
      obtain ⟨greatest, hgreatest, hother⟩ := Log.le_last hother
      obtain rfl := Option.some.inj (hlast.symm.trans hgreatest)
      have hother := UInt64.le_iff_toNat_le.mp hother
      rw [decide_eq_true_iff, UInt64.le_iff_toNat_le, hsucc]
      omega
    rw [lastLogId, hnone]
    rfl

/-! ## Files from which a restart recovers -/

/-- The files hold what is in memory, and the log leads from the snapshot to the state. -/
structure Filed (setup : Setup σ) (store : Store σ) : Prop where
  group : store.group = setup.group
  logPath : store.logPath = setup.logPath
  snapshotFile : store.volume.snapshot.isSome = setup.useSnapshot
  log : WritesLog store.volume.log store.log
  hardState : HoldsHardState store.volume.hardState store.hardState
  snapshot : ∀ slot ∈ store.volume.snapshot, HoldsSnapshot setup.machine slot store.current
  unfiled : store.volume.snapshot = none → store.current = none
  recovers : setup.Recovers store
  covered : store.hardState.lastPurged.isSome = true → store.current.isSome = true

/-- The store with its snapshots counted anew. -/
def recounted (store : Store σ) : Store σ :=
  { store with built := 0 }

/-- The store after it was noted that the log is committed up to a place. -/
def withCommitted (store : Store σ) (id : LogId) : Store σ :=
  store.withHardState { store.hardState with committed := some id }

/-- The store with one more entry in its log and at the end of the log file. -/
def withEntry (store : Store σ) (entry : Entry) : Store σ :=
  { store with
    log := store.log.insert entry
    volume := { store.volume with
      log := { store.volume.log with
        file := .file (store.volume.log.content ++ Record.frames [Entry.format.write entry]) } } }

theorem extends_withEntry (store : Store σ) (entry : Entry) :
    Extends store (store.withEntry entry) [entry.payload] := by
  intro other hother
  rcases Ascending.mem_put hother with rfl | hbefore
  · exact .inr (List.mem_singleton_self _)
  · exact .inl hbefore

theorem extends_purged (store : Store σ) (id : LogId) : Extends store (store.purged id) [] :=
  fun _ hentry => .inl (Log.mem_of_mem_filter hentry)

theorem append_singleton (h : store.volume.Usable) (entry : Entry) :
    store.append [entry] = (store.withEntry entry, .ok ()) :=
  append_eq h (List.cons_ne_nil entry [])

theorem foldl_withEntry (store : Store σ) (entry : Entry) (rest : List Entry) :
    (entry :: rest).foldl withEntry store =
      { store with
        log := store.log.insertAll (entry :: rest)
        volume := { store.volume with
          log := { store.volume.log with
            file := .file (store.volume.log.content ++
              Record.frames ((entry :: rest).map Entry.format.write)) } } } := by
  induction rest generalizing store entry with
  | nil => rfl
  | cons other rest ih =>
      have hcontent : (store.withEntry entry).volume.log.content =
        store.volume.log.content ++ Record.frames [Entry.format.write entry] := rfl
      rw [List.foldl_cons, ih (store.withEntry entry) other, hcontent, List.append_assoc,
        ← Record.frames_append]
      rfl

/-- Entries that are written together are written one after the other. -/
theorem append_eq_foldl (h : store.volume.Usable) (entries : List Entry) :
    store.append entries = (entries.foldl withEntry store, .ok ()) := by
  cases entries with
  | nil => rfl
  | cons entry rest =>
      rw [append_eq h (List.cons_ne_nil entry rest), foldl_withEntry]

/-- Files for which nothing was written yet. -/
theorem filed_first (setup : Setup σ) : Filed setup setup.first where
  group := rfl
  logPath := rfl
  snapshotFile := by
    obtain ⟨machine, fresh, group, logPath, useSnapshot⟩ := setup
    cases useSnapshot <;> rfl
  log := ⟨setup.durable_first.log.usable, rfl, List.forall_mem_nil _⟩
  hardState := setup.durable_first.hardState
  snapshot := setup.durable_first.snapshot
  unfiled := fun _ => rfl
  recovers := ⟨⟨setup.fresh, none, {}⟩, rfl, Replays.refl setup.machine setup.first⟩
  covered := fun hpurged => by cases hpurged

namespace Filed

theorem usable (h : Filed setup store) : store.volume.Usable where
  log := h.log.usable
  hardState := h.hardState.usable
  snapshot := fun slot hslot => (h.snapshot slot hslot).usable

theorem withEntry (h : Filed setup store)
    (hbehind : ∀ other ∈ store.log.entries, other.id.index < entry.id.index)
    (hnew : ¬ LogId.covers store.lastApplied entry.id.index)
    (hfits : (Entry.format.write entry).Fits) : Filed setup (store.withEntry entry) where
  group := h.group
  logPath := h.logPath
  snapshotFile := h.snapshotFile
  log := h.log.append hbehind hfits
  hardState := h.hardState
  snapshot := h.snapshot
  unfiled := h.unfiled
  recovers := by
    obtain ⟨origin, horigin, hreplays⟩ := h.recovers
    refine ⟨origin, horigin, hreplays.congr rfl fun index _ hcovers => ?_⟩
    have hother : entry.id.index ≠ index := by
      rintro rfl
      exact hnew hcovers
    exact (store.log.get?_insert entry index).trans (if_neg hother)
  covered := h.covered

theorem withHardState (h : Filed setup store) {hardState : HardState}
    (hpurged : hardState.lastPurged.isSome = true → store.current.isSome = true) :
    Filed setup (store.withHardState hardState) where
  group := h.group
  logPath := h.logPath
  snapshotFile := h.snapshotFile
  log := h.log
  hardState := holdsHardState_holding hardState
  snapshot := h.snapshot
  unfiled := h.unfiled
  recovers := by
    obtain ⟨origin, horigin, hreplays⟩ := h.recovers
    exact ⟨origin, horigin, hreplays.congr rfl fun _ _ _ => rfl⟩
  covered := hpurged

theorem applyAll (h : Filed setup store) {entries : List Entry}
    (hentries : entries <+: store.log.after store.lastApplied) :
    Filed setup (store.applyAll setup.machine entries).1 := by
  obtain ⟨origin, horigin, hreplays⟩ := h.recovers
  have hrecovers := hreplays.applyAll hentries
  rw [applyAll_eq_resume] at hrecovers ⊢
  exact ⟨h.group, h.logPath, h.snapshotFile, h.log, h.hardState, h.snapshot, h.unfiled,
    ⟨origin, horigin, hrecovers⟩, h.covered⟩

/-- Only what the current snapshot covers may be purged. -/
theorem purged (h : Filed setup store) {id : LogId}
    (hcovered : LogId.covers store.snapshotPlace id.index) : Filed setup (store.purged id) where
  group := h.group
  logPath := h.logPath
  snapshotFile := h.snapshotFile
  log := .holding fun entry hentry => h.log.fits entry (Log.mem_of_mem_filter hentry)
  hardState := holdsHardState_holding _
  snapshot := h.snapshot
  unfiled := h.unfiled
  recovers := by
    obtain ⟨origin, horigin, hreplays⟩ := h.recovers
    refine ⟨origin, horigin, hreplays.congr rfl fun index hnot _ => ?_⟩
    have hbehind : ¬ index ≤ id.index := by
      intro hle
      rw [horigin.lastApplied] at hnot
      exact hnot (LogId.covers_of_le hle hcovered)
    exact store.log.get?_since_of_lt (UInt64.not_le.mp hbehind)
  covered := fun _ => by
    rw [snapshotPlace] at hcovered
    cases hcurrent : store.current with
    | none => simp [hcurrent] at hcovered
    | some snapshot => exact congrArg Option.isSome hcurrent

/-- A snapshot of a state from which the machine can be restored. -/
theorem built (h : Filed setup store) (hmachine : setup.machine.Faithful)
    (hfile : setup.useSnapshot = true) {bytes : Bytes}
    (hbytes : setup.machine.snapshot store.state = .ok bytes)
    (hfits : (Snapshot.format.write (store.nextSnapshot bytes)).Fits) :
    Filed setup
      { store.withSnapshot (store.nextSnapshot bytes) with built := store.built + 1 } := by
  have hrestore := hmachine _ _ hbytes (fits_state_of_nextSnapshot hfits)
  have hrestores := restores_nextSnapshot hfits hrestore
  have hfiled : store.volume.snapshot.isSome = true := h.snapshotFile.trans hfile
  refine ⟨h.group, h.logPath, ?snapshotFile, h.log, h.hardState, ?snapshot, ?unfiled, ?recovers,
    fun _ => rfl⟩
  case snapshotFile => exact Option.isSome_map.trans h.snapshotFile
  case snapshot =>
    intro slot hslot
    obtain ⟨before, _, rfl⟩ := Option.map_eq_some_iff.mp hslot
    exact holdsSnapshot_holding hfits hrestores
  case unfiled =>
    intro hnone
    rw [Option.map_eq_none_iff.mp hnone] at hfiled
    cases hfiled
  case recovers =>
    exact ⟨store.progress, ⟨store.state, hrestores, rfl⟩,
      (Replays.refl setup.machine store).congr rfl fun _ _ _ => rfl⟩

/-! ## Opening the files again -/

theorem durable (h : Filed setup store) (hlog : HoldsLog store.volume.log store.log) :
    store.Durable setup.machine :=
  ⟨hlog, h.hardState, h.snapshot⟩

/-- Where no entry is too long for its length the files can be opened. -/
theorem opens (h : Filed setup store)
    (hfits : ∀ entry ∈ store.log.entries, Record.Fits (Entry.format.write entry)) :
    ∃ reopened, setup.open store.volume = (store.volume, .ok reopened) := by
  obtain ⟨reopened, hopen, -⟩ := Setup.reopened_durable (h.durable (h.log.holdsLog hfits))
  exact ⟨reopened, hopen⟩

/-- Whenever the files can be opened, log, hard state and snapshot are found in them. -/
theorem reopened (h : Filed setup store) {after : Volume}
    (hdone : setup.open store.volume = (after, .ok next)) :
    after = store.volume ∧ ∃ recovered, recovered.map Prod.fst = store.current ∧
      (∀ snapshot state, recovered = some (snapshot, state) →
        Restores setup.machine snapshot state) ∧
      next = setup.store store.volume store.log store.hardState recovered := by
  have hlog : HoldsLog store.volume.log store.log := by
    cases hload : loadLog store.volume.log with
    | ok loaded => exact h.log.holdsLog_of_loaded hload
    | error failure => simp [Setup.open, Store.open, h.hardState.loaded, hload] at hdone
  have hdurable := h.durable hlog
  obtain ⟨recovered, hrecovered, hcurrent, hrestores⟩ := hdurable.loadSnapshot
  rw [Setup.open_durable hdurable hrecovered] at hdone
  cases hdone
  refine ⟨rfl, recovered, ?_, hrestores, rfl⟩
  cases hslot : store.volume.snapshot with
  | some slot => exact hcurrent (by rw [hslot]; rfl)
  | none =>
      rw [hslot] at hrecovered
      cases hrecovered
      exact (h.unfiled hslot).symm

/-- The files are still good for another restart. -/
theorem reopen (h : Filed setup store) {after : Volume}
    (hdone : setup.open store.volume = (after, .ok next)) :
    after = store.volume ∧ Filed setup next := by
  obtain ⟨hvolume, recovered, hcurrent, hrestores, rfl⟩ := h.reopened hdone
  refine ⟨hvolume, ?_⟩
  have horigin := @Setup.origin_store σ setup store.volume store.log store.hardState recovered
    hrestores
  constructor
  case group => cases recovered <;> rfl
  case logPath => cases recovered <;> rfl
  case recovers => exact ⟨_, horigin, .refl setup.machine _⟩
  all_goals simp only [Setup.store_volume, Setup.store_log, Setup.store_hardState,
    Setup.store_current, hcurrent]
  case snapshotFile => exact h.snapshotFile
  case log => exact h.log
  case hardState => exact h.hardState
  case snapshot => exact h.snapshot
  case unfiled => exact h.unfiled
  case covered => exact h.covered

theorem resume_progress {recovered : Option (Snapshot × σ)} (hgroup : store.group = setup.group)
    (hpath : store.logPath = setup.logPath) (hcurrent : recovered.map Prod.fst = store.current) :
    (setup.store store.volume store.log store.hardState recovered).resume store.progress =
      store.recounted := by
  obtain ⟨group, logPath, volume, log, hardState, state, lastApplied, lastMembership, built,
    current⟩ := store
  obtain rfl : group = setup.group := hgroup
  obtain rfl : logPath = setup.logPath := hpath
  obtain rfl : recovered.map Prod.fst = current := hcurrent
  cases recovered <;> rfl

/-- Applying the stored entries behind the snapshot makes the store what it was, except that
snapshots are counted anew. -/
theorem replayed (h : Filed setup store) {after : Volume}
    (hdone : setup.open store.volume = (after, .ok next)) :
    (next.applyAll setup.machine (store.log.between next.lastApplied store.lastApplied)).1 =
      store.recounted := by
  obtain ⟨-, recovered, hcurrent, hrestores, rfl⟩ := h.reopened hdone
  obtain ⟨origin, horigin, hreplays⟩ := h.recovers
  have hreopened := @Setup.origin_store σ setup store.volume store.log store.hardState recovered
    hrestores
  rw [Setup.store_current, hcurrent] at hreopened
  obtain rfl := horigin.unique hreopened
  have hprogress : ((setup.store store.volume store.log store.hardState recovered).applyAll
      setup.machine (store.log.between
        (setup.store store.volume store.log store.hardState recovered).lastApplied
        store.lastApplied)).1.progress = store.progress := by
    refine (progress_applyAll ?_ _).trans hreplays.replayed
    rfl
  rw [applyAll_eq_resume, hprogress]
  exact resume_progress h.group h.logPath hcurrent

end Filed

/-! ## Settled stores -/

/-- What is true between two steps of a member that alone decides: its last entry is committed
and applied, and its vote is for itself. -/
structure Settled (setup : Setup σ) (number term : UInt64) (last : LogId) (store : Store σ) : Prop
    extends Filed setup store where
  vote : store.hardState.vote = some ⟨term, number, true⟩
  committed : store.hardState.committed = some last
  lastLogId : store.lastLogId = some last
  lastApplied : store.lastApplied = some last
  behind : last.le ⟨term, number, last.index⟩ = true
  membership : store.lastMembership.membership.Sole number
  place : ∀ id ∈ store.snapshotPlace, id.le last = true

/-- A store is settled once what is pending was committed and applied. -/
theorem Filed.settled (h : Filed setup store) {number term : UInt64}
    (hvote : store.hardState.vote = some ⟨term, number, true⟩)
    (hlast : store.log.last? = some entry)
    (hbehind : entry.id.le ⟨term, number, entry.id.index⟩ = true)
    (hnew : ¬ LogId.covers store.lastApplied entry.id.index)
    (hnext : ∀ id ∈ store.lastApplied, id.index.toNat + 1 < UInt64.size)
    (hmembership : store.membership.membership.Sole number)
    (hplace : ∀ id ∈ store.snapshotPlace, id.le entry.id = true) :
    Settled setup number term entry.id
      ((store.withCommitted entry.id).applyAll setup.machine
        (store.log.after store.lastApplied)).1 := by
  have hmarked : Filed setup (store.withCommitted entry.id) := h.withHardState h.covered
  have hfiled := hmarked.applyAll (List.prefix_refl _)
  have happlied := lastApplied_applyAll setup.machine (store.withCommitted entry.id)
    (Log.getLast?_after hlast hnew)
  have hinForce := lastMembership_applyAll setup.machine (store.withCommitted entry.id)
    (store.log.after store.lastApplied)
  rw [membership_eq hnext] at hmembership
  refine ⟨hfiled, ?vote, ?committed, ?lastLogId, happlied, hbehind, ?membership, ?place⟩
  case membership => exact hinForce ▸ hmembership
  all_goals rw [applyAll_eq_resume]
  case vote => exact hvote
  case committed => rfl
  case lastLogId => exact lastLogId_of_last? hlast
  case place => exact hplace

namespace Settled

variable {number term : UInt64} {last : LogId}

theorem index_le (h : Settled setup number term last store) :
    ∀ other ∈ store.log.entries, other.id.index ≤ last.index := by
  intro other hother
  obtain ⟨final, hfinal, hle⟩ := Log.le_last hother
  have hlast := h.lastLogId
  rw [lastLogId_of_last? hfinal] at hlast
  exact Option.some.inj hlast ▸ hle

theorem lastApplied_lt (h : Settled setup number term last store)
    (hindex : last.index.toNat + 1 < UInt64.size) :
    ∀ id ∈ store.lastApplied, id.index.toNat + 1 < UInt64.size := by
  intro id hid
  obtain rfl : last = id := Option.some.inj (h.lastApplied.symm.trans hid)
  exact hindex

theorem not_covered (h : Settled setup number term last store)
    (hindex : last.index.toNat + 1 < UInt64.size) :
    ¬ LogId.covers store.lastApplied (last.index + 1) := by
  rw [h.lastApplied, LogId.covers_some, UInt64.not_le]
  exact lt_succ hindex

/-- All of the log is applied. -/
theorem between_eq_after (h : Settled setup number term last store) (place : Option LogId) :
    store.log.between place store.lastApplied = store.log.after place := by
  refine List.filter_congr fun other hother => ?_
  rw [h.lastApplied, LogId.covers_some.mpr (h.index_le other hother), Bool.and_true]

theorem after_lastApplied (h : Settled setup number term last store) :
    store.log.after store.lastApplied = [] := by
  rw [← h.between_eq_after, Log.between_self]

/-- The membership in force is the last one of the log. -/
theorem membership_sole (h : Settled setup number term last store)
    (hindex : last.index.toNat + 1 < UInt64.size) : store.membership.membership.Sole number := by
  rw [membership_eq (h.lastApplied_lt hindex), h.after_lastApplied]
  exact h.membership

theorem after_withEntry (h : Settled setup number term last store)
    (hindex : last.index.toNat + 1 < UInt64.size) (payload : Payload) :
    (store.withEntry ⟨last.successor term number, payload⟩).log.after store.lastApplied =
      [⟨last.successor term number, payload⟩] := by
  refine Log.after_insert (fun other hother => ?_) (h.not_covered hindex)
  rw [h.lastApplied, LogId.covers_some]
  exact h.index_le other hother

theorem behind_lastLogId (h : Settled setup number term last store)
    (hindex : last.index.toNat + 1 < UInt64.size) :
    (last.index + 1).toNat = LogId.behind store.lastLogId := by
  rw [h.lastLogId, toNat_succ hindex]
  rfl

/-- An entry that the member writes, and what it may set, leave the member alone in charge. -/
theorem membership_withEntry (h : Settled setup number term last store)
    (hindex : last.index.toNat + 1 < UInt64.size) {payload : Payload}
    (hpayload : ∀ membership, payload = .membership membership → membership.Sole number) :
    (store.withEntry ⟨last.successor term number, payload⟩).membership.membership.Sole number := by
  have hnext : ∀ id ∈ (store.withEntry ⟨last.successor term number, payload⟩).lastApplied,
      id.index.toNat + 1 < UInt64.size := h.lastApplied_lt hindex
  rw [membership_eq hnext]
  have hafter := h.after_withEntry hindex payload
  rw [show (store.withEntry ⟨last.successor term number, payload⟩).lastApplied =
    store.lastApplied from rfl, hafter]
  cases payload with
  | blank | normal data => exact h.membership
  | membership membership => exact hpayload membership rfl

theorem write (h : Settled setup number term last store)
    (hindex : last.index.toNat + 1 < UInt64.size) {payload : Payload}
    (hpayload : ∀ membership, payload = .membership membership → membership.Sole number)
    (hfits : payload.Fits) :
    let entry : Entry := ⟨last.successor term number, payload⟩
    Settled setup number term entry.id
      (((store.withEntry entry).withCommitted entry.id).applyEntry setup.machine entry).1 := by
  intro entry
  have hlt := lt_succ hindex
  have hbehind : ∀ other ∈ store.log.entries, other.id.index < last.index + 1 :=
    fun other hother => UInt64.lt_of_le_of_lt (h.index_le other hother) hlt
  have hnew := h.not_covered hindex
  have hfiled : Filed setup (store.withEntry entry) :=
    h.toFiled.withEntry hbehind hnew (hfits.entry _)
  have hplace : ∀ id ∈ (store.withEntry entry).snapshotPlace, id.le entry.id = true := by
    intro id hid
    refine LogId.le_trans (h.place id hid) (LogId.le_trans h.behind ?_)
    simp [LogId.le, entry, UInt64.le_of_lt hlt]
  have hsettled := hfiled.settled h.vote (Log.last?_insert hbehind) (LogId.le_refl _) hnew
    (h.lastApplied_lt hindex) (h.membership_withEntry hindex hpayload) hplace
  have hafter : (store.withEntry entry).log.after (store.withEntry entry).lastApplied = [entry] :=
    h.after_withEntry hindex payload
  rw [hafter] at hsettled
  exact hsettled

/-- A later vote for itself. -/
theorem voted (h : Settled setup number term last store)
    (hterm : term.toNat + 1 < UInt64.size) :
    Settled setup number (term + 1) last
      (store.withHardState { store.hardState with vote := some ⟨term + 1, number, true⟩ }) where
  toFiled := h.toFiled.withHardState h.covered
  vote := rfl
  committed := h.committed
  lastLogId := h.lastLogId
  lastApplied := h.lastApplied
  behind := by
    have hbehind := h.behind
    have hnext := toNat_succ hterm
    simp only [LogId.le, Bool.or_eq_true, Bool.and_eq_true, decide_eq_true_eq, beq_iff_eq,
      UInt64.lt_iff_toNat_lt, UInt64.le_iff_toNat_le, ← UInt64.toNat_inj] at hbehind ⊢
    omega
  membership := h.membership
  place := h.place

theorem built (h : Settled setup number term last store) (hmachine : setup.machine.Faithful)
    (hfile : setup.useSnapshot = true) {bytes : Bytes}
    (hbytes : setup.machine.snapshot store.state = .ok bytes)
    (hfits : (Snapshot.format.write (store.nextSnapshot bytes)).Fits) :
    Settled setup number term last
      { store.withSnapshot (store.nextSnapshot bytes) with built := store.built + 1 } where
  toFiled := h.toFiled.built hmachine hfile hbytes hfits
  vote := h.vote
  committed := h.committed
  lastLogId := h.lastLogId
  lastApplied := h.lastApplied
  behind := h.behind
  membership := h.membership
  place := by
    intro id hid
    obtain rfl : last = id := Option.some.inj (h.lastApplied.symm.trans hid)
    exact LogId.le_refl last

/-- The last place of the log stays when the log is purged up to one of its entries. -/
theorem purged (h : Settled setup number term last store) (hentry : entry ∈ store.log.entries)
    (hindex : last.index.toNat + 1 < UInt64.size)
    (hcovered : LogId.covers store.snapshotPlace entry.id.index) :
    Settled setup number term last (store.purged entry.id) where
  toFiled := h.toFiled.purged hcovered
  vote := h.vote
  committed := h.committed
  lastLogId := by
    refine (lastLogId_purged hentry ?_).trans h.lastLogId
    have hle := UInt64.le_iff_toNat_le.mp (h.index_le entry hentry)
    exact Nat.lt_of_le_of_lt (Nat.succ_le_succ hle) hindex
  lastApplied := h.lastApplied
  behind := h.behind
  membership := h.membership
  place := h.place

/-- A member whose files are opened again makes up for all that it had applied, from its
snapshot if that does not end where the log does. -/
theorem reopened (h : Settled setup number term last store)
    (hindex : last.index.toNat + 1 < UInt64.size) {after : Volume}
    (hdone : setup.open store.volume = (after, .ok next)) :
    next.log = store.log ∧ next.hardState = store.hardState ∧
      if LogId.optionLe (some last) next.lastApplied then next = store.recounted
      else (next.applyAll setup.machine (next.log.range (LogId.next next.lastApplied)
        (some (last.index, true)))).1 = store.recounted := by
  have hreplayed := h.toFiled.replayed hdone
  obtain ⟨-, recovered, hcurrent, -, rfl⟩ := h.toFiled.reopened hdone
  have happlied : (setup.store store.volume store.log store.hardState recovered).lastApplied =
      store.snapshotPlace := by
    rw [Setup.lastApplied_store, snapshotPlace, Setup.store_current, hcurrent, snapshotPlace]
  rw [h.lastApplied, happlied] at hreplayed
  refine ⟨Setup.store_log, Setup.store_hardState, ?_⟩
  rw [happlied]
  split
  case isTrue hle =>
    cases hplace : store.snapshotPlace with
    | none => simp [hplace, LogId.optionLe] at hle
    | some id =>
        rw [hplace] at hle hreplayed
        obtain rfl : last = id := LogId.le_antisymm hle (h.place id hplace)
        rw [Log.between_self] at hreplayed
        exact hreplayed
  case isFalse =>
    obtain ⟨origin, horigin, hreplays⟩ := h.recovers
    have hnext : ∀ id ∈ store.snapshotPlace, id.index.toNat + 1 < UInt64.size := by
      intro id hid
      have hcovers : LogId.covers store.lastApplied id.index := by
        refine hreplays.covers ?_
        rw [horigin.lastApplied]
        exact LogId.covers_self hid
      rw [h.lastApplied, LogId.covers_some, UInt64.le_iff_toNat_le] at hcovers
      omega
    rw [Setup.store_log, Log.range_eq_between hnext]
    exact hreplayed

theorem recounted (h : Settled setup number term last store) :
    Settled setup number term last store.recounted := by
  obtain ⟨origin, horigin, hreplays⟩ := h.recovers
  exact ⟨⟨h.group, h.logPath, h.snapshotFile, h.log, h.hardState, h.snapshot, h.unfiled,
    ⟨origin, horigin, hreplays.congr rfl fun _ _ _ => rfl⟩, h.covered⟩, h.vote, h.committed,
    h.lastLogId, h.lastApplied, h.behind, h.membership, h.place⟩

end Settled
end Store
end Quorum
