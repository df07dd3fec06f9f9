import Quorum.Proofs.Storage.Settled

/-! # All that was ever written

The log of a member that decides alone only grows, and what is purged of it was applied. From
the list of all entries that were ever written everything else follows: which of them are
stored behind the snapshot, and how far the state machine has come.
-/

namespace Quorum

/-! ## Consecutive entries -/

namespace Consecutive

variable {first : Nat} {entries more : List Entry} {entry : Entry}

theorem append (h : Consecutive first entries)
    (hmore : Consecutive (first + entries.length) more) : Consecutive first (entries ++ more) := by
  induction entries generalizing first with
  | nil => exact hmore
  | cons head rest ih =>
      refine ⟨h.1, ih h.2 ?_⟩
      rwa [Nat.add_assoc, Nat.add_comm 1, ← List.length_cons]

theorem index_eq {position : Nat} (h : Consecutive first entries)
    (hentry : entries[position]? = some entry) : entry.id.index.toNat = first + position := by
  induction entries generalizing first position with
  | nil => cases hentry
  | cons head rest ih =>
      cases position with
      | zero =>
          obtain rfl := Option.some.inj hentry
          exact h.1
      | succ position =>
          rw [ih h.2 hentry, Nat.add_assoc, Nat.add_comm 1]

/-- From the beginning on, an entry stands where its index says. -/
theorem getElem?_index (h : Consecutive 0 entries) (hentry : entry ∈ entries) :
    entries[entry.id.index.toNat]? = some entry := by
  obtain ⟨position, hposition⟩ := List.mem_iff_getElem?.mp hentry
  rwa [h.index_eq hposition, Nat.zero_add]

theorem lt_of_mem (h : Consecutive first entries) (hentry : entry ∈ entries) :
    first ≤ entry.id.index.toNat := by
  obtain ⟨position, hposition⟩ := List.mem_iff_getElem?.mp hentry
  rw [h.index_eq hposition]
  exact Nat.le_add_right first position

theorem ascending (h : Consecutive first entries) : Ascending (·.id.index) entries := by
  induction entries generalizing first with
  | nil => exact .nil
  | cons head rest ih =>
      refine List.pairwise_cons.mpr ⟨fun other hother => ?_, ih h.2⟩
      rw [UInt64.lt_iff_toNat_lt, h.1]
      exact h.2.lt_of_mem hother

theorem behind_last (h : Consecutive 0 entries) :
    LogId.behind (entries.getLast?.map (·.id)) = entries.length := by
  cases hlast : entries.getLast? with
  | none =>
      rw [List.getLast?_eq_none_iff.mp hlast]
      rfl
  | some last =>
      obtain ⟨before, rfl⟩ := List.getLast?_eq_some_iff.mp hlast
      have hindex : last.id.index.toNat = 0 + before.length :=
        h.index_eq List.getElem?_concat_length
      simp [LogId.behind, hindex]

end Consecutive

/-! ## Progress from the beginning -/

variable {σ : Type} {setup : Setup σ} {ledger : List Entry} {store next : Store σ} {entry : Entry}

/-- How far entries lead from the first state of the machine. -/
def Setup.reached (setup : Setup σ) (entries : List Entry) : Progress σ :=
  (setup.first.applyAll setup.machine entries).1.progress

theorem Setup.reached_concat (h : store.progress = setup.reached ledger) (entry : Entry) :
    (store.applyEntry setup.machine entry).1.progress = setup.reached (ledger ++ [entry]) := by
  rw [reached, Store.applyAll_append]
  exact Store.progress_applyEntry h entry

/-- What is done to a store beside the writing and applying of entries: votes and commits are
noted, snapshots are taken, and entries that the snapshot covers are purged. -/
def Operation.Aside (setup : Setup σ) (store : Store σ) : Operation → Prop
  | .saveVote _ | .saveCommitted _ => True
  | .build => setup.useSnapshot = true ∧ Operation.build.Sized setup.machine store
  | .purge id => (∃ entry ∈ store.log.entries, entry.id = id) ∧
      LogId.covers store.snapshotPlace id.index
  | .append _ | .apply _ | .deleteSince _ | .install _ => False

namespace Store

theorem lastApplied_append (store : Store σ) (entries : List Entry) :
    (store.append entries).1.lastApplied = store.lastApplied := by
  unfold append
  split <;> rfl

/-- A store in which a ledger was written. -/
structure Records (setup : Setup σ) (ledger : List Entry) (store : Store σ) : Prop
    extends Filed setup store where
  consecutive : Consecutive 0 ledger
  lastLogId : store.lastLogId = ledger.getLast?.map (·.id)
  stored : ∀ index, ¬ LogId.covers store.snapshotPlace index →
    store.log.get? index = ledger[index.toNat]?
  progress : store.progress = setup.reached (ledger.take (LogId.behind store.lastApplied))
  origin : setup.Origin (setup.reached (ledger.take (LogId.behind store.snapshotPlace)))
    store.current
  place : LogId.behind store.snapshotPlace ≤ LogId.behind store.lastApplied
  applied : LogId.behind store.lastApplied ≤ ledger.length

theorem records_first (setup : Setup σ) : Records setup [] setup.first where
  toFiled := filed_first setup
  consecutive := trivial
  lastLogId := rfl
  stored := fun _ _ => rfl
  progress := rfl
  origin := rfl
  place := Nat.le_refl 0
  applied := Nat.le_refl 0

namespace Records

theorem behind_lastLogId (h : Records setup ledger store) :
    LogId.behind store.lastLogId = ledger.length := by
  rw [h.lastLogId]
  exact h.consecutive.behind_last

theorem index_lt (h : Records setup ledger store) (hentry : entry ∈ store.log.entries) :
    entry.id.index.toNat < ledger.length := by
  obtain ⟨last, hlast, hle⟩ := Log.le_last hentry
  rw [← h.behind_lastLogId, lastLogId_of_last? hlast]
  exact Nat.lt_succ_of_le (UInt64.le_iff_toNat_le.mp hle)

/-- Behind the snapshot the log is what was written. -/
theorem after_eq (h : Records setup ledger store) {place : Option LogId}
    (hplace : LogId.behind store.snapshotPlace ≤ LogId.behind place) :
    store.log.after place = ledger.drop (LogId.behind place) := by
  have hascending := h.consecutive.ascending.sublist (List.drop_sublist (LogId.behind place) ledger)
  refine Ascending.eq_of_mem_iff (store.log.ascending.filter _) hascending fun entry => ?_
  have hstored : LogId.behind place ≤ entry.id.index.toNat →
      store.log.get? entry.id.index = ledger[entry.id.index.toNat]? := fun hle => by
    refine h.stored _ fun hcovers => ?_
    have hlt := LogId.covers_iff_lt_behind.mp hcovers
    omega
  refine Log.mem_after.trans ?_
  rw [LogId.covers_iff_lt_behind, Nat.not_lt, ← Log.get?_eq_some_iff]
  constructor
  · rintro ⟨hget, hle⟩
    rw [hstored hle] at hget
    refine List.mem_iff_getElem?.mpr ⟨entry.id.index.toNat - LogId.behind place, ?_⟩
    rwa [List.getElem?_drop, Nat.add_sub_cancel' hle]
  · intro hdrop
    obtain ⟨position, hposition⟩ := List.mem_iff_getElem?.mp hdrop
    rw [List.getElem?_drop] at hposition
    have hindex := h.consecutive.index_eq hposition
    have hle : LogId.behind place ≤ entry.id.index.toNat := by omega
    rw [hstored hle, hindex, Nat.zero_add]
    exact ⟨hposition, Nat.le_add_right _ _⟩

theorem after_lastApplied (h : Records setup ledger store) :
    store.log.after store.lastApplied = ledger.drop (LogId.behind store.lastApplied) :=
  h.after_eq h.place

/-! ## Writing and applying -/

theorem withEntry (h : Records setup ledger store)
    (hindex : entry.id.index.toNat = ledger.length) (hfits : (Entry.format.write entry).Fits) :
    Records setup (ledger ++ [entry]) (store.withEntry entry) := by
  have hbehind : ∀ other ∈ store.log.entries, other.id.index < entry.id.index :=
    fun other hother => UInt64.lt_iff_toNat_lt.mpr (hindex ▸ h.index_lt hother)
  have hnew : ¬ LogId.covers store.lastApplied entry.id.index := by
    rw [LogId.covers_iff_lt_behind, hindex]
    exact Nat.not_lt.mpr h.applied
  have htake : ∀ count ≤ ledger.length, (ledger ++ [entry]).take count = ledger.take count :=
    fun count hcount => List.take_append_of_le_length hcount
  refine ⟨h.toFiled.withEntry hbehind hnew hfits, ?consecutive, ?lastLogId, ?stored, ?progress,
    ?origin, h.place, ?applied⟩
  case consecutive => exact h.consecutive.append ⟨by rw [hindex, Nat.zero_add], trivial⟩
  case lastLogId =>
    rw [List.getLast?_concat]
    exact lastLogId_of_last? (Log.last?_insert hbehind)
  case stored =>
    intro index hcovers
    refine (store.log.get?_insert entry index).trans ?_
    split
    case isTrue heq => rw [← heq, hindex, List.getElem?_concat_length]
    case isFalse hne =>
      have hother : index.toNat ≠ ledger.length := fun heq =>
        hne (UInt64.toNat_inj.mp (hindex.trans heq.symm))
      rw [h.stored index hcovers, List.getElem?_append]
      split
      next => rfl
      next hle => simp [List.getElem?_eq_none (Nat.not_lt.mp hle), show
        index.toNat - ledger.length ≠ 0 by omega]
  case progress => exact h.progress.trans (congrArg setup.reached (htake _ h.applied).symm)
  case origin =>
    have horigin := h.origin
    rw [← htake _ (Nat.le_trans h.place h.applied)] at horigin
    exact horigin
  case applied => exact Nat.le_trans h.applied (by simp)

theorem append (h : Records setup ledger store) {entries : List Entry}
    (hentries : Consecutive (LogId.behind store.lastLogId) entries)
    (hfits : ∀ entry ∈ entries, (Entry.format.write entry).Fits)
    (hdone : store.append entries = (next, .ok ())) :
    Records setup (ledger ++ entries) next := by
  rw [h.behind_lastLogId] at hentries
  obtain rfl : entries.foldl Store.withEntry store = next := by
    rw [append_eq_foldl h.usable] at hdone
    exact congrArg Prod.fst hdone
  clear hdone
  induction entries generalizing ledger store with
  | nil => simpa using h
  | cons entry rest ih =>
      have hone := h.withEntry hentries.1 (hfits entry List.mem_cons_self)
      rw [List.append_cons]
      refine ih hone ?_ fun other hother => hfits other (List.mem_cons_of_mem entry hother)
      rw [List.length_append]
      exact hentries.2

theorem next_eq (h : Records setup ledger store) {rest : List Entry}
    (hnext : store.log.after store.lastApplied = entry :: rest) :
    ledger[LogId.behind store.lastApplied]? = some entry ∧
      entry.id.index.toNat = LogId.behind store.lastApplied := by
  have hentry : ledger[LogId.behind store.lastApplied]? = some entry := by
    rw [← Nat.add_zero (LogId.behind store.lastApplied), ← List.getElem?_drop,
      ← h.after_lastApplied, hnext]
    rfl
  exact ⟨hentry, (h.consecutive.index_eq hentry).trans (Nat.zero_add _)⟩

theorem applyEntry (h : Records setup ledger store) {rest : List Entry}
    (hnext : store.log.after store.lastApplied = entry :: rest) :
    Records setup ledger (store.applyEntry setup.machine entry).1 := by
  obtain ⟨hentry, hindex⟩ := h.next_eq hnext
  obtain ⟨hlt, -⟩ := List.getElem?_eq_some_iff.mp hentry
  have hone : LogId.behind (some entry.id) = LogId.behind store.lastApplied + 1 :=
    congrArg (· + 1) hindex
  have hprefix : [entry] <+: store.log.after store.lastApplied := ⟨rest, hnext.symm⟩
  have hfiled := h.toFiled.applyAll hprefix
  have hprogress := Setup.reached_concat h.progress entry
  have happlied : (store.applyEntry setup.machine entry).1.lastApplied = some entry.id :=
    lastApplied_applyEntry store entry
  have htake : ledger.take (LogId.behind store.lastApplied) ++ [entry] =
      ledger.take (LogId.behind (some entry.id)) := by
    rw [hone, List.take_add_one, hentry, Option.toList_some]
  rw [htake, ← happlied] at hprogress
  refine ⟨hfiled, h.consecutive, ?lastLogId, ?stored, hprogress, ?origin, ?place, ?applied⟩
  case place =>
    rw [happlied, hone]
    rw [applyEntry_eq_resume]
    exact Nat.le_succ_of_le h.place
  case applied => rw [happlied, hone]; exact hlt
  all_goals rw [applyEntry_eq_resume]
  case lastLogId => exact h.lastLogId
  case stored => exact h.stored
  case origin => exact h.origin

/-! ## Beside the entries -/

theorem withHardState (h : Records setup ledger store) {hardState : HardState}
    (hpurged : hardState.lastPurged = store.hardState.lastPurged) :
    Records setup ledger (store.withHardState hardState) where
  toFiled := h.toFiled.withHardState (hpurged ▸ h.covered)
  consecutive := h.consecutive
  lastLogId := by
    rw [← h.lastLogId, Store.lastLogId, Store.lastLogId, ← hpurged]
    rfl
  stored := h.stored
  progress := h.progress
  origin := h.origin
  place := h.place
  applied := h.applied

theorem built (h : Records setup ledger store) (hmachine : setup.machine.Faithful)
    (hfile : setup.useSnapshot = true) {bytes : Bytes}
    (hbytes : setup.machine.snapshot store.state = .ok bytes)
    (hfits : (Snapshot.format.write (store.nextSnapshot bytes)).Fits) :
    Records setup ledger
      { store.withSnapshot (store.nextSnapshot bytes) with built := store.built + 1 } where
  toFiled := h.toFiled.built hmachine hfile hbytes hfits
  consecutive := h.consecutive
  lastLogId := h.lastLogId
  stored := fun index hcovers => by
    refine h.stored index fun hbefore => hcovers ?_
    refine LogId.covers_iff_lt_behind.mpr (Nat.lt_of_lt_of_le ?_ h.place)
    exact LogId.covers_iff_lt_behind.mp hbefore
  progress := h.progress
  origin := by
    have hrestore := hmachine _ _ hbytes (fits_state_of_nextSnapshot hfits)
    exact ⟨store.state, restores_nextSnapshot hfits hrestore, h.progress.symm⟩
  place := Nat.le_refl _
  applied := h.applied

theorem purged (h : Records setup ledger store) (hentry : entry ∈ store.log.entries)
    (hnext : entry.id.HasNext) (hcovered : LogId.covers store.snapshotPlace entry.id.index) :
    Records setup ledger (store.purged entry.id) where
  toFiled := h.toFiled.purged hcovered
  consecutive := h.consecutive
  lastLogId := (lastLogId_purged hentry hnext).trans h.lastLogId
  stored := fun index hcovers => by
    rw [← h.stored index hcovers]
    refine store.log.get?_since_of_lt (UInt64.not_le.mp fun hle => hcovers ?_)
    exact LogId.covers_of_le hle hcovered
  progress := h.progress
  origin := h.origin
  place := h.place
  applied := h.applied

theorem aside (h : Records setup ledger store) (hmachine : setup.machine.Faithful)
    {operation : Operation} (haside : operation.Aside setup store)
    (hdone : operation.perform setup.machine store = (next, .ok ())) :
    Records setup ledger next ∧ next.lastApplied = store.lastApplied := by
  cases operation with
  | saveVote vote =>
      rw [Operation.perform, saveVote_eq h.usable] at hdone
      cases hdone
      exact ⟨h.withHardState rfl, rfl⟩
  | saveCommitted committed =>
      rw [Operation.perform, saveCommitted_eq h.usable] at hdone
      cases hdone
      exact ⟨h.withHardState rfl, rfl⟩
  | build =>
      obtain ⟨hfile, hsized⟩ := haside
      have hbuild := @buildSnapshot_eq σ setup.machine store h.usable
      cases hbytes : setup.machine.snapshot store.state with
      | error failure =>
          rw [hbytes] at hbuild
          simp [Operation.perform, hbuild, Except.map] at hdone
      | ok bytes =>
          rw [hbytes] at hbuild
          rw [Operation.perform, hbuild] at hdone
          cases hdone
          exact ⟨h.built hmachine hfile hbytes (hsized _ (congrArg Prod.snd hbuild)), rfl⟩
  | purge id =>
      obtain ⟨⟨entry, hentry, rfl⟩, hcovered⟩ := haside
      have hnext := hasNext_of_purge hdone
      rw [Operation.perform, purge_eq h.usable hnext] at hdone
      cases hdone
      exact ⟨h.purged hentry hnext hcovered, rfl⟩
  | append | apply | deleteSince | install => exact haside.elim

/-- A store whose files are opened again is where its snapshot ends. -/
theorem reopened (h : Records setup ledger store) {after : Volume}
    (hdone : setup.open store.volume = (after, .ok next)) :
    after = store.volume ∧ Records setup ledger next := by
  obtain ⟨hvolume, hfiled⟩ := h.toFiled.reopen hdone
  obtain ⟨-, recovered, hcurrent, hrestores, rfl⟩ := h.toFiled.reopened hdone
  have hreopened := @Setup.origin_store σ setup store.volume store.log store.hardState recovered
    hrestores
  have hplace : (setup.store store.volume store.log store.hardState recovered).snapshotPlace =
      store.snapshotPlace := by
    rw [snapshotPlace, Setup.store_current, hcurrent, snapshotPlace]
  have happlied := hreopened.lastApplied
  rw [hplace] at happlied
  have horigin := h.origin
  rw [Setup.store_current, hcurrent] at hreopened
  refine ⟨hvolume, hfiled, h.consecutive, ?lastLogId, ?stored, ?progress, ?origin, ?place, ?applied⟩
  case lastLogId =>
    rw [← h.lastLogId, Store.lastLogId, Setup.store_log, Setup.store_hardState]
    rfl
  case stored =>
    rw [hplace, Setup.store_log]
    exact h.stored
  case progress =>
    rw [show (setup.store store.volume store.log store.hardState recovered).lastApplied =
      store.snapshotPlace from happlied]
    exact hreopened.unique horigin
  case origin =>
    rw [hplace, Setup.store_current, hcurrent]
    exact horigin
  case place => exact Nat.le_of_eq (congrArg LogId.behind (hplace.trans happlied.symm))
  case applied =>
    rw [show (setup.store store.volume store.log store.hardState recovered).lastApplied =
      store.snapshotPlace from happlied]
    exact Nat.le_trans h.place h.applied

end Records

/-! ## Without commands -/

/-- The stores to which a member comes from one that it has, while it writes no command. -/
inductive Tended (setup : Setup σ) (before : Store σ) : Store σ → Prop where
  | refl : Tended setup before before
  | write {store next : Store σ} {entry : Entry} (tended : Tended setup before store)
      (hindex : entry.id.index.toNat = LogId.behind store.lastLogId)
      (hcommand : ∀ data, entry.payload ≠ .normal data)
      (hfits : (Entry.format.write entry).Fits)
      (hdone : store.append [entry] = (next, .ok ())) : Tended setup before next
  | apply {store : Store σ} {entry : Entry} {rest : List Entry}
      (tended : Tended setup before store)
      (hnext : store.log.after store.lastApplied = entry :: rest) :
      Tended setup before (store.applyEntry setup.machine entry).1
  | aside {store next : Store σ} {operation : Operation} (tended : Tended setup before store)
      (haside : operation.Aside setup store)
      (hdone : operation.perform setup.machine store = (next, .ok ())) : Tended setup before next

theorem Tended.trans {before : Store σ} (h : Tended setup before store)
    (hnext : Tended setup store next) : Tended setup before next := by
  induction hnext with
  | refl => exact h
  | write _ hindex hcommand hfits hdone ih => exact ih.write hindex hcommand hfits hdone
  | apply _ hnext ih => exact ih.apply hnext
  | aside _ haside hdone ih => exact ih.aside haside hdone

theorem Tended.applyAll {before : Store σ} (h : Tended setup before store) {entries : List Entry}
    (hentries : entries <+: store.log.after store.lastApplied) :
    Tended setup before (store.applyAll setup.machine entries).1 := by
  induction entries generalizing store with
  | nil => exact h
  | cons entry rest ih =>
      obtain ⟨more, hmore⟩ := hentries
      refine @ih (store.applyEntry setup.machine entry).1 (h.apply hmore.symm) ?_
      rw [lastApplied_applyEntry, log_applyEntry, Log.after_next hmore.symm]
      exact List.prefix_append rest more

/-- An entry without a command that a settled member writes, commits and applies. -/
theorem Settled.tended_write {number term : UInt64} {last : LogId}
    (h : Settled setup number term last store) (hindex : last.index.toNat + 1 < UInt64.size)
    {payload : Payload} (hcommand : ∀ data, payload ≠ .normal data) (hfits : payload.Fits) :
    let entry : Entry := ⟨last.successor term number, payload⟩
    Tended setup store
      (((store.withEntry entry).withCommitted entry.id).applyEntry setup.machine entry).1 := by
  intro entry
  have husable : (store.withEntry entry).volume.Usable :=
    ⟨Slot.usable_append h.usable.log _, h.usable.hardState, h.usable.snapshot⟩
  have hwritten : Tended setup store (store.withEntry entry) :=
    Tended.refl.write (h.behind_lastLogId hindex) hcommand (hfits.entry _)
      (append_singleton h.usable entry)
  have haside : (Operation.saveCommitted (some entry.id)).Aside setup (store.withEntry entry) :=
    trivial
  have hcommitted : Tended setup store ((store.withEntry entry).withCommitted entry.id) :=
    hwritten.aside haside (saveCommitted_eq husable _)
  exact hcommitted.apply (h.after_withEntry hindex payload)

/-- A settled member whose files are opened again applies what lies behind its snapshot. -/
theorem Settled.tended_reopened {number term : UInt64} {last : LogId}
    (h : Settled setup number term last store) {after : Volume}
    (hdone : setup.open store.volume = (after, .ok next)) :
    Tended setup next store.recounted := by
  have hreplayed := h.toFiled.replayed hdone
  obtain ⟨-, recovered, -, -, rfl⟩ := h.toFiled.reopened hdone
  rw [h.between_eq_after] at hreplayed
  rw [← hreplayed]
  exact Tended.refl.applyAll (Setup.store_log ▸ List.prefix_rfl)

end Store
end Quorum
