import Quorum.Proofs.Storage.Obstruction

/-! # Where a purge cuts the log

A purge keeps the entries from the next index on, which are the ones behind the place it was
told. The greatest index has no next one, and a purge up to there breaks off before it has
removed anything. The same cut is made when a snapshot is taken over, whose last place nobody
checks: there everything else is done by then.
-/

namespace Quorum

/-- A cut at the next index keeps the entries behind an index. -/
theorem Log.entries_since_succ (log : Log) {index : UInt64}
    (h : index.toNat + 1 < UInt64.size) :
    (log.since (index + 1)).entries = log.entries.filter (fun entry => index < entry.id.index) := by
  refine List.filter_congr fun entry _ => ?_
  rw [decide_eq_decide, UInt64.le_iff_toNat_le, toNat_succ h, UInt64.lt_iff_toNat_lt,
    Nat.succ_le_iff]

namespace Operation

/-- The place that an operation purges the log up to, if it does. -/
def purgedTo? : Operation → Option LogId
  | .purge id => some id
  | .install snapshot => snapshot.description.lastLogId
  | .saveVote _ | .saveCommitted _ | .append _ | .deleteSince _ | .apply _ | .build => none

/-- Whether a snapshot that an operation is to take over can be restored. -/
def Readable {σ : Type} (machine : StateMachine σ) : Operation → Prop
  | .install snapshot => ∃ state, Store.Restores machine snapshot state
  | _ => True

/-- Whether an operation comes as far as a purge, if it has one. An installation does if its
snapshot can be restored and written to its file. -/
def ComesToPurge {σ : Type} (machine : StateMachine σ) (store : Store σ) : Operation → Prop
  | .install snapshot =>
      (∃ state, Store.Restores machine snapshot state) ∧ store.volume.TakesSnapshot
  | _ => True

end Operation

namespace Store

variable {σ : Type} {machine : StateMachine σ} {store next : Store σ} {operation : Operation}
  {id : LogId}

/-- Nothing but the files and the last index stands in the way of a purge. -/
theorem exists_purged (hpurges : operation.purgedTo? = some id) (husable : store.volume.Usable)
    (hreadable : operation.Readable machine) (hnext : id.HasNext) :
    ∃ next, operation.perform machine store = (next, .ok ()) := by
  cases operation with
  | purge other =>
      cases hpurges
      exact ⟨_, purge_eq husable hnext⟩
  | install snapshot =>
      obtain ⟨state, hstate⟩ := hreadable
      refine ⟨_, installSnapshot_eq husable hstate fun other hother => ?_⟩
      obtain rfl := Option.some.inj (hpurges.symm.trans hother)
      exact hnext
  | saveVote | saveCommitted | append | deleteSince | apply | build => cases hpurges

/-! ## Purges that are done -/

theorem eq_purged_of_purge (hdone : store.purge id = (next, .ok ())) :
    id.HasNext ∧ next = store.purged id := by
  have hnext := hasNext_of_purge hdone
  rw [purge_of_hasNext hnext] at hdone
  refine ⟨hnext, ?_⟩
  rcases store.dropThrough_cases id with
    hwhole | ⟨-, _, _, hfail, -⟩ | ⟨-, _, _, hfail, -⟩
  · rw [hwhole] at hdone
    exact (congrArg Prod.fst hdone).symm
  · rw [hfail] at hdone
    cases hdone
  · rw [hfail] at hdone
    cases hdone

/-- A purge that was done cut the log of the store, also at the end of an installation. -/
theorem eq_purged_of_done (hpurges : operation.purgedTo? = some id)
    (hdone : operation.perform machine store = (next, .ok ())) :
    id.HasNext ∧ ∃ before : Store σ, before.log = store.log ∧
      before.hardState = store.hardState ∧ next = before.purged id := by
  cases operation with
  | purge other =>
      cases hpurges
      obtain ⟨hnext, rfl⟩ := eq_purged_of_purge hdone
      exact ⟨hnext, store, rfl, rfl, rfl⟩
  | install snapshot =>
      cases installation_of_install hdone with
      | whole _ _ hnone => cases hnone.symm.trans hpurges
      | @purging state slot _ _ _ _ _ _ hlast hpurge =>
          cases hlast.symm.trans hpurges
          obtain ⟨hnext, rfl⟩ := eq_purged_of_purge hpurge
          exact ⟨hnext, store.published snapshot state slot, rfl, rfl, rfl⟩
  | saveVote | saveCommitted | append | deleteSince | apply | build => cases hpurges

/-! ## Purges that break off -/

theorem purge_eq_overflow_iff : (store.purge id).2 = .error .overflow ↔ ¬ id.HasNext := by
  by_cases hnext : id.HasNext
  · refine iff_of_false ?_ (not_not_intro hnext)
    rw [purge_of_hasNext hnext]
    cases (store.dropThrough id).2 <;> simp [reported]
  · rw [purge_of_not_hasNext hnext]
    exact iff_of_true rfl hnext

/-- An operation that purges breaks off just at the greatest index, if it comes that far. -/
theorem overflow_iff (hpurges : operation.purgedTo? = some id) :
    (operation.perform machine store).2 = .error .overflow ↔
      operation.ComesToPurge machine store ∧ ¬ id.HasNext := by
  cases operation with
  | purge other =>
      cases hpurges
      exact purge_eq_overflow_iff.trans ⟨fun hnext => ⟨trivial, hnext⟩, And.right⟩
  | install snapshot =>
      rcases hinstall : store.installSnapshot machine snapshot with ⟨next, result⟩
      rw [Operation.perform, hinstall]
      cases installation_of_install hinstall with
      | unread hunread =>
          refine iff_of_false (fun hoverflow => by cases hoverflow) ?_
          rintro ⟨⟨⟨state, hstate⟩, -⟩, -⟩
          exact hunread state hstate
      | unfiled _ hfile =>
          exact iff_of_false (fun hoverflow => by cases hoverflow) fun h => hfile h.1.2
      | whole _ _ hnone => cases hnone.symm.trans hpurges
      | purging hstate hfile _ hlast hpurge =>
          cases hlast.symm.trans hpurges
          have hresult := congrArg Prod.snd hpurge
          rw [← hresult, purge_eq_overflow_iff]
          exact (and_iff_right ⟨⟨_, hstate⟩, hfile⟩).symm
  | saveVote | saveCommitted | append | deleteSince | apply | build => cases hpurges

/-- What breaks off has touched neither the log nor the hard state, and none of their files. -/
theorem kept_of_overflow (hpurges : operation.purgedTo? = some id)
    (hoverflow : operation.perform machine store = (next, .error .overflow)) :
    next.log = store.log ∧ next.hardState = store.hardState ∧
      next.volume.log = store.volume.log ∧ next.volume.hardState = store.volume.hardState := by
  have hnext := ((overflow_iff hpurges).mp (congrArg Prod.snd hoverflow)).2
  cases operation with
  | purge other =>
      cases hpurges
      cases (purge_of_not_hasNext hnext).symm.trans hoverflow
      exact ⟨rfl, rfl, rfl, rfl⟩
  | install snapshot =>
      cases installation_of_install hoverflow with
      | purging _ _ _ hlast hpurge =>
          cases hlast.symm.trans hpurges
          cases (purge_of_not_hasNext hnext).symm.trans hpurge
          exact ⟨rfl, rfl, rfl, rfl⟩
  | saveVote | saveCommitted | append | deleteSince | apply | build => cases hpurges

/-- A purge up to a place of 64 bits is exact just if the index of the place has a next one. At
the greatest index it breaks off, also at the end of an installation, and the log and the hard
state stay as they were, in memory and in their files. Elsewhere it never does, and it is done
where the files can be written and a snapshot to be taken over can be restored. Whenever it is
done, the log consists of the earlier entries behind the place, the mark is at the place, and the
files hold the log and the marks that memory has. -/
theorem purge_exact_iff {setup : Setup σ} (hmachine : setup.machine.Recoverable)
    (reached : store.Reached setup) (hpurges : operation.purgedTo? = some id) :
    ((operation.perform setup.machine store).2 = .error .overflow ↔
      operation.ComesToPurge setup.machine store ∧ ¬ id.HasNext) ∧
    (∀ next, operation.perform setup.machine store = (next, .error .overflow) →
      next.log = store.log ∧ next.hardState = store.hardState ∧
      next.volume.log = store.volume.log ∧ next.volume.hardState = store.volume.hardState) ∧
    (store.volume.Usable → operation.Readable setup.machine →
      ((∃ next, operation.perform setup.machine store = (next, .ok ())) ↔ id.HasNext)) ∧
    ∀ next, operation.perform setup.machine store = (next, .ok ()) →
      next.hardState = { store.hardState with lastPurged := some id } ∧
      loadHardState next.volume.hardState = .ok next.hardState ∧
      next.volume.log.read = .ok (some (Record.frames next.log.records)) ∧
      loadLog next.volume.log = .ok (next.log, false) ∧
      next.log.entries = store.log.entries.filter (fun entry => id.index < entry.id.index) := by
  refine ⟨overflow_iff hpurges, fun next => kept_of_overflow hpurges, ?_, fun next hdone => ?_⟩
  · intro husable hreadable
    refine ⟨?_, exists_purged hpurges husable hreadable⟩
    rintro ⟨next, hdone⟩
    exact (eq_purged_of_done hpurges hdone).1
  obtain ⟨hnext, before, hlog, hhard, rfl⟩ := eq_purged_of_done hpurges hdone
  have hcut : (before.purged id).log = store.log.since (id.index + 1) := by
    rw [← hlog]
    rfl
  have hfits : ∀ entry ∈ (before.purged id).log.entries,
      Record.Fits (Entry.format.write entry) := by
    rw [hcut]
    exact fun entry hentry =>
      (reached.backed hmachine).log.fits entry (Log.mem_of_mem_filter hentry)
  refine ⟨?_, (holdsHardState_holding _).loaded, rfl, (holdsLog_holding hfits).loadLog, ?_⟩
  · rw [← hhard]
    rfl
  · rw [hcut]
    exact store.log.entries_since_succ hnext

/-- A purge up to the greatest index breaks off and removes nothing, and so does the installation
of a snapshot up to there, though the snapshot is the current one by then. A purge up to the entry
that is stored removes it. -/
theorem purge_to_greatest_breaks_off :
    let setup := Memory.setup ⟨"db-s"⟩ "raft_log.bin"
    let entry : Entry := ⟨⟨1, 1, 1⟩, .blank⟩
    let greatest : LogId := ⟨1, 1, 0xFFFFFFFFFFFFFFFF⟩
    let snapshot : Snapshot :=
      ⟨{ lastLogId := some greatest }, [1, 1, 1, 5, 0, 0, 0, 4, 0, 0, 0, 0]⟩
    ∃ store installed purged : Store Memory, store.Reached setup ∧ store.log.entries = [entry] ∧
      (Operation.purge greatest).perform setup.machine store = (store, .error .overflow) ∧
      (Operation.install snapshot).perform setup.machine store = (installed, .error .overflow) ∧
      installed.current = some snapshot ∧ installed.log.entries = [entry] ∧
      (Operation.purge entry.id).perform setup.machine store = (purged, .ok ()) ∧
      purged.log.entries = [] := by
  intro setup entry greatest snapshot
  have hsized : (Operation.append [entry]).Sized setup.machine setup.first :=
    show ∀ other ∈ [entry], Record.Fits (Entry.format.write other) by decide
  let store := (setup.first.append [entry]).1
  have reached : store.Reached setup :=
    .perform (.start setup.open_empty) hsized (show _ = (store, _) from rfl) (.inl rfl)
  let installed := (store.installSnapshot Memory.machine snapshot).1
  have hinstall : (Operation.install snapshot).perform setup.machine store =
      (installed, .error .overflow) := rfl
  have hpurge : (Operation.purge greatest).perform setup.machine store =
      (store, .error .overflow) := rfl
  obtain ⟨-, hkept, -, -⟩ := purge_exact_iff Memory.recoverable reached
    (show (Operation.install snapshot).purgedTo? = some greatest from rfl)
  obtain ⟨-, -, hdone, hexact⟩ := purge_exact_iff Memory.recoverable reached
    (show (Operation.purge entry.id).purgedTo? = some entry.id from rfl)
  have husable : store.volume.Usable := by
    refine ⟨⟨rfl, nofun, nofun⟩, ⟨rfl, nofun, nofun⟩, fun slot hslot => ?_⟩
    cases hslot
    exact ⟨rfl, nofun, nofun⟩
  obtain ⟨purged, hpurged⟩ := (hdone husable trivial).mpr (by decide)
  obtain ⟨hlog, -⟩ := hkept installed hinstall
  refine ⟨store, installed, purged, reached, rfl, hpurge, hinstall, rfl, ?_, hpurged, ?_⟩
  · rw [hlog]
    rfl
  · rw [(hexact purged hpurged).2.2.2.2]
    rfl

end Store
end Quorum
