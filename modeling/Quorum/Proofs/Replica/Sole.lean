import Quorum.Proofs.Stepping
import Quorum.Proofs.Storage.Ledger
import Quorum.Replica.Answer
import Quorum.Replica.Leadership

/-! # Replicas that decide alone

A replica that is the only member of its group commits and applies what it writes at once,
and leads as soon as it stands for election. A restart finds it where it was.
-/

namespace Quorum

variable {σ : Type} {setup : Setup σ} {replica : Replica σ} {number term : UInt64} {last : LogId}

namespace Replica

/-- The replica with another store. -/
def withStore (replica : Replica σ) (store : Store σ) : Replica σ :=
  { replica with store }

theorem withStore_of_role (h : replica.role = .leader) (store : Store σ) :
    { replica with store, role := .leader } = replica.withStore store := by
  rw [withStore, ← h]

/-- The replica in the role that follows from its vote and membership. -/
def inProperRole (replica : Replica σ) : Replica σ :=
  { replica with role := replica.properRole }

theorem properRole_of_sole
    (hvote : replica.store.hardState.vote = some ⟨term, replica.number, true⟩)
    (hmembership : replica.membership.Sole replica.number) : replica.properRole = .leader := by
  have hown : replica.vote = ⟨term, replica.number, true⟩ := by rw [vote, hvote]; rfl
  simp [properRole, isLeading, hown, hmembership.belongs]

end Replica

namespace Step

/-! ## Running steps -/

theorem run_store {α : Type} (operation : Store σ → Store σ × Except (Halt StorageError) α) :
    (store operation).run replica =
      ((operation replica.store).2, replica.withStore (operation replica.store).1) :=
  rfl

theorem run_get : (get : Step σ (Replica σ)).run replica = (.ok replica, replica) :=
  rfl

theorem run_takeRole : (takeRole : Step σ Unit).run replica = (.ok (), replica.inProperRole) :=
  rfl

theorem run_append {entry : Entry} (h : replica.store.volume.Usable) :
    (append [entry]).run replica =
      (.ok (), (replica.withStore (replica.store.withEntry entry)).inProperRole) := by
  rw [append, run_bind, run_store, Store.append_singleton h]
  rfl

/-- What is not committed yet is noted to be and then applied. -/
theorem run_commit (machine : StateMachine σ) {id : LogId} (h : replica.store.volume.Usable)
    (hbehind : LogId.optionLe (some id) replica.store.lastApplied = false) :
    (commit machine (some id)).run replica =
      let applied := (replica.store.withCommitted id).applyAll machine
        (replica.store.log.range (LogId.next replica.store.lastApplied) (some (id.index, true)))
      (.ok applied.2, replica.withStore applied.1) := by
  have hcommitted : ¬ LogId.optionLe (some id) replica.committed = true := by
    simpa [Replica.committed] using hbehind
  rw [commit, run_bind, run_get]
  simp only [if_neg hcommitted]
  rw [run_bind, run_store, Store.saveCommitted_eq h]
  rfl

theorem run_commit_of_le (machine : StateMachine σ) {place : Option LogId}
    (h : LogId.optionLe place replica.store.lastApplied = true) :
    (commit machine place).run replica = (.ok [], replica) := by
  have hcommitted : LogId.optionLe place replica.committed = true := h
  rw [commit, run_bind, run_get]
  cases place with
  | none => rfl
  | some id => simp only [if_pos hcommitted]; rfl

theorem run_commitAlone (machine : StateMachine σ)
    (h : replica.membership.isDecidedBy replica.number = true) :
    (commitAlone machine).run replica =
      (commit machine replica.store.lastLogId).run replica := by
  rw [commitAlone, run_bind, run_get]
  simp only [if_pos h]

/-! ## Writing -/

/-- An entry that leaves the replica alone in charge is committed and applied at once, with
all that was pending. -/
theorem run_write (machine : StateMachine σ) (entry : Entry) (hid : entry.id = nextId replica)
    (husable : replica.store.volume.Usable)
    (hvote : replica.store.hardState.vote = some ⟨term, replica.number, true⟩)
    (hlast : (replica.store.log.insert entry).last? = some entry)
    (hbehind : LogId.optionLe (some entry.id) replica.store.lastApplied = false)
    (hnext : ∀ id ∈ replica.store.lastApplied, id.index.toNat + 1 < UInt64.size)
    (hmembership : (replica.store.withEntry entry).membership.membership.Sole replica.number) :
    let store := replica.store.withEntry entry
    let applied := (store.withCommitted entry.id).applyAll machine
      (store.log.after store.lastApplied)
    (write machine entry.payload).run replica =
      (.ok applied.2, { replica with store := applied.1, role := .leader }) := by
  intro store applied
  let written : Replica σ := { replica with store, role := .leader }
  have hrole : (replica.withStore store).properRole = .leader :=
    Replica.properRole_of_sole hvote hmembership
  have hwritten : (replica.withStore store).inProperRole = written := by
    rw [Replica.inProperRole, hrole]
    rfl
  have hdecides : written.membership.isDecidedBy written.number = true := hmembership.decides
  have hlastLogId : written.store.lastLogId = some entry.id := Store.lastLogId_of_last? hlast
  have hstored : written.store.volume.Usable :=
    ⟨Slot.usable_append husable.log _, husable.hardState, husable.snapshot⟩
  have hpending : written.store.log.range (LogId.next written.store.lastApplied)
      (some (entry.id.index, true)) = store.log.after store.lastApplied :=
    (Log.range_eq_between hnext _).trans (Log.between_last hlast)
  rw [write, run_bind, run_get]
  simp only [← hid]
  rw [run_bind, run_append husable]
  simp only
  rw [hwritten, run_commitAlone machine hdecides, hlastLogId, run_commit machine hstored hbehind,
    hpending]
  rfl

/-- A settled replica that leads. -/
structure Leads (setup : Setup σ) (term : UInt64) (last : LogId) (replica : Replica σ) : Prop where
  role : replica.role = .leader
  settled : replica.store.Settled setup replica.number term last

namespace Leads

theorem nextId_eq (h : Leads setup term last replica) :
    nextId replica = last.successor term replica.number := by
  rw [nextId, Replica.vote, h.settled.vote, h.settled.lastLogId]
  rfl

/-- What a replica in charge writes is applied and answered at once. -/
theorem write (h : Leads setup term last replica) (hindex : last.index.toNat + 1 < UInt64.size)
    {payload : Payload}
    (hpayload : ∀ membership, payload = .membership membership → membership.Sole replica.number)
    (hfits : payload.Fits) :
    let entry : Entry := ⟨last.successor term replica.number, payload⟩
    let applied := ((replica.store.withEntry entry).withCommitted entry.id).applyEntry
      setup.machine entry
    (Step.write setup.machine payload).run replica =
        (.ok [applied.2], replica.withStore applied.1) ∧
      replica.store.Extends applied.1 [payload] ∧
      Leads setup term entry.id (replica.withStore applied.1) := by
  intro entry applied
  have hsettled := h.settled
  have hlt := lt_succ hindex
  have hbehind : LogId.optionLe (some entry.id) replica.store.lastApplied = false := by
    rw [hsettled.lastApplied, LogId.optionLe, ← Bool.not_eq_true]
    intro hle
    have hbefore := LogId.le_trans hle hsettled.behind
    simp [LogId.le, entry, UInt64.not_le.mpr hlt] at hbefore
  have hlast : (replica.store.log.insert entry).last? = some entry :=
    Log.last?_insert fun other hother =>
      UInt64.lt_of_le_of_lt (hsettled.index_le other hother) hlt
  have hmembership := hsettled.membership_withEntry hindex hpayload
  have hafter : (replica.store.withEntry entry).log.after
      (replica.store.withEntry entry).lastApplied = [entry] :=
    hsettled.after_withEntry hindex payload
  have hrun := run_write setup.machine entry h.nextId_eq.symm hsettled.usable hsettled.vote hlast
    hbehind (hsettled.lastApplied_lt hindex) hmembership
  simp only [Replica.withStore_of_role h.role, hafter] at hrun
  have hwritten : replica.store.Extends
      ((replica.store.withEntry entry).withCommitted entry.id) [payload] :=
    replica.store.extends_withEntry entry
  exact ⟨hrun, hwritten.applyEntry setup.machine entry, h.role,
    hsettled.write hindex hpayload hfits⟩

end Leads

/-! ## Standing for election -/

/-- A replica that is alone is elected by its own vote, whatever it was before. -/
theorem run_elect (machine : StateMachine σ) (husable : replica.store.volume.Usable)
    (hmembership : replica.membership.Sole replica.number) :
    let store := replica.store.withHardState { replica.store.hardState with
      vote := some ⟨replica.vote.term + 1, replica.number, true⟩ }
    (elect machine).run replica =
      (do let _ ← write machine .blank : Step σ Unit).run
        { replica with store, role := .leader } := by
  intro store
  let candidate : Replica σ := (replica.withStore (replica.store.withHardState
    { replica.store.hardState with
      vote := some ⟨replica.vote.term + 1, replica.number, false⟩ })).inProperRole
  have hstored : candidate.store.volume.Usable :=
    ⟨husable.log, Slot.usable_holding _, husable.snapshot⟩
  have hrole : (candidate.withStore store).properRole = .leader :=
    Replica.properRole_of_sole rfl hmembership
  have hled : (candidate.withStore store).inProperRole =
      { replica with store, role := .leader } := by
    rw [Replica.inProperRole, hrole]
    rfl
  rw [elect, run_bind, run_get]
  simp only [if_pos hmembership.decides]
  rw [run_bind, run_store, Store.saveVote_eq husable]
  simp only
  rw [run_bind, run_takeRole]
  simp only
  rw [lead, run_bind, run_get]
  simp only
  rw [run_bind, run_store, Store.saveVote_eq hstored]
  simp only
  rw [run_bind, run_takeRole]
  exact congrArg (do let _ ← write machine .blank : Step σ Unit).run hled

theorem Leads.elect (h : Leads setup term last replica)
    (hindex : last.index.toNat + 1 < UInt64.size) (hterm : term.toNat + 1 < UInt64.size) :
    ∃ store : Store σ, (Step.elect setup.machine).run replica = (.ok (), replica.withStore store) ∧
      replica.store.Tended setup store ∧ replica.store.Extends store [.blank] ∧
      Leads setup (term + 1) (last.successor (term + 1) replica.number)
        (replica.withStore store) := by
  let vote : Vote := ⟨term + 1, replica.number, true⟩
  let voted := replica.withStore
    (replica.store.withHardState { replica.store.hardState with vote := some vote })
  have hvoted : Leads setup (term + 1) last voted := ⟨h.role, h.settled.voted hterm⟩
  have hterm : replica.vote.term = term := by
    rw [Replica.vote, h.settled.vote]
    rfl
  have helect := run_elect setup.machine h.settled.usable (h.settled.membership_sole hindex)
  simp only [hterm, Replica.withStore_of_role h.role] at helect
  obtain ⟨hrun, hextends, hleads⟩ := hvoted.write hindex (by simp) Payload.fits_blank
  have haside : (Operation.saveVote vote).Aside setup replica.store := trivial
  have hvote : replica.store.Tended setup voted.store :=
    Store.Tended.refl.aside haside (Store.saveVote_eq h.settled.usable vote)
  have hblank := hvoted.settled.tended_write hindex (by simp) Payload.fits_blank
  refine ⟨_, helect.trans ?run, hvote.trans hblank, hextends, hleads⟩
  case run =>
    rw [run_bind, show (Step.write setup.machine .blank).run _ = _ from hrun]
    rfl

/-! ## Snapshots -/

theorem Leads.purge (h : Leads setup term last replica) {entry : Entry}
    (hentry : entry ∈ replica.store.log.entries) (hindex : last.index.toNat + 1 < UInt64.size)
    (hcovered : LogId.covers replica.store.snapshotPlace entry.id.index) :
    (store (·.purge entry.id)).run replica =
        (.ok (), replica.withStore (replica.store.purged entry.id)) ∧
      replica.store.Tended setup (replica.store.purged entry.id) ∧
      Leads setup term last (replica.withStore (replica.store.purged entry.id)) := by
  have hnext : entry.id.HasNext :=
    Nat.lt_of_le_of_lt
      (Nat.succ_le_succ (UInt64.le_iff_toNat_le.mp (h.settled.index_le entry hentry))) hindex
  have hpurge := Store.purge_eq h.settled.usable hnext
  have haside : (Operation.purge entry.id).Aside setup replica.store :=
    ⟨⟨entry, hentry, rfl⟩, hcovered⟩
  rw [run_store, hpurge]
  exact ⟨rfl, Store.Tended.refl.aside haside hpurge, h.role,
    h.settled.purged hentry hindex hcovered⟩

/-- A place ahead of what was purged is that of a stored entry. -/
theorem mem_of_idAt?_ahead {store : Store σ} {bound : Nat} {id : LogId}
    (hless : (LogId.next store.hardState.lastPurged).toNat < bound) (hbound : bound < UInt64.size)
    (hid : store.idAt? (.ofNat (bound - 1)) = some id) :
    ∃ entry ∈ store.log.entries, entry.id = id := by
  have hget : (store.log.get? (.ofNat (bound - 1))).map (·.id) = some id := by
    rw [Store.idAt?] at hid
    split at hid
    next purged hpurged =>
      split at hid
      next hindex =>
        -- The place behind it would be the bound itself.
        have hnat : purged.index.toNat = bound - 1 := by
          rw [hindex, UInt64.toNat_ofNat']
          exact Nat.mod_eq_of_lt (Nat.lt_of_le_of_lt (Nat.sub_le bound 1) hbound)
        have hnext : (LogId.next (some purged)).toNat = purged.index.toNat + 1 :=
          toNat_succ (by omega)
        rw [hpurged, hnext] at hless
        omega
      next => exact hid
    next => exact hid
  obtain ⟨entry, hentry, rfl⟩ := Option.map_eq_some_iff.mp hget
  exact ⟨entry, List.mem_of_find?_eq_some hentry, rfl⟩

/-- What the snapshot covers is purged, but for the last entries, and less if less is stored. -/
theorem Leads.purgeCovered (h : Leads setup term last replica)
    (hindex : last.index.toNat + 1 < UInt64.size)
    (hplace : replica.store.snapshotPlace = some last) :
    ∃ store : Store σ, Step.purgeCovered.run replica = (.ok (), replica.withStore store) ∧
      replica.store.Tended setup store ∧ replica.store.Extends store [] ∧
      Leads setup term last (replica.withStore store) := by
  have hbound : (LogId.next replica.snapshotId).toNat = last.index.toNat + 1 := by
    rw [show replica.snapshotId = some last from hplace]
    exact toNat_succ hindex
  rw [Step.purgeCovered, run_bind, run_get]
  simp only [hbound]
  split
  case isFalse => exact ⟨replica.store, rfl, .refl, .refl _, h⟩
  case isTrue hless =>
    cases hid : replica.store.idAt? (.ofNat (last.index.toNat + 1 - keptEntries - 1)) with
    | none => exact ⟨replica.store, rfl, .refl, .refl _, h⟩
    | some id =>
        obtain ⟨entry, hentry, rfl⟩ := mem_of_idAt?_ahead hless (by omega) hid
        have hcovered : LogId.covers replica.store.snapshotPlace entry.id.index := by
          rw [hplace, LogId.covers_some]
          exact h.settled.index_le entry hentry
        obtain ⟨hrun, htended, hleads⟩ := h.purge hentry hindex hcovered
        exact ⟨replica.store.purged entry.id, hrun, htended, replica.store.extends_purged _, hleads⟩

/-- A snapshot is taken, and what it covers is purged but for the last entries. -/
theorem Leads.takeOwnSnapshot (h : Leads setup term last replica)
    (hmachine : setup.machine.Faithful) (hfile : setup.useSnapshot = true)
    (hindex : last.index.toNat + 1 < UInt64.size) {bytes : Bytes}
    (hbytes : setup.machine.snapshot replica.store.state = .ok bytes)
    (hfits : (Snapshot.format.write (replica.store.nextSnapshot bytes)).Fits) :
    ∃ store : Store σ,
      (Step.takeOwnSnapshot setup.machine).run replica = (.ok (), replica.withStore store) ∧
      replica.store.Tended setup store ∧ replica.store.Extends store [] ∧
      Leads setup term last (replica.withStore store) := by
  let built : Store σ :=
    { replica.store.withSnapshot (replica.store.nextSnapshot bytes) with
      built := replica.store.built + 1 }
  have hbuilt : Leads setup term last (replica.withStore built) :=
    ⟨h.role, h.settled.built hmachine hfile hbytes hfits⟩
  have hbuild := @Store.buildSnapshot_eq σ setup.machine replica.store h.settled.usable
  rw [hbytes] at hbuild
  have haside : Operation.build.Aside setup replica.store := by
    refine ⟨hfile, fun snapshot hsnapshot => ?_⟩
    rw [hbuild] at hsnapshot
    cases hsnapshot
    exact hfits
  have htended : replica.store.Tended setup built :=
    Store.Tended.refl.aside haside (by rw [Operation.perform, hbuild]; rfl)
  rw [Step.takeOwnSnapshot, run_bind, run_get]
  simp only
  rw [run_bind, run_store, hbuild]
  simp only
  split
  case isTrue =>
    obtain ⟨store, hrun, hpurged, hextends, hleads⟩ :=
      hbuilt.purgeCovered hindex h.settled.lastApplied
    exact ⟨store, hrun, htended.trans hpurged, hextends, hleads⟩
  case isFalse => exact ⟨built, rfl, htended, fun _ hentry => .inl hentry, hbuilt⟩

end Step

/-! ## Upkeep -/

/-- What a replica does apart from writing commands. -/
inductive Upkeep where
  /-- Writes an entry that is no command. -/
  | write (payload : Payload)
  | elect
  | snapshot
  /-- Purges the log up to one of its entries. -/
  | purge (id : LogId)
  deriving DecidableEq, Repr

namespace Upkeep

def step (machine : StateMachine σ) : Upkeep → Step σ Unit
  | .write payload => do
      let _ ← Step.write machine payload
  | .elect => Step.elect machine
  | .snapshot => Step.takeOwnSnapshot machine
  | .purge id => Step.store (·.purge id)

/-- The payloads of the entries that are written. -/
def payloads : Upkeep → List Payload
  | .write payload => [payload]
  | .elect => [.blank]
  | .snapshot | .purge _ => []

/-- When a replica that is alone may do so. The group stays its own, only what a snapshot
covers is purged, and what is written is not too long for any memory. -/
def Allowed (setup : Setup σ) (replica : Replica σ) : Upkeep → Prop
  | .write payload => payload.Fits ∧ (∀ data, payload ≠ .normal data) ∧
      ∀ membership, payload = .membership membership → membership.Sole replica.number
  | .elect => True
  | .snapshot => setup.useSnapshot = true ∧
      ∃ bytes, setup.machine.snapshot replica.store.state = .ok bytes ∧
        (Snapshot.format.write (replica.store.nextSnapshot bytes)).Fits
  | .purge id => (∃ entry ∈ replica.store.log.entries, entry.id = id) ∧
      LogId.covers replica.store.snapshotPlace id.index

end Upkeep

/-- Whether a term and a place are others or at most one further. -/
structure Onward (term : UInt64) (last : LogId) (nextTerm : UInt64) (next : LogId) : Prop where
  term : nextTerm.toNat ≤ term.toNat + 1
  index : next.index.toNat ≤ last.index.toNat + 1
  behind : last.index ≤ next.index

theorem Onward.refl (term : UInt64) (last : LogId) : Onward term last term last :=
  ⟨Nat.le_succ _, Nat.le_succ _, UInt64.le_refl _⟩

namespace Step

theorem onward_succ {nextTerm : UInt64} (hterm : nextTerm.toNat ≤ term.toNat + 1)
    (hindex : last.index.toNat + 1 < UInt64.size) (node : UInt64) :
    Onward term last nextTerm (last.successor nextTerm node) where
  term := hterm
  index := Nat.le_of_eq (toNat_succ hindex)
  behind := UInt64.le_of_lt (lt_succ hindex)

/-- Upkeep writes no command and leaves the replica in charge. -/
theorem Leads.upkeep (h : Leads setup term last replica) (hmachine : setup.machine.Faithful)
    (hindex : last.index.toNat + 1 < UInt64.size) (hterm : term.toNat + 1 < UInt64.size)
    {duty : Upkeep} (hallowed : duty.Allowed setup replica) :
    ∃ (store : Store σ) (nextTerm : UInt64) (next : LogId),
      (duty.step setup.machine).run replica = (.ok (), replica.withStore store) ∧
      replica.store.Tended setup store ∧ replica.store.Extends store duty.payloads ∧
      Leads setup nextTerm next (replica.withStore store) ∧ Onward term last nextTerm next := by
  cases duty with
  | write payload =>
      obtain ⟨hfits, hcommand, hmembership⟩ := hallowed
      obtain ⟨hrun, hextends, hleads⟩ := h.write hindex hmembership hfits
      have htended := h.settled.tended_write hindex hcommand hfits
      refine ⟨_, term, _, ?_, htended, hextends, hleads, onward_succ (Nat.le_succ _) hindex _⟩
      rw [Upkeep.step, run_bind, hrun]
      rfl
  | elect =>
      obtain ⟨store, hrun, htended, hextends, hleads⟩ := h.elect hindex hterm
      exact ⟨store, term + 1, _, hrun, htended, hextends, hleads,
        onward_succ (Nat.le_of_eq (toNat_succ hterm)) hindex _⟩
  | snapshot =>
      obtain ⟨hfile, bytes, hbytes, hfits⟩ := hallowed
      obtain ⟨store, hrun, htended, hextends, hleads⟩ :=
        h.takeOwnSnapshot hmachine hfile hindex hbytes hfits
      exact ⟨store, term, last, hrun, htended, hextends, hleads, .refl term last⟩
  | purge id =>
      obtain ⟨⟨entry, hentry, rfl⟩, hcovered⟩ := hallowed
      obtain ⟨hrun, htended, hleads⟩ := h.purge hentry hindex hcovered
      exact ⟨replica.store.purged entry.id, term, last, hrun, htended,
        replica.store.extends_purged _, hleads, .refl term last⟩

/-! ## Commands -/

/-- A command that is written by a replica in charge is told its result at once. -/
theorem Leads.writeCommand (h : Leads setup term last replica)
    (hindex : last.index.toNat + 1 < UInt64.size) {data : Bytes}
    (hfits : (Payload.normal data).Fits) :
    let entry : Entry := ⟨last.successor term replica.number, .normal data⟩
    let applied := ((replica.store.withEntry entry).withCommitted entry.id).applyEntry
      setup.machine entry
    (Step.writeCommand setup.machine data).run replica =
        (.ok (some (.applied applied.2)), replica.withStore applied.1) ∧
      replica.store.Extends applied.1 [.normal data] ∧
      Leads setup term entry.id (replica.withStore applied.1) := by
  intro entry applied
  obtain ⟨hrun, hextends, hleads⟩ := h.write hindex (by simp) hfits
  refine ⟨?_, hextends, hleads⟩
  rw [Step.writeCommand, run_bind, run_get]
  simp only [h.role]
  rw [run_bind, hrun]
  rfl

/-! ## Restarts -/

/-- A replica that led alone does so again on the files it left. -/
theorem resume_of_settled {before : Store σ} (h : before.Settled setup number term last)
    (hindex : last.index.toNat + 1 < UInt64.size) {after : Volume} {store : Store σ}
    (hdone : setup.open before.volume = (after, .ok store)) :
    (resume setup.machine).run { number, store } =
      (.ok (), { number, store := before.recounted, role := .leader }) := by
  let caught : Replica σ := { number, store := before.recounted }
  have hsettled := h.recounted
  have hcatchUp : (catchUp setup.machine).run { number, store } = (.ok (), caught) := by
    obtain ⟨hlog, hhard, hcaught⟩ := h.reopened hindex hdone
    rw [catchUp, run_bind, run_get]
    simp only [hhard, h.committed]
    split
    case isTrue hle =>
      rw [if_pos hle] at hcaught
      rw [hcaught]
      rfl
    case isFalse hle =>
      rw [if_neg hle] at hcaught
      exact congrArg (fun store : Store σ => (Except.ok (), ({ number, store } : Replica σ)))
        hcaught
  have hcloseGap : closeGap.run caught = (.ok (), caught) := by
    rw [closeGap, run_bind, run_get]
    simp only [caught, hsettled.lastApplied, hsettled.lastLogId, LogId.optionLe, LogId.le_refl]
    rfl
  have hreplace : (replaceSnapshot setup.machine).run caught = (.ok (), caught) := by
    have hcovered := hsettled.covered
    rw [replaceSnapshot, run_bind, run_get]
    simp only
    split
    case isTrue hmissing =>
      obtain ⟨hnone, hpurged⟩ := Bool.and_eq_true_iff.mp hmissing
      rw [Option.isNone_iff_eq_none.mp hnone] at hcovered
      cases hcovered hpurged
    case isFalse => rfl
  have hmembership : caught.membership.Sole number := hsettled.membership_sole hindex
  have hrole : caught.properRole = .leader := Replica.properRole_of_sole hsettled.vote hmembership
  let led : Replica σ := { caught with role := .leader }
  have hcommitted : LogId.optionLe led.store.lastLogId led.store.lastApplied = true := by
    rw [hsettled.lastLogId, hsettled.lastApplied]
    exact LogId.le_refl last
  have hdecides : led.membership.isDecidedBy led.number = true := hmembership.decides
  rw [resume, run_bind, hcatchUp]
  simp only
  rw [run_bind, hcloseGap]
  simp only
  rw [run_bind, hreplace]
  simp only
  rw [run_bind, run_get]
  simp only [hrole]
  rw [run_bind, run_takeRole, Replica.inProperRole, hrole]
  change (do let _ ← commitAlone setup.machine : Step σ Unit).run led = _
  rw [run_bind, run_commitAlone setup.machine hdecides, run_commit_of_le setup.machine hcommitted]
  rfl

/-! ## Founding -/

/-- On files for which nothing was written yet there is nothing to resume. -/
theorem resume_first (setup : Setup σ) (number : UInt64) :
    (resume setup.machine).run { number, store := setup.first } =
      (.ok (), { number, store := setup.first }) :=
  rfl

/-- The first entry of a group, which says who belongs to it. -/
abbrev foundingEntry (membership : Membership) : Entry :=
  ⟨⟨0, 0, 0⟩, .membership membership⟩

/-- Who founds a group in which it is alone leads it, and its second entry is blank. -/
theorem found_first {membership : Membership} (hmembership : membership.Sole number)
    (hfits : (Payload.membership membership).Fits) :
    ∃ store : Store σ,
      (found setup.machine membership).run { number, store := setup.first } =
        (.ok (), { number, store, role := .leader }) ∧
      setup.first.Tended setup store ∧
      setup.first.Extends store [.membership membership, .blank] ∧
      Leads setup 1 ⟨1, number, 1⟩ { number, store, role := .leader } := by
  let founded := setup.first.withEntry (foundingEntry membership)
  let voted := founded.withHardState { founded.hardState with vote := some ⟨1, number, true⟩ }
  let blank : Entry := ⟨⟨1, number, 1⟩, .blank⟩
  have hnone : ∀ index, ¬ LogId.covers none index := fun _ => Bool.false_ne_true
  have hfounded : founded.Filed setup :=
    (Store.filed_first setup).withEntry (List.forall_mem_nil _) (hnone 0) (hfits.entry _)
  have hvoted : voted.Filed setup := hfounded.withHardState hfounded.covered
  have hblank : (voted.withEntry blank).Filed setup := by
    refine hvoted.withEntry (fun other hother => ?_) (hnone 1) (Payload.fits_blank.entry _)
    obtain rfl : other = foundingEntry membership := List.mem_singleton.mp hother
    exact (by decide : (0 : UInt64) < 1)
  have hlast : (voted.log.insert blank).last? = some blank := rfl
  have hinForce : (voted.withEntry blank).membership.membership.Sole number := hmembership
  let applied := ((voted.withEntry blank).withCommitted blank.id).applyAll setup.machine
    [foundingEntry membership, blank]
  have hsettled : applied.1.Settled setup number 1 blank.id :=
    hblank.settled rfl hlast (LogId.le_refl _) (hnone 1) nofun hinForce nofun
  let fresh : Replica σ := { number, store := setup.first }
  let candidate := (fresh.withStore founded).inProperRole
  let leader : Replica σ := { number, store := voted, role := .leader }
  have hfresh : isFresh fresh = true := rfl
  have hid : blank.id = nextId leader := rfl
  have helected : (elect setup.machine).run candidate =
      (do let _ ← write setup.machine .blank : Step σ Unit).run leader :=
    run_elect setup.machine hfounded.usable hmembership
  have hwritten : (write setup.machine .blank).run leader =
      (.ok applied.2, leader.withStore applied.1) :=
    run_write setup.machine blank hid hvoted.usable rfl hlast rfl nofun hinForce
  refine ⟨applied.1, ?run, ?tended, ?entries, rfl, hsettled⟩
  case tended =>
    have hfirst := Store.filed_first setup
    have hfound : setup.first.Tended setup founded :=
      Store.Tended.refl.write rfl (by simp) (hfits.entry _)
        (Store.append_singleton hfirst.usable _)
    have hvote : (Operation.saveVote ⟨1, number, true⟩).Aside setup founded := trivial
    have hled := hfound.aside hvote (Store.saveVote_eq hfounded.usable _)
    have hwritten : setup.first.Tended setup (voted.withEntry blank) :=
      hled.write rfl (by simp) (Payload.fits_blank.entry _)
        (Store.append_singleton hvoted.usable blank)
    have hcommit : (Operation.saveCommitted (some blank.id)).Aside setup
      (voted.withEntry blank) := trivial
    exact (hwritten.aside hcommit (Store.saveCommitted_eq hblank.usable _)).applyAll
      (List.prefix_refl _)
  case entries =>
    have hall : applied.1.log.entries = [foundingEntry membership, blank] := rfl
    intro entry hentry
    simp only [hall, List.mem_cons, List.not_mem_nil, or_false] at hentry
    rcases hentry with rfl | rfl
    · simp
    · simp [blank]
  case run =>
    change (found setup.machine membership).run fresh = _
    rw [found, run_bind, run_get]
    simp only [if_pos hfresh]
    rw [run_bind, run_append (Store.filed_first setup).usable]
    refine helected.trans ?_
    rw [run_bind, hwritten]
    rfl

/-- A group that was founded is not founded again. -/
theorem Leads.found (h : Leads setup term last replica) (membership : Membership) :
    (Step.found setup.machine membership).run replica = (.ok (), replica) := by
  have hnot : isFresh replica = false := by simp [isFresh, h.settled.lastLogId]
  rw [Step.found, run_bind, run_get]
  simp only [hnot]
  rfl

end Step
end Quorum
