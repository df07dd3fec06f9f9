import Quorum.Proofs.Node.Engine

/-! # Engines that serve everyone

Whatever happened to an engine, it can bring its work to an end. The tasks that wait are taken,
what was begun is put into the log, the log is applied, and then every submitter is told the
result of the own entry.
-/

namespace Quorum

/-! ## Entries for commands -/

/-- Entries with some payloads, one index after the other. -/
def entriesFrom (first : Nat) : List Payload → List Entry
  | [] => []
  | payload :: rest => ⟨⟨0, 0, .ofNat first⟩, payload⟩ :: entriesFrom (first + 1) rest

section

variable {first : Nat} {payloads : List Payload}

theorem consecutive_entriesFrom (h : first + payloads.length ≤ UInt64.size) :
    Consecutive first (entriesFrom first payloads) := by
  induction payloads generalizing first with
  | nil => trivial
  | cons payload rest ih =>
      rw [List.length_cons, Nat.add_comm rest.length, ← Nat.add_assoc] at h
      exact ⟨UInt64.toNat_ofNat_of_lt' (by omega), ih h⟩

theorem payload_mem_of_entriesFrom {entry : Entry} (h : entry ∈ entriesFrom first payloads) :
    entry.payload ∈ payloads := by
  induction payloads generalizing first with
  | nil => cases h
  | cons payload rest ih =>
      rcases List.mem_cons.mp h with rfl | hrest
      · exact List.mem_cons_self
      · exact List.mem_cons_of_mem payload (ih hrest)

theorem carried_entriesFrom (first : Nat) (commands : List Bytes) :
    (carried (entriesFrom first (commands.map .normal))).map Prod.snd = commands := by
  induction commands generalizing first with
  | nil => rfl
  | cons command rest ih => exact congrArg (command :: ·) (ih (first + 1))

end

namespace Engine

variable {setup : Setup Memory} {roster : Roster} {commands : List Command} {engine : Engine}

/-! ## Writing -/

/-- Whether no task waits and every write that was begun has an index. -/
structure Placed (engine : Engine) : Prop where
  queued : engine.queue.queued = []
  indexes : engine.indexes.length = engine.queue.written.length

theorem Run.isRunning (run : Run setup roster commands engine) (hmemory : setup.OfMemory) :
    engine.queue.isRunning = true := by
  obtain ⟨ledger, h⟩ := run.sound hmemory
  obtain ⟨events, hopen, -, hqueue⟩ := h.queue
  refine Bool.of_not_eq_false fun hstopped => ?_
  have hclosed := (hqueue.sound.isRunning hstopped).1
  rw [hqueue.sound.isOpen.mpr hopen] at hclosed
  cases hclosed

/-- Whatever waits can be taken. -/
theorem Run.exists_taken (run : Run setup roster commands engine) (hmemory : setup.OfMemory) :
    ∃ after, Run setup roster commands after ∧ after.store = engine.store ∧
      after.queue.queued = [] := by
  induction hqueued : engine.queue.queued generalizing engine with
  | nil => exact ⟨engine, run, rfl, hqueued⟩
  | cons task rest ih =>
      have htake : engine.queue.take? = some (task, { engine.queue with
          queued := rest
          inFlight := engine.queue.inFlight ++ [task]
          written := engine.queue.written ++ [task.entry] }) := by
        rw [ApplyQueue.take?, hqueued]
        exact if_pos (run.isRunning hmemory)
      obtain ⟨after, hafter, hstore, hempty⟩ := ih (run.take htake) rfl
      exact ⟨after, hafter, hstore, hempty⟩

/-- Nothing is begun but what was submitted, and nothing has an index but what was begun. -/
theorem Run.lengths_le (run : Run setup roster commands engine) (hmemory : setup.OfMemory) :
    engine.indexes.length ≤ engine.queue.written.length ∧
      engine.queue.written.length ≤ commands.length := by
  obtain ⟨ledger, h⟩ := run.sound hmemory
  obtain ⟨past, fresh, -, -, hindexes, hfresh, hcommands⟩ := h.written
  have hle := hfresh.length_le
  have hlength := congrArg List.length hcommands
  simp only [List.length_append, List.length_map] at hle hlength
  rw [← hindexes, List.length_map]
  omega

theorem Run.mem_written (run : Run setup roster commands engine) (hmemory : setup.OfMemory)
    {data : Bytes} (hdata : data ∈ engine.queue.written) :
    ∃ command ∈ commands, command.toEntry = data := by
  obtain ⟨ledger, h⟩ := run.sound hmemory
  obtain ⟨past, fresh, -, -, -, -, hcommands⟩ := h.written
  refine List.mem_map.mp (hcommands ▸ ?_)
  exact List.mem_append_left _ (List.mem_append_right _ hdata)

/-- What was begun can be written, behind an entry without a command. -/
theorem Run.exists_placed (run : Run setup roster commands engine) (hmemory : setup.OfMemory)
    (hqueued : engine.queue.queued = [])
    (hroom : LogId.behind engine.store.lastLogId + commands.length < UInt64.size)
    (hfits : ∀ command ∈ commands, (Payload.normal command.toEntry).Fits) :
    ∃ after, Run setup roster commands after ∧ after.Placed := by
  obtain ⟨ledger, h⟩ := run.sound hmemory
  obtain ⟨hindexes, hwritten⟩ := run.lengths_le hmemory
  let pending := engine.queue.written.drop engine.indexes.length
  let first := LogId.behind engine.store.lastLogId
  let entries := entriesFrom first (.blank :: pending.map .normal)
  have hpending : (carried entries).map Prod.snd = pending :=
    carried_entriesFrom (first + 1) pending
  have hconsecutive : Consecutive first entries := by
    have hlength : pending.length ≤ commands.length :=
      Nat.le_trans (List.drop_sublist _ _).length_le hwritten
    refine consecutive_entriesFrom ?_
    rw [List.length_cons, List.length_map]
    omega
  have hcarried : ∀ command ∈ carried entries, 0 < command.1 := by
    intro command hcommand
    obtain ⟨entry, hentry, hfound⟩ := List.mem_filterMap.mp hcommand
    have hbehind : first + 1 ≤ entry.id.index.toNat := by
      rcases List.mem_cons.mp hentry with rfl | hrest
      · cases hfound
      · exact hconsecutive.2.lt_of_mem hrest
    rw [Entry.index_of_carried hfound]
    exact UInt64.lt_iff_toNat_lt.mpr (Nat.lt_of_lt_of_le (Nat.succ_pos first) hbehind)
  have hentries : ∀ entry ∈ entries, (Entry.format.write entry).Fits := by
    intro entry hentry
    refine Payload.Within.entry ?_ entry.id
    rcases List.mem_cons.mp (payload_mem_of_entriesFrom hentry) with hblank | hnormal
    · rw [hblank]
      exact Payload.fits_blank
    · obtain ⟨data, hdata, hpayload⟩ := List.mem_map.mp hnormal
      obtain ⟨command, hcommand, rfl⟩ := run.mem_written hmemory (List.mem_of_mem_drop hdata)
      rw [← hpayload]
      exact hfits command hcommand
  have hwrite := run.write hconsecutive (hpending ▸ List.prefix_rfl) hcarried hentries
    (Store.append_eq_foldl h.records.usable entries)
  refine ⟨_, hwrite, hqueued, ?indexes⟩
  case indexes =>
    rw [List.length_append, List.length_map, ← List.length_map Prod.snd, hpending,
      List.length_drop]
    exact Nat.add_sub_cancel' hindexes

/-! ## Applying and telling -/

/-- All of the log can be applied. -/
theorem Run.exists_caughtUp (run : Run setup roster commands engine) :
    ∃ after, Run setup roster commands after ∧ after.CaughtUp ∧ after.queue = engine.queue ∧
      after.indexes = engine.indexes := by
  induction hrest : engine.store.log.after engine.store.lastApplied generalizing engine with
  | nil => exact ⟨engine, run, hrest, rfl, rfl⟩
  | cons entry rest ih =>
      have hnext : (engine.store.applyEntry setup.machine entry).1.log.after
          (engine.store.applyEntry setup.machine entry).1.lastApplied = rest := by
        rw [Store.lastApplied_applyEntry, Store.log_applyEntry, Log.after_next hrest]
      obtain ⟨after, hafter, hcaught, hqueue, hindexes⟩ := ih (run.apply hrest rfl) hnext
      exact ⟨after, hafter, hcaught, hqueue, hindexes⟩

/-- Once all of the log is applied there is a result at every index. -/
theorem Run.exists_result (run : Run setup roster commands engine) (hmemory : setup.OfMemory)
    (hcaught : engine.CaughtUp) {index : UInt64} (hindex : index ∈ engine.indexes) :
    ∃ result, (index, result) ∈ engine.results := by
  obtain ⟨ledger, h⟩ := run.sound hmemory
  obtain ⟨past, fresh, hcarried, -, hindexes, -⟩ := h.written
  obtain ⟨found, hfound, rfl⟩ := List.mem_map.mp (hindexes ▸ hindex)
  have hmem : found ∈ carried ledger := hcarried ▸ List.mem_append_right past hfound
  obtain ⟨entry, hentry, hentryFound⟩ := List.mem_filterMap.mp hmem
  obtain ⟨hlt, -⟩ := List.getElem?_eq_some_iff.mp (h.records.consecutive.getElem?_index hentry)
  rw [CaughtUp, h.records.after_lastApplied, List.drop_eq_nil_iff] at hcaught
  refine h.answered found.1 hindex (LogId.covers_iff_lt_behind.mpr ?_)
  rw [Entry.index_of_carried hentryFound]
  exact Nat.lt_of_lt_of_le hlt hcaught

/-- A write that has not ended has an index once all that was begun has one. -/
theorem Run.exists_index (run : Run setup roster commands engine) (hmemory : setup.OfMemory)
    (hplaced : engine.Placed) {task : Task} (hwrite : task ∈ engine.queue.inFlight) :
    ∃ index, engine.indexes[task.number]? = some index := by
  obtain ⟨ledger, h⟩ := run.sound hmemory
  obtain ⟨events, -, -, hqueue⟩ := h.queue
  obtain ⟨-, hnumber⟩ := hqueue.sound.task task (List.mem_append_right _ hwrite)
  rw [← hqueue.sound.ordered, hplaced.queued, List.map_nil, List.append_nil,
    ← hplaced.indexes] at hnumber
  exact ⟨_, List.getElem?_eq_getElem hnumber⟩

/-- Once all of the log is applied every submitter can be told. -/
theorem Run.exists_told (run : Run setup roster commands engine) (hmemory : setup.OfMemory)
    (hplaced : engine.Placed) (hcaught : engine.CaughtUp) :
    ∃ after, Run setup roster commands after ∧ after.Idle ∧ after.CaughtUp := by
  induction hcount : engine.queue.inFlight.length using Nat.strong_induction_on
    generalizing engine with
  | h count ih =>
    by_cases hflight : engine.queue.inFlight = []
    · exact ⟨engine, run, ⟨hplaced.queued, hflight⟩, hcaught⟩
    · obtain ⟨task, hwrite⟩ := List.exists_mem_of_ne_nil _ hflight
      obtain ⟨index, hindex⟩ := run.exists_index hmemory hplaced hwrite
      obtain ⟨result, hresult⟩ :=
        run.exists_result hmemory hcaught (List.mem_of_getElem? hindex)
      have htold := run.tell hwrite hindex hresult
      have hfewer : (engine.queue.inFlight.filter (·.number ≠ task.number)).length < count :=
        hcount ▸ List.length_filter_lt_length_iff_exists.mpr ⟨task, hwrite, by simp⟩
      rw [ApplyQueue.resolve_of_mem hwrite] at htold
      exact ih _ hfewer htold ⟨hplaced.queued, hplaced.indexes⟩ hcaught rfl

/-- An engine can bring its work to an end as long as there are indexes for it. -/
theorem Run.exists_idle (run : Run setup roster commands engine) (hmemory : setup.OfMemory)
    (hroom : LogId.behind engine.store.lastLogId + commands.length < UInt64.size)
    (hfits : ∀ command ∈ commands, (Payload.normal command.toEntry).Fits) :
    ∃ after, Run setup roster commands after ∧ after.Idle ∧ after.CaughtUp := by
  obtain ⟨taken, htaken, hstore, hqueued⟩ := run.exists_taken hmemory
  obtain ⟨placed, hrun, hplaced⟩ := htaken.exists_placed hmemory hqueued (hstore ▸ hroom) hfits
  obtain ⟨applied, hdone, hcaught, hqueue, hindexes⟩ := hrun.exists_caughtUp
  refine hdone.exists_told hmemory ⟨?_, ?_⟩ hcaught
  · rw [hqueue, hplaced.queued]
  · rw [hqueue, hindexes, hplaced.indexes]

end Engine
end Quorum
