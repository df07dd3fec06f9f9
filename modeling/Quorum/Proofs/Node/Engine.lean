import Quorum.Proofs.Node.Queue
import Quorum.Proofs.StateMachine.Sequence
import Quorum.Proofs.Storage.Batch
import Quorum.Proofs.Storage.Ledger

/-! # Members that answer in sequence

How a member that decides alone goes about its work is left open here, but for what its
submitters rely on. Writes get the next indexes of the log in the order in which they were
begun, the entries are applied in the order of the log, and a write ends with the result of its
own entry. Any number of writes may be in flight, they may end in any order, and entries
without commands may be written anywhere. This is enough for the answers to be those of a
memory that takes the commands one after the other, over restarts as well.
-/

namespace Quorum

/-- Whether the state machine is a memory that is empty at every start. -/
structure Setup.OfMemory (setup : Setup Memory) : Prop where
  machine : setup.machine = Memory.machine
  fresh : setup.fresh = {}

/-- A memory that applied the entries up to some place took the commands among them. -/
theorem Setup.OfMemory.state_reached {setup : Setup Memory} (h : setup.OfMemory)
    (entries : List Entry) : (setup.reached entries).state =
      (Memory.applyAll {} (entries.filterMap Entry.numbered?)).1 := by
  have hcommands := congrArg Prod.fst (setup.first.applyAll_commands entries)
  have hfresh : setup.first.state = {} := h.fresh
  rw [hfresh] at hcommands
  rw [Setup.reached, h.machine]
  exact hcommands

/-- The index of an entry that carries the bytes of a command, and the bytes. -/
def Entry.carried? (entry : Entry) : Option (UInt64 × Bytes) :=
  match entry.payload with
  | .normal data => some (entry.id.index, data)
  | .blank | .membership _ => none

/-- The indexes and the bytes of commands among entries. -/
abbrev carried (entries : List Entry) : List (UInt64 × Bytes) :=
  entries.filterMap Entry.carried?

/-- A member that decides alone, as its submitters and its files see it. -/
structure Engine where
  store : Store Memory
  queue : ApplyQueue := {}
  /-- The indexes that the writes were given, as far as they are in the log. -/
  indexes : List UInt64 := []
  /-- The results of the entries that were applied since the start, each with its index. -/
  results : List (UInt64 × ApplyResult) := []
  /-- What the submitters before the last start were told. -/
  earlier : List (Option Outcome) := []

namespace Engine

/-- What each submitter was told. -/
def told (engine : Engine) : List (Option Outcome) :=
  engine.earlier ++ (List.range engine.queue.count).map engine.queue.outcome?

/-- Whether no task is under way. -/
structure Idle (engine : Engine) : Prop where
  queued : engine.queue.queued = []
  inFlight : engine.queue.inFlight = []

/-- Whether all of the log is applied. -/
def CaughtUp (engine : Engine) : Prop :=
  engine.store.log.after engine.store.lastApplied = []

/-- Whether the submitters were told, and the memory holds, what comes of commands that are taken
one after the other. -/
structure Follows (engine : Engine) (numbered : List Memory.Numbered) : Prop where
  length : engine.told.length = numbered.length
  told : ∀ (number : Nat) (outcome : Outcome), engine.told[number]? = some (some outcome) →
    (Memory.applyAll {} numbered).2[number]?.map ApplyResult.outcome = some outcome
  /-- The memory took the first commands, those among them that were answered since the start,
  and all that were answered once all of the log is applied. -/
  state : ∃ count, Memory.Alike engine.store.state
      (Memory.applyAll {} (numbered.take count)).1 ∧
    ∀ (number : Nat) (outcome : Outcome), engine.told[number]? = some (some outcome) →
      engine.earlier.length ≤ number ∨ engine.CaughtUp → number < count
  idle : engine.Idle →
    engine.told = (Memory.applyAll {} numbered).2.map (fun result => some result.outcome) ∧
      (engine.CaughtUp →
        Memory.Alike engine.store.state (Memory.applyAll {} numbered).1)

/-- The engines that the submission of some commands may lead to from empty files. -/
inductive Run (setup : Setup Memory) (roster : Roster) : List Command → Engine → Prop where
  | start {volume : Volume} {store : Store Memory}
      (hdone : setup.open (.empty setup.useSnapshot) = (volume, .ok store)) :
      Run setup roster [] { store }
  | submit {commands : List Command} {engine : Engine} (command : Command)
      (before : Run setup roster commands engine) :
      Run setup roster (commands ++ [command])
        { engine with queue := engine.queue.accept command.toEntry }
  /-- The next write is begun. -/
  | take {commands : List Command} {engine : Engine} {task : Task} {queue : ApplyQueue}
      (before : Run setup roster commands engine)
      (htake : engine.queue.take? = some (task, queue)) :
      Run setup roster commands { engine with queue }
  /-- Entries are added to the log: the commands of the next writes that were begun, and others
  between them. The first entry of all is no command. -/
  | write {commands : List Command} {engine : Engine} {entries : List Entry}
      {store : Store Memory} (before : Run setup roster commands engine)
      (hindexes : Consecutive (LogId.behind engine.store.lastLogId) entries)
      (hcommands : (carried entries).map Prod.snd <+:
        engine.queue.written.drop engine.indexes.length)
      (hfirst : ∀ command ∈ carried entries, 0 < command.1)
      (hfits : ∀ entry ∈ entries, (Entry.format.write entry).Fits)
      (hdone : engine.store.append entries = (store, .ok ())) :
      Run setup roster commands
        { engine with store, indexes := engine.indexes ++ (carried entries).map Prod.fst }
  /-- The next entry is applied. -/
  | apply {commands : List Command} {engine : Engine} {entry : Entry} {rest : List Entry}
      {store : Store Memory} {result : ApplyResult} (before : Run setup roster commands engine)
      (hnext : engine.store.log.after engine.store.lastApplied = entry :: rest)
      (hdone : engine.store.applyEntry setup.machine entry = (store, result)) :
      Run setup roster commands
        { engine with store, results := engine.results ++ [(entry.id.index, result)] }
  /-- A write ends with the result of the entry at its index. -/
  | tell {commands : List Command} {engine : Engine} {task : Task} {index : UInt64}
      {result : ApplyResult} (before : Run setup roster commands engine)
      (hwrite : task ∈ engine.queue.inFlight)
      (hindex : engine.indexes[task.number]? = some index)
      (hresult : (index, result) ∈ engine.results) :
      Run setup roster commands { engine with
        queue := engine.queue.resolve task.number
          ((WriteResult.applied result).outcome setup.group roster) }
  | aside {commands : List Command} {engine : Engine} {operation : Operation}
      {store : Store Memory} (before : Run setup roster commands engine)
      (haside : operation.Aside setup engine.store)
      (hdone : operation.perform setup.machine engine.store = (store, .ok ())) :
      Run setup roster commands { engine with store }
  | restart {commands : List Command} {engine : Engine} {volume : Volume} {store : Store Memory}
      (before : Run setup roster commands engine) (hidle : engine.Idle)
      (hdone : setup.open engine.store.volume = (volume, .ok store)) :
      Run setup roster commands { store, earlier := engine.told }

end Engine

/-! ## Commands among entries -/

section

variable {entries : List Entry} {commands : List Command}

theorem carried_of_bare (h : ∀ entry ∈ entries, ∀ data, entry.payload ≠ .normal data) :
    carried entries = [] := by
  refine List.filterMap_eq_nil_iff.mpr fun entry hentry => ?_
  unfold Entry.carried?
  split
  next data hdata => exact absurd hdata (h entry hentry data)
  next => rfl
  next => rfl

theorem Entry.index_of_carried {entry : Entry} {found : UInt64 × Bytes}
    (h : entry.carried? = some found) : found.1 = entry.id.index := by
  unfold carried? at h
  split at h
  next => exact congrArg Prod.fst (Option.some.inj h).symm
  next => cases h
  next => cases h

theorem Entry.index_of_numbered {entry : Entry} {command : Memory.Numbered}
    (h : entry.numbered? = some command) : command.index = entry.id.index := by
  unfold numbered? at h
  split at h
  next => cases h
  next => cases h
  next =>
    split at h
    next => exact congrArg Memory.Numbered.index (Option.some.inj h).symm
    next => cases h

theorem Entry.numbered?_of_carried {entry : Entry} {index : UInt64} {command : Command}
    (h : entry.carried? = some (index, command.toEntry)) :
    entry.numbered? = some ⟨index, entry.id.term, command⟩ := by
  unfold carried? at h
  split at h
  next data hpayload =>
    obtain ⟨rfl, rfl⟩ := Prod.mk.inj (Option.some.inj h)
    simp only [numbered?, hpayload, Command.ofEntry_toEntry]
  next => cases h
  next => cases h

theorem Entry.numbered?_of_not_carried {entry : Entry} (h : entry.carried? = none) :
    entry.numbered? = none := by
  unfold carried? at h
  unfold numbered?
  split at h
  next => cases h
  next hpayload => simp only [hpayload]
  next hpayload => simp only [hpayload]

/-- Where only commands are carried, they are decoded as what they are. -/
theorem numbered_of_carried (h : (carried entries).map Prod.snd = commands.map Command.toEntry) :
    (entries.filterMap Entry.numbered?).map Memory.Numbered.command = commands ∧
      (entries.filterMap Entry.numbered?).map Memory.Numbered.index =
        (carried entries).map Prod.fst := by
  induction entries generalizing commands with
  | nil =>
      cases commands with
      | nil => exact ⟨rfl, rfl⟩
      | cons => cases h
  | cons entry rest ih =>
      cases hentry : entry.carried? with
      | none =>
          rw [carried, List.filterMap_cons_none hentry] at h ⊢
          rw [List.filterMap_cons_none (Entry.numbered?_of_not_carried hentry)]
          exact ih h
      | some found =>
          obtain ⟨index, data⟩ := found
          rw [carried, List.filterMap_cons_some hentry] at h ⊢
          cases commands with
          | nil => cases h
          | cons command more =>
              obtain ⟨rfl, hrest⟩ := List.cons_eq_cons.mp h
              obtain ⟨hcommands, hindexes⟩ := ih hrest
              rw [List.filterMap_cons_some (Entry.numbered?_of_carried hentry)]
              exact ⟨congrArg _ hcommands, congrArg _ hindexes⟩

/-- Where a command stands among entries, and what is in front of it. -/
theorem exists_position {number : Nat} {command : Memory.Numbered}
    (h : (entries.filterMap Entry.numbered?)[number]? = some command) :
    ∃ position entry, entries[position]? = some entry ∧ entry.numbered? = some command ∧
      (entries.take position).filterMap Entry.numbered? =
        (entries.filterMap Entry.numbered?).take number := by
  induction entries generalizing number with
  | nil => cases h
  | cons first rest ih =>
      cases hfirst : first.numbered? with
      | none =>
          rw [List.filterMap_cons_none hfirst] at h ⊢
          obtain ⟨position, entry, hentry, hcommand, htake⟩ := ih h
          refine ⟨position + 1, entry, hentry, hcommand, ?_⟩
          rw [List.take_succ_cons, List.filterMap_cons_none hfirst, htake]
      | some found =>
          rw [List.filterMap_cons_some hfirst] at h ⊢
          cases number with
          | zero =>
              obtain rfl := Option.some.inj h
              exact ⟨0, first, rfl, hfirst, rfl⟩
          | succ number =>
              obtain ⟨position, entry, hentry, hcommand, htake⟩ := ih h
              refine ⟨position + 1, entry, hentry, hcommand, ?_⟩
              rw [List.take_succ_cons, List.filterMap_cons_some hfirst, htake,
                List.take_succ_cons]

end

theorem ApplyQueue.mem_of_outcome? {queue : ApplyQueue} {number : Nat} {outcome : Outcome}
    (h : queue.outcome? number = some outcome) : (number, outcome) ∈ queue.resolved := by
  obtain ⟨before, rest, hresolved, -⟩ := List.lookup_eq_some_iff.mp h
  rw [hresolved]
  exact List.mem_append_right _ List.mem_cons_self

namespace Engine

variable {setup : Setup Memory} {roster : Roster} {commands : List Command} {ledger : List Entry}
  {engine : Engine}

/-- What is true of an engine after some commands were submitted, with a ledger of all entries
that were ever written. -/
structure Sound (setup : Setup Memory) (roster : Roster) (commands : List Command)
    (ledger : List Entry) (engine : Engine) : Prop where
  records : engine.store.Records setup ledger
  queue : ∃ events, .closed ∉ events ∧ .halted ∉ events ∧
    QueueRun setup.group roster events engine.queue
  /-- The commands from before the start were all written, and those since as far as they have
  an index. -/
  written : ∃ past fresh, carried ledger = past ++ fresh ∧
    past.length = engine.earlier.length ∧ fresh.map Prod.fst = engine.indexes ∧
    fresh.map Prod.snd <+: engine.queue.written ∧
    past.map Prod.snd ++ engine.queue.written ++ engine.queue.queued.map Task.entry =
      commands.map Command.toEntry
  first : ∀ command ∈ carried ledger, 0 < command.1
  results : ∀ index result, (index, result) ∈ engine.results →
    index.toNat < LogId.behind engine.store.lastApplied ∧
    (setup.first.applyAll setup.machine ledger).2[index.toNat]? = some result
  /-- Of what was written and applied since the start the results are there. -/
  answered : ∀ index ∈ engine.indexes, LogId.covers engine.store.lastApplied index →
    ∃ result, (index, result) ∈ engine.results
  told : ∀ number outcome, (number, outcome) ∈ engine.queue.resolved →
    ∃ index result, engine.indexes[number]? = some index ∧ (index, result) ∈ engine.results ∧
      outcome = result.outcome
  earlier : engine.earlier <+:
    (Memory.applyAll {} (ledger.filterMap Entry.numbered?)).2.map fun result =>
      some result.outcome

/-- The number of commands that the memory took. -/
def taken (ledger : List Entry) (engine : Engine) : Nat :=
  ((ledger.take (LogId.behind engine.store.lastApplied)).filterMap Entry.numbered?).length

namespace Sound

/-! ### The commands of the ledger -/

theorem carried_prefix (h : Sound setup roster commands ledger engine) :
    (carried ledger).map Prod.snd <+: commands.map Command.toEntry := by
  obtain ⟨past, fresh, hcarried, -, -, hfresh, hcommands⟩ := h.written
  rw [hcarried, List.map_append, ← hcommands, List.append_assoc]
  exact (List.prefix_append_right_inj _).mpr (hfresh.trans (List.prefix_append _ _))

theorem numbered (h : Sound setup roster commands ledger engine) :
    (ledger.filterMap Entry.numbered?).map Memory.Numbered.command <+: commands ∧
      (ledger.filterMap Entry.numbered?).map Memory.Numbered.index =
        (carried ledger).map Prod.fst := by
  have hprefix := List.prefix_iff_eq_take.mp h.carried_prefix
  rw [← List.map_take] at hprefix
  obtain ⟨hcommands, hindexes⟩ := numbered_of_carried hprefix
  exact ⟨hcommands ▸ List.take_prefix _ _, hindexes⟩

theorem rising (h : Sound setup roster commands ledger engine) :
    Memory.Rising (ledger.filterMap Entry.numbered?) := by
  rw [Memory.Rising, h.numbered.2, List.pairwise_cons]
  refine ⟨List.forall_mem_map.mpr h.first, List.pairwise_map.mpr ?_⟩
  refine h.records.consecutive.ascending.filterMap _ fun entry other hlt => ?_
  intro found hfound more hmore
  rwa [Entry.index_of_carried hfound, Entry.index_of_carried hmore]

/-- The memory holds what comes of the commands that it took. -/
theorem state_eq (h : Sound setup roster commands ledger engine) (hmemory : setup.OfMemory) :
    engine.store.state = (Memory.applyAll {} ((ledger.take
      (LogId.behind engine.store.lastApplied)).filterMap Entry.numbered?)).1 :=
  (congrArg Progress.state h.records.progress).trans (hmemory.state_reached _)

/-- The result at the index of a command is what the memory answered to it. -/
theorem result_eq (h : Sound setup roster commands ledger engine) (hmemory : setup.OfMemory)
    {number : Nat} {command : Memory.Numbered} {result : ApplyResult}
    (hcommand : (ledger.filterMap Entry.numbered?)[number]? = some command)
    (hresult : (command.index, result) ∈ engine.results) :
    (Memory.applyAll {} (ledger.filterMap Entry.numbered?)).2[number]? = some result ∧
      number < engine.taken ledger := by
  obtain ⟨position, entry, hentry, hnumbered, htake⟩ := exists_position hcommand
  have hindex : command.index.toNat = position := by
    rw [Entry.index_of_numbered hnumbered, h.records.consecutive.index_eq hentry, Nat.zero_add]
  obtain ⟨happlied, hresult⟩ := h.results _ _ hresult
  rw [hindex] at happlied hresult
  constructor
  · have hanswer := (Store.applyEntry_of_numbered hnumbered
      (setup.first.applyAll setup.machine (ledger.take position)).1).2
    have hstate := hmemory.state_reached (ledger.take position)
    rw [htake] at hstate
    rw [Store.getElem?_results, hentry, Option.map_some, hmemory.machine] at hresult
    rw [hmemory.machine] at hanswer
    rw [Setup.reached, hmemory.machine] at hstate
    rw [Memory.getElem?_results, hcommand, Option.map_some, ← hresult, hanswer]
    exact congrArg (fun memory : Memory => some
      (memory.apply command.index command.term command.command).2) hstate.symm
  · have hlt : number < (ledger.filterMap Entry.numbered?).length :=
      (List.getElem?_eq_some_iff.mp hcommand).1
    have hfront : ((ledger.take (position + 1)).filterMap Entry.numbered?).length =
        number + 1 := by
      rw [List.take_add_one, hentry, List.filterMap_append, htake]
      simp [hnumbered, Nat.min_eq_left (Nat.le_of_lt hlt)]
    have hsooner : ledger.take (position + 1) <+:
        ledger.take (LogId.behind engine.store.lastApplied) := List.take_prefix_take_left happlied
    rw [taken]
    have hle := (hsooner.filterMap Entry.numbered?).length_le
    rw [hfront] at hle
    exact Nat.lt_of_succ_le hle

/-! ### What was told -/

/-- A submitter since the start was told what the memory answered to the own command. -/
theorem outcome_eq (h : Sound setup roster commands ledger engine) (hmemory : setup.OfMemory)
    {number : Nat} {outcome : Outcome} (htold : engine.queue.outcome? number = some outcome) :
    ∃ result, (Memory.applyAll {} (ledger.filterMap Entry.numbered?)).2[
        engine.earlier.length + number]? = some result ∧
      outcome = result.outcome ∧ engine.earlier.length + number < engine.taken ledger := by
  obtain ⟨index, result, hindex, hresult, rfl⟩ := h.told _ _ (ApplyQueue.mem_of_outcome? htold)
  obtain ⟨past, fresh, hcarried, hpast, hfresh, -⟩ := h.written
  have hnumber : ((ledger.filterMap Entry.numbered?).map Memory.Numbered.index)[
      engine.earlier.length + number]? = some index := by
    rw [h.numbered.2, hcarried, List.map_append, hfresh, ← hpast,
      List.getElem?_append_right (by simp)]
    simpa using hindex
  rw [List.getElem?_map] at hnumber
  obtain ⟨command, hcommand, rfl⟩ := Option.map_eq_some_iff.mp hnumber
  obtain ⟨hanswer, htaken⟩ := h.result_eq hmemory hcommand hresult
  exact ⟨result, hanswer, rfl, htaken⟩

/-- The answers of the memory to the commands of the ledger. -/
abbrev answers (ledger : List Entry) : List (Option Outcome) :=
  (Memory.applyAll {} (ledger.filterMap Entry.numbered?)).2.map fun result => some result.outcome

/-- Every task that was handed over waits or was begun. -/
theorem count_eq (h : Sound setup roster commands ledger engine) :
    engine.queue.count = engine.queue.written.length + engine.queue.queued.length := by
  obtain ⟨events, hopen, -, hqueue⟩ := h.queue
  rw [hqueue.sound.count, ← QueueEvent.accepted_of_open hopen, ← hqueue.sound.ordered,
    List.length_append, List.length_map]

theorem length_told (h : Sound setup roster commands ledger engine) :
    engine.told.length = commands.length := by
  obtain ⟨past, fresh, -, hpast, -, -, hcommands⟩ := h.written
  have hcount := h.count_eq
  have hlength := congrArg List.length hcommands
  simp only [List.length_append, List.length_map] at hlength
  simp only [Engine.told, List.length_append, List.length_map, List.length_range]
  omega

theorem told_eq (h : Sound setup roster commands ledger engine) (hmemory : setup.OfMemory)
    {number : Nat} {outcome : Outcome} (htold : engine.told[number]? = some (some outcome)) :
    (answers ledger)[number]? = some (some outcome) ∧
      (engine.earlier.length ≤ number → number < engine.taken ledger) := by
  rw [Engine.told, List.getElem?_append] at htold
  split at htold
  case isTrue hearlier =>
    obtain ⟨rest, hrest⟩ := h.earlier
    refine ⟨?_, fun hle => absurd hearlier (Nat.not_lt.mpr hle)⟩
    rw [answers, ← hrest, List.getElem?_append_left hearlier, htold]
  case isFalse hlater =>
    rw [List.getElem?_map] at htold
    obtain ⟨place, hplace, houtcome⟩ := Option.map_eq_some_iff.mp htold
    obtain ⟨_, heq⟩ := List.getElem?_eq_some_iff.mp hplace
    rw [List.getElem_range] at heq
    obtain ⟨result, hanswer, rfl, htaken⟩ := h.outcome_eq hmemory houtcome
    rw [← heq] at hanswer htaken
    rw [Nat.add_sub_cancel' (Nat.not_lt.mp hlater)] at hanswer htaken
    rw [answers, List.getElem?_map, hanswer]
    exact ⟨rfl, fun _ => htaken⟩

/-- Once no task is under way each was told. -/
theorem exists_outcome (h : Sound setup roster commands ledger engine) (hidle : engine.Idle)
    {number : Nat} (hnumber : number < engine.queue.count) :
    ∃ outcome, engine.queue.outcome? number = some outcome := by
  obtain ⟨events, -, -, hqueue⟩ := h.queue
  have hplaces := hqueue.sound.placed number
  rw [if_pos hnumber, ApplyQueue.places_eq, hidle.queued, hidle.inFlight] at hplaces
  have htold : (engine.queue.told number).length = 1 := by simpa using hplaces
  obtain ⟨outcome, houtcome⟩ := List.exists_mem_of_length_pos (htold ▸ Nat.one_pos)
  obtain ⟨found, hfound, -⟩ := List.mem_map.mp houtcome
  obtain ⟨hfound, hsame⟩ := List.mem_filter.mp hfound
  refine Option.isSome_iff_exists.mp (List.lookup_isSome_iff.mpr ⟨found, hfound, ?_⟩)
  exact beq_iff_eq.mpr (of_decide_eq_true hsame).symm

/-- Once no task is under way each has an index. -/
theorem lengths_of_idle (h : Sound setup roster commands ledger engine) (hidle : engine.Idle) :
    engine.queue.written.length = engine.queue.count ∧
      engine.indexes.length = engine.queue.count := by
  obtain ⟨past, fresh, -, -, hindexes, hfresh, -⟩ := h.written
  have hcount := h.count_eq
  rw [hidle.queued, List.length_nil, Nat.add_zero] at hcount
  refine ⟨hcount.symm, Nat.le_antisymm ?_ (Nat.not_lt.mp fun hless => ?_)⟩
  · have hle := hfresh.length_le
    rwa [List.length_map, ← hcount, ← List.length_map Prod.fst, hindexes] at hle
  · obtain ⟨outcome, houtcome⟩ := h.exists_outcome hidle hless
    obtain ⟨index, -, hindex, -⟩ := h.told _ _ (ApplyQueue.mem_of_outcome? houtcome)
    exact Nat.lt_irrefl _ (List.getElem?_eq_some_iff.mp hindex).1

/-- Once no task is under way all commands are in the log. -/
theorem all_written (h : Sound setup roster commands ledger engine) (hidle : engine.Idle) :
    (carried ledger).map Prod.snd = commands.map Command.toEntry := by
  obtain ⟨past, fresh, hcarried, -, hindexes, hfresh, hcommands⟩ := h.written
  obtain ⟨hwritten, hplaced⟩ := h.lengths_of_idle hidle
  have hsame : fresh.map Prod.snd = engine.queue.written := by
    refine hfresh.eq_of_length ?_
    rw [List.length_map, hwritten, ← hplaced, ← hindexes, List.length_map]
  rw [hcarried, List.map_append, hsame, ← hcommands, hidle.queued, List.map_nil, List.append_nil]

theorem told_of_idle (h : Sound setup roster commands ledger engine) (hmemory : setup.OfMemory)
    (hidle : engine.Idle) : engine.told = answers ledger := by
  have hlength : (answers ledger).length = engine.told.length := by
    have hwritten := congrArg List.length (h.all_written hidle)
    have hindexes := congrArg List.length h.numbered.2
    simp only [List.length_map] at hwritten hindexes
    rw [answers, List.length_map, Memory.length_results, hindexes, hwritten, h.length_told]
  have htold : ∀ number < engine.told.length, ∃ outcome,
      engine.told[number]? = some (some outcome) := by
    intro number hnumber
    rw [Engine.told, List.getElem?_append]
    split
    case isTrue hearlier =>
      obtain ⟨rest, hrest⟩ := h.earlier
      have hmem : engine.earlier[number] ∈ answers ledger := by
        rw [answers, ← hrest]
        exact List.mem_append_left rest (List.getElem_mem hearlier)
      obtain ⟨result, -, hresult⟩ := List.mem_map.mp hmem
      exact ⟨result.outcome, by rw [List.getElem?_eq_getElem hearlier, hresult]⟩
    case isFalse hlater =>
      rw [Engine.told, List.length_append, List.length_map, List.length_range] at hnumber
      have hplace : number - engine.earlier.length < engine.queue.count := by omega
      obtain ⟨outcome, houtcome⟩ := h.exists_outcome hidle hplace
      refine ⟨outcome, ?_⟩
      rw [List.getElem?_map, List.getElem?_range hplace, Option.map_some, houtcome]
  refine List.ext_getElem? fun number => ?_
  by_cases hnumber : number < engine.told.length
  · obtain ⟨outcome, houtcome⟩ := htold number hnumber
    rw [houtcome, (h.told_eq hmemory houtcome).1]
  · rw [List.getElem?_eq_none (Nat.not_lt.mp hnumber),
      List.getElem?_eq_none (hlength ▸ Nat.not_lt.mp hnumber)]

/-! ### Steps -/

theorem start (setup : Setup Memory) (roster : Roster) :
    Sound setup roster [] [] { store := setup.first } where
  records := Store.records_first setup
  queue := ⟨[], List.not_mem_nil, List.not_mem_nil, .start⟩
  written := ⟨[], [], rfl, rfl, rfl, List.nil_prefix, rfl⟩
  first := List.forall_mem_nil _
  results := fun _ _ hmem => absurd hmem List.not_mem_nil
  answered := List.forall_mem_nil _
  told := fun _ _ hmem => absurd hmem List.not_mem_nil
  earlier := List.nil_prefix

theorem submit (h : Sound setup roster commands ledger engine) (command : Command) :
    Sound setup roster (commands ++ [command]) ledger
      { engine with queue := engine.queue.accept command.toEntry } := by
  obtain ⟨events, hopen, hhalted, hqueue⟩ := h.queue
  obtain ⟨past, fresh, hcarried, hpast, hindexes, hfresh, hcommands⟩ := h.written
  have haccept : engine.queue.accept command.toEntry = { engine.queue with
      count := engine.queue.count + 1
      queued := engine.queue.queued ++ [⟨engine.queue.count, command.toEntry⟩] } := by
    rw [ApplyQueue.accept, if_pos (hqueue.sound.isOpen.mpr hopen)]
  refine ⟨h.records, ⟨_, ?_, ?_, hqueue.hand command.toEntry⟩, ?written, h.first, h.results,
    h.answered, ?told, h.earlier⟩
  case written =>
    refine ⟨past, fresh, hcarried, hpast, hindexes, ?_, ?_⟩
    · rw [haccept]
      exact hfresh
    · rw [haccept, List.map_append, List.map_append, ← hcommands, List.append_assoc,
        List.append_assoc, List.append_assoc]
      rfl
  case told =>
    rw [haccept]
    exact h.told
  · simpa using hopen
  · simpa using hhalted

theorem take (h : Sound setup roster commands ledger engine) {task : Task} {queue : ApplyQueue}
    (htake : engine.queue.take? = some (task, queue)) :
    Sound setup roster commands ledger { engine with queue } := by
  obtain ⟨events, hopen, hhalted, hqueue⟩ := h.queue
  obtain ⟨past, fresh, hcarried, hpast, hindexes, hfresh, hcommands⟩ := h.written
  have hnext := hqueue.take htake
  obtain ⟨-, rest, hqueued, rfl⟩ := ApplyQueue.take?_eq_some htake
  refine ⟨h.records, ⟨_, ?_, ?_, hnext⟩, ⟨past, fresh, hcarried, hpast, hindexes, ?_, ?_⟩, h.first,
    h.results, h.answered, h.told, h.earlier⟩
  · simpa using hopen
  · simpa using hhalted
  · exact hfresh.trans (List.prefix_append _ _)
  · rw [← hcommands, hqueued, List.map_cons, List.append_assoc, List.append_assoc,
      List.append_assoc, List.singleton_append]

theorem write (h : Sound setup roster commands ledger engine) {entries : List Entry}
    {store : Store Memory}
    (hconsecutive : Consecutive (LogId.behind engine.store.lastLogId) entries)
    (hnext : (carried entries).map Prod.snd <+:
      engine.queue.written.drop engine.indexes.length)
    (hfirst : ∀ command ∈ carried entries, 0 < command.1)
    (hfits : ∀ entry ∈ entries, (Entry.format.write entry).Fits)
    (hdone : engine.store.append entries = (store, .ok ())) :
    Sound setup roster commands (ledger ++ entries)
      { engine with store, indexes := engine.indexes ++ (carried entries).map Prod.fst } := by
  obtain ⟨past, fresh, hcarried, hpast, hindexes, hfresh, hcommands⟩ := h.written
  have happlied : store.lastApplied = engine.store.lastApplied :=
    congrArg (·.1.lastApplied) hdone ▸ engine.store.lastApplied_append entries
  refine ⟨h.records.append hconsecutive hfits hdone, h.queue, ?written, ?first, ?results,
    ?answered, ?told, ?earlier⟩
  case written =>
    refine ⟨past, fresh ++ carried entries, ?_, hpast, ?_, ?_, hcommands⟩
    · rw [carried, List.filterMap_append, ← carried, hcarried, List.append_assoc]
    · rw [List.map_append, hindexes]
    · have hlength : engine.indexes.length = (fresh.map Prod.snd).length := by
        rw [← hindexes, List.length_map, List.length_map]
      rw [List.map_append, ← List.prefix_iff_eq_append.mp hfresh, List.prefix_append_right_inj,
        ← hlength]
      exact hnext
  case first =>
    rw [carried, List.filterMap_append]
    exact List.forall_mem_append.mpr ⟨h.first, hfirst⟩
  case results =>
    intro index result hmem
    obtain ⟨hlt, hresult⟩ := h.results index result hmem
    rw [happlied, Store.getElem?_results_append _ (Nat.lt_of_lt_of_le hlt h.records.applied)]
    exact ⟨hlt, hresult⟩
  case answered =>
    rw [happlied]
    refine List.forall_mem_append.mpr ⟨h.answered, List.forall_mem_map.mpr fun found hfound => ?_⟩
    -- What is written now lies behind all that was applied.
    obtain ⟨entry, hentry, hcarried⟩ := List.mem_filterMap.mp hfound
    intro hcovers
    rw [Entry.index_of_carried hcarried, LogId.covers_iff_lt_behind] at hcovers
    have hle := hconsecutive.lt_of_mem hentry
    rw [h.records.behind_lastLogId] at hle
    exact absurd (Nat.lt_of_lt_of_le hcovers h.records.applied) (Nat.not_lt.mpr hle)
  case told =>
    intro number outcome hmem
    obtain ⟨index, result, hindex, hresult⟩ := h.told number outcome hmem
    refine ⟨index, result, ?_, hresult⟩
    rw [List.getElem?_append_left (List.getElem?_eq_some_iff.mp hindex).1, hindex]
  case earlier =>
    refine h.earlier.trans (List.IsPrefix.map _ ?_)
    rw [List.filterMap_append, Memory.applyAll_append]
    exact List.prefix_append _ _

theorem apply (h : Sound setup roster commands ledger engine) {entry : Entry}
    {rest : List Entry} {store : Store Memory} {result : ApplyResult}
    (hnext : engine.store.log.after engine.store.lastApplied = entry :: rest)
    (hdone : engine.store.applyEntry setup.machine entry = (store, result)) :
    Sound setup roster commands ledger
      { engine with store, results := engine.results ++ [(entry.id.index, result)] } := by
  obtain ⟨hentry, hindex⟩ := h.records.next_eq hnext
  have hrecords := h.records.applyEntry hnext
  have happlied : (engine.store.applyEntry setup.machine entry).1.lastApplied = some entry.id :=
    engine.store.lastApplied_applyEntry entry
  have hresult : (engine.store.applyEntry setup.machine entry).2 = _ :=
    Store.result_applyEntry h.records.progress entry
  rw [hdone] at hrecords happlied hresult
  have hone : LogId.behind store.lastApplied = LogId.behind engine.store.lastApplied + 1 :=
    (congrArg LogId.behind happlied).trans (congrArg (· + 1) hindex)
  refine ⟨hrecords, h.queue, h.written, h.first, ?results, ?answered, ?told, h.earlier⟩
  case answered =>
    intro index hmem hcovers
    rw [LogId.covers_iff_lt_behind, hone, Nat.lt_succ_iff_lt_or_eq] at hcovers
    rcases hcovers with hbefore | hlast
    · obtain ⟨found, hfound⟩ := h.answered index hmem (LogId.covers_iff_lt_behind.mpr hbefore)
      exact ⟨found, List.mem_append_left _ hfound⟩
    · obtain rfl : index = entry.id.index := UInt64.toNat_inj.mp (hlast.trans hindex.symm)
      exact ⟨result, List.mem_append_right _ (List.mem_singleton_self _)⟩
  case results =>
    intro index found hmem
    rw [hone]
    rcases List.mem_append.mp hmem with hbefore | hlast
    · obtain ⟨hlt, hfound⟩ := h.results index found hbefore
      exact ⟨Nat.lt_succ_of_lt hlt, hfound⟩
    · obtain ⟨rfl, rfl⟩ := Prod.mk.inj (List.mem_singleton.mp hlast)
      rw [hindex, Store.getElem?_results, hentry]
      exact ⟨Nat.lt_succ_self _, congrArg some hresult.symm⟩
  case told =>
    intro number outcome hmem
    obtain ⟨index, found, hplace, hfound, heq⟩ := h.told number outcome hmem
    exact ⟨index, found, hplace, List.mem_append_left _ hfound, heq⟩

theorem tell (h : Sound setup roster commands ledger engine) {task : Task} {index : UInt64}
    {result : ApplyResult} (hwrite : task ∈ engine.queue.inFlight)
    (hindex : engine.indexes[task.number]? = some index)
    (hresult : (index, result) ∈ engine.results) :
    Sound setup roster commands ledger { engine with
      queue := engine.queue.resolve task.number
        ((WriteResult.applied result).outcome setup.group roster) } := by
  obtain ⟨events, hopen, hhalted, hqueue⟩ := h.queue
  obtain ⟨past, fresh, hcarried, hpast, hindexes, hfresh, hcommands⟩ := h.written
  have hnext := hqueue.resolve (.applied result) hwrite fun hmem => absurd hmem hhalted
  refine ⟨h.records, ⟨_, ?_, ?_, hnext⟩, ?written, h.first, h.results, h.answered, ?told, h.earlier⟩
  case written =>
    rw [ApplyQueue.resolve_of_mem hwrite]
    exact ⟨past, fresh, hcarried, hpast, hindexes, hfresh, hcommands⟩
  case told =>
    rw [ApplyQueue.resolve_of_mem hwrite]
    intro number outcome hmem
    rcases List.mem_append.mp hmem with hbefore | hlast
    · exact h.told number outcome hbefore
    · obtain ⟨rfl, rfl⟩ := Prod.mk.inj (List.mem_singleton.mp hlast)
      exact ⟨index, result, hindex, hresult, rfl⟩
  · simpa using hopen
  · simpa using hhalted

theorem aside (h : Sound setup roster commands ledger engine) (hmemory : setup.OfMemory)
    {operation : Operation} {store : Store Memory} (haside : operation.Aside setup engine.store)
    (hdone : operation.perform setup.machine engine.store = (store, .ok ())) :
    Sound setup roster commands ledger { engine with store } := by
  have hmachine : setup.machine.Faithful := hmemory.machine ▸ Memory.faithful
  obtain ⟨hrecords, happlied⟩ := h.records.aside hmachine haside hdone
  refine ⟨hrecords, h.queue, h.written, h.first, ?results, ?answered, h.told, h.earlier⟩
  case results => exact happlied ▸ h.results
  case answered => exact happlied ▸ h.answered

theorem restart (h : Sound setup roster commands ledger engine) (hmemory : setup.OfMemory)
    (hidle : engine.Idle) {volume : Volume} {store : Store Memory}
    (hdone : setup.open engine.store.volume = (volume, .ok store)) :
    Sound setup roster commands ledger { store, earlier := engine.told } := by
  have hwritten := h.all_written hidle
  refine ⟨(h.records.reopened hdone).2, ⟨[], List.not_mem_nil, List.not_mem_nil, .start⟩, ?written,
    h.first, fun _ _ hmem => absurd hmem List.not_mem_nil, List.forall_mem_nil _,
    fun _ _ hmem => absurd hmem List.not_mem_nil, ?earlier⟩
  case written =>
    refine ⟨carried ledger, [], (List.append_nil _).symm, ?_, rfl, List.nil_prefix, ?_⟩
    · rw [h.length_told, ← List.length_map Prod.snd, hwritten, List.length_map]
    · simpa using hwritten
  case earlier =>
    have htold := h.told_of_idle hmemory hidle
    exact htold ▸ List.prefix_rfl

end Sound

theorem Run.sound (run : Run setup roster commands engine) (hmemory : setup.OfMemory) :
    ∃ ledger, Sound setup roster commands ledger engine := by
  induction run with
  | start hdone =>
      obtain rfl := Setup.eq_first_of_open hdone
      exact ⟨[], .start setup roster⟩
  | submit command before ih =>
      obtain ⟨ledger, h⟩ := ih
      exact ⟨ledger, h.submit command⟩
  | take before htake ih =>
      obtain ⟨ledger, h⟩ := ih
      exact ⟨ledger, h.take htake⟩
  | write before hconsecutive hnext hfirst hfits hdone ih =>
      obtain ⟨ledger, h⟩ := ih
      exact ⟨_, h.write hconsecutive hnext hfirst hfits hdone⟩
  | apply before hnext hdone ih =>
      obtain ⟨ledger, h⟩ := ih
      exact ⟨ledger, h.apply hnext hdone⟩
  | tell before hwrite hindex hresult ih =>
      obtain ⟨ledger, h⟩ := ih
      exact ⟨ledger, h.tell hwrite hindex hresult⟩
  | aside before haside hdone ih =>
      obtain ⟨ledger, h⟩ := ih
      exact ⟨ledger, h.aside hmemory haside hdone⟩
  | restart before hidle hdone ih =>
      obtain ⟨ledger, h⟩ := ih
      exact ⟨ledger, h.restart hmemory hidle hdone⟩

theorem Run.lengths_of_idle (run : Run setup roster commands engine) (hmemory : setup.OfMemory)
    (hidle : engine.Idle) : engine.queue.written.length = engine.queue.count ∧
      engine.indexes.length = engine.queue.count := by
  obtain ⟨ledger, h⟩ := run.sound hmemory
  exact h.lengths_of_idle hidle

/-- What is done without a command tells nobody anything. -/
theorem Run.tended (run : Run setup roster commands engine) {store : Store Memory}
    (tended : engine.store.Tended setup store) :
    ∃ after, Run setup roster commands after ∧ after.store = store ∧
      after.queue = engine.queue ∧ after.told = engine.told := by
  induction tended with
  | refl => exact ⟨engine, run, rfl, rfl, rfl⟩
  | @write _ _ entry _ hindex hcommand hfits hdone ih =>
      obtain ⟨after, hafter, rfl, hqueue, htold⟩ := ih
      have hnext : Consecutive (LogId.behind after.store.lastLogId) [entry] := ⟨hindex, trivial⟩
      have hnone := carried_of_bare (List.forall_mem_singleton.mpr hcommand)
      refine ⟨_, hafter.write hnext ?_ ?_ (List.forall_mem_singleton.mpr hfits) hdone, rfl, hqueue,
        htold⟩
      · rw [hnone]
        exact List.nil_prefix
      · rw [hnone]
        exact List.forall_mem_nil _
  | apply _ hnext ih =>
      obtain ⟨after, hafter, rfl, hqueue, htold⟩ := ih
      exact ⟨_, hafter.apply hnext rfl, rfl, hqueue, htold⟩
  | aside _ haside hdone ih =>
      obtain ⟨after, hafter, rfl, hqueue, htold⟩ := ih
      exact ⟨_, hafter.aside haside hdone, rfl, hqueue, htold⟩

/-- Whichever way an engine goes about its work, its submitters are told, and its memory holds,
what comes of the commands one after the other. -/
theorem Run.follows (run : Run setup roster commands engine) (hmemory : setup.OfMemory)
    {numbered : List Memory.Numbered} (hcommands : numbered.map (·.command) = commands)
    (hrising : Memory.Rising numbered) : engine.Follows numbered := by
  obtain ⟨ledger, h⟩ := run.sound hmemory
  subst hcommands
  obtain ⟨hanswers, -⟩ := hrising.answers_of_prefix h.rising h.numbered.1
  have hstate := h.state_eq hmemory
  have hall : engine.CaughtUp → ledger.take (LogId.behind engine.store.lastApplied) = ledger := by
    intro hcaught
    rw [CaughtUp, h.records.after_lastApplied] at hcaught
    exact List.take_of_length_le (List.drop_eq_nil_iff.mp hcaught)
  refine ⟨?length, ?told, ⟨engine.taken ledger, ?alike, ?count⟩, fun hidle => ?idle⟩
  case length => rw [h.length_told, List.length_map]
  case told =>
    intro number outcome houtcome
    have hanswer := (h.told_eq hmemory houtcome).1
    rw [Sound.answers, List.getElem?_map] at hanswer
    obtain ⟨result, hresult, heq⟩ := Option.map_eq_some_iff.mp hanswer
    rw [hanswers number result hresult, Option.some.inj heq]
  case alike =>
    have hfront := (List.take_prefix (LogId.behind engine.store.lastApplied) ledger).filterMap
      Entry.numbered?
    have hfirst := h.rising.take (engine.taken ledger)
    rw [taken, ← List.prefix_iff_eq_take.mp hfront] at hfirst
    rw [hstate]
    exact (hrising.answers_of_prefix hfirst ((hfront.map _).trans h.numbered.1)).2
  case count =>
    intro number outcome houtcome hseen
    obtain ⟨hanswer, htaken⟩ := h.told_eq hmemory houtcome
    rcases hseen with hlater | hcaught
    · exact htaken hlater
    · rw [taken, hall hcaught, ← Memory.length_results {}]
      simpa using (List.getElem?_eq_some_iff.mp hanswer).1
  case idle =>
    have hsame := (numbered_of_carried (h.all_written hidle)).1
    obtain ⟨hanswers, halike⟩ := h.rising.inSequence numbered hsame.symm hrising
    refine ⟨(h.told_of_idle hmemory hidle).trans hanswers, fun hcaught => ?_⟩
    rw [hstate, hall hcaught]
    exact halike

/-- The files of an engine that wrote no entry that is too long can be opened. -/
theorem Run.opens (run : Run setup roster commands engine) (hmemory : setup.OfMemory)
    (hshort : ∀ entry ∈ engine.store.log.entries, entry.payload.IsShort) :
    ∃ store, setup.open engine.store.volume = (engine.store.volume, .ok store) := by
  obtain ⟨ledger, h⟩ := run.sound hmemory
  exact h.records.toFiled.opens fun entry hentry => (hshort entry hentry).entry entry.id

end Engine
end Quorum
