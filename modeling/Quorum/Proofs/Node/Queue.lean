import Mathlib.Data.List.TakeWhile
import Quorum.Node.Queue

/-! # What becomes of the tasks of a node

Tasks are handed over, taken by the loop and written, writes end, and the node is shut down,
in any order. At every moment each task is in one place. It is told one outcome, which is
that of its own write if it was handed over before the queue was closed, and the entries
reach the log in the order in which their tasks came.
-/

namespace Quorum

/-- What may happen to the tasks of a node. -/
inductive QueueEvent where
  | handed (entry : Bytes)
  /-- The loop took the next task and began to write it. -/
  | taken
  | ended (number : Nat) (result : WriteResult)
  /-- The queue was closed, with which a shutdown begins. -/
  | closed
  /-- The writing of entries was stopped behind the queue. -/
  | halted
  /-- The loop came to its end. -/
  | finished
  deriving DecidableEq, Repr

namespace QueueEvent

def entry? : QueueEvent → Option Bytes
  | .handed entry => some entry
  | _ => none

/-- How the write of a task ended, where it did. -/
def result? (number : Nat) : QueueEvent → Option WriteResult
  | .ended other result => if other = number then some result else none
  | _ => none

/-- The entries of all tasks that were handed over. -/
def entries (events : List QueueEvent) : List Bytes :=
  events.filterMap entry?

/-- The entries of the tasks that were handed over before the queue was closed. -/
def accepted (events : List QueueEvent) : List Bytes :=
  entries (events.takeWhile (· ≠ .closed))

/-- The ends of the writes of a task. -/
def results (events : List QueueEvent) (number : Nat) : List WriteResult :=
  events.filterMap (result? number)

variable {events : List QueueEvent} {event : QueueEvent}

theorem entries_concat : entries (events ++ [event]) = entries events ++ event.entry?.toList := by
  cases h : event.entry? <;> simp [entries, h]

theorem results_concat (number : Nat) :
    results (events ++ [event]) number =
      results events number ++ (event.result? number).toList := by
  cases h : event.result? number <;> simp [results, h]

theorem accepted_prefix : accepted events <+: entries events :=
  (List.takeWhile_prefix _).filterMap entry?

theorem accepted_concat_of_closed (h : .closed ∈ events) :
    accepted (events ++ [event]) = accepted events := by
  have hshort : ¬ ∀ other ∈ events, decide (other ≠ .closed) := fun hall => by
    simpa using hall .closed h
  rw [accepted, List.takeWhile_append, if_neg]
  · rfl
  · intro hlength
    exact hshort (List.takeWhile_eq_self_iff.mp
      ((List.takeWhile_prefix _).eq_of_length hlength))

theorem accepted_of_open (h : .closed ∉ events) : accepted events = entries events := by
  rw [accepted, List.takeWhile_eq_self_iff.mpr]
  intro event hevent
  exact decide_eq_true fun heq => h (heq ▸ hevent)

/-- Only a task that is handed over before the queue is closed adds to what was accepted. -/
theorem accepted_concat (h : .closed ∉ events) :
    accepted (events ++ [event]) = accepted events ++ event.entry?.toList := by
  by_cases hevent : event = .closed
  · subst hevent
    rw [accepted, List.takeWhile_append_of_pos]
    · simp [accepted_of_open h, entries, entry?]
    · intro other hother
      exact decide_eq_true fun heq => h (heq ▸ hother)
  · have hnot : .closed ∉ events ++ [event] := by simpa [h] using Ne.symm hevent
    rw [accepted_of_open hnot, accepted_of_open h, entries_concat]

theorem entries_concat_of_none (h : event.entry? = none) :
    entries (events ++ [event]) = entries events := by
  rw [entries_concat, h, Option.toList_none, List.append_nil]

theorem accepted_concat_of_none (h : event.entry? = none) :
    accepted (events ++ [event]) = accepted events := by
  by_cases hclosed : .closed ∈ events
  · exact accepted_concat_of_closed hclosed
  · rw [accepted_concat hclosed, h, Option.toList_none, List.append_nil]

theorem results_concat_of_none {number : Nat} (h : event.result? number = none) :
    results (events ++ [event]) number = results events number := by
  rw [results_concat, h, Option.toList_none, List.append_nil]

end QueueEvent

open QueueEvent

/-- The queues that some events lead to. Any write that was begun may end in any way, and
only once; what ends after the writing was stopped tells so. -/
inductive QueueRun (group : GroupId) (roster : Roster) : List QueueEvent → ApplyQueue → Prop where
  | start : QueueRun group roster [] {}
  | hand {events : List QueueEvent} {queue : ApplyQueue} (entry : Bytes)
      (before : QueueRun group roster events queue) :
      QueueRun group roster (events ++ [.handed entry]) (queue.accept entry)
  | take {events : List QueueEvent} {queue next : ApplyQueue} {task : Task}
      (before : QueueRun group roster events queue) (htake : queue.take? = some (task, next)) :
      QueueRun group roster (events ++ [.taken]) next
  | resolve {events : List QueueEvent} {queue : ApplyQueue} {task : Task} (result : WriteResult)
      (before : QueueRun group roster events queue) (hwrite : task ∈ queue.inFlight)
      (hhalted : .halted ∈ events → result = .stopped) :
      QueueRun group roster (events ++ [.ended task.number result])
        (queue.resolve task.number (result.outcome group roster))
  | close {events : List QueueEvent} {queue : ApplyQueue}
      (before : QueueRun group roster events queue) :
      QueueRun group roster (events ++ [.closed]) queue.close
  | halt {events : List QueueEvent} {queue : ApplyQueue}
      (before : QueueRun group roster events queue) (hclosed : .closed ∈ events) :
      QueueRun group roster (events ++ [.halted]) queue
  | finish {events : List QueueEvent} {queue : ApplyQueue}
      (before : QueueRun group roster events queue) (hclosed : queue.isOpen = false)
      (hempty : queue.queued = []) :
      QueueRun group roster (events ++ [.finished]) queue.finish

namespace ApplyQueue

variable {group : GroupId} {roster : Roster} {events : List QueueEvent} {queue next : ApplyQueue}

/-- The outcomes that a task was told. -/
def told (queue : ApplyQueue) (number : Nat) : List Outcome :=
  (queue.resolved.filter (·.1 = number)).map Prod.snd

/-- How often a task is in the queue, is being written or was told an outcome. -/
def places (queue : ApplyQueue) (number : Nat) : Nat :=
  (queue.queued.map Task.number).count number + (queue.inFlight.map Task.number).count number
    + (queue.told number).length

theorem places_eq (number : Nat) : queue.places number =
    ((queue.queued ++ queue.inFlight).map Task.number).count number
      + (queue.told number).length := by
  rw [places, List.map_append, List.count_append]

theorem told_concat {number : Nat} {outcome : Outcome}
    (h : next.resolved = queue.resolved ++ [(number, outcome)]) (other : Nat) :
    next.told other = queue.told other ++ if number = other then [outcome] else [] := by
  rw [told, h, List.filter_append, List.map_append]
  by_cases hother : number = other <;> simp [hother, told]

theorem told_congr (h : next.resolved = queue.resolved) (number : Nat) :
    next.told number = queue.told number := by
  rw [told, h, told]

/-- Where the tasks of one number are taken out, those of the others stay. -/
theorem count_filter_ne (tasks : List Task) (number other : Nat) :
    ((tasks.filter (·.number ≠ number)).map Task.number).count other =
      if number = other then 0 else (tasks.map Task.number).count other := by
  split
  case isTrue heq =>
    subst heq
    rw [List.count_eq_zero]
    simp
  case isFalse hne =>
    rw [List.count_eq_countP, List.count_eq_countP, List.countP_map, List.countP_filter,
      List.countP_map]
    refine List.countP_congr fun task _ => ?_
    simp only [Function.comp_apply, beq_iff_eq, Bool.and_eq_true, decide_eq_true_eq,
      and_iff_left_iff_imp]
    exact fun hnumber => hnumber ▸ Ne.symm hne

/-- The write of a task ends once it was begun. -/
theorem resolve_of_mem {task : Task} (h : task ∈ queue.inFlight) (outcome : Outcome) :
    queue.resolve task.number outcome = { queue with
      inFlight := queue.inFlight.filter (·.number ≠ task.number)
      resolved := queue.resolved ++ [(task.number, outcome)] } :=
  if_pos (List.any_eq_true.mpr ⟨task, h, decide_eq_true rfl⟩)

theorem take?_eq_some {task : Task} (h : queue.take? = some (task, next)) :
    queue.isRunning = true ∧ ∃ rest, queue.queued = task :: rest ∧ next = { queue with
      queued := rest
      inFlight := queue.inFlight ++ [task]
      written := queue.written ++ [task.entry] } := by
  rw [take?] at h
  split at h
  case h_1 first rest hqueued =>
    split at h
    case isTrue hrunning =>
      simp only [Option.some.injEq, Prod.mk.injEq] at h
      obtain ⟨rfl, rfl⟩ := h
      exact ⟨hrunning, rest, hqueued, rfl⟩
    case isFalse => cases h
  case h_2 => cases h

/-- What is true of a queue after some events. -/
structure Sound (group : GroupId) (roster : Roster) (events : List QueueEvent)
    (queue : ApplyQueue) : Prop where
  isOpen : queue.isOpen = true ↔ .closed ∉ events
  isRunning : queue.isRunning = false → queue.isOpen = false ∧ queue.queued = []
  count : queue.count = (entries events).length
  ordered : queue.written ++ queue.queued.map Task.entry = accepted events
  placed : ∀ number, queue.places number = if number < queue.count then 1 else 0
  task : ∀ task ∈ queue.queued ++ queue.inFlight,
    (entries events)[task.number]? = some task.entry ∧ task.number < (accepted events).length
  answered : ∀ number < (accepted events).length,
    queue.told number = (results events number).map (·.outcome group roster)
  refused : ∀ number, (accepted events).length ≤ number → results events number = [] ∧
    (number < queue.count → queue.told number = [.error .shutdown])
  stopped : ∀ before number result, before ++ [.ended number result] <+: events →
    .halted ∈ before → result = .stopped

namespace Sound

variable {group : GroupId} {roster : Roster} {events : List QueueEvent} {queue : ApplyQueue}

theorem start : Sound group roster [] {} where
  isOpen := by simp
  isRunning := by simp
  count := by simp [entries]
  ordered := by simp [accepted, entries]
  placed := by simp [places, told]
  task := by simp
  answered := by simp [accepted, entries]
  refused := by simp [results]
  stopped := by simp

/-- While the queue is open all tasks that ever came were accepted. -/
theorem length_accepted (sound : Sound group roster events queue) (hopen : queue.isOpen = true) :
    (accepted events).length = queue.count := by
  rw [accepted_of_open (sound.isOpen.mp hopen), sound.count]

theorem told_count (sound : Sound group roster events queue) : queue.told queue.count = [] := by
  have hplaces := sound.placed queue.count
  rw [if_neg (Nat.lt_irrefl _), places] at hplaces
  exact List.eq_nil_of_length_eq_zero (by omega)

/-- Only the end of a write has to be looked at for what was stopped. -/
theorem stopped_concat (sound : Sound group roster events queue) {event : QueueEvent}
    (hevent : ∀ number result, event = .ended number result → .halted ∈ events →
      result = .stopped) :
    ∀ before number result, before ++ [.ended number result] <+: events ++ [event] →
      .halted ∈ before → result = .stopped := by
  intro before number result hprefix hhalted
  rcases List.prefix_concat_iff.mp hprefix with heq | hprefix
  · obtain ⟨rfl, hlast⟩ := List.append_inj' heq rfl
    exact hevent number result (List.singleton_inj.mp hlast).symm hhalted
  · exact sound.stopped before number result hprefix hhalted

theorem hand_open (sound : Sound group roster events queue) (hopen : queue.isOpen = true)
    (entry : Bytes) :
    Sound group roster (events ++ [.handed entry])
      { queue with
        count := queue.count + 1
        queued := queue.queued ++ [⟨queue.count, entry⟩] } := by
  have hclosed := sound.isOpen.mp hopen
  have hlength := sound.length_accepted hopen
  have hentries : entries (events ++ [.handed entry]) = entries events ++ [entry] :=
    entries_concat
  have haccepted : accepted (events ++ [.handed entry]) = accepted events ++ [entry] :=
    accepted_concat hclosed
  have hresults : ∀ number, results (events ++ [.handed entry]) number = results events number :=
    fun _ => results_concat_of_none rfl
  refine ⟨?isOpen, ?isRunning, ?count, ?ordered, ?placed, ?task, ?answered, ?refused, ?stopped⟩
  case isOpen => simpa [hclosed] using hopen
  case isRunning => exact fun h => absurd hopen (by simp [(sound.isRunning h).1])
  case count => simp [hentries, sound.count]
  case ordered => simp [haccepted, ← sound.ordered]
  case placed =>
    intro number
    have hplaces := sound.placed number
    simp only [places, told, List.map_append, List.count_append, List.map_cons, List.map_nil,
      List.count_singleton, beq_iff_eq] at hplaces ⊢
    split at hplaces <;> split <;> split <;> omega
  case task =>
    intro task htask
    rw [hentries, haccepted, List.length_append]
    simp only [List.mem_append, List.mem_singleton] at htask
    have hold : task ∈ queue.queued ++ queue.inFlight →
        (entries events ++ [entry])[task.number]? = some task.entry ∧
          task.number < (accepted events).length + [entry].length := fun hmem => by
      obtain ⟨hentry, hnumber⟩ := sound.task task hmem
      exact ⟨List.getElem?_append_left (List.getElem?_eq_some_iff.mp hentry).1 ▸ hentry,
        Nat.lt_add_right _ hnumber⟩
    rcases htask with (hmem | rfl) | hmem
    · exact hold (List.mem_append_left _ hmem)
    · simp [sound.count, hlength]
    · exact hold (List.mem_append_right _ hmem)
  case answered =>
    intro number hnumber
    rw [haccepted, List.length_append, List.length_singleton] at hnumber
    rw [hresults]
    rcases Nat.lt_succ_iff_lt_or_eq.mp hnumber with hnumber | rfl
    · exact sound.answered number hnumber
    · rw [(sound.refused _ (Nat.le_refl _)).1, hlength]
      exact sound.told_count
  case refused =>
    intro number hnumber
    rw [haccepted, List.length_append, List.length_singleton] at hnumber
    rw [hresults]
    exact ⟨(sound.refused number (by omega)).1, fun h => absurd h (by simp only; omega)⟩
  case stopped => exact sound.stopped_concat (by simp)

/-- What is handed to a closed queue is told of the shutdown and gets no further. -/
theorem hand_closed (sound : Sound group roster events queue) (hshut : queue.isOpen = false)
    (entry : Bytes) :
    Sound group roster (events ++ [.handed entry])
      { queue with
        count := queue.count + 1
        resolved := queue.resolved ++ [(queue.count, .error .shutdown)] } := by
  have hclosed : .closed ∈ events := by
    by_contra hopen
    simp [sound.isOpen.mpr hopen] at hshut
  have hentries : entries (events ++ [.handed entry]) = entries events ++ [entry] :=
    entries_concat
  have haccepted : accepted (events ++ [.handed entry]) = accepted events :=
    accepted_concat_of_closed hclosed
  have hresults : ∀ number, results (events ++ [.handed entry]) number = results events number :=
    fun _ => results_concat_of_none rfl
  have hwithin : (accepted events).length ≤ queue.count := by
    rw [sound.count]
    exact accepted_prefix.length_le
  have htold : ∀ number, ApplyQueue.told { queue with
      count := queue.count + 1
      resolved := queue.resolved ++ [(queue.count, .error .shutdown)] } number =
        queue.told number ++ if queue.count = number then [.error .shutdown] else [] :=
    told_concat rfl
  refine ⟨?isOpen, sound.isRunning, ?count, ?ordered, ?placed, ?task, ?answered, ?refused, ?stopped⟩
  case isOpen => simp [hshut, hclosed]
  case count => simp [hentries, sound.count]
  case ordered => rw [haccepted]; exact sound.ordered
  case placed =>
    intro number
    have hplaces := sound.placed number
    simp only [places, htold, List.length_append] at hplaces ⊢
    by_cases hlast : queue.count = number
    · simp only [hlast, if_true, Nat.lt_irrefl, if_false, Nat.lt_succ_self,
        List.length_singleton] at hplaces ⊢
      omega
    · simp only [hlast, if_false, List.length_nil] at hplaces ⊢
      split at hplaces <;> split <;> omega
  case task =>
    intro task htask
    obtain ⟨hentry, hnumber⟩ := sound.task task htask
    rw [hentries, haccepted]
    exact ⟨List.getElem?_append_left (List.getElem?_eq_some_iff.mp hentry).1 ▸ hentry, hnumber⟩
  case answered =>
    intro number hnumber
    rw [haccepted] at hnumber
    have hother : queue.count ≠ number := by omega
    rw [htold, if_neg hother, List.append_nil, hresults]
    exact sound.answered number hnumber
  case refused =>
    intro number hnumber
    rw [haccepted] at hnumber
    rw [hresults, htold]
    obtain ⟨hnone, hshutdown⟩ := sound.refused number hnumber
    refine ⟨hnone, fun hcount => ?_⟩
    rcases Nat.lt_succ_iff_lt_or_eq.mp hcount with hbefore | rfl
    · rw [if_neg (Nat.ne_of_gt hbefore), List.append_nil, hshutdown hbefore]
    · rw [if_pos rfl, sound.told_count, List.nil_append]
  case stopped => exact sound.stopped_concat (by simp)

theorem hand (sound : Sound group roster events queue) (entry : Bytes) :
    Sound group roster (events ++ [.handed entry]) (queue.accept entry) := by
  rw [ApplyQueue.accept]
  split
  case isTrue hopen => exact sound.hand_open hopen entry
  case isFalse hshut => exact sound.hand_closed ((Bool.not_eq_true _).mp hshut) entry

/-- What neither hands a task over nor ends a write may only move tasks along. -/
theorem move (sound : Sound group roster events queue) {event : QueueEvent} {next : ApplyQueue}
    (hentry : event.entry? = none) (hresult : ∀ number, event.result? number = none)
    (hopen : next.isOpen = true ↔ .closed ∉ events ++ [event])
    (hrunning : next.isRunning = false → next.isOpen = false ∧ next.queued = [])
    (hcount : next.count = queue.count) (hresolved : next.resolved = queue.resolved)
    (hordered : next.written ++ next.queued.map Task.entry =
      queue.written ++ queue.queued.map Task.entry)
    (hmoved : (next.queued ++ next.inFlight).Perm (queue.queued ++ queue.inFlight)) :
    Sound group roster (events ++ [event]) next := by
  have hentries : entries (events ++ [event]) = entries events := entries_concat_of_none hentry
  have haccepted : accepted (events ++ [event]) = accepted events := accepted_concat_of_none hentry
  have hresults : ∀ number, results (events ++ [event]) number = results events number :=
    fun number => results_concat_of_none (hresult number)
  refine ⟨hopen, hrunning, ?count, ?ordered, ?placed, ?task, ?answered, ?refused, ?stopped⟩
  case count => rw [hcount, hentries, sound.count]
  case ordered => rw [hordered, haccepted, sound.ordered]
  case placed =>
    intro number
    rw [places_eq, (hmoved.map Task.number).count_eq, told_congr hresolved, ← places_eq, hcount]
    exact sound.placed number
  case task =>
    intro task htask
    rw [hentries, haccepted]
    exact sound.task task (hmoved.mem_iff.mp htask)
  case answered =>
    intro number hnumber
    rw [haccepted] at hnumber
    rw [told_congr hresolved, hresults, sound.answered number hnumber]
  case refused =>
    intro number hnumber
    rw [haccepted] at hnumber
    rw [told_congr hresolved, hresults, hcount]
    exact sound.refused number hnumber
  case stopped =>
    refine sound.stopped_concat fun number result heq => ?_
    subst heq
    simpa [result?] using hresult number

theorem take (sound : Sound group roster events queue) {task : Task} {next : ApplyQueue}
    (htake : queue.take? = some (task, next)) : Sound group roster (events ++ [.taken]) next := by
  obtain ⟨hrunning, rest, hqueued, rfl⟩ := take?_eq_some htake
  refine sound.move rfl (fun _ => rfl) ?isOpen ?isRunning rfl rfl ?ordered ?moved
  case isOpen => simpa using sound.isOpen
  case isRunning => simp [hrunning]
  case ordered => simp [hqueued]
  case moved =>
    rw [hqueued, ← List.append_assoc]
    exact List.perm_append_singleton task (rest ++ queue.inFlight)

/-- A write that ends tells its own task, and no other. -/
theorem resolve (sound : Sound group roster events queue) {task : Task}
    (hwrite : task ∈ queue.inFlight) (result : WriteResult)
    (hhalted : .halted ∈ events → result = .stopped) :
    Sound group roster (events ++ [.ended task.number result])
      (queue.resolve task.number (result.outcome group roster)) := by
  have hentries : entries (events ++ [.ended task.number result]) = entries events :=
    entries_concat_of_none rfl
  have haccepted : accepted (events ++ [.ended task.number result]) = accepted events :=
    accepted_concat_of_none rfl
  have hresults : ∀ number, results (events ++ [.ended task.number result]) number =
      results events number ++ if task.number = number then [result] else [] := fun number => by
    rw [results_concat, result?]
    split <;> rfl
  obtain ⟨-, hwithin⟩ := sound.task task (List.mem_append_right _ hwrite)
  rw [ApplyQueue.resolve_of_mem hwrite]
  have htold : ∀ number, ApplyQueue.told { queue with
      inFlight := queue.inFlight.filter (·.number ≠ task.number)
      resolved := queue.resolved ++ [(task.number, result.outcome group roster)] } number =
        queue.told number ++ if task.number = number then [result.outcome group roster] else [] :=
    told_concat rfl
  refine ⟨?isOpen, sound.isRunning, ?count, ?ordered, ?placed, ?task, ?answered, ?refused, ?stopped⟩
  case isOpen => simpa using sound.isOpen
  case count => rw [hentries]; exact sound.count
  case ordered => rw [haccepted]; exact sound.ordered
  case placed =>
    intro number
    have hplaces := sound.placed number
    simp only [places, htold, List.length_append, count_filter_ne] at hplaces ⊢
    by_cases hself : task.number = number
    · subst hself
      have hinFlight : 0 < (queue.inFlight.map Task.number).count task.number :=
        List.count_pos_iff.mpr (List.mem_map_of_mem hwrite)
      have hone : (if task.number < queue.count then 1 else 0) ≤ 1 := by split <;> omega
      simp only [if_true, List.length_singleton]
      omega
    · rw [if_neg hself, if_neg hself, List.length_nil, Nat.add_zero]
      exact hplaces
  case task =>
    intro other hother
    rw [hentries, haccepted]
    refine sound.task other ?_
    rcases List.mem_append.mp hother with hqueued | hinFlight
    · exact List.mem_append_left _ hqueued
    · exact List.mem_append_right _ ((List.mem_filter.mp hinFlight).1)
  case answered =>
    intro number hnumber
    rw [haccepted] at hnumber
    rw [htold, hresults, sound.answered number hnumber, List.map_append]
    split <;> rfl
  case refused =>
    intro number hnumber
    rw [haccepted] at hnumber
    have hother : task.number ≠ number := by omega
    rw [htold, hresults, if_neg hother, if_neg hother, List.append_nil, List.append_nil]
    exact sound.refused number hnumber
  case stopped =>
    refine sound.stopped_concat fun number other heq => ?_
    obtain ⟨-, rfl⟩ := QueueEvent.ended.inj heq
    exact hhalted

theorem close (sound : Sound group roster events queue) :
    Sound group roster (events ++ [.closed]) queue.close := by
  refine sound.move rfl (fun _ => rfl) ?isOpen ?isRunning rfl rfl rfl (.refl _)
  case isOpen => simp [ApplyQueue.close]
  case isRunning => exact fun h => ⟨rfl, (sound.isRunning h).2⟩

theorem halt (sound : Sound group roster events queue) :
    Sound group roster (events ++ [.halted]) queue :=
  sound.move rfl (fun _ => rfl) (by simpa using sound.isOpen) sound.isRunning rfl rfl rfl (.refl _)

theorem finish (sound : Sound group roster events queue) (hclosed : queue.isOpen = false)
    (hempty : queue.queued = []) : Sound group roster (events ++ [.finished]) queue.finish := by
  rw [ApplyQueue.finish, if_pos (by simp [hclosed, hempty])]
  exact sound.move rfl (fun _ => rfl) (by simpa using sound.isOpen) (fun _ => ⟨hclosed, hempty⟩)
    rfl rfl rfl (.refl _)

end Sound
end ApplyQueue

open ApplyQueue

variable {group : GroupId} {roster : Roster} {events : List QueueEvent} {queue : ApplyQueue}

theorem QueueRun.sound (run : QueueRun group roster events queue) :
    Sound group roster events queue := by
  induction run with
  | start => exact .start
  | hand entry _ ih => exact ih.hand entry
  | take _ htake ih => exact ih.take htake
  | resolve result _ hwrite hhalted ih => exact ih.resolve hwrite result hhalted
  | close _ ih => exact ih.close
  | halt _ _ ih => exact ih.halt
  | finish _ hclosed hempty ih => exact ih.finish hclosed hempty

/-- The account of the tasks of a node after some events. -/
structure Accounted (group : GroupId) (roster : Roster) (events : List QueueEvent)
    (queue : ApplyQueue) : Prop where
  /-- Each task waits, is being written or was told an outcome, once and in one place. -/
  placed : ∀ number < (entries events).length, queue.places number = 1
  /-- The entries whose writes were begun are the first ones of those that were accepted, in
  the order in which these came, and the others wait. -/
  ordered : queue.written ++ queue.queued.map Task.entry = accepted events
  /-- What is written of a task is the entry that it was handed over with. -/
  own : ∀ task ∈ queue.queued ++ queue.inFlight, (accepted events)[task.number]? = some task.entry
  /-- An accepted task was told how its own write ended, once that did. -/
  answered : ∀ number < (accepted events).length,
    queue.told number = (results events number).map (·.outcome group roster)
  /-- A task that came later was told of the shutdown, and nothing of it was written. -/
  refused : ∀ number, (accepted events).length ≤ number → number < (entries events).length →
    queue.told number = [.error .shutdown] ∧ results events number = [] ∧
      ∀ task ∈ queue.queued ++ queue.inFlight, task.number ≠ number
  /-- A task whose write was stopped was told of the shutdown. -/
  stopped : ∀ before number result, before ++ [.ended number result] <+: events →
    .halted ∈ before → queue.told number = [.error .shutdown]
  /-- Once the loop has ended and no write is left, each task was told one outcome. -/
  complete : queue.isRunning = false → queue.inFlight = [] →
    ∀ number < (entries events).length, ∃ outcome, queue.told number = [outcome]

/-- Whatever the order in which tasks come, are taken and written, and the node is shut down,
no task is lost, told twice or overtaken. -/
theorem tasks_accounted (run : QueueRun group roster events queue) :
    Accounted group roster events queue := by
  have sound := run.sound
  have hplaced : ∀ number < (entries events).length, queue.places number = 1 := by
    intro number hnumber
    rw [sound.placed, if_pos (sound.count ▸ hnumber)]
  refine ⟨hplaced, sound.ordered, ?own, sound.answered, ?refused, ?stopped, ?complete⟩
  case own =>
    intro task htask
    obtain ⟨hentry, hnumber⟩ := sound.task task htask
    rw [← hentry, List.getElem?_eq_getElem hnumber, accepted_prefix.getElem hnumber,
      List.getElem?_eq_getElem]
  case refused =>
    intro number hlate hnumber
    obtain ⟨hresults, htold⟩ := sound.refused number hlate
    refine ⟨htold (sound.count ▸ hnumber), hresults, fun task htask heq => ?_⟩
    have hearly := (sound.task task htask).2
    omega
  case stopped =>
    intro before number result hprefix hhalted
    have hmem : result ∈ results events number :=
      List.mem_filterMap.mpr
        ⟨_, hprefix.subset (List.mem_append_right _ (List.mem_singleton_self _)), by simp [result?]⟩
    have hearly : number < (accepted events).length := by
      by_contra hlate
      simp [(sound.refused number (Nat.le_of_not_lt hlate)).1] at hmem
    have htold := sound.answered number hearly
    have hplaces := hplaced number (Nat.lt_of_lt_of_le hearly accepted_prefix.length_le)
    rw [places, htold, List.length_map] at hplaces
    have hlength := List.length_pos_of_mem hmem
    obtain ⟨only, honly⟩ := List.length_eq_one_iff.mp
      (show (results events number).length = 1 by omega)
    rw [honly, List.mem_singleton] at hmem
    rw [htold, honly, ← hmem, sound.stopped before number result hprefix hhalted]
    rfl
  case complete =>
    intro hended hwritten number hnumber
    have hplaces := hplaced number hnumber
    rw [places_eq, (sound.isRunning hended).2, hwritten] at hplaces
    exact List.length_eq_one_iff.mp (by simpa using hplaces)

/-- A shutdown finds one write in flight and one task queued, and a third task comes late. -/
theorem tasks_accounted_in_shutdown :
    let roster : Roster := ⟨[⟨"a", 1, 0⟩], by simp, by simp⟩
    let events : List QueueEvent := [.handed [1], .handed [2], .taken, .closed, .handed [3], .taken,
      .ended 1 (.applied .noOp), .halted, .ended 0 .stopped, .finished]
    let queue : ApplyQueue := {
      isOpen := false
      isRunning := false
      count := 3
      resolved := [(2, .error .shutdown), (1, .ok []), (0, .error .shutdown)]
      written := [[1], [2]] }
    QueueRun ⟨"g"⟩ roster events queue ∧ Accounted ⟨"g"⟩ roster events queue := by
  intro roster events queue
  have htaken := (QueueRun.start : QueueRun ⟨"g"⟩ roster [] {})
    |>.hand [1] |>.hand [2] |>.take rfl |>.close |>.hand [3] |>.take rfl
  have hwritten := htaken
    |>.resolve (.applied .noOp) (by decide : ⟨1, [2]⟩ ∈ [Task.mk 0 [1], ⟨1, [2]⟩]) (by decide)
    |>.halt (by decide)
    |>.resolve .stopped (by decide : ⟨0, [1]⟩ ∈ [Task.mk 0 [1]]) (fun _ => rfl)
  have hrun : QueueRun ⟨"g"⟩ roster events queue := hwritten.finish rfl rfl
  exact ⟨hrun, tasks_accounted hrun⟩

end Quorum
