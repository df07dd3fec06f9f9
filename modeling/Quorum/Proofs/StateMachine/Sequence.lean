import Mathlib.Data.List.Induction
import Quorum.StateMachine.Memory

/-! # Commands one after the other

A memory tells new commands from old ones by their index and heeds no more of it, and of
the term nothing. So what it remembers and answers to a sequence of commands is the same
for all indexes that rise.
-/

namespace Quorum.Memory

variable {memory other : Memory}

/-! ## The last index -/

theorem lastIndex_perform (memory : Memory) (command : Command) :
    (memory.perform command).1.lastIndex = memory.lastIndex := by
  unfold perform increment
  split
  next => rfl
  next => rfl
  next =>
    split
    next => split <;> rfl
    next => rfl
  next => rfl

theorem lastIndex_apply (memory : Memory) (index term : UInt64) (command : Command) :
    (memory.apply index term command).1.lastIndex =
      if index ≤ memory.lastIndex then memory.lastIndex else index := by
  unfold apply
  split
  next => rfl
  next => exact lastIndex_perform _ command

/-! ## What the answers depend on -/

/-- Whether two memories hold the same commands and counter. -/
structure Alike (memory other : Memory) : Prop where
  commands : memory.commands = other.commands
  counter : memory.counter = other.counter

theorem Alike.refl (memory : Memory) : Alike memory memory :=
  ⟨rfl, rfl⟩

theorem Alike.perform (h : Alike memory other) (command : Command) :
    Alike (memory.perform command).1 (other.perform command).1 ∧
      (memory.perform command).2 = (other.perform command).2 := by
  obtain ⟨hcommands, hcounter⟩ := h
  simp only [Memory.perform, increment, hcounter]
  split
  next => exact ⟨⟨rfl, rfl⟩, rfl⟩
  next => exact ⟨⟨rfl, rfl⟩, rfl⟩
  next =>
    split
    next =>
      split
      next => exact ⟨⟨hcommands, rfl⟩, rfl⟩
      next => exact ⟨⟨hcommands, hcounter⟩, rfl⟩
    next => exact ⟨⟨hcommands, hcounter⟩, rfl⟩
  next => exact ⟨⟨hcommands, hcounter⟩, rfl⟩

/-- A command that is new to both memories is answered alike and leaves them alike. -/
theorem Alike.apply (h : Alike memory other) {index otherIndex : UInt64}
    (hnew : memory.lastIndex < index) (hotherNew : other.lastIndex < otherIndex)
    (term otherTerm : UInt64) (command : Command) :
    Alike (memory.apply index term command).1 (other.apply otherIndex otherTerm command).1 ∧
      (memory.apply index term command).2 = (other.apply otherIndex otherTerm command).2 := by
  have hmarked : Alike { memory with lastIndex := index, lastTerm := term }
      { other with lastIndex := otherIndex, lastTerm := otherTerm } := ⟨h.commands, h.counter⟩
  obtain ⟨hperformed, hresult⟩ := hmarked.perform command
  simp only [Memory.apply, if_neg (UInt64.not_le.mpr hnew), if_neg (UInt64.not_le.mpr hotherNew)]
  exact ⟨⟨by rw [hperformed.commands], hperformed.counter⟩, hresult⟩

/-! ## Sequences -/

/-- A command with the index and the term of its entry. -/
structure Numbered where
  index : UInt64
  term : UInt64
  command : Command
  deriving DecidableEq, Repr

/-- Takes commands one after the other, with a result for each. -/
def applyAll (memory : Memory) : List Numbered → Memory × List ApplyResult
  | [] => (memory, [])
  | next :: rest =>
      let (memory, result) := memory.apply next.index next.term next.command
      let (memory, results) := applyAll memory rest
      (memory, result :: results)

/-- Whether the indexes of commands rise, and the first one is new to a fresh memory. -/
def Rising (numbered : List Numbered) : Prop :=
  (0 :: numbered.map Numbered.index).Pairwise (· < ·)

instance : DecidablePred Rising :=
  fun _ => inferInstanceAs (Decidable (List.Pairwise _ _))

theorem applyAll_concat (memory : Memory) (before : List Numbered) (last : Numbered) :
    let applied := (memory.applyAll before).1.apply last.index last.term last.command
    memory.applyAll (before ++ [last]) =
      (applied.1, (memory.applyAll before).2 ++ [applied.2]) := by
  induction before generalizing memory with
  | nil => rfl
  | cons first rest ih =>
      have hrest := ih (memory.apply first.index first.term first.command).1
      simp only [List.cons_append, applyAll] at hrest ⊢
      rw [hrest]

theorem length_results (memory : Memory) (numbered : List Numbered) :
    (memory.applyAll numbered).2.length = numbered.length := by
  induction numbered generalizing memory with
  | nil => rfl
  | cons first rest ih => exact congrArg Nat.succ (ih _)

/-- The result of a command is that of taking it behind those in front of it. -/
theorem getElem?_results (memory : Memory) (numbered : List Numbered) (position : Nat) :
    (memory.applyAll numbered).2[position]? = numbered[position]?.map fun next =>
      ((memory.applyAll (numbered.take position)).1.apply next.index next.term next.command).2 := by
  induction numbered generalizing memory position with
  | nil => rfl
  | cons first rest ih =>
      cases position with
      | zero => rfl
      | succ position => exact ih (memory.apply first.index first.term first.command).1 position

variable {before : List Numbered} {last : Numbered}

theorem Rising.of_concat (h : Rising (before ++ [last])) : Rising before := by
  rw [Rising, List.map_append, ← List.cons_append] at h
  exact (List.pairwise_append.mp h).1

theorem lastIndex_applyAll_lt {index : UInt64} (hmemory : memory.lastIndex < index)
    (hbefore : ∀ numbered ∈ before, numbered.index < index) :
    (memory.applyAll before).1.lastIndex < index := by
  induction before generalizing memory with
  | nil => exact hmemory
  | cons first rest ih =>
      have hrest := fun numbered hnumbered => hbefore numbered (List.mem_cons_of_mem _ hnumbered)
      refine @ih (memory.apply first.index first.term first.command).1 ?_ hrest
      rw [lastIndex_apply]
      split
      next => exact hmemory
      next => exact hbefore first List.mem_cons_self

/-- A command behind others is new to the memory that took them. -/
theorem Rising.lastIndex_lt (h : Rising (before ++ [last])) :
    (applyAll {} before).1.lastIndex < last.index := by
  rw [Rising, List.map_append, ← List.cons_append] at h
  have hbehind := fun index hindex =>
    (List.pairwise_append.mp h).2.2 index hindex last.index (List.mem_singleton_self _)
  refine lastIndex_applyAll_lt (hbehind 0 List.mem_cons_self) fun numbered hnumbered => ?_
  exact hbehind _ (List.mem_cons_of_mem _ (List.mem_map_of_mem hnumbered))

/-! ## Submitters -/

/-- Whether submitters were told, and a memory holds, what comes of commands that are taken one
after the other with rising indexes, whatever these are. -/
def InSequence (commands : List Command) (told : List (Option Outcome)) (memory : Memory) : Prop :=
  ∀ numbered, numbered.map Numbered.command = commands → Rising numbered →
    told = (applyAll {} numbered).2.map (fun result => some result.outcome) ∧
      Alike memory (applyAll {} numbered).1

theorem inSequence_nil : InSequence [] [] {} := by
  intro numbered hcommands _
  rw [List.map_eq_nil_iff.mp hcommands]
  exact ⟨rfl, .refl {}⟩

theorem InSequence.concat {commands : List Command} {told : List (Option Outcome)}
    (h : InSequence commands told memory) {index : UInt64} (hnew : memory.lastIndex < index)
    (term : UInt64) (command : Command) :
    let applied := memory.apply index term command
    InSequence (commands ++ [command]) (told ++ [some applied.2.outcome]) applied.1 := by
  intro applied numbered hcommands hrising
  obtain ⟨before, lasts, rfl, hbefore, hlast⟩ := List.map_eq_append_iff.mp hcommands
  obtain ⟨last, rfl, rfl⟩ := List.map_eq_singleton_iff.mp hlast
  obtain ⟨htold, halike⟩ := h before hbefore hrising.of_concat
  obtain ⟨hafter, hresult⟩ := halike.apply hnew hrising.lastIndex_lt term last.term last.command
  rw [applyAll_concat {} before last, List.map_append, ← htold, ← hresult]
  exact ⟨rfl, hafter⟩

theorem Rising.take {numbered : List Numbered} (h : Rising numbered) (count : Nat) :
    Rising (numbered.take count) := by
  refine List.Pairwise.sublist ?_ h
  exact ((List.take_sublist count numbered).map _).cons_cons 0

/-- With rising indexes commands are taken in sequence. -/
theorem Rising.inSequence {numbered : List Numbered} (h : Rising numbered) :
    InSequence (numbered.map Numbered.command)
      ((applyAll {} numbered).2.map fun result => some result.outcome)
      (applyAll {} numbered).1 := by
  induction numbered using List.reverseRecOn with
  | nil => exact inSequence_nil
  | append_singleton before last ih =>
      rw [applyAll_concat {} before last, List.map_append, List.map_append]
      exact (ih h.of_concat).concat h.lastIndex_lt last.term last.command

/-- Commands with which others begin are answered as they are there. -/
theorem Rising.answers_of_prefix {numbered other : List Numbered} (h : Rising numbered)
    (hother : Rising other)
    (hcommands : other.map Numbered.command <+: numbered.map Numbered.command) :
    (∀ (position : Nat) (result : ApplyResult), (applyAll {} other).2[position]? = some result →
      (applyAll {} numbered).2[position]?.map ApplyResult.outcome = some result.outcome) ∧
    Alike (applyAll {} other).1 (applyAll {} (numbered.take other.length)).1 := by
  have hfirst : (numbered.take other.length).map Numbered.command =
      other.map Numbered.command := by
    rw [List.map_take, List.prefix_iff_eq_take.mp hcommands, List.length_map]
  obtain ⟨hanswers, halike⟩ := hother.inSequence _ hfirst (h.take other.length)
  refine ⟨fun position result hresult => ?_, halike⟩
  have hposition := congrArg (·[position]?) hanswers
  have hlt : position < other.length :=
    length_results {} other ▸ (List.getElem?_eq_some_iff.mp hresult).1
  have hsame : (applyAll {} (numbered.take other.length)).2[position]? =
      (applyAll {} numbered).2[position]? := by
    rw [getElem?_results, getElem?_results, List.getElem?_take_of_lt hlt, List.take_take,
      Nat.min_eq_left (Nat.le_of_lt hlt)]
  simp only [List.getElem?_map, hresult, hsame, Option.map_some] at hposition
  cases hfound : (applyAll {} numbered).2[position]? with
  | none => simp [hfound] at hposition
  | some found => simpa [hfound] using hposition.symm

end Quorum.Memory
