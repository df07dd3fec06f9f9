import Mathlib.Data.List.Induction
import Quorum.Proofs.Binary.Stored
import Quorum.Proofs.StateMachine.Sequence

/-! # Commands that are delivered again

Commands may come in any order and more than once. A fresh memory takes those whose index is
above all before, and the others leave no trace in it. So a snapshot may be followed by
commands that it holds already.
-/

namespace Quorum.Memory

variable {memory : Memory} {deliveries : List Numbered}

/-! ## Which commands are taken -/

/-- Whether a command is new behind others: its index is above zero and above all of theirs. -/
def IsNew (before : List Numbered) (next : Numbered) : Prop :=
  ∀ index ∈ 0 :: before.map Numbered.index, index < next.index

instance (before : List Numbered) : DecidablePred (IsNew before) :=
  fun next => List.decidableBAll (· < next.index) _

/-- The commands that are new behind those before them. -/
def newOnes (deliveries : List Numbered) : List Numbered :=
  (deliveries.zipIdx.filter fun entry => IsNew (deliveries.take entry.2) entry.1).map Prod.fst

theorem newOnes_concat (before : List Numbered) (last : Numbered) :
    newOnes (before ++ [last]) = newOnes before ++ if IsNew before last then [last] else [] := by
  have hbefore : before.zipIdx.filter (fun entry =>
      IsNew ((before ++ [last]).take entry.2) entry.1) =
        before.zipIdx.filter fun entry => IsNew (before.take entry.2) entry.1 := by
    refine List.filter_congr fun entry hentry => ?_
    have hplace : entry.2 < before.length := by simpa using List.snd_lt_of_mem_zipIdx hentry
    rw [List.take_append_of_le_length (Nat.le_of_lt hplace)]
  rw [newOnes, List.zipIdx_append, List.filter_append, hbefore, List.map_append, newOnes]
  congr 1
  by_cases hnew : IsNew before last <;> simp [hnew]

theorem lastIndex_applyAll_lt_iff {index : UInt64} :
    (memory.applyAll deliveries).1.lastIndex < index ↔
      ∀ seen ∈ memory.lastIndex :: deliveries.map Numbered.index, seen < index := by
  induction deliveries generalizing memory with
  | nil => simp [applyAll]
  | cons first rest ih =>
      refine (@ih (memory.apply first.index first.term first.command).1).trans ?_
      rw [lastIndex_apply]
      simp only [List.map_cons, List.forall_mem_cons, ← and_assoc]
      refine and_congr_left fun _ => ?_
      simp only [UInt64.lt_iff_toNat_lt, UInt64.le_iff_toNat_le]
      split <;> omega

/-- A command is new behind others if it is new to the memory that took them. -/
theorem isNew_iff {before : List Numbered} {next : Numbered} :
    IsNew before next ↔ (applyAll {} before).1.lastIndex < next.index :=
  (@lastIndex_applyAll_lt_iff {} before next.index).symm

theorem le_lastIndex_applyAll {numbered : Numbered} (h : numbered ∈ deliveries) :
    numbered.index ≤ (memory.applyAll deliveries).1.lastIndex := by
  refine UInt64.not_lt.mp fun hlt => ?_
  have hself := lastIndex_applyAll_lt_iff.mp hlt numbered.index
    (List.mem_cons_of_mem _ (List.mem_map_of_mem h))
  exact UInt64.lt_irrefl _ hself

/-! ## What is answered -/

theorem apply_of_le {index : UInt64} (h : index ≤ memory.lastIndex) (term : UInt64)
    (command : Command) : memory.apply index term command = (memory, .noOp) :=
  if_pos h

theorem result_perform_ne_noOp (memory : Memory) (command : Command) :
    (memory.perform command).2 ≠ .noOp := by
  unfold perform increment
  intro h
  split at h
  next => cases h
  next => cases h
  next =>
    split at h
    next => split at h <;> cases h
    next => cases h
  next => cases h

theorem result_apply_eq_noOp_iff {index : UInt64} (term : UInt64) (command : Command) :
    (memory.apply index term command).2 = .noOp ↔ index ≤ memory.lastIndex := by
  constructor
  · intro h
    refine Decidable.byContradiction fun hnew => ?_
    rw [apply, if_neg hnew] at h
    exact result_perform_ne_noOp _ _ h
  · intro h
    rw [apply_of_le h]

/-- The commands that are not new are the ones that are answered with nothing. -/
theorem result_eq_noOp_iff {place : Nat} {next : Numbered} (h : deliveries[place]? = some next) :
    (applyAll {} deliveries).2[place]? = some .noOp ↔ ¬ IsNew (deliveries.take place) next := by
  induction deliveries using List.reverseRecOn with
  | nil => simp at h
  | append_singleton before last ih =>
      have hlength := length_results {} before
      rw [applyAll_concat]
      rcases Nat.lt_trichotomy place before.length with hlt | rfl | hgt
      · rw [List.getElem?_append_left hlt] at h
        rw [List.getElem?_append_left (hlength ▸ hlt),
          List.take_append_of_le_length (Nat.le_of_lt hlt)]
        exact ih h
      · obtain rfl : last = next := by simpa using h
        rw [List.take_left, isNew_iff, UInt64.not_lt,
          ← result_apply_eq_noOp_iff last.term last.command]
        simp [← hlength]
      · simp [List.getElem?_append_right (Nat.le_of_lt hgt), Nat.sub_ne_zero_of_lt hgt] at h

/-- Delivering the new commands alone leaves the same memory and gives the same answers. -/
theorem applyAll_newOnes (deliveries : List Numbered) :
    (applyAll {} deliveries).1 = (applyAll {} (newOnes deliveries)).1 ∧
      (applyAll {} deliveries).2.filter (· ≠ .noOp) = (applyAll {} (newOnes deliveries)).2 := by
  induction deliveries using List.reverseRecOn with
  | nil => exact ⟨rfl, rfl⟩
  | append_singleton before last ih =>
      obtain ⟨hstate, hresults⟩ := ih
      rw [applyAll_concat, newOnes_concat, List.filter_append, hresults]
      by_cases hnew : IsNew before last
      · have hanswered := mt (result_apply_eq_noOp_iff last.term last.command).mp
          (UInt64.not_le.mpr (isNew_iff.mp hnew))
        rw [if_pos hnew, applyAll_concat, ← hstate]
        exact ⟨rfl, by simp [hanswered]⟩
      · rw [if_neg hnew, List.append_nil, apply_of_le (UInt64.not_lt.mp (mt isNew_iff.mpr hnew))]
        exact ⟨hstate, by simp⟩

/-! ## Snapshots -/

/-- The memory after bytes were put back into it: what they hold has taken its place, or it is
as it was if they hold nothing. -/
def putBack (memory : Memory) (bytes : Bytes) : Memory × Except Failure Unit :=
  match restore bytes with
  | .ok restored => (restored, .ok ())
  | .error failure => (memory, .error failure)

theorem putBack_snapshot {source : Memory} (hfits : source.snapshot.Fits) (memory : Memory) :
    memory.putBack source.snapshot = (source, .ok ()) := by
  rw [putBack, restore_snapshot hfits]

theorem applyAll_append (memory : Memory) (before after : List Numbered) :
    memory.applyAll (before ++ after) =
      (((memory.applyAll before).1.applyAll after).1,
        (memory.applyAll before).2 ++ ((memory.applyAll before).1.applyAll after).2) := by
  induction before generalizing memory with
  | nil => rfl
  | cons first rest ih =>
      have hrest := ih (memory.apply first.index first.term first.command).1
      simp only [List.cons_append, applyAll] at hrest ⊢
      rw [hrest]

theorem applyAll_of_le (h : ∀ numbered ∈ deliveries, numbered.index ≤ memory.lastIndex) :
    (memory.applyAll deliveries).1 = memory := by
  induction deliveries with
  | nil => rfl
  | cons first rest ih =>
      obtain ⟨hfirst, hrest⟩ := List.forall_mem_cons.mp h
      rw [applyAll, apply_of_le hfirst]
      exact ih hrest

/-- Commands that a memory took before may be delivered to it again, before the next ones. -/
theorem applyAll_again {first last : Nat} (h : first ≤ last) (memory : Memory)
    (deliveries : List Numbered) :
    ((memory.applyAll (deliveries.take last)).1.applyAll (deliveries.drop first)).1 =
      (memory.applyAll deliveries).1 := by
  let taken := (memory.applyAll (deliveries.take last)).1
  have hsplit : deliveries.drop first =
      (deliveries.take last).drop first ++ deliveries.drop last := by
    rw [List.drop_take]
    conv_lhs => rw [← List.take_append_drop (last - first) (deliveries.drop first)]
    rw [List.drop_drop, Nat.add_sub_cancel' h]
  have hknown : (taken.applyAll ((deliveries.take last).drop first)).1 = taken :=
    applyAll_of_le fun numbered hnumbered =>
      le_lastIndex_applyAll (List.mem_of_mem_drop hnumbered)
  calc
    (taken.applyAll (deliveries.drop first)).1 =
        ((taken.applyAll ((deliveries.take last).drop first)).1.applyAll
          (deliveries.drop last)).1 := by
      rw [hsplit, applyAll_append]
    _ = (taken.applyAll (deliveries.drop last)).1 := by
      rw [hknown]
    _ = (memory.applyAll deliveries).1 := by
      conv_rhs => rw [← List.take_append_drop last deliveries, applyAll_append]

/-- Whatever is delivered to a fresh memory, in any order and however often, it ends as if only
the new commands had been delivered; these are answered as they are alone, and the others are
answered with nothing. Any memory into which a snapshot is put back that was taken on the way
gets there as well, from any earlier command on. The snapshot's bytes fit in memory. -/
theorem redelivery_changes_nothing (deliveries : List Numbered) :
    (applyAll {} deliveries).1 = (applyAll {} (newOnes deliveries)).1 ∧
      (applyAll {} deliveries).2.length = deliveries.length ∧
      (applyAll {} deliveries).2.filter (· ≠ .noOp) = (applyAll {} (newOnes deliveries)).2 ∧
      (∀ place next, deliveries[place]? = some next →
        ((applyAll {} deliveries).2[place]? = some .noOp ↔
          ¬ IsNew (deliveries.take place) next)) ∧
      ∀ first last, first ≤ last → ∀ other : Memory,
        let snapshot := (applyAll {} (deliveries.take last)).1.snapshot
        snapshot.Fits → ∃ restored, other.putBack snapshot = (restored, .ok ()) ∧
          (restored.applyAll (deliveries.drop first)).1 = (applyAll {} deliveries).1 := by
  obtain ⟨hstate, hresults⟩ := applyAll_newOnes deliveries
  refine ⟨hstate, length_results {} deliveries, hresults, fun place next hnext =>
    result_eq_noOp_iff hnext, fun first last hle other => ?_⟩
  intro snapshot hfits
  exact ⟨_, putBack_snapshot hfits other, applyAll_again hle {} deliveries⟩

/-- A repeated and a late command, a clearing, and an increment that is refused, with a snapshot
between them that is put back into another memory. -/
theorem redelivered_around_clearing :
    let increment : Command := ⟨.incrCounter, signedBytes .maxValue⟩
    let put : Command := ⟨.put, [1]⟩
    let clear : Command := ⟨.clear, []⟩
    let deliveries : List Numbered := [⟨1, 1, put⟩, ⟨3, 1, clear⟩, ⟨2, 1, put⟩, ⟨3, 2, put⟩,
      ⟨4, 2, increment⟩, ⟨5, 2, increment⟩]
    let snapshot := (applyAll {} (deliveries.take 4)).1.snapshot
    newOnes deliveries = [⟨1, 1, put⟩, ⟨3, 1, clear⟩, ⟨4, 2, increment⟩, ⟨5, 2, increment⟩] ∧
      ∃ restored, (⟨9, 9, [put], 7⟩ : Memory).putBack snapshot = (restored, .ok ()) ∧
        restored.commands = [clear] ∧
        (restored.applyAll (deliveries.drop 1)).1 =
          ⟨5, 2, [clear, increment, increment], .maxValue⟩ := by
  intro increment put clear deliveries snapshot
  have hfits : snapshot.Fits := by decide +kernel
  obtain ⟨restored, hrestored, hagain⟩ :=
    (redelivery_changes_nothing deliveries).2.2.2.2 1 4 (by decide) ⟨9, 9, [put], 7⟩ hfits
  refine ⟨by decide +kernel, restored, hrestored, ?_, hagain.trans (by decide +kernel)⟩
  rw [putBack_snapshot hfits] at hrestored
  cases hrestored
  decide +kernel

end Quorum.Memory
