import Quorum.Proofs.Stepping
import Quorum.Replica.Answer
import Quorum.Replica.Leadership

/-! # Replicas that go on

A replica ends when its store fails or when it is told to, and in no other way: whatever a
replica does when it is started and when its group is founded, the role that it takes on is
never that of a replica that has ended.
-/

namespace Quorum

theorem Replica.properRole_ne_shutdown {σ : Type} (replica : Replica σ) :
    replica.properRole ≠ .shutdown := by
  rw [properRole]
  split
  · split <;> decide
  · split <;> decide

namespace Step

variable {σ α β : Type} {machine : StateMachine σ} {step : Step σ α}

/-- Whether a step does not end a replica. -/
def Lasts (step : Step σ α) : Prop :=
  ∀ replica, replica.role ≠ .shutdown → (step.run replica).2.role ≠ .shutdown

theorem lasts_pure (value : α) : Lasts (pure value : Step σ α) :=
  fun _ h => h

theorem Lasts.bind {next : α → Step σ β} (hstep : step.Lasts)
    (hnext : ∀ value, (next value).Lasts) : Lasts (step >>= next) := by
  intro replica hrole
  have hmiddle := hstep replica hrole
  rw [run_bind]
  split
  next value middle hrun =>
    rw [hrun] at hmiddle
    exact hnext value middle hmiddle
  next failure middle hrun =>
    rw [hrun] at hmiddle
    exact hmiddle

/-- What is done with the replica as it is lasts if it does for that replica. -/
theorem lasts_get_bind {next : Replica σ → Step σ β} (hnext : ∀ replica, (next replica).Lasts) :
    Lasts (get >>= next) :=
  Lasts.bind (fun _ h => h) hnext

theorem Lasts.ite {condition : Prop} [Decidable condition] {other : Step σ α} (hstep : step.Lasts)
    (hother : other.Lasts) : Lasts (if condition then step else other) := by
  split
  next => exact hstep
  next => exact hother

theorem lasts_store (operation : Store σ → Store σ × Except (Halt StorageError) α) :
    Lasts (store operation) :=
  fun _ h => h

theorem lasts_change (operation : Store σ → Store σ × α) : Lasts (change operation) :=
  lasts_store _

theorem lasts_takeRole : Lasts (takeRole : Step σ Unit) :=
  fun replica _ => replica.properRole_ne_shutdown

theorem lasts_append (entries : List Entry) : Lasts (append entries : Step σ Unit) :=
  (lasts_store _).bind fun _ => lasts_takeRole

theorem lasts_commit (upTo : Option LogId) : (commit machine upTo).Lasts := by
  refine lasts_get_bind fun replica => ?_
  cases upTo with
  | none => exact lasts_pure _
  | some id => exact (lasts_pure _).ite ((lasts_store _).bind fun _ => lasts_change _)

theorem lasts_commitAlone : (commitAlone machine).Lasts :=
  lasts_get_bind fun _ => (lasts_commit _).ite (lasts_pure _)

theorem lasts_write (payload : Payload) : (write machine payload).Lasts :=
  lasts_get_bind fun _ => (lasts_append _).bind fun _ => lasts_commitAlone

theorem lasts_lead : (lead machine).Lasts :=
  lasts_get_bind fun _ => (lasts_store _).bind fun _ => lasts_takeRole.bind fun _ =>
    (lasts_write _).bind fun _ => lasts_pure _

theorem lasts_elect : (elect machine).Lasts :=
  lasts_get_bind fun _ => (lasts_store _).bind fun _ => lasts_takeRole.bind fun _ =>
    lasts_lead.ite (lasts_pure _)

theorem lasts_found (membership : Membership) : (found machine membership).Lasts :=
  lasts_get_bind fun _ => ((lasts_append _).bind fun _ => lasts_elect).ite (lasts_pure _)

theorem lasts_catchUp : (catchUp machine).Lasts := by
  refine lasts_get_bind fun replica => ?_
  split
  next hardState lastApplied _ =>
    split
    next => exact (lasts_pure _).ite ((lasts_change _).bind fun _ => lasts_pure _)
    next => exact lasts_pure _

theorem lasts_closeGap : Lasts (closeGap : Step σ Unit) := by
  refine lasts_get_bind fun replica => ?_
  split
  next => exact (lasts_pure _).ite (lasts_store _)
  next => exact lasts_pure _

theorem lasts_replaceSnapshot : (replaceSnapshot machine).Lasts :=
  lasts_get_bind fun _ => ((lasts_store _).bind fun _ => lasts_pure _).ite (lasts_pure _)

theorem lasts_resume : (resume machine).Lasts := by
  refine lasts_catchUp.bind fun _ => lasts_closeGap.bind fun _ =>
    lasts_replaceSnapshot.bind fun _ => lasts_get_bind fun replica => ?_
  split
  next => exact lasts_takeRole.bind fun _ => lasts_commitAlone.bind fun _ => lasts_pure _
  next =>
    intro before _
    change (if _ then Role.follower else Role.learner) ≠ .shutdown
    split <;> decide

/-- A step that was done leaves a replica that goes on. -/
theorem Lasts.perform {replica after : Replica σ} {value : α} (h : step.Lasts)
    (hrole : replica.role ≠ .shutdown) (hdone : step.perform replica = (after, .ok value)) :
    after.role ≠ .shutdown := by
  have hafter := h replica hrole
  rw [Step.perform] at hdone
  split at hdone
  next value after hrun =>
    cases hdone
    rw [hrun] at hafter
    exact hafter
  next => cases hdone

end Step
end Quorum
