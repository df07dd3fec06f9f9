import Quorum.Host.Start
import Quorum.Proofs.Stepping

/-! # Running steps of a host

What may fail before a host is touched, what tells its failure in other words and what is undone
if it fails: each of them succeeds just as its part does, and its failure comes from one of the
part. A part that breaks off is neither told of nor undone.
-/

namespace Quorum.HostStep

variable {σ α : Type} {result : Except Failure α} {step : HostStep σ α} {host after : Host σ}
  {value : α} {failure : Failure} {halt : Halt Failure}

theorem run_lift (result : Except Failure α) (host : Host σ) :
    (liftM result : HostStep σ α).run host = (result.mapError .failed, host) :=
  rfl

theorem run_lift_ok (value : α) (host : Host σ) :
    (liftM (.ok value : Except Failure α) : HostStep σ α).run host = (.ok value, host) :=
  rfl

theorem lift_run_eq_ok :
    (liftM result : HostStep σ α).run host = (.ok value, after) ↔
      result = .ok value ∧ host = after := by
  rw [run_lift, Prod.mk.injEq, mapError_eq_ok]

theorem lift_run_eq_error :
    (liftM result : HostStep σ α).run host = (.error halt, after) ↔
      (∃ failure, result = .error failure ∧ .failed failure = halt) ∧ host = after := by
  rw [run_lift, Prod.mk.injEq, mapError_eq_error]

theorem run_reword (step : HostStep σ α) (words : Failure → Failure) (host : Host σ) :
    (step.reword words).run host =
      ((step.run host).1.mapError (Halt.map words), (step.run host).2) :=
  rfl

theorem reword_run_eq_ok {words : Failure → Failure} :
    (step.reword words).run host = (.ok value, after) ↔ step.run host = (.ok value, after) := by
  rw [run_reword, Prod.mk.injEq, mapError_eq_ok, Prod.ext_iff]

theorem reword_run_eq_error {words : Failure → Failure} :
    (step.reword words).run host = (.error halt, after) ↔
      ∃ cause, step.run host = (.error cause, after) ∧ cause.map words = halt := by
  rw [run_reword, Prod.mk.injEq, mapError_eq_error]
  constructor
  · rintro ⟨⟨cause, hcause, hhalt⟩, hafter⟩
    exact ⟨cause, Prod.ext hcause hafter, hhalt⟩
  · rintro ⟨cause, hrun, hhalt⟩
    rw [hrun]
    exact ⟨⟨cause, rfl, hhalt⟩, rfl⟩

theorem run_undoneBy (step : HostStep σ α) (undo : Host σ → Host σ) (host : Host σ) :
    (step.undoneBy undo).run host =
      match step.run host with
      | (.error (.failed failure), host) => (.error (.failed failure), undo host)
      | done => done :=
  rfl

theorem undoneBy_run_eq_ok {undo : Host σ → Host σ} :
    (step.undoneBy undo).run host = (.ok value, after) ↔ step.run host = (.ok value, after) := by
  rw [run_undoneBy]
  rcases step.run host with ⟨(failure | _) | other, middle⟩
  · exact ⟨nofun, nofun⟩
  · exact Iff.rfl
  · exact Iff.rfl

theorem undoneBy_run_eq_failed {undo : Host σ → Host σ} :
    (step.undoneBy undo).run host = (.error (.failed failure), after) ↔
      ∃ middle, step.run host = (.error (.failed failure), middle) ∧ undo middle = after := by
  rw [run_undoneBy]
  rcases step.run host with ⟨(cause | _) | other, middle⟩
  · constructor
    · intro h
      cases h
      exact ⟨middle, rfl, rfl⟩
    · rintro ⟨_, h, rfl⟩
      cases h
      rfl
  · exact ⟨nofun, nofun⟩
  · exact ⟨nofun, nofun⟩

end Quorum.HostStep
