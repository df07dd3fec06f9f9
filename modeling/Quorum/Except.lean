/-! # Steps that may fail

When a step that may fail succeeds, so did each step it is made of. Some steps end in a third
way: a sum or a product is no number of 64 bits, and nothing more is done.
-/

namespace Quorum

/-- Why a step does not succeed: it fails and tells the cause, or it breaks off at a number that
64 bits cannot hold, which nobody is told. -/
inductive Halt (ε : Type) where
  | failed (cause : ε)
  | overflow
  deriving DecidableEq, Repr

/-- The same end with another word for the cause. -/
def Halt.map {ε φ : Type} (f : ε → φ) : Halt ε → Halt φ
  | .failed cause => .failed (f cause)
  | .overflow => .overflow

variable {ε α β : Type}

theorem bind_eq_ok {step : Except ε α} {next : α → Except ε β} {result : β} :
    (step >>= next) = .ok result ↔ ∃ value, step = .ok value ∧ next value = .ok result := by
  cases step with
  | error => simp [bind, Except.bind]
  | ok value => simp [bind, Except.bind]

theorem map_eq_ok {step : Except ε α} {f : α → β} {result : β} :
    step.map f = .ok result ↔ ∃ value, step = .ok value ∧ f value = result := by
  cases step with
  | error => simp [Except.map]
  | ok value => simp [Except.map]

theorem mapError_eq_ok {step : Except ε α} {f : ε → β} {result : α} :
    step.mapError f = .ok result ↔ step = .ok result := by
  cases step with
  | error => exact ⟨nofun, nofun⟩
  | ok value =>
      constructor
      · intro h
        injection h with h
        rw [h]
      · intro h
        injection h with h
        rw [h]
        rfl

theorem mapError_eq_error {step : Except ε α} {f : ε → β} {failure : β} :
    step.mapError f = .error failure ↔ ∃ cause, step = .error cause ∧ f cause = failure := by
  cases step with
  | error cause =>
      constructor
      · intro h
        injection h with h
        exact ⟨cause, rfl, h⟩
      · rintro ⟨_, h, rfl⟩
        cases h
        rfl
  | ok value =>
      constructor
      · intro h
        cases h
      · rintro ⟨_, h, _⟩
        cases h

end Quorum
