/-! # Running steps

What a step that may fail and changes a state does is told by the parts it is made of.
-/

namespace Quorum

variable {ς ε α β : Type}

theorem run_bind (step : ExceptT ε (StateM ς) α) (next : α → ExceptT ε (StateM ς) β) (before : ς) :
    (step >>= next).run before =
      match step.run before with
      | (.ok value, middle) => (next value).run middle
      | (.error failure, middle) => (.error failure, middle) := by
  change (ExceptT.bindCont next (step.run before).1) (step.run before).2 = _
  rcases step.run before with ⟨failure | value, middle⟩ <;> rfl

/-- When a step succeeds, so did each of its parts. -/
theorem bind_run_eq_ok {step : ExceptT ε (StateM ς) α} {next : α → ExceptT ε (StateM ς) β}
    {before after : ς} {result : β} :
    (step >>= next).run before = (.ok result, after) ↔
      ∃ value middle, step.run before = (.ok value, middle) ∧
        (next value).run middle = (.ok result, after) := by
  rw [run_bind]
  rcases step.run before with ⟨failure | value, middle⟩
  · constructor
    · intro h
      cases h
    · rintro ⟨_, _, h, _⟩
      cases h
  · constructor
    · exact fun h => ⟨value, middle, rfl, h⟩
    · rintro ⟨_, _, h, hnext⟩
      cases h
      exact hnext

/-- When a step fails, one of its parts failed and those before it did not. -/
theorem bind_run_eq_error {step : ExceptT ε (StateM ς) α} {next : α → ExceptT ε (StateM ς) β}
    {before after : ς} {failure : ε} :
    (step >>= next).run before = (.error failure, after) ↔
      step.run before = (.error failure, after) ∨
      ∃ value middle, step.run before = (.ok value, middle) ∧
        (next value).run middle = (.error failure, after) := by
  rw [run_bind]
  rcases step.run before with ⟨cause | value, middle⟩
  · constructor
    · intro h
      cases h
      exact .inl rfl
    · rintro (h | ⟨_, _, h, _⟩)
      · cases h
        rfl
      · cases h
  · constructor
    · exact fun h => .inr ⟨value, middle, rfl, h⟩
    · rintro (h | ⟨_, _, h, hnext⟩)
      · cases h
      · cases h
        exact hnext

theorem run_liftM (result : Except ε α) (before : ς) :
    (liftM result : ExceptT ε (StateM ς) α).run before = (result, before) :=
  rfl

theorem liftM_run_eq_ok {result : Except ε α} {before after : ς} {value : α} :
    (liftM result : ExceptT ε (StateM ς) α).run before = (.ok value, after) ↔
      result = .ok value ∧ before = after :=
  Prod.mk.injEq .. ▸ Iff.rfl

theorem liftM_run_eq_error {result : Except ε α} {before after : ς} {failure : ε} :
    (liftM result : ExceptT ε (StateM ς) α).run before = (.error failure, after) ↔
      result = .error failure ∧ before = after :=
  Prod.mk.injEq .. ▸ Iff.rfl

end Quorum
