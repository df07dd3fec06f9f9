/-! # Ascending lists

A list is ascending if its values have ascending numbers, so no number occurs twice. A
value that is put into such a list takes the place of the one with its number, if there is
one. Sets of numbers and tables with numbers as keys are kept this way.
-/

namespace Quorum

variable {α : Type}

abbrev Ascending (key : α → UInt64) (values : List α) : Prop :=
  values.Pairwise fun a b => key a < key b

namespace Ascending

variable {key : α → UInt64} {value other : α} {values : List α}

/-- A value put at its place, instead of one with the same number. -/
def put (key : α → UInt64) (value : α) : List α → List α
  | [] => [value]
  | other :: rest =>
      if key value < key other then value :: other :: rest
      else if key value = key other then value :: rest
      else other :: put key value rest

/-- Some values put into a list, one after the other. -/
def putAll (key : α → UInt64) (values : List α) (before : List α) : List α :=
  values.foldl (fun list value => put key value list) before

theorem mem_put (h : other ∈ put key value values) : other = value ∨ other ∈ values := by
  induction values with
  | nil => simpa [put] using h
  | cons head rest ih =>
      rw [put] at h
      split at h
      · simpa using h
      · split at h
        · rcases List.mem_cons.mp h with h | h
          · exact .inl h
          · exact .inr (List.mem_cons_of_mem _ h)
        · rcases List.mem_cons.mp h with h | h
          · exact .inr (h ▸ List.mem_cons_self)
          · exact (ih h).imp id (List.mem_cons_of_mem _)

theorem ascending_put (h : Ascending key values) : Ascending key (put key value values) := by
  induction values with
  | nil => simp [put]
  | cons head rest ih =>
      obtain ⟨hhead, hrest⟩ := List.pairwise_cons.mp h
      rw [put]
      split
      next hlt =>
        refine List.pairwise_cons.mpr ⟨fun other hother => ?_, h⟩
        rcases List.mem_cons.mp hother with rfl | hother
        · exact hlt
        · exact UInt64.lt_trans hlt (hhead other hother)
      next hge =>
        split
        next heq =>
          exact List.pairwise_cons.mpr ⟨fun other hother => heq ▸ hhead other hother, hrest⟩
        next hne =>
          refine List.pairwise_cons.mpr ⟨fun other hother => ?_, ih hrest⟩
          rcases mem_put hother with rfl | hother
          · exact UInt64.lt_of_le_of_ne (UInt64.not_lt.mp hge) (Ne.symm hne)
          · exact hhead other hother

theorem ascending_putAll {before : List α} (h : Ascending key before) :
    Ascending key (putAll key values before) := by
  induction values generalizing before with
  | nil => exact h
  | cons head rest ih => exact ih (ascending_put h)

theorem put_of_all_lt (h : ∀ other ∈ values, key other < key value) :
    put key value values = values ++ [value] := by
  induction values with
  | nil => rfl
  | cons head rest ih =>
      have hhead := h head List.mem_cons_self
      have hlt : ¬ key value < key head := UInt64.not_lt.mpr (UInt64.le_of_lt hhead)
      have hne : ¬ key value = key head := fun heq => UInt64.lt_irrefl _ (heq ▸ hhead)
      have hrest := ih fun other hother => h other (List.mem_cons_of_mem _ hother)
      rw [put, if_neg hlt, if_neg hne, hrest]
      rfl

/-- Values that come after all others are put at the end. -/
theorem putAll_of_ascending {before : List α} (h : Ascending key (before ++ values)) :
    putAll key values before = before ++ values := by
  induction values generalizing before with
  | nil => simp [putAll]
  | cons head rest ih =>
      rw [List.append_cons] at h ⊢
      have hbefore := (List.pairwise_append.mp (List.pairwise_append.mp h).1).2.2
      rw [← ih h, putAll, List.foldl_cons, putAll,
        put_of_all_lt fun other hother => hbefore other hother head List.mem_cons_self]

/-- An ascending list is what its values make when they are put one after the other. -/
theorem putAll_nil (h : Ascending key values) : putAll key values [] = values :=
  putAll_of_ascending h

/-! ## Looking up -/

/-- After a value was put, it is found under its number, and nothing else has changed. -/
theorem find?_put (index : UInt64) :
    (put key value values).find? (key · = index) =
      if key value = index then some value else values.find? (key · = index) := by
  induction values with
  | nil => by_cases heq : key value = index <;> simp [put, heq]
  | cons head rest ih =>
      rw [put]
      split
      next hlt => by_cases heq : key value = index <;> simp [heq]
      next hge =>
        split
        next hsame =>
          by_cases heq : key value = index
          · simp [heq]
          · simp [heq, ← hsame]
        next hother =>
          by_cases hhead : key head = index
          · have hvalue : ¬ key value = index := fun heq => hother (heq.trans hhead.symm)
            simp [hhead, hvalue]
          · simp [hhead, ih]

/-- In an ascending list, a value is what is found under its number. -/
theorem find?_eq_some_iff (h : Ascending key values) :
    values.find? (key · = key value) = some value ↔ value ∈ values := by
  constructor
  · exact List.mem_of_find?_eq_some
  · intro hvalue
    induction values with
    | nil => exact absurd hvalue List.not_mem_nil
    | cons head rest ih =>
        obtain ⟨hhead, hrest⟩ := List.pairwise_cons.mp h
        rcases List.mem_cons.mp hvalue with rfl | hmem
        · simp
        · have hne : ¬ key head = key value := UInt64.ne_of_lt (hhead value hmem)
          rw [List.find?_cons, decide_eq_false hne]
          exact ih hrest hmem

/-- Ascending lists with the same values are the same. -/
theorem eq_of_mem_iff {others : List α} (h : Ascending key values) (hothers : Ascending key others)
    (hmem : ∀ value, value ∈ values ↔ value ∈ others) : values = others := by
  induction values generalizing others with
  | nil =>
      refine (List.eq_nil_iff_forall_not_mem.mpr fun value hvalue => ?_).symm
      exact List.not_mem_nil ((hmem value).mpr hvalue)
  | cons first rest ih =>
      cases others with
      | nil => exact absurd ((hmem first).mp List.mem_cons_self) List.not_mem_nil
      | cons second more =>
          obtain ⟨hfirst, hrest⟩ := List.pairwise_cons.mp h
          obtain ⟨hsecond, hmore⟩ := List.pairwise_cons.mp hothers
          have heq : first = second := by
            rcases List.mem_cons.mp ((hmem first).mp List.mem_cons_self) with heq | hin
            · exact heq
            rcases List.mem_cons.mp ((hmem second).mpr List.mem_cons_self) with heq | hin'
            · exact heq.symm
            exact absurd (hfirst second hin') (UInt64.lt_asymm (hsecond first hin))
          subst heq
          rw [ih hrest hmore fun value => ?_]
          constructor
          · intro hvalue
            refine ((List.mem_cons.mp ((hmem value).mp (.tail _ hvalue))).resolve_left ?_)
            exact fun heq => UInt64.lt_irrefl _ (heq ▸ hfirst value hvalue)
          · intro hvalue
            refine ((List.mem_cons.mp ((hmem value).mpr (.tail _ hvalue))).resolve_left ?_)
            exact fun heq => UInt64.lt_irrefl _ (heq ▸ hsecond value hvalue)

end Ascending
end Quorum
