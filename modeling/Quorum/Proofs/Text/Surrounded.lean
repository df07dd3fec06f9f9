import Mathlib.Data.List.Forall2
import Mathlib.Data.List.TakeWhile
import Quorum.Text.Reading

/-! # Texts that are read alike

Blanks around a text are taken off before it is read, and those around the parts of a text that
is divided are blanks around its parts. A number is read back from its digits.
-/

namespace Quorum.Text

variable {text inner outer before behind : List Char}

/-! ## Blanks at the ends -/

theorem trim_append_left (h : before.all isBlank = true) : trim (before ++ text) = trim text := by
  rw [trim, trim, List.dropWhile_append_of_pos (List.all_eq_true.mp h)]

theorem trim_append_right (h : behind.all isBlank = true) : trim (text ++ behind) = trim text := by
  have hbehind : behind.dropWhile isBlank = [] :=
    List.dropWhile_eq_nil_iff.mpr (List.all_eq_true.mp h)
  have hreverse : ∀ c ∈ behind.reverse, isBlank c = true := by
    simpa using h
  rw [trim, trim, List.dropWhile_append]
  split
  next hblank => rw [hbehind, List.isEmpty_iff.mp hblank]
  next => rw [List.reverse_append, List.dropWhile_append_of_pos hreverse]

/-- Whether a text is another one with blanks before and behind it. -/
def Surrounds (outer inner : List Char) : Prop :=
  ∃ before behind, before.all isBlank = true ∧ behind.all isBlank = true ∧
    outer = before ++ inner ++ behind

theorem Surrounds.trim_eq (h : Surrounds outer inner) : trim outer = trim inner := by
  obtain ⟨before, behind, hbefore, hbehind, rfl⟩ := h
  rw [trim_append_right hbehind, trim_append_left hbefore]

/-- Every text is what is left of it with its blanks around that. -/
theorem surrounds_trim (text : List Char) : Surrounds text (trim text) := by
  refine ⟨text.takeWhile isBlank,
    ((text.dropWhile isBlank).reverse.takeWhile isBlank).reverse, ?_, ?_, ?_⟩
  · exact List.all_takeWhile
  · rw [List.all_reverse]
    exact List.all_takeWhile
  · rw [trim, List.append_assoc, ← List.reverse_append, List.takeWhile_append_dropWhile,
      List.reverse_reverse, List.takeWhile_append_dropWhile]

theorem trim_trim (text : List Char) : trim (trim text) = trim text :=
  (surrounds_trim text).trim_eq.symm

theorem mem_of_mem_trim {c : Char} (h : c ∈ trim text) : c ∈ text := by
  obtain ⟨before, behind, -, -, htext⟩ := surrounds_trim text
  rw [htext]
  simp [h]

theorem trim_eq_nil_iff : trim text = [] ↔ text.all isBlank = true := by
  constructor
  · intro h
    obtain ⟨before, behind, hbefore, hbehind, htext⟩ := surrounds_trim text
    rw [htext, h]
    simp [hbefore, hbehind]
  · intro h
    rw [← List.nil_append text, trim_append_right h]
    rfl

/-- A text without blanks stays whole. -/
theorem trim_eq_self (h : ∀ c ∈ text, isBlank c = false) : trim text = text := by
  have hself : ∀ {text : List Char}, (∀ c ∈ text, isBlank c = false) →
      text.dropWhile isBlank = text := by
    intro text h
    cases text with
    | nil => rfl
    | cons c rest => exact List.dropWhile_cons_of_neg (by simp [h c List.mem_cons_self])
  rw [trim, hself h, hself (by simpa using h), List.reverse_reverse]

/-! ## Blanks around parts -/

theorem splitOn_append_left {separator : Char} (h : separator ∉ before) (text : List Char) :
    (before ++ text).splitOn separator = (text.splitOn separator).modifyHead (before ++ ·) := by
  induction before with
  | nil => exact (congrFun List.modifyHead_id _).symm
  | cons c rest ih =>
      simp only [List.mem_cons, not_or] at h
      obtain ⟨hc, hrest⟩ := h
      rw [List.cons_append, List.splitOn_cons_eq_if_modifyHead, if_neg (by simpa using Ne.symm hc),
        ih hrest, List.modifyHead_modifyHead]
      rfl

/-- Lists that are alike stay so when the first values of both are replaced alike. -/
theorem forall₂_modifyHead {α β : Type} {r s : α → β → Prop} {f : α → α} {g : β → β} {l : List α}
    {l' : List β} (h : List.Forall₂ r l l') (hhead : ∀ a b, r a b → s (f a) (g b))
    (htail : ∀ a b, r a b → s a b) : List.Forall₂ s (l.modifyHead f) (l'.modifyHead g) := by
  cases h with
  | nil => exact .nil
  | cons hfirst hrest => exact .cons (hhead _ _ hfirst) (hrest.imp htail)

/-- What is added behind a text is added to one of its parts, the last. -/
theorem splitOn_append_right {separator : Char} (h : separator ∉ behind) (text : List Char) :
    List.Forall₂ (fun outer inner => outer = inner ∨ outer = inner ++ behind)
      ((text ++ behind).splitOn separator) (text.splitOn separator) := by
  induction text with
  | nil =>
      have hwhole := splitOn_append_left h []
      rw [List.append_nil, List.splitOn_nil] at hwhole
      rw [List.nil_append, hwhole, List.splitOn_nil]
      exact .cons (.inr (by simp)) .nil
  | cons c rest ih =>
      rw [List.cons_append, List.splitOn_cons_eq_if_modifyHead, List.splitOn_cons_eq_if_modifyHead]
      split
      next => exact .cons (.inl rfl) ih
      next =>
        exact forall₂_modifyHead ih (fun _ _ => Or.imp (congrArg (c :: ·)) (congrArg (c :: ·)))
          fun _ _ => id

theorem not_mem_of_blank {blanks : List Char} {separator : Char}
    (hseparator : isBlank separator = false) (h : blanks.all isBlank = true) :
    separator ∉ blanks := by
  intro hmem
  cases hseparator.symm.trans (List.all_eq_true.mp h separator hmem)

/-- What stands in a part stands in the text, and separates nothing there. -/
theorem mem_of_mem_splitOn {separator c : Char} {part : List Char}
    (hpart : part ∈ text.splitOn separator) (hc : c ∈ part) : c ∈ text ∧ c ≠ separator := by
  induction text generalizing part with
  | nil =>
      rw [List.splitOn_nil, List.mem_singleton] at hpart
      rw [hpart] at hc
      cases hc
  | cons first rest ih =>
      rw [List.splitOn_cons_eq_if_modifyHead] at hpart
      split at hpart
      next =>
        rcases List.mem_cons.mp hpart with rfl | hpart
        · cases hc
        · exact (ih hpart hc).imp_left (List.mem_cons_of_mem _)
      next hfirst =>
        cases hparts : rest.splitOn separator with
        | nil => cases List.splitOn_ne_nil separator rest hparts
        | cons head tail =>
            rw [hparts, List.modifyHead_cons] at hpart
            rw [hparts] at ih
            rcases List.mem_cons.mp hpart with rfl | hpart
            · rcases List.mem_cons.mp hc with rfl | hc
              · exact ⟨List.mem_cons_self, by simpa using hfirst⟩
              · exact (ih List.mem_cons_self hc).imp_left (List.mem_cons_of_mem _)
            · exact (ih (List.mem_cons_of_mem _ hpart) hc).imp_left (List.mem_cons_of_mem _)

/-- Blanks around a text are blanks around its first and its last part. -/
theorem Surrounds.splitOn {separator : Char} (hseparator : isBlank separator = false)
    (h : Surrounds outer inner) :
    List.Forall₂ Surrounds (outer.splitOn separator) (inner.splitOn separator) := by
  obtain ⟨before, behind, hbefore, hbehind, rfl⟩ := h
  have hsame : (inner.splitOn separator).modifyHead id = inner.splitOn separator :=
    congrFun List.modifyHead_id _
  rw [List.append_assoc, splitOn_append_left (not_mem_of_blank hseparator hbefore), ← hsame]
  refine forall₂_modifyHead (splitOn_append_right (not_mem_of_blank hseparator hbehind) inner)
    (fun outer inner hpart => ?_) fun outer inner hpart => ?_
  · rcases hpart with rfl | rfl
    · exact ⟨before, [], hbefore, rfl, by simp⟩
    · exact ⟨before, behind, hbefore, hbehind, by simp⟩
  · rcases hpart with rfl | rfl
    · exact ⟨[], [], rfl, rfl, by simp⟩
    · exact ⟨[], behind, rfl, hbehind, by simp⟩

/-! ## Digits -/

theorem isBlank_of_isDigit {c : Char} (h : c.isDigit = true) : isBlank c = false := by
  simp only [Char.isDigit, Bool.and_eq_true, decide_eq_true_eq, ge_iff_le,
    UInt32.le_iff_toNat_le] at h
  obtain ⟨hlow, hhigh⟩ := h
  change 48 ≤ c.toNat at hlow
  change c.toNat ≤ 57 at hhigh
  simp only [isBlank, Bool.or_eq_false_iff, Bool.and_eq_false_imp, decide_eq_true_eq,
    decide_eq_false_iff_not, beq_eq_false_iff_ne]
  omega

theorem digit?_of_isDigit {c : Char} (h : c.isDigit = true) :
    digit? c = some (c.toNat - '0'.toNat) := by
  simp only [Char.isDigit, Bool.and_eq_true, decide_eq_true_eq] at h
  exact if_pos h

theorem digitsFrom?_of_isDigit (value : Nat) (h : ∀ c ∈ text, c.isDigit = true) :
    digitsFrom? value text = some (Nat.ofDigitChars 10 text value) := by
  induction text generalizing value with
  | nil => rfl
  | cons c rest ih =>
      obtain ⟨hc, hrest⟩ := List.forall_mem_cons.mp h
      rw [digitsFrom?, digit?_of_isDigit hc, Nat.ofDigitChars_cons]
      exact ih _ hrest

theorem isDigit_toDigits (number : Nat) : ∀ c ∈ Nat.toDigits 10 number, c.isDigit = true :=
  fun _ => Nat.isDigit_of_mem_toDigits (by decide) (by decide)

/-- A number is read back from its digits. -/
theorem unsigned?_toDigits {limit number : Nat} (h : number ≤ limit) :
    unsigned? limit (Nat.toDigits 10 number) = some number := by
  have hdigits := digitsFrom?_of_isDigit 0 (isDigit_toDigits number)
  have hfirst := isDigit_toDigits number
  rw [Nat.ofDigitChars_ten_toDigits] at hdigits
  cases htext : Nat.toDigits 10 number with
  | nil => exact absurd htext Nat.toDigits_ne_nil
  | cons c rest =>
      rw [htext] at hdigits hfirst
      have hplus : c ≠ '+' := by
        rintro rfl
        cases hfirst '+' List.mem_cons_self
      rw [unsigned?, digits?, hdigits]
      · exact if_pos h
      · intro heq
        cases heq
      · intro rest heq
        exact hplus (List.cons.inj heq).1

end Quorum.Text
