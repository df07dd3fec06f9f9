import Quorum.Disk.Path

/-! # Joined paths

A part that is joined to a path stands behind it, with its names behind those of the path, and
the whole starts at the root just if the path does. Only a part that starts at the root itself
takes the place of the path.
-/

namespace Quorum.Path

variable {base part path : String}

/-- What stands before a part that is joined to a path. -/
def lead (base : String) : String :=
  if base.isEmpty then ""
  else if base.toList.getLast? = some '/' then base
  else base ++ "/"

theorem join_of_absolute (h : isAbsolute part = true) : join base part = part := by
  rw [join, if_pos]
  simp [h]

theorem join_of_relative (h : isAbsolute part = false) : join base part = lead base ++ part := by
  rw [join, lead, h, Bool.false_or]
  split
  case isTrue => simp
  case isFalse =>
    split
    case isTrue => rfl
    case isFalse => rfl

/-! ## Where a path starts -/

theorem isAbsolute_iff : isAbsolute path = true ↔ path.toList.head? = some '/' := by
  rw [isAbsolute]
  split
  next hslash => simp [hslash]
  next hother =>
    cases htext : path.toList with
    | nil => simp
    | cons first rest =>
        simp only [Bool.false_eq_true, List.head?_cons, Option.some.injEq, false_iff]
        rintro rfl
        exact hother _ htext

theorem isAbsolute_append (hbase : base ≠ "") : isAbsolute (base ++ part) = isAbsolute base := by
  rw [Bool.eq_iff_iff, isAbsolute_iff, isAbsolute_iff, String.toList_append]
  cases hchars : base.toList with
  | nil => exact absurd (String.toList_eq_nil_iff.mp hchars) hbase
  | cons first rest => rfl

theorem isAbsolute_join_of_relative (h : isAbsolute part = false) :
    isAbsolute (join base part) = isAbsolute base := by
  rw [join_of_relative h, lead]
  split
  next hempty => rw [String.isEmpty_iff.mp hempty, String.empty_append, h]; rfl
  next hempty =>
    have hbase : base ≠ "" := fun heq => hempty (String.isEmpty_iff.mpr heq)
    split
    next => exact isAbsolute_append hbase
    next => rw [String.append_assoc, isAbsolute_append hbase]

/-- Seen from a directory that starts at the root, every path does. -/
theorem isAbsolute_join (h : isAbsolute base = true) : isAbsolute (join base part) = true := by
  cases hpart : isAbsolute part with
  | true => rw [join_of_absolute hpart, hpart]
  | false => rw [isAbsolute_join_of_relative hpart, h]

/-! ## Names -/

theorem names_slash (before behind : List Char) :
    names (.ofList (before ++ '/' :: behind)) =
      names (.ofList before) ++ names (.ofList behind) := by
  simp only [names, String.toList_ofList, List.splitOn_append_cons_self, List.filter_append,
    List.map_append]

theorem names_empty : names "" = [] :=
  rfl

/-- The names of a part stand behind those of the path that it is joined to. -/
theorem names_join (h : isAbsolute part = false) :
    names (join base part) = names base ++ names part := by
  rw [join_of_relative h, lead]
  split
  next hempty =>
    rw [String.isEmpty_iff.mp hempty, String.empty_append, names_empty, List.nil_append]
  next =>
    split
    next hslash =>
      obtain ⟨before, hbefore⟩ := List.getLast?_eq_some_iff.mp hslash
      have hbase : base = .ofList (before ++ '/' :: []) := by
        rw [← hbefore, String.ofList_toList]
      have hwhole : base ++ part = .ofList (before ++ '/' :: part.toList) := by
        rw [hbase, ← String.toList_inj]
        simp
      rw [hwhole, names_slash, String.ofList_toList, hbase, names_slash]
      rw [show names (.ofList []) = [] from rfl, List.append_nil]
    next =>
      have hwhole : base ++ "/" ++ part = .ofList (base.toList ++ '/' :: part.toList) := by
        rw [← String.toList_inj]
        simp
      rw [hwhole, names_slash, String.ofList_toList, String.ofList_toList]

/-- A text without slashes is the only name of itself. -/
theorem names_of_not_mem (h : '/' ∉ path.toList) (hne : path ≠ "") : names path = [path] := by
  have hchars : path.toList ≠ [] := mt String.toList_eq_nil_iff.mp hne
  rw [names, List.splitOn_eq_singleton h, List.filter_cons_of_pos (by simpa using hchars)]
  simp

end Quorum.Path
