import Quorum.Bytes

/-! # Paths

A path is text in which slashes stand between names. Joined paths are joined as text,
except that a path which starts at the root replaces what stands before it.
-/

namespace Quorum.Path

/-- Whether a path starts at the root. -/
def isAbsolute (path : String) : Bool :=
  match path.toList with
  | '/' :: _ => true
  | _ => false

/-- Two paths as one, the second within the first unless it starts at the root. -/
def join (base part : String) : String :=
  if isAbsolute part || base.isEmpty then part
  else if base.toList.getLast? = some '/' then base ++ part
  else base ++ "/" ++ part

/-- The names of a path, without the empty ones that slashes at the end or next to each
other leave. -/
def names (path : String) : List String :=
  ((path.toList.splitOn '/').filter (· ≠ [])).map String.ofList

/-- The names of the path one step up: the last name and the dots before and behind it
are left out, a dot being the directory itself. None for the path of a directory's own
dots. -/
def parent? (names : List String) : Option (List String) :=
  match names.reverse.dropWhile (· = ".") with
  | [] => none
  | _ :: before => some (before.dropWhile (· = ".")).reverse

theorem length_lt_of_parent? {names parent : List String} (h : parent? names = some parent) :
    parent.length < names.length := by
  simp only [parent?] at h
  split at h
  · contradiction
  next last before heq =>
    injection h with h
    subst h
    have hle := (List.dropWhile_sublist (· = ".") (l := names.reverse)).length_le
    have hrest := (List.dropWhile_sublist (· = ".") (l := before)).length_le
    rw [heq, List.length_reverse, List.length_cons] at hle
    rw [List.length_reverse]
    omega

end Quorum.Path
