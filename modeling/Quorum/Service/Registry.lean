import Quorum.Group

/-! # Registries

A registry says what stands for each group on a server. A group that is registered again
is taken over, and what is not registered cannot be reached.
-/

namespace Quorum

/-- What stands for each group, every group once. -/
structure Registry (ι : Type) where
  entries : List (GroupId × ι) := []
  deriving Repr

namespace Registry

variable {ι : Type}

def find? (registry : Registry ι) (group : GroupId) : Option ι :=
  registry.entries.lookup group

def contains (registry : Registry ι) (group : GroupId) : Bool :=
  (registry.find? group).isSome

def erase (registry : Registry ι) (group : GroupId) : Registry ι :=
  ⟨registry.entries.filter (·.1 ≠ group)⟩

def insert (registry : Registry ι) (group : GroupId) (value : ι) : Registry ι :=
  ⟨(group, value) :: (registry.erase group).entries⟩

/-- The registered groups, sorted. -/
def groups (registry : Registry ι) : List GroupId :=
  GroupId.sort (registry.entries.map Prod.fst)

/-- The registered groups as diagnostics show them. -/
def debug (registry : Registry ι) : String :=
  "RpcContext \x7b groups: [" ++ ", ".intercalate (registry.groups.map GroupId.debug) ++ "]"

theorem find?_erase (registry : Registry ι) (group other : GroupId) :
    (registry.erase group).find? other =
      if other = group then none else registry.find? other := by
  obtain ⟨entries⟩ := registry
  simp only [find?, erase]
  induction entries with
  | nil => simp
  | cons head rest ih =>
      by_cases hhead : head.1 = group
      · rw [List.filter_cons_of_neg (by simpa using hhead), ih, List.lookup_cons]
        by_cases hother : other = group
        · simp [hother]
        · have hne : (other == head.1) = false := by simpa [hhead] using hother
          simp [hother, hne]
      · rw [List.filter_cons_of_pos (by simpa using hhead), List.lookup_cons, List.lookup_cons, ih]
        by_cases hother : other = group
        · have hne : (other == head.1) = false := by simpa [hother] using Ne.symm hhead
          rw [hne]
        · simp [hother]

theorem find?_insert (registry : Registry ι) (group other : GroupId) (value : ι) :
    (registry.insert group value).find? other =
      if other = group then some value else registry.find? other := by
  have herase := find?_erase registry group other
  simp only [find?, insert, List.lookup_cons] at herase ⊢
  by_cases hother : other = group
  · simp [hother]
  · have hne : (other == group) = false := by simpa using hother
    simp [hne, herase, hother]

end Registry
end Quorum
