import Quorum.Proofs.Disk.Volume
import Quorum.Proofs.Host.Stores

/-! # Directories that stay under their root

The directories of a group are named after the group, and names are any text. A slash in a name
goes down into a directory, two dots go up again, and a name that starts with a slash starts at
the root of the disk. As long as a name never goes up further than it went down, the directories
of its group are below those of all logs, hard states and snapshots, at the same place in each.
With any other name they all are one directory, wherever that is.
-/

namespace Quorum

namespace Path

variable {directory found last steps more working : List String}

/-- Where names lead from a directory, by the names of all those above it. A dot is the
directory itself, two dots the one above it, and above the top there is the top. -/
def resolve (directory : List String) : List String → List String
  | [] => directory
  | name :: rest =>
      if name = "." then resolve directory rest
      else if name = ".." then resolve directory.dropLast rest
      else resolve (directory ++ [name]) rest

/-- The directory that a path denotes for somebody in a working directory. -/
def denoted (working : List String) (path : String) : List String :=
  resolve (if isAbsolute path then [] else working) (names path)

/-- Where names lead from a directory and the names found in it so far, unless they leave that
directory on the way. -/
def inside? (found : List String) : List String → Option (List String)
  | [] => some found
  | name :: rest =>
      if name = "." then inside? found rest
      else if name = ".." then if found = [] then none else inside? found.dropLast rest
      else inside? (found ++ [name]) rest

/-- Whether a directory is in another one, at any depth. -/
def Below (directory upper : List String) : Prop :=
  ∃ rest, rest ≠ [] ∧ directory = upper ++ rest

/-! ## Where paths lead -/

theorem resolve_append :
    resolve directory (steps ++ more) = resolve (resolve directory steps) more := by
  fun_induction resolve directory steps with
  | case1 => rfl
  | case2 directory rest ih => rw [List.cons_append, resolve, if_pos rfl, ih]
  | case3 directory rest hdot ih => rw [List.cons_append, resolve, if_neg hdot, if_pos rfl, ih]
  | case4 directory name rest hdot hup ih =>
      rw [List.cons_append, resolve, if_neg hdot, if_neg hup, ih]

/-- What leads to a directory on a disk leads where it denotes. -/
theorem eq_resolve_of_follow {disk : Disk} (h : disk.follow directory steps = .ok found) :
    found = resolve directory steps := by
  fun_induction Disk.follow disk directory steps with
  | case1 directory =>
      cases h
      rfl
  | case2 directory rest ih =>
      rw [resolve, if_pos rfl]
      exact ih h
  | case3 directory rest hdot ih =>
      rw [resolve, if_neg hdot, if_pos rfl]
      exact ih h
  | case4 | case5 | case6 => cases h
  | case7 directory name rest hdot hup hlong hnext ih =>
      rw [resolve, if_neg hdot, if_neg hup]
      exact ih h

theorem eq_denoted_of_enters {disk : Disk} {path : String} (h : disk.Enters path found) :
    found = denoted [] path := by
  rw [denoted, ite_self]
  exact eq_resolve_of_follow h.follow

theorem denoted_join {base part : String} (h : isAbsolute part = false) :
    denoted working (join base part) = resolve (denoted working base) (names part) := by
  rw [denoted, isAbsolute_join_of_relative h, names_join h, resolve_append, denoted]

/-- Names that do not leave a directory lead to the same place within every directory. -/
theorem resolve_of_inside (h : inside? found steps = some last) :
    resolve (directory ++ found) steps = directory ++ last := by
  fun_induction inside? found steps with
  | case1 found =>
      cases h
      rfl
  | case2 found rest ih =>
      rw [resolve, if_pos rfl]
      exact ih h
  | case3 => cases h
  | case4 found rest hne hdot ih =>
      rw [resolve, if_neg hdot, if_pos rfl, List.dropLast_append_of_ne_nil hne]
      exact ih h
  | case5 found name rest hdot hup ih =>
      rw [resolve, if_neg hdot, if_neg hup, List.append_assoc]
      exact ih h

/-- Names that leave a directory lead to one place from all directories next to it. -/
theorem resolve_of_leaving {other : List String} (h : inside? found steps = none)
    (hnext : directory.dropLast = other.dropLast) :
    resolve (directory ++ found) steps = resolve (other ++ found) steps := by
  fun_induction inside? found steps with
  | case1 => cases h
  | case2 found rest ih =>
      rw [resolve, if_pos rfl, resolve, if_pos rfl]
      exact ih h
  | case3 rest hdot =>
      rw [resolve, if_neg hdot, if_pos rfl, resolve, if_neg hdot, if_pos rfl, List.append_nil,
        List.append_nil, hnext]
  | case4 found rest hne hdot ih =>
      rw [resolve, if_neg hdot, if_pos rfl, resolve, if_neg hdot, if_pos rfl,
        List.dropLast_append_of_ne_nil hne, List.dropLast_append_of_ne_nil hne]
      exact ih h
  | case5 found name rest hdot hup ih =>
      rw [resolve, if_neg hdot, if_neg hup, resolve, if_neg hdot, if_neg hup, List.append_assoc,
        List.append_assoc]
      exact ih h

end Path

/-! ## The directories of a group -/

/-- Where the directories of a group are within those of all groups, unless its name leaves
them. -/
def GroupId.inside? (group : GroupId) : Option (List String) :=
  if Path.isAbsolute group.name then none else Path.inside? [] (Path.names group.name)

namespace Layout

variable {working found : List String} {root : String} {group : GroupId} {useSnapshot : Bool}

/-- Whether the directories of a group are below those of all groups under a root. -/
structure Confined (working : List String) (root : String) (layout : Layout) : Prop where
  log : Path.Below (Path.denoted working layout.logDirectory)
    (Path.denoted working (Path.join root "log"))
  hardState : Path.Below (Path.denoted working layout.metaDirectory)
    (Path.denoted working (Path.join root "meta"))
  snapshot : ∀ directory, layout.snapshotDirectory = some directory →
    Path.Below (Path.denoted working directory)
      (Path.denoted working (Path.join root "snapshot"))

theorem log_mem_kinds : "log" ∈ kinds useSnapshot := by
  simp [kinds]

theorem meta_mem_kinds : "meta" ∈ kinds useSnapshot := by
  simp [kinds]

theorem confined_ofRoot_iff : (ofRoot root group useSnapshot).Confined working root ↔
    ∀ kind ∈ kinds useSnapshot,
      Path.Below (Path.denoted working (Path.join (Path.join root kind) group.name))
        (Path.denoted working (Path.join root kind)) := by
  constructor
  · rintro ⟨hlog, hhardState, hsnapshot⟩ kind hkind
    cases useSnapshot with
    | false =>
        rcases List.mem_pair.mp hkind with rfl | rfl
        · exact hlog
        · exact hhardState
    | true =>
        rcases mem_kinds hkind with rfl | rfl | rfl
        · exact hlog
        · exact hhardState
        · exact hsnapshot _ rfl
  · intro h
    refine ⟨h "log" log_mem_kinds, h "meta" meta_mem_kinds, fun directory hdirectory => ?_⟩
    cases useSnapshot with
    | false => cases hdirectory
    | true =>
        cases hdirectory
        exact h "snapshot" (by simp [kinds])

theorem denoted_kind {kind : String} (h : kind ∈ kinds useSnapshot) :
    Path.denoted working (Path.join root kind) = Path.denoted working root ++ [kind] := by
  rcases mem_kinds h with rfl | rfl | rfl <;> rw [Path.denoted_join (by decide)] <;> rfl

/-- A group that stays inside has its directories at the same place in each of those of all
groups. -/
theorem denoted_of_inside {kind : String} (hinside : group.inside? = some found)
    (hkind : kind ∈ kinds useSnapshot) :
    Path.denoted working (Path.join (Path.join root kind) group.name) =
      Path.denoted working root ++ kind :: found := by
  rw [GroupId.inside?] at hinside
  split at hinside
  next => cases hinside
  next hrelative =>
    rw [Path.denoted_join (Bool.eq_false_iff.mpr hrelative), denoted_kind hkind,
      ← List.append_nil (_ ++ [kind]), Path.resolve_of_inside hinside, List.append_assoc]
    rfl

/-- A group that does not stay inside has one directory only. -/
theorem denoted_of_leaving {kind other : String} (hleaving : group.inside? = none)
    (hkind : kind ∈ kinds useSnapshot) (hother : other ∈ kinds useSnapshot) :
    Path.denoted working (Path.join (Path.join root kind) group.name) =
      Path.denoted working (Path.join (Path.join root other) group.name) := by
  rw [GroupId.inside?] at hleaving
  split at hleaving
  next habsolute => rw [Path.join_of_absolute habsolute, Path.join_of_absolute habsolute]
  next hrelative =>
    have hname := Bool.eq_false_iff.mpr hrelative
    have hnext : (Path.denoted working root ++ [kind]).dropLast =
        (Path.denoted working root ++ [other]).dropLast := by
      rw [List.dropLast_concat, List.dropLast_concat]
    have hone := Path.resolve_of_leaving hleaving hnext
    rw [List.append_nil, List.append_nil] at hone
    rw [Path.denoted_join hname, Path.denoted_join hname, denoted_kind hkind, denoted_kind hother,
      hone]

/-- The places that the directories of a group denote. -/
def places (working : List String) (layout : Layout) : List (List String) :=
  layout.directories.map (Path.denoted working)

theorem places_ofRoot : (ofRoot root group useSnapshot).places working =
    (kinds useSnapshot).map fun kind =>
      Path.denoted working (Path.join (Path.join root kind) group.name) := by
  rw [places, directories_ofRoot, List.map_map]
  rfl

theorem places_of_inside (h : group.inside? = some found) :
    (ofRoot root group useSnapshot).places working =
      (kinds useSnapshot).map fun kind => Path.denoted working root ++ kind :: found := by
  rw [places_ofRoot]
  exact List.map_congr_left fun kind hkind => denoted_of_inside h hkind

theorem mem_places_of_leaving (h : group.inside? = none) {place : List String} :
    place ∈ (ofRoot root group useSnapshot).places working ↔
      place = Path.denoted working (ofRoot root group useSnapshot).logDirectory := by
  rw [places_ofRoot, List.mem_map]
  constructor
  · rintro ⟨kind, hkind, rfl⟩
    exact denoted_of_leaving h hkind log_mem_kinds
  · rintro rfl
    exact ⟨"log", log_mem_kinds, rfl⟩

theorem nodup_kinds : (kinds useSnapshot).Nodup := by
  cases useSnapshot <;> decide

theorem nodup_places_iff :
    ((ofRoot root group useSnapshot).places working).Nodup ↔ group.inside?.isSome = true := by
  cases hinside : group.inside? with
  | some found =>
      rw [places_of_inside hinside]
      refine iff_of_true (nodup_kinds.map fun kind other heq => ?_) rfl
      exact (List.cons.inj (List.append_cancel_left heq)).1
  | none =>
      have hlogKind : "log" ∈ kinds useSnapshot := log_mem_kinds
      refine iff_of_false (fun hnodup => ?_) Bool.false_ne_true
      rw [places_ofRoot, kinds, List.map_append, List.map_cons, List.nodup_append] at hnodup
      exact (List.nodup_cons.mp hnodup.1).1 (List.mem_cons.mpr
        (.inl (denoted_of_leaving hinside hlogKind meta_mem_kinds)))

/-- The directories of a group are below those of all groups just if its name stays inside and
leads further than where it starts. -/
theorem confined_iff : (ofRoot root group useSnapshot).Confined working root ↔
    ∃ found, found ≠ [] ∧ group.inside? = some found := by
  rw [confined_ofRoot_iff]
  constructor
  · intro h
    have hlogKind : "log" ∈ kinds useSnapshot := log_mem_kinds
    have hmetaKind : "meta" ∈ kinds useSnapshot := meta_mem_kinds
    obtain ⟨inLog, hinLog, hlog⟩ := h "log" hlogKind
    obtain ⟨inMeta, -, hmeta⟩ := h "meta" hmetaKind
    cases hinside : group.inside? with
    | some found =>
        refine ⟨found, ?_, rfl⟩
        rintro rfl
        rw [denoted_of_inside hinside hlogKind, denoted_kind hlogKind] at hlog
        exact hinLog (List.append_cancel_left ((List.append_nil _).trans hlog)).symm
    | none =>
        -- One directory is not in those of the logs and in those of the hard states.
        rw [denoted_of_leaving hinside hlogKind hmetaKind, hmeta, denoted_kind hlogKind,
          denoted_kind hmetaKind, List.append_assoc, List.append_assoc] at hlog
        have hkinds := (List.cons.inj (List.append_cancel_left hlog)).1
        cases (show ("meta" : String) ≠ "log" by decide) hkinds
  · rintro ⟨found, hfound, hinside⟩ kind hkind
    refine ⟨found, hfound, ?_⟩
    rw [denoted_of_inside hinside hkind, denoted_kind hkind, List.append_assoc]
    rfl

/-- Of two groups that stay inside, all directories are apart just if the two lead to different
places. -/
theorem disjoint_places_iff {group other : GroupId} {found otherFound : List String}
    (hgroup : group.inside? = some found) (hother : other.inside? = some otherFound) :
    List.Disjoint ((ofRoot root group useSnapshot).places working)
        ((ofRoot root other useSnapshot).places working) ↔
      found ≠ otherFound := by
  rw [places_of_inside hgroup, places_of_inside hother]
  constructor
  · rintro hdisjoint rfl
    exact hdisjoint (List.mem_map_of_mem log_mem_kinds) (List.mem_map_of_mem log_mem_kinds)
  · intro hne place hmem hmemOther
    obtain ⟨kind, -, rfl⟩ := List.mem_map.mp hmem
    obtain ⟨otherKind, -, heq⟩ := List.mem_map.mp hmemOther
    exact hne (List.cons.inj (List.append_cancel_left heq)).2.symm

/-- From a group that does not stay inside, all directories of another one are apart just if
none of them is its one directory. -/
theorem disjoint_places_of_leaving {other : GroupId} (hother : other.inside? = none) :
    List.Disjoint ((ofRoot root group useSnapshot).places working)
        ((ofRoot root other useSnapshot).places working) ↔
      Path.denoted working (ofRoot root other useSnapshot).logDirectory ∉
        (ofRoot root group useSnapshot).places working := by
  constructor
  · exact fun hdisjoint hmem => hdisjoint hmem ((mem_places_of_leaving hother).mpr rfl)
  · intro hnot place hmem hmemOther
    rw [mem_places_of_leaving hother] at hmemOther
    exact hnot (hmemOther ▸ hmem)

end Layout

/-- A name without slashes stays inside, at itself. -/
theorem StoreSettings.inside?_of_plain {store : StoreSettings}
    (hdatabase : '/' ∉ store.database.toList) (hstore : '/' ∉ store.store.toList) :
    store.group.inside? = some [store.group.name] := by
  have hname := store.toList_group_name
  have hslash : '/' ∉ store.group.name.toList := by
    rw [hname, List.mem_append, List.mem_cons]
    rintro (h | h | h)
    · exact hdatabase h
    · cases h
    · exact hstore h
  have hdash : '-' ∈ store.group.name.toList := by simp [hname]
  have hother : ∀ name : String, '-' ∉ name.toList → store.group.name ≠ name := by
    rintro name hnone rfl
    exact hnone hdash
  have hrelative : ¬ Path.isAbsolute store.group.name = true := fun habsolute =>
    hslash (List.mem_of_mem_head? (Path.isAbsolute_iff.mp habsolute))
  rw [GroupId.inside?, if_neg hrelative, Path.names_of_not_mem hslash (hother "" (by decide)),
    Path.inside?, if_neg (hother "." (by decide)), if_neg (hother ".." (by decide))]
  rfl

/-- The directories of a store's group stay below those of all groups, wherever the root is, just
if the name of the group never leads out of a directory and leads further than where it starts;
they are different places just if it never leads out, and one place if it does. Two groups that
stay inside are apart just if their names lead to different places, which names without slashes
do; from a group that does not, another is apart just if it has no directory there. A disk has
its directories at the places that their paths denote. -/
theorem stores_confined_iff (working : List String) (root : String) (useSnapshot : Bool)
    (a b : StoreSettings) :
    let layout := fun store : StoreSettings => Layout.ofRoot root store.group useSnapshot
    let places := fun store => (layout store).places working
    ((layout a).Confined working root ↔ ∃ found, found ≠ [] ∧ a.group.inside? = some found) ∧
    ((places a).Nodup ↔ a.group.inside?.isSome = true) ∧
    (a.group.inside? = none → ∀ place, place ∈ places a ↔
      place = Path.denoted working (layout a).logDirectory) ∧
    (∀ found other, a.group.inside? = some found → b.group.inside? = some other →
      (List.Disjoint (places a) (places b) ↔ found ≠ other)) ∧
    (b.group.inside? = none → (List.Disjoint (places a) (places b) ↔
      Path.denoted working (layout b).logDirectory ∉ places a)) ∧
    ('/' ∉ a.database.toList → '/' ∉ a.store.toList → a.group.inside? = some [a.group.name]) ∧
    ∀ (disk : Disk) (directory : String) (found : List String),
      disk.Enters directory found → found = Path.denoted [] directory :=
  ⟨Layout.confined_iff, Layout.nodup_places_iff, fun h _ => Layout.mem_places_of_leaving h,
    fun _ _ => Layout.disjoint_places_iff, Layout.disjoint_places_of_leaving,
    StoreSettings.inside?_of_plain, fun _ _ _ => Path.eq_denoted_of_enters⟩

/-- Settings are accepted where one store has its directories outside the root, and where two
stores of different groups have the same ones. -/
theorem accepted_stores_stray :
    let outside : StoreSettings := ⟨"/etc", "x"⟩
    let plain : StoreSettings := ⟨"a", "b/c"⟩
    let dotted : StoreSettings := ⟨"a", "b/./c"⟩
    let settings : Settings := { stores := [outside, plain, dotted] }
    let layout := fun store : StoreSettings => Layout.ofRoot "/data" store.group true
    settings.check = .ok () ∧ ¬ (layout outside).Confined [] "/data" ∧
      plain.group ≠ dotted.group ∧
      ¬ List.Disjoint ((layout plain).places []) ((layout dotted).places []) := by
  intro outside plain dotted settings layout
  have haccepted : settings.check = .ok () := by decide
  obtain ⟨houtside, -⟩ := stores_confined_iff [] "/data" true outside plain
  obtain ⟨-, -, -, happart, -⟩ := stores_confined_iff [] "/data" true plain dotted
  have hplain : plain.group.inside? = some ["a-b", "c"] := by decide
  have hdotted : dotted.group.inside? = some ["a-b", "c"] := by decide
  refine ⟨haccepted, fun hconfined => ?_, by decide, fun hdisjoint => ?_⟩
  · obtain ⟨found, -, hinside⟩ := houtside.mp hconfined
    cases (show outside.group.inside? = none by decide).symm.trans hinside
  · exact (happart _ _ hplain hdotted).mp hdisjoint rfl

end Quorum
