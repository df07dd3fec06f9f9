import Quorum.Disk.Path

/-! # Disks

A disk is a tree of directories with files in them. Paths are followed from the top,
which is also where paths that do not start at the root begin. Every operation says what
stood in its way.
-/

namespace Quorum

/-- What stands in the way of an operation on files. -/
inductive IoCause where
  | notFound
  | exists
  | notDirectory
  | isDirectory
  | nameTooLong
  /-- A zero byte, which no path may hold. -/
  | zeroByte
  deriving DecidableEq, Repr

/-- The words of the operating system, with the number of its cause. -/
def IoCause.message : IoCause → String
  | .notFound => "No such file or directory (os error 2)"
  | .exists => "File exists (os error 17)"
  | .notDirectory => "Not a directory (os error 20)"
  | .isDirectory => "Is a directory (os error 21)"
  | .nameTooLong => "File name too long (os error 36)"
  | .zeroByte => "file name contained an unexpected NUL byte"

/-- What stands at a name. -/
inductive Place where
  | absent
  | file (content : Bytes)
  | directory
  deriving DecidableEq, Repr

/-- The files and directories, each under the names that lead to it. The top is always
there and is not listed. -/
structure Disk where
  places : List (List String × Place) := []
  deriving Repr

namespace Disk

/-- What stands at the end of some names, each within the directory before it. -/
def place (disk : Disk) (names : List String) : Place :=
  if names = [] then .directory else (disk.places.lookup names).getD .absent

/-- The disk with something else at the end of some names. -/
def setPlace (disk : Disk) (names : List String) (place : Place) : Disk :=
  ⟨(names, place) :: disk.places.filter (·.1 ≠ names)⟩

theorem lookup_filter_ne {names other : List String} (h : other ≠ names)
    (places : List (List String × Place)) :
    (places.filter (·.1 ≠ names)).lookup other = places.lookup other := by
  induction places with
  | nil => rfl
  | cons head rest ih =>
      by_cases hhead : head.1 = names
      · have hne : (other == head.1) = false := by simpa [hhead] using h
        rw [List.filter_cons_of_neg (by simpa using hhead), ih, List.lookup_cons, hne]
      · rw [List.filter_cons_of_pos (by simpa using hhead), List.lookup_cons, List.lookup_cons, ih]

theorem place_setPlace (disk : Disk) {names : List String} (hnames : names ≠ [])
    (place : Place) (other : List String) :
    (disk.setPlace names place).place other = if other = names then place else disk.place other := by
  by_cases heq : other = names
  · subst heq
    simp [Disk.place, setPlace, hnames]
  · have hbeq : (other == names) = false := by simpa using heq
    rw [if_neg heq, Disk.place, Disk.place, setPlace, List.lookup_cons, hbeq,
      lookup_filter_ne heq]

/-- The greatest number of bytes of a name. -/
def maximalName : Nat := 255

/-- Follows names into directories, from a directory on. -/
def follow (disk : Disk) (directory : List String) : List String → Except IoCause (List String)
  | [] => .ok directory
  | name :: rest =>
      if name = "." then disk.follow directory rest
      else if name = ".." then disk.follow directory.dropLast rest
      -- A name that is too long is refused before anybody looks for it.
      else if maximalName < name.utf8ByteSize then .error .nameTooLong
      else match disk.place (directory ++ [name]) with
        | .absent => .error .notFound
        | .file _ => .error .notDirectory
        | .directory => disk.follow (directory ++ [name]) rest

/-- Whether a path can name anything. -/
def checkPath (path : String) : Except IoCause Unit :=
  if path.toList.contains '\x00' then .error .zeroByte else .ok ()

def isDirectory (disk : Disk) (path : String) : Bool :=
  match checkPath path, disk.follow [] (Path.names path) with
  | .ok _, .ok _ => true
  | _, _ => false

/-- Makes the directory of the last name within those before it. -/
def makeDirectoryAt (disk : Disk) (names : List String) : Except IoCause Disk :=
  match names.getLast? with
  | none => .error .exists
  | some last => do
      let directory ← disk.follow [] names.dropLast
      if last = "." || last = ".." then .error .exists
      else if maximalName < last.utf8ByteSize then .error .nameTooLong
      else match disk.place (directory ++ [last]) with
        | .absent => .ok (disk.setPlace (directory ++ [last]) .directory)
        | _ => .error .exists

def isDirectoryAt (disk : Disk) (names : List String) : Bool :=
  match disk.follow [] names with
  | .ok _ => true
  | .error _ => false

/-- Makes a directory and those above it that are missing. What was made stays even if
a directory further down cannot be made. -/
def makeDirectoriesAt (disk : Disk) (names : List String) : Disk × Except IoCause Unit :=
  match disk.makeDirectoryAt names with
  | .ok disk => (disk, .ok ())
  | .error .notFound =>
      match _h : Path.parent? names with
      | none => (disk, .error .notFound)
      | some parent =>
          match makeDirectoriesAt disk parent with
          | (disk, .error cause) => (disk, .error cause)
          | (disk, .ok _) =>
              match disk.makeDirectoryAt names with
              | .ok disk => (disk, .ok ())
              -- Making those above may have made this one, as for `a/..`.
              | .error cause =>
                  (disk, if disk.isDirectoryAt names then .ok () else .error cause)
  | .error cause => (disk, if disk.isDirectoryAt names then .ok () else .error cause)
termination_by names.length
decreasing_by exact Path.length_lt_of_parent? _h

/-- Makes the directory of a path and those above it that are missing. -/
def makeDirectories (disk : Disk) (path : String) : Disk × Except IoCause Unit :=
  match checkPath path with
  | .error cause => (disk, .error cause)
  | .ok _ => if path.isEmpty then (disk, .ok ()) else disk.makeDirectoriesAt (Path.names path)

/-- What stands at a name in the directory of a path. -/
def placeIn (disk : Disk) (directory name : String) : Except IoCause Place := do
  checkPath directory
  let found ← disk.follow [] (Path.names directory)
  return disk.place (found ++ [name])

/-- Puts something at a name in the directory of a path, if there is one. -/
def putIn (disk : Disk) (directory name : String) (place : Place) : Disk :=
  match checkPath directory, disk.follow [] (Path.names directory) with
  | .ok _, .ok found => disk.setPlace (found ++ [name]) place
  | _, _ => disk

/-- Writes a file, and the directories above it that are missing. -/
def writeFile (disk : Disk) (path : String) (content : Bytes) : Disk :=
  match (Path.names path).getLast? with
  | none => disk
  | some name =>
      let directory := "/".intercalate (Path.names path).dropLast
      (disk.makeDirectories directory).1.putIn directory name (.file content)

end Disk
end Quorum
