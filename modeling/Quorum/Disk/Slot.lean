import Quorum.Disk.Basic

/-! # Files that are replaced whole

A slot is the place of one file together with a temporary file beside it. To replace the
file, the new content is written to the temporary file first, which then takes the
file's place in one step: an interruption leaves the old content or the new one.
-/

namespace Quorum

/-- The place of a file and of its temporary file in one directory. -/
structure Slot where
  /-- Why the directory cannot be entered. -/
  barrier : Option IoCause := none
  file : Place := .absent
  temporary : Place := .absent
  deriving DecidableEq, Repr

namespace Slot

/-- The content of the file, none if there is no file. -/
def read (slot : Slot) : Except IoCause (Option Bytes) :=
  match slot.barrier, slot.file with
  -- Without the directory there is no file either; any other barrier is reported.
  | some .notFound, _ => .ok none
  | some cause, _ => .error cause
  | none, .absent => .ok none
  | none, .file content => .ok (some content)
  | none, .directory => .error .isDirectory

/-- Writes the temporary file, whatever it held. -/
def prepare (slot : Slot) (content : Bytes) : Except IoCause Slot :=
  match slot.barrier, slot.temporary with
  | some cause, _ => .error cause
  | none, .directory => .error .isDirectory
  | none, _ => .ok { slot with temporary := .file content }

/-- Puts the temporary file in the file's place. -/
def commit (slot : Slot) : Except IoCause Slot :=
  match slot.file with
  | .directory => .error .isDirectory
  | _ => .ok { slot with file := slot.temporary, temporary := .absent }

def replace (slot : Slot) (content : Bytes) : Slot × Except IoCause Unit :=
  match slot.prepare content with
  | .error cause => (slot, .error cause)
  | .ok prepared =>
      match prepared.commit with
      | .error cause => (prepared, .error cause)
      | .ok committed => (committed, .ok ())

/-- Adds bytes at the end of the file, which is made if there is none. -/
def append (slot : Slot) (content : Bytes) : Slot × Except IoCause Unit :=
  match slot.barrier, slot.file with
  | some cause, _ => (slot, .error cause)
  | none, .directory => (slot, .error .isDirectory)
  | none, .absent => ({ slot with file := .file content }, .ok ())
  | none, .file before => ({ slot with file := .file (before ++ content) }, .ok ())

/-- A slot whose file can be read and replaced. -/
def Usable (slot : Slot) : Prop :=
  slot.barrier = none ∧ slot.file ≠ .directory ∧ slot.temporary ≠ .directory

theorem replace_of_usable {slot : Slot} (h : slot.Usable) (content : Bytes) :
    slot.replace content = (⟨none, .file content, .absent⟩, .ok ()) := by
  obtain ⟨barrier, file, temporary⟩ := slot
  obtain ⟨rfl, hfile, htemporary⟩ := h
  cases temporary with
  | directory => exact absurd rfl htemporary
  | absent => cases file <;> simp_all [replace, prepare, commit]
  | file before => cases file <;> simp_all [replace, prepare, commit]

/-- A replacement that was reported done has left the content. -/
theorem read_of_replace {slot after : Slot} {content : Bytes}
    (h : slot.replace content = (after, .ok ())) : after.read = .ok (some content) := by
  obtain ⟨barrier, file, temporary⟩ := slot
  cases barrier with
  | some cause => simp [replace, prepare] at h
  | none =>
      cases temporary <;> cases file <;>
        simp only [replace, prepare, commit, Prod.mk.injEq, reduceCtorEq, and_false] at h <;>
        rw [← h.1] <;> rfl

end Slot

namespace Disk

def slot (disk : Disk) (directory file temporary : String) : Slot :=
  match disk.placeIn directory file, disk.placeIn directory temporary with
  | .ok file, .ok temporary => ⟨none, file, temporary⟩
  | .error cause, _ | _, .error cause => ⟨some cause, .absent, .absent⟩

/-- The disk with a slot as it is now. -/
def putSlot (disk : Disk) (directory file temporary : String) (slot : Slot) : Disk :=
  (disk.putIn directory file slot.file).putIn directory temporary slot.temporary

end Disk
end Quorum
