import Quorum.Proofs.Disk.Volume

/-! # Directories that are made

Where a path leads depends only on what stands on the disk. Directories that are made leave all
others where they are, and the files of a group that are written as they were found leave
everything as it is.
-/

namespace Quorum

namespace Disk

variable {disk other last : Disk} {directory file temporary name : String}
  {names start found : List String}

/-! ## Disks on which the same stands -/

/-- Whether the same stands everywhere on two disks. -/
def SamePlaces (disk other : Disk) : Prop :=
  ∀ names, other.place names = disk.place names

theorem SamePlaces.refl (disk : Disk) : disk.SamePlaces disk :=
  fun _ => rfl

theorem SamePlaces.symm (h : disk.SamePlaces other) : other.SamePlaces disk :=
  fun names => (h names).symm

theorem SamePlaces.trans (h : disk.SamePlaces other) (hlast : other.SamePlaces last) :
    disk.SamePlaces last :=
  fun names => (hlast names).trans (h names)

theorem SamePlaces.toExtends (h : disk.SamePlaces other) : disk.Extends other :=
  fun names hplace => (h names).trans hplace

theorem Extends.refl (disk : Disk) : disk.Extends disk :=
  fun _ => id

theorem Extends.trans (h : disk.Extends other) (hlast : other.Extends last) :
    disk.Extends last :=
  fun names hplace => hlast names (h names hplace)

theorem isDirectory_iff :
    disk.isDirectory directory = true ↔ ∃ found, disk.Enters directory found := by
  rw [isDirectory]
  constructor
  · intro h
    split at h
    next found hpath hfollow => exact ⟨found, hpath, hfollow⟩
    next => cases h
  · rintro ⟨found, henters⟩
    rw [henters.path, henters.follow]

theorem isDirectoryAt_iff :
    disk.isDirectoryAt names = true ↔ ∃ found, disk.follow [] names = .ok found := by
  rw [isDirectoryAt]
  constructor
  · intro h
    split at h
    next found hfollow => exact ⟨found, hfollow⟩
    next => cases h
  · rintro ⟨found, hfollow⟩
    rw [hfollow]

theorem isDirectory_of_extends (h : disk.Extends other)
    (hthere : disk.isDirectory directory = true) : other.isDirectory directory = true := by
  obtain ⟨found, henters⟩ := isDirectory_iff.mp hthere
  exact isDirectory_iff.mpr ⟨found, henters.of_extends h⟩

/-! ## Making directories -/

theorem makeDirectoryAt_ok (h : disk.makeDirectoryAt names = .ok other) :
    disk.Extends other ∧ other.isDirectoryAt names = true := by
  rw [makeDirectoryAt] at h
  split at h
  next => cases h
  next last hlast =>
    obtain ⟨before, rfl⟩ := List.getLast?_eq_some_iff.mp hlast
    rw [List.dropLast_concat] at h
    obtain ⟨directory, hdirectory, h⟩ := bind_eq_ok.mp h
    split at h
    next => cases h
    next hdots =>
      split at h
      next => cases h
      next hlong =>
        split at h
        next habsent =>
          cases h
          have hextends : disk.Extends (disk.setPlace (directory ++ [last]) .directory) :=
            extends_setPlace (by simp [habsent])
          refine ⟨hextends, isDirectoryAt_iff.mpr ⟨directory ++ [last], ?_⟩⟩
          simp only [Bool.or_eq_true, decide_eq_true_eq, not_or] at hdots
          have hbefore := follow_of_extends hextends hdirectory
          rw [follow_append]
          refine bind_eq_ok.mpr ⟨directory, hbefore, ?_⟩
          rw [follow, if_neg hdots.1, if_neg hdots.2, if_neg hlong, place_setPlace _ (by simp),
            if_pos rfl]
          rfl
        next => cases h

/-- Making directories leaves all others, and is done only when the last one is there. -/
theorem makeDirectoriesAt_made (disk : Disk) (names : List String) :
    disk.Extends (disk.makeDirectoriesAt names).1 ∧
      ((disk.makeDirectoriesAt names).2 = .ok () →
        (disk.makeDirectoriesAt names).1.isDirectoryAt names = true) := by
  have there : ∀ {after : Disk} {cause : IoCause} {names : List String},
      (if after.isDirectoryAt names then Except.ok () else .error cause) = .ok () →
        after.isDirectoryAt names = true := by
    intro after cause names h
    split at h
    next hthere => exact hthere
    next => cases h
  fun_induction disk.makeDirectoriesAt names with
  | case1 names made hmade =>
      obtain ⟨hextends, hthere⟩ := makeDirectoryAt_ok hmade
      exact ⟨hextends, fun _ => hthere⟩
  | case2 => exact ⟨.refl disk, nofun⟩
  | case3 names _ parent _ above cause habove ih =>
      rw [habove] at ih
      exact ⟨ih.1, nofun⟩
  | case4 names _ parent _ above _ habove made hmade ih =>
      rw [habove] at ih
      obtain ⟨hextends, hthere⟩ := makeDirectoryAt_ok hmade
      exact ⟨ih.1.trans hextends, fun _ => hthere⟩
  | case5 names _ parent _ above _ habove cause _ ih =>
      rw [habove] at ih
      exact ⟨ih.1, there⟩
  | case6 => exact ⟨.refl disk, there⟩

theorem makeDirectories_extends (disk : Disk) (directory : String) :
    disk.Extends (disk.makeDirectories directory).1 := by
  rw [makeDirectories]
  split
  next => exact .refl disk
  next =>
    split
    next => exact .refl disk
    next => exact (makeDirectoriesAt_made disk _).1

theorem isDirectory_of_makeDirectories (h : disk.makeDirectories directory = (other, .ok ())) :
    other.isDirectory directory = true := by
  rw [makeDirectories] at h
  split at h
  next => cases h
  next hpath =>
    split at h
    next hempty =>
      cases h
      refine isDirectory_iff.mpr ⟨[], hpath, ?_⟩
      rw [String.isEmpty_iff.mp hempty]
      rfl
    next =>
      have hmade := (makeDirectoriesAt_made disk (Path.names directory)).2
      rw [h] at hmade
      obtain ⟨found, hfollow⟩ := isDirectoryAt_iff.mp (hmade rfl)
      exact isDirectory_iff.mpr ⟨found, hpath, hfollow⟩

/-! ## Slots that are written -/

theorem follow_congr (h : disk.SamePlaces other) :
    other.follow start names = disk.follow start names := by
  fun_induction disk.follow start names with
  | case1 => rfl
  | case2 start rest ih => rw [follow, if_pos rfl, ih]
  | case3 start rest hdot ih => rw [follow, if_neg hdot, if_pos rfl, ih]
  | case4 start name rest hdot hup hlong =>
      rw [follow, if_neg hdot, if_neg hup, if_pos hlong]
  | case5 start name rest hdot hup hlong hnext =>
      rw [follow, if_neg hdot, if_neg hup, if_neg hlong, h, hnext]
  | case6 start name rest hdot hup hlong content hnext =>
      rw [follow, if_neg hdot, if_neg hup, if_neg hlong, h, hnext]
  | case7 start name rest hdot hup hlong hnext ih =>
      rw [follow, if_neg hdot, if_neg hup, if_neg hlong, h, hnext]
      exact ih

theorem slot_congr (h : disk.SamePlaces other) (directory file temporary : String) :
    other.slot directory file temporary = disk.slot directory file temporary := by
  have hplaceIn : ∀ name, other.placeIn directory name = disk.placeIn directory name := by
    intro name
    simp only [placeIn, follow_congr h, h _]
  rw [slot, slot, hplaceIn, hplaceIn]

/-- Nothing changes where something is put that stands there. -/
theorem putIn_samePlaces {place : Place}
    (h : ∀ found, disk.Enters directory found → disk.place (found ++ [name]) = place) :
    disk.SamePlaces (disk.putIn directory name place) := by
  intro names
  rw [putIn]
  split
  next found hpath hfollow =>
    rw [place_setPlace _ (by simp)]
    split
    next hnames => rw [hnames, h found ⟨hpath, hfollow⟩]
    next => rfl
  next => rfl

/-- A slot that is written as it was found changes nothing. -/
theorem putSlot_samePlaces (disk : Disk) (directory file temporary : String) :
    disk.SamePlaces
      (disk.putSlot directory file temporary (disk.slot directory file temporary)) := by
  have hfile : disk.SamePlaces
      (disk.putIn directory file (disk.slot directory file temporary).file) :=
    putIn_samePlaces fun found henters => by rw [henters.slot]
  refine hfile.trans (putIn_samePlaces fun found henters => ?_)
  have hbefore := henters.of_extends hfile.symm.toExtends
  rw [hfile, hbefore.slot]

end Disk

namespace Layout

variable {layout : Layout} {disk other : Disk} {directories : List String} {slot : Slot}

/-! ## The directories of a group -/

theorem makeAll_ok (h : makeAll disk directories = (other, .ok ())) :
    disk.Extends other ∧ ∀ directory ∈ directories, other.isDirectory directory = true := by
  induction directories generalizing disk with
  | nil =>
      cases h
      exact ⟨.refl _, nofun⟩
  | cons directory rest ih =>
      rw [makeAll] at h
      split at h
      next made _ hmade =>
        obtain ⟨hextends, hrest⟩ := ih h
        have hbefore := Disk.makeDirectories_extends disk directory
        rw [hmade] at hbefore
        have hthere := Disk.isDirectory_of_makeDirectories hmade
        exact ⟨hbefore.trans hextends, List.forall_mem_cons.mpr
          ⟨Disk.isDirectory_of_extends hextends hthere, hrest⟩⟩
      next => cases h

theorem makeAll_error {failure : Failure} (h : makeAll disk directories = (other, .error failure)) :
    ∃ message, failure = .initialization message := by
  induction directories generalizing disk with
  | nil => cases h
  | cons directory rest ih =>
      rw [makeAll] at h
      split at h
      next => exact ih h
      next =>
        cases h
        exact ⟨_, rfl⟩

theorem createDirectories_of_isDirectory
    (h : ∀ directory ∈ layout.directories, disk.isDirectory directory = true) :
    layout.createDirectories disk = (disk, .ok ()) :=
  makeAll_of_enters fun directory hdirectory => Disk.isDirectory_iff.mp (h directory hdirectory)

/-! ## The files of a group -/

theorem volume_congr (h : disk.SamePlaces other) : layout.volume other = layout.volume disk := by
  simp only [volume, Disk.slot_congr h]

/-- The disk with the log file of a group as it is now. -/
def putLog (layout : Layout) (disk : Disk) (slot : Slot) : Disk :=
  disk.putSlot layout.logDirectory "raft_log.bin" "raft_log.tmp" slot

theorem putLog_samePlaces (layout : Layout) (disk : Disk) :
    disk.SamePlaces (layout.putLog disk (layout.volume disk).log) :=
  Disk.putSlot_samePlaces _ _ _ _

/-- Where only the log was written, the other files are found as they were. -/
theorem volume_putLog (husable : (layout.volume disk).log.Usable) (hslot : slot.Usable)
    (hthere : ∀ directory ∈ layout.directories, disk.isDirectory directory = true) :
    layout.volume (layout.putLog disk slot) = { layout.volume disk with log := slot } := by
  have stays : ∀ {directory otherFile otherTemporary : String}, directory ∈ layout.directories →
      (∀ name ∈ [otherFile, otherTemporary], name ≠ "raft_log.bin" ∧ name ≠ "raft_log.tmp") →
      (layout.putLog disk slot).slot directory otherFile otherTemporary =
        disk.slot directory otherFile otherTemporary := by
    intro directory otherFile otherTemporary hdirectory hne
    obtain ⟨found, henters⟩ := Disk.isDirectory_iff.mp (hthere directory hdirectory)
    exact Disk.slot_putSlot_of_ne henters husable hne
  have hkept : disk.Keeps layout.logDirectory "raft_log.bin" "raft_log.tmp" _ := ⟨husable, rfl⟩
  have hlog : (layout.putLog disk slot).slot layout.logDirectory "raft_log.bin" "raft_log.tmp" =
      slot := (hkept.written hslot (by decide)).slot_eq
  have hmeta : (layout.putLog disk slot).slot layout.metaDirectory "raft_meta.bin" "raft_meta.tmp" =
      disk.slot layout.metaDirectory "raft_meta.bin" "raft_meta.tmp" :=
    stays (by simp [directories]) (by decide)
  have hsnapshot : layout.snapshotDirectory.map
        ((layout.putLog disk slot).slot · "snapshot.bin" "snapshot.tmp") =
      layout.snapshotDirectory.map (disk.slot · "snapshot.bin" "snapshot.tmp") := by
    refine Option.map_congr fun directory hdirectory => stays ?_ (by decide)
    simp [directories, Option.mem_def.mp hdirectory]
  rw [volume, hlog, hmeta, hsnapshot]
  rfl

/-- Once the log is written, the other files change nothing when they are as they were found. -/
theorem putVolume_samePlaces
    (h : layout.volume (layout.putLog disk slot) = { layout.volume disk with log := slot }) :
    (layout.putLog disk slot).SamePlaces
      (layout.putVolume disk { layout.volume disk with log := slot }) := by
  have hmeta : (layout.putLog disk slot).slot layout.metaDirectory "raft_meta.bin" "raft_meta.tmp" =
      (layout.volume disk).hardState := congrArg Volume.hardState h
  have hnoted := Disk.putSlot_samePlaces (layout.putLog disk slot) layout.metaDirectory
    "raft_meta.bin" "raft_meta.tmp"
  rw [hmeta] at hnoted
  cases hdirectory : layout.snapshotDirectory with
  | none =>
      have hall : layout.putVolume disk { layout.volume disk with log := slot } =
          (layout.putLog disk slot).putSlot layout.metaDirectory "raft_meta.bin" "raft_meta.tmp"
            (layout.volume disk).hardState := by
        simp only [putVolume, hdirectory]
        rfl
      rwa [hall]
  | some directory =>
      have hsnapshot := congrArg Volume.snapshot h
      simp only [volume, hdirectory, Option.map_some, Option.some.injEq] at hsnapshot
      have hkept := Disk.putSlot_samePlaces
        ((layout.putLog disk slot).putSlot layout.metaDirectory "raft_meta.bin" "raft_meta.tmp"
          (layout.volume disk).hardState) directory "snapshot.bin" "snapshot.tmp"
      rw [Disk.slot_congr hnoted, hsnapshot] at hkept
      have hall : layout.putVolume disk { layout.volume disk with log := slot } =
          ((layout.putLog disk slot).putSlot layout.metaDirectory "raft_meta.bin" "raft_meta.tmp"
            (layout.volume disk).hardState).putSlot directory "snapshot.bin" "snapshot.tmp"
              (disk.slot directory "snapshot.bin" "snapshot.tmp") := by
        simp only [putVolume, volume, hdirectory]
        rfl
      rw [hall]
      exact hnoted.trans hkept

/-- Files that are written as they were found change nothing. -/
theorem putVolume_volume_samePlaces (layout : Layout) (disk : Disk) :
    disk.SamePlaces (layout.putVolume disk (layout.volume disk)) :=
  (putLog_samePlaces layout disk).trans
    (putVolume_samePlaces (volume_congr (putLog_samePlaces layout disk)))

/-- Files of which at most the log changed are found again as they were written, and no
directory is lost. -/
theorem volume_putVolume_log {written : Volume}
    (hwritten : written = { layout.volume disk with log := slot })
    (hslot : slot = (layout.volume disk).log ∨ (layout.volume disk).log.Usable ∧ slot.Usable)
    (hthere : ∀ directory ∈ layout.directories, disk.isDirectory directory = true) :
    layout.volume (layout.putVolume disk written) = written ∧
      disk.Extends (layout.putVolume disk written) := by
  subst hwritten
  obtain ⟨hlogged, hextends⟩ :
      layout.volume (layout.putLog disk slot) = { layout.volume disk with log := slot } ∧
        disk.Extends (layout.putLog disk slot) := by
    rcases hslot with rfl | ⟨husable, hslot⟩
    · have hsame := putLog_samePlaces layout disk
      exact ⟨volume_congr hsame, hsame.toExtends⟩
    · exact ⟨volume_putLog husable hslot hthere, Disk.extends_putSlot husable slot⟩
  have hsame := putVolume_samePlaces hlogged
  exact ⟨(volume_congr hsame).trans hlogged, hextends.trans hsame.toExtends⟩

end Layout
end Quorum
