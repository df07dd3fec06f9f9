import Quorum.Proofs.Storage.Effect
import Quorum.Storage.Layout

/-! # Files on a disk

Writing a file leaves all directories as they are, and the files of a group have different
names, so each is found again as it was written. Directories that are there already are not
made again.
-/

namespace Quorum

namespace Disk

variable {disk : Disk} {directory other file temporary : String} {found : List String}

/-! ## Directories -/

/-- Whether a path leads to a directory, by the names of all those above it. -/
structure Enters (disk : Disk) (directory : String) (found : List String) : Prop where
  path : checkPath directory = .ok ()
  follow : disk.follow [] (Path.names directory) = .ok found

/-- Whether the directories of one disk are directories of another. -/
def Extends (disk other : Disk) : Prop :=
  ∀ names, disk.place names = .directory → other.place names = .directory

/-- No directory is lost where something is written that was none. -/
theorem extends_setPlace {names : List String} {place : Place}
    (hplace : disk.place names ≠ .directory) : disk.Extends (disk.setPlace names place) := by
  intro target htarget
  have hnames : names ≠ [] := by
    rintro rfl
    exact hplace rfl
  rw [disk.place_setPlace hnames, if_neg, htarget]
  rintro rfl
  exact hplace htarget

/-- Where a path leads to a directory, it leads there as long as no directory is lost. -/
theorem follow_of_extends {after : Disk} {start names : List String} (h : disk.Extends after)
    (hfollow : disk.follow start names = .ok found) : after.follow start names = .ok found := by
  fun_induction disk.follow start names with
  | case1 => exact hfollow
  | case2 start rest ih =>
      rw [follow, if_pos rfl]
      exact ih hfollow
  | case3 start rest hdot ih =>
      rw [follow, if_neg hdot, if_pos rfl]
      exact ih hfollow
  | case4 | case5 | case6 => cases hfollow
  | case7 start name rest hdot hup hlong hnext ih =>
      rw [follow, if_neg hdot, if_neg hup, if_neg hlong, h _ hnext]
      exact ih hfollow

theorem Enters.of_extends {after : Disk} (henters : disk.Enters directory found)
    (h : disk.Extends after) : after.Enters directory found :=
  ⟨henters.path, follow_of_extends h henters.follow⟩

theorem Enters.setPlace {target : List String} {place : Place} (h : disk.Enters directory found)
    (hplace : disk.place target ≠ .directory) :
    (disk.setPlace target place).Enters directory found :=
  h.of_extends (extends_setPlace hplace)

/-- A path is followed to its last name by way of the directory in front of it. -/
theorem follow_append (disk : Disk) (start names more : List String) :
    disk.follow start (names ++ more) =
      disk.follow start names >>= fun middle => disk.follow middle more := by
  fun_induction disk.follow start names with
  | case1 => rfl
  | case2 start rest ih => rw [List.cons_append, follow, if_pos rfl, ih]
  | case3 start rest hdot ih => rw [List.cons_append, follow, if_neg hdot, if_pos rfl, ih]
  | case4 start name rest hdot hup hlong =>
      rw [List.cons_append, follow, if_neg hdot, if_neg hup, if_pos hlong]
      rfl
  | case5 start name rest hdot hup hlong hnext =>
      rw [List.cons_append, follow, if_neg hdot, if_neg hup, if_neg hlong, hnext]
      rfl
  | case6 start name rest hdot hup hlong content hnext =>
      rw [List.cons_append, follow, if_neg hdot, if_neg hup, if_neg hlong, hnext]
      rfl
  | case7 start name rest hdot hup hlong hnext ih =>
      rw [List.cons_append, follow, if_neg hdot, if_neg hup, if_neg hlong, hnext]
      exact ih

/-- A directory that is there cannot be made. -/
theorem makeDirectoryAt_of_follow {names : List String} (h : disk.follow [] names = .ok found) :
    disk.makeDirectoryAt names = .error .exists := by
  rw [makeDirectoryAt]
  cases hlast : names.getLast? with
  | none => rfl
  | some last =>
      obtain ⟨before, rfl⟩ := List.getLast?_eq_some_iff.mp hlast
      rw [follow_append] at h
      obtain ⟨directory, hdirectory, hfound⟩ := bind_eq_ok.mp h
      rw [List.dropLast_concat, hdirectory]
      change (if last = "." || last = ".." then Except.error IoCause.exists else _) = _
      split
      case isTrue => rfl
      case isFalse hdots =>
        simp only [Bool.or_eq_true, decide_eq_true_eq, not_or] at hdots
        rw [follow, if_neg hdots.1, if_neg hdots.2] at hfound
        split at hfound
        next => cases hfound
        next hlong =>
          rw [if_neg hlong]
          cases hplace : disk.place (directory ++ [last]) with
          | directory => rfl
          | file content => rfl
          | absent =>
              rw [hplace] at hfound
              cases hfound

theorem makeDirectories_of_enters (h : disk.Enters directory found) :
    disk.makeDirectories directory = (disk, .ok ()) := by
  have hthere : disk.isDirectoryAt (Path.names directory) = true := by
    rw [isDirectoryAt, h.follow]
  rw [makeDirectories, h.path]
  simp only
  split
  case isTrue => rfl
  case isFalse =>
    rw [makeDirectoriesAt, makeDirectoryAt_of_follow h.follow]
    simp only [hthere]
    rfl

/-! ## Slots -/

theorem Enters.placeIn (h : disk.Enters directory found) (name : String) :
    disk.placeIn directory name = .ok (disk.place (found ++ [name])) := by
  rw [Disk.placeIn, h.path, h.follow]
  rfl

theorem enters_of_placeIn {name : String} {place : Place}
    (h : disk.placeIn directory name = .ok place) : ∃ found, disk.Enters directory found := by
  obtain ⟨_, hpath, hplace⟩ := bind_eq_ok.mp h
  obtain ⟨found, hfollow, -⟩ := bind_eq_ok.mp hplace
  exact ⟨found, hpath, hfollow⟩

theorem Enters.slot (h : disk.Enters directory found) (file temporary : String) :
    disk.slot directory file temporary =
      ⟨none, disk.place (found ++ [file]), disk.place (found ++ [temporary])⟩ := by
  rw [Disk.slot, h.placeIn, h.placeIn]

/-- The directory of a slot without a barrier is there. -/
theorem enters_of_usable (h : (disk.slot directory file temporary).Usable) :
    ∃ found, disk.Enters directory found := by
  obtain ⟨hbarrier, -, -⟩ := h
  rw [Disk.slot] at hbarrier
  split at hbarrier
  case h_1 hfile _ => exact enters_of_placeIn hfile
  case h_2 => cases hbarrier
  case h_3 => cases hbarrier

theorem Enters.putIn (h : disk.Enters directory found) (name : String) (place : Place) :
    disk.putIn directory name place = disk.setPlace (found ++ [name]) place := by
  rw [Disk.putIn, h.path, h.follow]

/-- Both files of a slot are written where no directory is. -/
theorem Enters.places_of_usable (h : disk.Enters directory found)
    (husable : (disk.slot directory file temporary).Usable) :
    disk.place (found ++ [file]) ≠ .directory ∧ disk.place (found ++ [temporary]) ≠ .directory := by
  rw [h.slot] at husable
  exact husable.2

variable {slot : Slot}

theorem Enters.putSlot_eq (h : disk.Enters directory found)
    (husable : (disk.slot directory file temporary).Usable) (slot : Slot) :
    disk.putSlot directory file temporary slot =
      (disk.setPlace (found ++ [file]) slot.file).setPlace (found ++ [temporary])
        slot.temporary := by
  have hwritten : (disk.setPlace (found ++ [file]) slot.file).Enters directory found :=
    h.setPlace (h.places_of_usable husable).1
  rw [Disk.putSlot, h.putIn, hwritten.putIn]

/-- What stands on a disk after the files of a slot were written. -/
theorem Enters.place_putSlot (h : disk.Enters directory found)
    (husable : (disk.slot directory file temporary).Usable) (slot : Slot) (names : List String) :
    (disk.putSlot directory file temporary slot).place names =
      if names = found ++ [temporary] then slot.temporary
      else if names = found ++ [file] then slot.file
      else disk.place names := by
  rw [h.putSlot_eq husable, place_setPlace _ (by simp), place_setPlace _ (by simp)]

/-- No directory is lost where the files of a slot are written. -/
theorem extends_putSlot (husable : (disk.slot directory file temporary).Usable) (slot : Slot) :
    disk.Extends (disk.putSlot directory file temporary slot) := by
  obtain ⟨found, hfound⟩ := enters_of_usable husable
  obtain ⟨hfile, htemporary⟩ := hfound.places_of_usable husable
  intro names hnames
  rw [hfound.place_putSlot husable, if_neg, if_neg, hnames]
  · rintro rfl
    exact hfile hnames
  · rintro rfl
    exact htemporary hnames

/-- A slot is as before after files of other names were written. -/
theorem slot_putSlot_of_ne {otherFile otherTemporary : String} {inside : List String}
    (hother : disk.Enters other inside) (husable : (disk.slot directory file temporary).Usable)
    (hne : ∀ name ∈ [otherFile, otherTemporary], name ≠ file ∧ name ≠ temporary) :
    (disk.putSlot directory file temporary slot).slot other otherFile otherTemporary =
      disk.slot other otherFile otherTemporary := by
  obtain ⟨found, hfound⟩ := enters_of_usable husable
  have hplace : ∀ name ∈ [otherFile, otherTemporary],
      (disk.putSlot directory file temporary slot).place (inside ++ [name]) =
        disk.place (inside ++ [name]) := by
    intro name hname
    obtain ⟨hfile, htemporary⟩ := hne name hname
    rw [hfound.place_putSlot husable, if_neg, if_neg] <;> simp [hfile, htemporary]
  rw [(hother.of_extends (extends_putSlot husable slot)).slot, hplace otherFile (by simp),
    hplace otherTemporary (by simp), ← hother.slot]

/-- Whether the files of a slot are found on a disk and can be written. -/
structure Keeps (disk : Disk) (directory file temporary : String) (slot : Slot) : Prop where
  usable : slot.Usable
  slot_eq : disk.slot directory file temporary = slot

namespace Keeps

variable {before kept : Slot} {otherFile otherTemporary : String}

theorem toUsable (h : disk.Keeps directory file temporary slot) :
    (disk.slot directory file temporary).Usable :=
  h.slot_eq ▸ h.usable

/-- A slot is found again as it was written. -/
theorem written (h : disk.Keeps directory file temporary before) (hslot : slot.Usable)
    (hne : file ≠ temporary) :
    (disk.putSlot directory file temporary slot).Keeps directory file temporary slot := by
  have husable := h.toUsable
  obtain ⟨found, hfound⟩ := enters_of_usable husable
  refine ⟨hslot, ?_⟩
  rw [(hfound.of_extends (extends_putSlot husable slot)).slot, hfound.place_putSlot husable,
    hfound.place_putSlot husable, if_pos rfl, if_neg (by simpa using hne), if_pos rfl, ← hslot.1]

/-- A slot stays as it is when files of other names are written. -/
theorem stays (h : disk.Keeps other otherFile otherTemporary kept)
    (hwritten : disk.Keeps directory file temporary before) (slot : Slot)
    (hne : ∀ name ∈ [otherFile, otherTemporary], name ≠ file ∧ name ≠ temporary) :
    (disk.putSlot directory file temporary slot).Keeps other otherFile otherTemporary kept := by
  obtain ⟨inside, hinside⟩ := enters_of_usable h.toUsable
  refine ⟨h.usable, ?_⟩
  rw [slot_putSlot_of_ne hinside hwritten.toUsable hne, h.slot_eq]

end Keeps
end Disk

namespace Layout

variable {layout : Layout} {disk : Disk} {volume : Volume}

/-- The files of a group are found again as they were written. -/
theorem volume_putVolume (husable : (layout.volume disk).Usable) (hvolume : volume.Usable)
    (hsnapshot : volume.snapshot.isSome = layout.snapshotDirectory.isSome) :
    layout.volume (layout.putVolume disk volume) = volume := by
  obtain ⟨logs, metas, snapshots⟩ := layout
  obtain ⟨log, hardState, snapshot⟩ := volume
  let logged := disk.putSlot logs "raft_log.bin" "raft_log.tmp" log
  let noted := logged.putSlot metas "raft_meta.bin" "raft_meta.tmp" hardState
  have hlog : disk.Keeps logs "raft_log.bin" "raft_log.tmp" _ := ⟨husable.log, rfl⟩
  have hmeta : disk.Keeps metas "raft_meta.bin" "raft_meta.tmp" _ := ⟨husable.hardState, rfl⟩
  have hlogged := hlog.written hvolume.log (by decide)
  have hloggedMeta := hmeta.stays hlog log (by decide)
  have hnoted := hloggedMeta.written hvolume.hardState (by decide)
  have hnotedLog := hlogged.stays hloggedMeta hardState (by decide)
  cases snapshots with
  | none =>
      obtain rfl : snapshot = none := by simpa using hsnapshot
      change (⟨noted.slot logs _ _, noted.slot metas _ _, none⟩ : Volume) = _
      rw [hnotedLog.slot_eq, hnoted.slot_eq]
  | some directory =>
      obtain ⟨slot, rfl⟩ := Option.isSome_iff_exists.mp hsnapshot
      let kept := noted.putSlot directory "snapshot.bin" "snapshot.tmp" slot
      have hslot : slot.Usable := hvolume.snapshot slot rfl
      have hsnap : disk.Keeps directory "snapshot.bin" "snapshot.tmp" _ :=
        ⟨husable.snapshot _ rfl, rfl⟩
      have hloggedSnap := hsnap.stays hlog log (by decide)
      have hnotedSnap := hloggedSnap.stays hloggedMeta hardState (by decide)
      have hkept := hnotedSnap.written hslot (by decide)
      have hkeptLog := hnotedLog.stays hnotedSnap slot (by decide)
      have hkeptMeta := hnoted.stays hnotedSnap slot (by decide)
      change (⟨kept.slot logs _ _, kept.slot metas _ _, some (kept.slot directory _ _)⟩ :
        Volume) = _
      rw [hkeptLog.slot_eq, hkeptMeta.slot_eq, hkept.slot_eq]

theorem makeAll_of_enters {directories : List String}
    (h : ∀ directory ∈ directories, ∃ found, disk.Enters directory found) :
    makeAll disk directories = (disk, .ok ()) := by
  induction directories with
  | nil => rfl
  | cons directory rest ih =>
      obtain ⟨⟨found, hfound⟩, hrest⟩ := List.forall_mem_cons.mp h
      rw [makeAll, Disk.makeDirectories_of_enters hfound]
      exact ih hrest

/-- The directories of files that can be written are not made again. -/
theorem createDirectories_of_usable (h : (layout.volume disk).Usable) :
    layout.createDirectories disk = (disk, .ok ()) := by
  refine makeAll_of_enters fun directory hdirectory => ?_
  simp only [directories, List.cons_append, List.nil_append, List.mem_cons,
    Option.mem_toList] at hdirectory
  rcases hdirectory with rfl | rfl | hsnapshot
  · exact Disk.enters_of_usable h.log
  · exact Disk.enters_of_usable h.hardState
  · exact Disk.enters_of_usable (h.snapshot _ (Option.mem_map_of_mem _ hsnapshot))

end Layout
end Quorum
