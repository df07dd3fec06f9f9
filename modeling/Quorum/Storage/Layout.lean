import Quorum.Disk.Slot
import Quorum.Failure
import Quorum.Group

/-! # Where a group's files are

A group has a directory for its log and one for its hard state under the root of all
groups, and one for its snapshot if it keeps snapshots. Of each file only its slot in the
directory is ever touched.
-/

namespace Quorum

/-- The directories of a group. -/
structure Layout where
  logDirectory : String
  metaDirectory : String
  snapshotDirectory : Option String
  deriving DecidableEq, Repr

/-- The files of a group; without a snapshot where snapshots are kept in memory only. -/
structure Volume where
  log : Slot := {}
  hardState : Slot := {}
  snapshot : Option Slot := none
  deriving DecidableEq, Repr

namespace Layout

/-- The directories of a group under a root. -/
def ofRoot (root : String) (group : GroupId) (useSnapshot : Bool) : Layout where
  logDirectory := Path.join (Path.join root "log") group.name
  metaDirectory := Path.join (Path.join root "meta") group.name
  snapshotDirectory :=
    if useSnapshot then some (Path.join (Path.join root "snapshot") group.name) else none

/-- All directories, in the order in which they are made. -/
def directories (layout : Layout) : List String :=
  [layout.logDirectory, layout.metaDirectory] ++ layout.snapshotDirectory.toList

/-- Makes directories until one cannot be made. -/
def makeAll (disk : Disk) : List String → Disk × Except Failure Unit
  | [] => (disk, .ok ())
  | directory :: rest =>
      match disk.makeDirectories directory with
      | (disk, .ok _) => makeAll disk rest
      | (disk, .error cause) =>
          (disk, .error (.initialization
            ("Failed to create dir " ++ directory ++ ": " ++ cause.message)))

def createDirectories (layout : Layout) (disk : Disk) : Disk × Except Failure Unit :=
  makeAll disk layout.directories

def logPath (layout : Layout) : String :=
  Path.join layout.logDirectory "raft_log.bin"

/-- The files of a group as they are on a disk. -/
def volume (layout : Layout) (disk : Disk) : Volume where
  log := disk.slot layout.logDirectory "raft_log.bin" "raft_log.tmp"
  hardState := disk.slot layout.metaDirectory "raft_meta.bin" "raft_meta.tmp"
  snapshot := layout.snapshotDirectory.map (disk.slot · "snapshot.bin" "snapshot.tmp")

/-- The disk with the files of a group as they are now. -/
def putVolume (layout : Layout) (disk : Disk) (volume : Volume) : Disk :=
  let disk := disk.putSlot layout.logDirectory "raft_log.bin" "raft_log.tmp" volume.log
  let disk := disk.putSlot layout.metaDirectory "raft_meta.bin" "raft_meta.tmp" volume.hardState
  match layout.snapshotDirectory, volume.snapshot with
  | some directory, some slot => disk.putSlot directory "snapshot.bin" "snapshot.tmp" slot
  | _, _ => disk

end Layout
end Quorum
