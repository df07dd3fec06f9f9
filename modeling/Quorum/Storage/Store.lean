import Quorum.Command.Basic
import Quorum.Except
import Quorum.StateMachine.Basic
import Quorum.Storage.Error
import Quorum.Storage.Layout
import Quorum.Storage.Log

/-! # The store of a group

A store keeps the log, the votes and marks of a node, and the state machine with its
snapshot. Memory answers every question; the files hold what a restart needs. Operations
change memory and files in a fixed order, so what an interruption or a failing file
leaves behind can be told from the order alone.
-/

namespace Quorum

/-- What a node must not forget: its vote, how far the log is committed and how far it
was purged. -/
structure HardState where
  vote : Option Vote := none
  committed : Option LogId := none
  lastPurged : Option LogId := none
  deriving DecidableEq, Repr

def HardState.format : Binary.Format HardState :=
  ((Binary.Format.option Vote.format).pair <| (Binary.Format.option LogId.format).pair <|
    .option LogId.format).convert
    (fun (vote, committed, lastPurged) => ⟨vote, committed, lastPurged⟩)
    (fun state => (state.vote, state.committed, state.lastPurged))

/-- A snapshot as it is kept and sent. -/
structure Snapshot where
  description : SnapshotMeta
  data : Bytes
  deriving DecidableEq, Repr

def Snapshot.format : Binary.Format Snapshot :=
  (SnapshotMeta.format.pair .bytes).convert (fun (description, data) => ⟨description, data⟩)
    (fun snapshot => (snapshot.description, snapshot.data))

/-- What the data of a snapshot holds. -/
structure SnapshotContent where
  lastApplied : Option LogId := none
  lastMembership : StoredMembership := {}
  state : Bytes := []
  deriving DecidableEq, Repr

def SnapshotContent.format : Binary.Format SnapshotContent :=
  ((Binary.Format.option LogId.format).pair (StoredMembership.format.pair .bytes)).convert
    (fun (lastApplied, lastMembership, state) => ⟨lastApplied, lastMembership, state⟩)
    (fun content => (content.lastApplied, content.lastMembership, content.state))

/-- A store with a state machine whose states are of type `σ`. -/
structure Store (σ : Type) where
  group : GroupId
  /-- Where the log file is, for diagnostics. -/
  logPath : String
  volume : Volume
  log : Log := .empty
  hardState : HardState := {}
  state : σ
  lastApplied : Option LogId := none
  lastMembership : StoredMembership := {}
  /-- How many snapshots were built. -/
  built : UInt64 := 0
  current : Option Snapshot := none

/-- A value of the binary format, or why the bytes are none. -/
def decodeStored {α : Type} (format : Binary.Format α) (bytes : Bytes) : Except Failure α :=
  match format.decode bytes with
  | .ok value => .ok value
  | .error e => .error (.serialization e.message)

namespace Store

variable {σ : Type} (machine : StateMachine σ)

/-! ## Opening -/

/-- The hard state in its file. -/
def loadHardState (slot : Slot) : Except Failure HardState :=
  match slot.read with
  | .error cause => .error cause.failure
  | .ok none => .ok {}
  | .ok (some bytes) => decodeStored HardState.format bytes

/-- The log in its file, and whether the file ends in a torn record. -/
def loadLog (slot : Slot) : Except Failure (Log × Bool) :=
  match slot.readRecords with
  | .error cause => .error cause.failure
  | .ok (records, torn) =>
      match records.mapM (decodeStored Entry.format) with
      | .error failure => .error failure
      | .ok entries => .ok (.ofEntries entries, torn)

/-- The snapshot in its file together with the state it holds. -/
def loadSnapshot (slot : Option Slot) : Except Failure (Option (Snapshot × σ)) :=
  match slot.map Slot.read with
  | none | some (.ok none) => .ok none
  | some (.error cause) => .error cause.failure
  | some (.ok (some bytes)) => do
      let snapshot ← decodeStored Snapshot.format bytes
      let content ← decodeStored SnapshotContent.format snapshot.data
      let state ← machine.restore content.state
      return some (snapshot, state)

/-- Writes a torn log file again, with its whole records only. -/
def mendLog (volume : Volume) (log : Log) (torn : Bool) : Volume × Except Failure Unit :=
  if torn then
    match volume.log.replace (Record.frames log.records) with
    | (slot, .ok _) => ({ volume with log := slot }, .ok ())
    | (slot, .error cause) => ({ volume with log := slot }, .error cause.failure)
  else (volume, .ok ())

/-- Opens the store of some files, with the state machine in its given state unless there
is a snapshot. The files may change even if the store cannot be opened. -/
def «open» (group : GroupId) (logPath : String) (volume : Volume) (state : σ) :
    Volume × Except Failure (Store σ) :=
  match loadHardState volume.hardState with
  | .error failure => (volume, .error failure)
  | .ok hardState =>
      match loadLog volume.log with
      | .error failure => (volume, .error failure)
      | .ok (log, torn) =>
          match mendLog volume log torn with
          | (volume, .error failure) => (volume, .error failure)
          | (volume, .ok _) =>
              match loadSnapshot machine volume.snapshot with
              | .error failure => (volume, .error failure)
              | .ok none => (volume, .ok { group, logPath, volume, log, hardState, state })
              | .ok (some (snapshot, state)) =>
                  (volume, .ok
                    { group, logPath, volume, log, hardState, state
                      lastApplied := snapshot.description.lastLogId
                      lastMembership := snapshot.description.lastMembership
                      current := some snapshot })

/-! ## Votes and marks -/

def persistHardState (store : Store σ) : Store σ × Except IoCause Unit :=
  let (slot, result) := store.volume.hardState.replace (HardState.format.write store.hardState)
  ({ store with volume := { store.volume with hardState := slot } }, result)

def rewriteLog (store : Store σ) : Store σ × Except IoCause Unit :=
  let (slot, result) := store.volume.log.replace (Record.frames store.log.records)
  ({ store with volume := { store.volume with log := slot } }, result)

/-- The outcome of an operation whose file could be written or not. -/
def reported (subject : StorageSubject) : Except IoCause Unit → Except (Halt StorageError) Unit
  | .ok _ => .ok ()
  | .error cause => .error (.failed ⟨subject, .failed cause.failure⟩)

/-- Notes a vote, in memory and then in the file. -/
def saveVote (store : Store σ) (vote : Vote) : Store σ × Except (Halt StorageError) Unit :=
  let store := { store with hardState := { store.hardState with vote := some vote } }
  let (store, result) := store.persistHardState
  (store, reported .writeVote result)

/-- Notes how far the log is committed, in memory and then in the file. -/
def saveCommitted (store : Store σ) (committed : Option LogId) :
    Store σ × Except (Halt StorageError) Unit :=
  let store := { store with hardState := { store.hardState with committed } }
  let (store, result) := store.persistHardState
  (store, reported .writeStore result)

/-! ## The log -/

/-- The last place of the log: that of its last entry, or how far it was purged. -/
def lastLogId (store : Store σ) : Option LogId :=
  match store.log.last? with
  | some entry => some entry.id
  | none => store.hardState.lastPurged

/-- Adds entries to the file, and if that is done to memory. -/
def append (store : Store σ) (entries : List Entry) :
    Store σ × Except (Halt StorageError) Unit :=
  match store.volume.log.addRecords (entries.map Entry.format.write) with
  | (slot, .ok _) =>
      ({ store with
          volume := { store.volume with log := slot }
          log := store.log.insertAll entries }, .ok ())
  | (slot, .error cause) =>
      ({ store with volume := { store.volume with log := slot } },
        .error (.failed ⟨.writeLogs, .io cause⟩))

/-- Removes the entries from an index on, from memory and then from the file. -/
def deleteSince (store : Store σ) (id : LogId) : Store σ × Except (Halt StorageError) Unit :=
  let store := { store with log := store.log.below id.index }
  let (store, result) := store.rewriteLog
  (store, reported .writeLogs result)

/-- Removes the entries in front of the next index, first from memory and the log file, and then
notes in memory and in the file of the hard state how far the log was purged. -/
def dropThrough (store : Store σ) (id : LogId) : Store σ × Except IoCause Unit :=
  let store := { store with log := store.log.since (id.index + 1) }
  match store.rewriteLog with
  | (store, .error cause) => (store, .error cause)
  | (store, .ok _) =>
      { store with hardState := { store.hardState with lastPurged := some id } }.persistHardState

/-- Removes the entries up to a place. The greatest index has no next one from which on entries
could be kept, and nothing is done. -/
def purge (store : Store σ) (id : LogId) : Store σ × Except (Halt StorageError) Unit :=
  if id.HasNext then
    let (store, result) := store.dropThrough id
    (store, reported .writeLogs result)
  else (store, .error .overflow)

/-! ## The state machine -/

/-- Notes that an entry is being applied. -/
def markApplied (store : Store σ) (id : LogId) : Store σ :=
  { store with lastApplied := some id }

/-- Hands the command of an entry to the state machine. A refused command or one that
cannot be read is the result of its entry and of no other. -/
def feed (store : Store σ) (id : LogId) (data : Bytes) : Store σ × ApplyResult :=
  match Command.ofEntry data with
  | .error failure => (store, .error failure.message)
  | .ok command =>
      match machine.apply store.state id.index id.term command with
      | (state, .ok result) => ({ store with state }, result)
      | (state, .error failure) => ({ store with state }, .error failure.message)

def noteMembership (store : Store σ) (id : LogId) (membership : Membership) : Store σ :=
  { store with lastMembership := ⟨some id, membership⟩ }

def applyEntry (store : Store σ) (entry : Entry) : Store σ × ApplyResult :=
  let store := store.markApplied entry.id
  match entry.payload with
  | .blank => (store, .noOp)
  | .normal data => store.feed machine entry.id data
  | .membership membership => (store.noteMembership entry.id membership, .noOp)

/-- Applies entries in order, with a result for each. -/
def applyAll (store : Store σ) : List Entry → Store σ × List ApplyResult
  | [] => (store, [])
  | entry :: rest =>
      let (store, result) := store.applyEntry machine entry
      let (store, results) := applyAll store rest
      (store, result :: results)

/-! ## Snapshots -/

/-- The name of the snapshot with the given number: after the last entry it covers. -/
def snapshotName (last : Option LogId) (number : UInt64) : String :=
  match last with
  | some id => id.display ++ "-" ++ toString number.toNat
  | none => "--" ++ toString number.toNat

/-- How far the building of a snapshot has come. Entries may be applied and snapshots
installed between its steps. -/
inductive Build where
  | begun
  | applied (last : Option LogId)
  | described (last : Option LogId) (membership : StoredMembership)
  | taken (last : Option LogId) (membership : StoredMembership) (data : Bytes)
  | named (snapshot : Snapshot)
  | written (snapshot : Snapshot)
  | finished (snapshot : Snapshot)
  | failed (error : StorageError)
  deriving DecidableEq, Repr

/-- Writes a snapshot to its file, if it has one. -/
def writeSnapshot (store : Store σ) (snapshot : Snapshot) : Store σ × Except StorageError Unit :=
  match store.volume.snapshot with
  | none => (store, .ok ())
  | some slot =>
      let (slot, result) := slot.replace (Snapshot.format.write snapshot)
      ({ store with volume := { store.volume with snapshot := some slot } },
        match result with
        | .ok _ => .ok ()
        | .error cause => .error ⟨.writeSnapshot snapshot.description, .io cause⟩)

/-- The next step of a build: it reads what was applied last, the membership and the
state, numbers the snapshot, writes it to its file and makes it the current one. -/
def buildStep (store : Store σ) : Build → Store σ × Build
  | .begun => (store, .applied store.lastApplied)
  | .applied last => (store, .described last store.lastMembership)
  | .described last membership =>
      match machine.snapshot store.state with
      | .ok state =>
          (store, .taken last membership (SnapshotContent.format.write ⟨last, membership, state⟩))
      | .error failure => (store, .failed ⟨.readStateMachine, .failed failure⟩)
  | .taken last membership data =>
      let number := store.built + 1
      ({ store with built := number },
        .named ⟨⟨last, membership, snapshotName last number⟩, data⟩)
  | .named snapshot =>
      match store.writeSnapshot snapshot with
      | (store, .ok _) => (store, .written snapshot)
      | (store, .error error) => (store, .failed error)
  | .written snapshot => ({ store with current := some snapshot }, .finished snapshot)
  | .finished snapshot => (store, .finished snapshot)
  | .failed error => (store, .failed error)

/-- How many steps of a build are left at most. -/
def Build.left : Build → Nat
  | .begun => 6
  | .applied _ => 5
  | .described _ _ => 4
  | .taken _ _ _ => 3
  | .named _ => 2
  | .written _ => 1
  | .finished _ | .failed _ => 0

theorem left_buildStep_lt (store : Store σ) {build : Build} (h : build.left ≠ 0) :
    (store.buildStep machine build).2.left < build.left := by
  cases build with
  | begun | applied | taken | written => simp [buildStep, Build.left]
  | described last membership =>
      rw [buildStep]
      split <;> simp [Build.left]
  | named snapshot =>
      rw [buildStep]
      split <;> simp [Build.left]
  | finished | failed => exact absurd rfl h

/-- The rest of a build with nothing between its steps. -/
def finishBuild (store : Store σ) (build : Build) :
    Store σ × Except (Halt StorageError) Snapshot :=
  match _h : build with
  | .finished snapshot => (store, .ok snapshot)
  | .failed error => (store, .error (.failed error))
  | .begun | .applied _ | .described _ _ | .taken _ _ _ | .named _ | .written _ =>
      let next := store.buildStep machine build
      finishBuild next.1 next.2
termination_by build.left
decreasing_by
  all_goals
    subst _h
    exact left_buildStep_lt machine store (by simp [Build.left])

def buildSnapshot (store : Store σ) : Store σ × Except (Halt StorageError) Snapshot :=
  store.finishBuild machine .begun

/-- The store at the end of a snapshot that holds the given state. -/
def atSnapshot (store : Store σ) (snapshot : Snapshot) (state : σ) : Store σ :=
  { store with
    state
    lastApplied := snapshot.description.lastLogId
    lastMembership := snapshot.description.lastMembership }

/-- Takes over a snapshot that another store built: its state and what it covers, then
its file, and last the log is purged up to the last entry it covers. -/
def installSnapshot (store : Store σ) (snapshot : Snapshot) :
    Store σ × Except (Halt StorageError) Unit :=
  match decodeStored SnapshotContent.format snapshot.data with
  | .error failure =>
      (store, .error (.failed ⟨.readSnapshot snapshot.description, .failed failure⟩))
  | .ok content =>
      match machine.restore content.state with
      | .error failure => (store, .error (.failed ⟨.writeStateMachine, .failed failure⟩))
      | .ok state =>
          -- Memory is changed before any file, so a failing file leaves it changed.
          match (store.atSnapshot snapshot state).writeSnapshot snapshot with
          | (store, .error error) => (store, .error (.failed error))
          | (store, .ok _) =>
              let store := { store with current := some snapshot }
              match snapshot.description.lastLogId with
              | none => (store, .ok ())
              | some id => store.purge id

/-- A store as diagnostics show it. -/
def debug (store : Store σ) : String :=
  "RaftStore \x7b group: " ++ store.group.debug ++ ", log_file: "
    ++ Text.Quoting.path.quote store.logPath ++ ", snapshot_idx: "
    ++ toString store.built.toNat ++ ", .. \x7d"

end Store
end Quorum
