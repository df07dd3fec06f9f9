import Quorum.Address
import Quorum.Settings.Basic
import Quorum.Text.Reading

/-! # Faults of settings

Settings are checked in a fixed order, and the first fault is reported. The checks do not
ask whether the numbers suit each other, only that none of them is zero.
-/

namespace Quorum

inductive SettingsFault where
  | address (text : String)
  | noPeer
  | noRoster
  | noPath
  | zeroElectionTimeout
  | zeroSnapshotInterval
  | zeroForwardTimeout
  | zeroRequestsAtOnce
  | zeroEntriesAtOnce
  | level (level : String)
  | format (format : String)
  | targetLevel (target level : String)
  | noStores
  | blankStore
  | repeatedStore (store : StoreSettings)
  deriving DecidableEq, Repr

namespace SettingsFault

/-- The levels of logs that settings may name, the gravest first. -/
def levels : List String := ["error", "warn", "info", "debug", "trace"]

/-- The formats of logs that settings may name. -/
def formats : List String := ["compact", "json"]

/-- The end of the message about a word that is none of some words. -/
def choices (words : List String) : String :=
  ". Must be one of: " ++ ", ".intercalate words

def message : SettingsFault → String
  | .address text => "Invalid rpc.addr '" ++ text ++ "': invalid socket address syntax"
  | .noPeer => "raft.peer_id cannot be empty"
  | .noRoster => "raft.group_peers cannot be empty"
  | .noPath => "raft.path cannot be empty"
  | .zeroElectionTimeout => "raft.election_timeout_ms cannot be 0"
  | .zeroSnapshotInterval => "raft.snapshot_interval_secs cannot be 0 when snapshots are enabled"
  | .zeroForwardTimeout => "raft.forward_timeout_ms cannot be 0"
  | .zeroRequestsAtOnce => "raft.rpc_thread_pool_size cannot be 0"
  | .zeroEntriesAtOnce => "raft.replication_buffer_size cannot be 0"
  | .level word => "Invalid log level '" ++ word ++ "'" ++ choices levels
  | .format word => "Invalid log format '" ++ word ++ "'" ++ choices formats
  | .targetLevel target word =>
      "Invalid log level '" ++ word ++ "' for target '" ++ target ++ "'" ++ choices levels
  | .noStores => "At least one [[stores]] entry is required"
  | .blankStore => "Store database and name cannot be empty"
  | .repeatedStore store => "Duplicate store '" ++ store.group.name ++ "'"

/-- A fault if there is one. -/
def when (isWrong : Bool) (fault : SettingsFault) : List SettingsFault :=
  if isWrong then [fault] else []

def report : List SettingsFault → Except SettingsFault Unit
  | [] => .ok ()
  | fault :: _ => .error fault

theorem report_eq_ok_iff (faults : List SettingsFault) : report faults = .ok () ↔ faults = [] := by
  cases faults with
  | nil => simp [report]
  | cons => simp [report]

end SettingsFault

open SettingsFault

def ListenSettings.faults (settings : ListenSettings) : List SettingsFault :=
  when (!Address.isValid settings.address) (.address settings.address)

def ReplicationSettings.faults (settings : ReplicationSettings) : List SettingsFault :=
  when (Text.isAllBlank settings.peer) .noPeer
    ++ when (Text.isAllBlank settings.roster) .noRoster
    ++ when (Text.isAllBlank settings.path) .noPath
    ++ when (settings.electionTimeout = 0) .zeroElectionTimeout
    ++ when (settings.useSnapshot && settings.snapshotInterval = 0) .zeroSnapshotInterval
    ++ when (settings.forwardTimeout = 0) .zeroForwardTimeout
    ++ when (settings.requestsAtOnce = 0) .zeroRequestsAtOnce
    ++ when (settings.entriesAtOnce = 0) .zeroEntriesAtOnce

def LoggingSettings.faults (settings : LoggingSettings) : List SettingsFault :=
  when (!levels.contains settings.level) (.level settings.level)
    ++ when (!formats.contains settings.format) (.format settings.format)
    ++ settings.targets.flatMap fun (target, level) =>
        when (!levels.contains level) (.targetLevel target level)

/-- The faults of stores that follow some others: blank names and repeated stores. -/
def StoreSettings.faultsAfter (before : List StoreSettings) :
    List StoreSettings → List SettingsFault
  | [] => []
  | store :: rest =>
      when (Text.isAllBlank store.database || Text.isAllBlank store.store) .blankStore
        ++ when (before.contains store) (.repeatedStore store)
        ++ faultsAfter (store :: before) rest

namespace Settings

/-- All faults, in the order of the checks. -/
def faults (settings : Settings) : List SettingsFault :=
  settings.listen.faults ++ settings.replication.faults ++ settings.logging.faults
    ++ when settings.stores.isEmpty .noStores
    ++ StoreSettings.faultsAfter [] settings.stores

def check (settings : Settings) : Except SettingsFault Unit :=
  report settings.faults

theorem check_eq_ok_iff {settings : Settings} :
    settings.check = .ok () ↔ settings.faults = [] :=
  report_eq_ok_iff settings.faults

end Settings
end Quorum
