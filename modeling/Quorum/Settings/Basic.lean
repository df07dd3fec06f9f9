import Quorum.Disk.Path
import Quorum.Group

/-! # Settings

What a server is told before it starts: where it listens, who its peers are and where
their data is, what it logs, and the stores it hosts.
-/

namespace Quorum

structure ListenSettings where
  address : String := "127.0.0.1:8090"
  deriving DecidableEq, Repr

/-- The settings that all groups of a server share. -/
structure ReplicationSettings where
  peer : String := "127.0.0.1:8090"
  /-- The peers that a group starts with. -/
  roster : String := "127.0.0.1:8090"
  /-- The directory of all data. -/
  path : String := "./raft-data"
  /-- The least time without a leader before an election, in milliseconds. -/
  electionTimeout : UInt64 := 10000
  /-- The time between two snapshots, in seconds. -/
  snapshotInterval : UInt64 := 3600
  useSnapshot : Bool := false
  /-- How many entries are sent at once at most. -/
  entriesAtOnce : UInt64 := 32768
  /-- How many requests of a connection are served at once at most. -/
  requestsAtOnce : UInt64 := 48
  enableMetrics : Bool := false
  /-- How long an answer of the leader is waited for, in milliseconds. -/
  forwardTimeout : UInt64 := 3000
  deriving DecidableEq, Repr

structure LoggingSettings where
  level : String := "info"
  format : String := "compact"
  /-- Levels of single parts of the program. -/
  targets : List (String × String) := []
  deriving DecidableEq, Repr

/-- A store that the server hosts. -/
structure StoreSettings where
  database : String
  store : String
  deriving DecidableEq, Repr

def StoreSettings.group (store : StoreSettings) : GroupId :=
  .ofStore store.database store.store

/-- All settings of a server. -/
structure Settings where
  listen : ListenSettings := {}
  replication : ReplicationSettings := {}
  logging : LoggingSettings := {}
  stores : List StoreSettings := [⟨"storenode", "default"⟩]
  deriving DecidableEq, Repr

namespace Settings

/-- The settings with the directory of all data as it is seen from a working directory. -/
def within (directory : String) (settings : Settings) : Settings :=
  { settings with
    replication := { settings.replication with
      path := Path.join directory settings.replication.path } }

/-- The variables of the environment that override settings. -/
def variableNames : List String :=
  ["STORENODE_RPC_ADDR", "STORENODE_PEER_ID", "STORENODE_GROUP_PEERS", "STORENODE_RAFT_PATH"]

/-- The settings with the values that some variables have in place of their own. -/
def override (environment : String → Option String) (settings : Settings) : Settings :=
  let { listen, replication, .. } := settings
  let value (name current : String) : String := (environment name).getD current
  { settings with
    listen := { listen with address := value "STORENODE_RPC_ADDR" listen.address }
    replication := { replication with
      peer := value "STORENODE_PEER_ID" replication.peer
      roster := value "STORENODE_GROUP_PEERS" replication.roster
      path := value "STORENODE_RAFT_PATH" replication.path } }

end Settings
end Quorum
