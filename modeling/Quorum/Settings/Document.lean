import Quorum.Disk.Basic
import Quorum.Settings.Fault
import Quorum.Toml.Document
import Quorum.Toml.Record

/-! # Settings in a document

Settings are read from a document. What it leaves out has its default, and what no
setting is named after is passed over.
-/

namespace Quorum

/-- Why there are no settings. -/
inductive SettingsError where
  | unreadable (cause : IoCause)
  /-- The text is no document, or a value in it is none of its setting. -/
  | malformed
  | faulty (fault : SettingsFault)
  deriving DecidableEq, Repr

def SettingsError.message : SettingsError → String
  | .unreadable cause => "Failed to read config file: " ++ cause.message
  | .malformed => "Failed to parse config file"
  | .faulty fault => fault.message

def ListenSettings.ofValue? (value : Toml.Value) : Option ListenSettings := do
  let fields ← value.fields?
  let default : ListenSettings := {}
  some ⟨← fields.read "addr" 0 (·.text?) default.address⟩

def ReplicationSettings.ofValue? (value : Toml.Value) : Option ReplicationSettings := do
  let fields ← value.fields?
  let default : ReplicationSettings := {}
  let peer ← fields.read "peer_id" 0 (·.text?) default.peer
  let roster ← fields.read "group_peers" 1 (·.text?) default.roster
  let path ← fields.read "path" 2 (·.text?) default.path
  let electionTimeout ← fields.read "election_timeout_ms" 3 (·.number?) default.electionTimeout
  let snapshotInterval ←
    fields.read "snapshot_interval_secs" 4 (·.number?) default.snapshotInterval
  let useSnapshot ← fields.read "use_snapshot" 5 (·.flag?) default.useSnapshot
  let entriesAtOnce ← fields.read "replication_buffer_size" 6 (·.number?) default.entriesAtOnce
  let requestsAtOnce ← fields.read "rpc_thread_pool_size" 7 (·.number?) default.requestsAtOnce
  let enableMetrics ← fields.read "enable_metrics" 8 (·.flag?) default.enableMetrics
  let forwardTimeout ← fields.read "forward_timeout_ms" 9 (·.number?) default.forwardTimeout
  some {
    peer, roster, path, electionTimeout, snapshotInterval, useSnapshot, entriesAtOnce
    requestsAtOnce, enableMetrics, forwardTimeout }

def LoggingSettings.ofValue? (value : Toml.Value) : Option LoggingSettings := do
  let fields ← value.fields?
  let default : LoggingSettings := {}
  let level ← fields.read "level" 0 (·.text?) default.level
  let format ← fields.read "format" 1 (·.text?) default.format
  let targets ← fields.read "targets" 2 (·.texts?) default.targets
  some { level, format, targets }

def StoreSettings.ofValue? (value : Toml.Value) : Option StoreSettings := do
  let fields ← value.fields?
  some ⟨← fields.need "database" 0 (·.text?), ← fields.need "store" 1 (·.text?)⟩

namespace Settings

def ofValue? (value : Toml.Value) : Option Settings := do
  let fields ← value.fields?
  let default : Settings := {}
  let listen ← fields.read "rpc" 0 ListenSettings.ofValue? default.listen
  let replication ← fields.read "raft" 1 ReplicationSettings.ofValue? default.replication
  let logging ← fields.read "logging" 2 LoggingSettings.ofValue? default.logging
  let stores ← fields.read "stores" 3 (·.items? StoreSettings.ofValue?) default.stores
  some { listen, replication, logging, stores }

/-- Settings as they are used: with the directory of all data as it is seen from the
working directory, and checked. -/
def finish (directory : String) (settings : Settings) : Except SettingsFault Settings :=
  let settings := settings.within directory
  settings.check.map fun _ => settings

/-- Reads settings from a text and makes them ready for use. -/
def parse (directory : String) (document : String) : Except SettingsError Settings :=
  match (Toml.parse document).bind ofValue? with
  | none => .error .malformed
  | some settings => (settings.finish directory).mapError .faulty

end Settings
end Quorum
