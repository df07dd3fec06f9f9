import Quorum.Except
import Quorum.Settings.Basic

/-! # Options of a node

A node measures all times in milliseconds. From the least time before an election follow
the greatest, which is twice as long, and the time between two signs of life of a leader,
a tenth of it.
-/

namespace Quorum

/-- What the nodes of all groups are tuned by. -/
structure NodeOptions where
  /-- The least time without a leader before an election. -/
  electionTimeout : UInt64
  /-- The time between two snapshots. It is set in seconds, so it may be longer than 64 bits
  of milliseconds can tell. -/
  snapshotInterval : Nat
  useSnapshot : Bool
  entriesAtOnce : UInt64
  requestsAtOnce : UInt64
  enableMetrics : Bool
  forwardTimeout : UInt64
  deriving DecidableEq, Repr

/-- Why no node can run with some options. -/
inductive OptionsFault where
  | electionTimeout (least greatest : UInt64)
  | heartbeat (election heartbeat : UInt64)
  | noEntries
  deriving DecidableEq, Repr

def OptionsFault.message : OptionsFault → String
  | .electionTimeout least greatest =>
      "election timeout: min(" ++ toString least.toNat ++ ") must be < max("
        ++ toString greatest.toNat ++ ")"
  | .heartbeat election interval =>
      "election_timeout_min(" ++ toString election.toNat ++ ") must be > heartbeat_interval("
        ++ toString interval.toNat ++ ")"
  | .noEntries => "max_payload_entries must be > 0"

namespace NodeOptions

def ofSettings (settings : ReplicationSettings) : NodeOptions where
  electionTimeout := settings.electionTimeout
  snapshotInterval := settings.snapshotInterval.toNat * 1000
  useSnapshot := settings.useSnapshot
  entriesAtOnce := settings.entriesAtOnce
  requestsAtOnce := settings.requestsAtOnce
  enableMetrics := settings.enableMetrics
  forwardTimeout := settings.forwardTimeout

/-- The greatest time without a leader before an election, if 64 bits can hold it. -/
def electionTimeoutMax (options : NodeOptions) : Option UInt64 :=
  if options.electionTimeout.toNat * 2 < UInt64.size then some (options.electionTimeout * 2)
  else none

/-- The time between two signs of life of a leader, which is never zero. -/
def heartbeat (options : NodeOptions) : UInt64 :=
  max (options.electionTimeout / 10) 1

/-- Checks whether a node can run with the options. -/
def check (options : NodeOptions) : Except (Halt OptionsFault) Unit :=
  let least := options.electionTimeout
  match options.electionTimeoutMax with
  | none => .error .overflow
  | some greatest =>
      if greatest ≤ least then .error (.failed (.electionTimeout least greatest))
      else if least ≤ options.heartbeat then
        .error (.failed (.heartbeat least options.heartbeat))
      else if options.entriesAtOnce = 0 then .error (.failed .noEntries)
      else .ok ()

end NodeOptions

/-- What a node is started with. -/
structure NodeSettings where
  group : GroupId
  peer : String
  /-- The text of the peers the group starts with. -/
  roster : String
  /-- The directory of the group's data. -/
  path : String
  options : NodeOptions
  deriving DecidableEq, Repr

def NodeSettings.ofSettings (group : GroupId) (settings : ReplicationSettings) :
    NodeSettings where
  group := group
  peer := settings.peer
  roster := settings.roster
  path := settings.path
  options := .ofSettings settings

end Quorum
