import Quorum.Host.Basic
import Quorum.Settings.Options

/-! # Starting nodes

A node is started in steps: its settings are read, its directories made, its store
opened, its replica resumed, and its group founded unless it was before. The host takes
calls for the replica before the group is founded, and forwarded commands last. What
fails on the way ends the start, and nothing then stays registered for the group.
-/

namespace Quorum

/-- A step of a host that may fail. What it did before stays done. -/
abbrev HostStep (σ : Type) := ExceptT (Halt Failure) (StateM (Host σ))

namespace Roster

/-- The number of a peer, which must belong to the group. -/
def numberOf (roster : Roster) (peer : Peer) : Except Failure UInt64 :=
  match roster.number? peer with
  | some number => .ok (.ofNat number)
  | none =>
      .error (.config ("Peer " ++ peer.display ++ " is not part of initial configuration "
        ++ roster.display))

/-- The membership that a group is founded with: all peers have a vote. -/
def membership (roster : Roster) : Membership :=
  .ofLists [roster.members.map fun (number, _) => .ofNat number]
    (roster.members.map fun (number, peer) => (.ofNat number, peer.endpoint))

end Roster

namespace NodeSettings

/-- Reads who the node is and who its peers are. -/
def read (settings : NodeSettings) : Except Failure (Peer × Roster) := do
  let peer ← Peer.parse settings.peer
  let roster ← Roster.parse settings.roster
  return (peer, roster)

def layout (settings : NodeSettings) : Layout :=
  .ofRoot settings.path settings.group settings.options.useSnapshot

end NodeSettings

namespace HostStep

variable {σ α : Type} (machine : StateMachine σ)

instance : MonadLift (Except Failure) (HostStep σ) :=
  ⟨fun result => ExceptT.mk (pure (result.mapError .failed))⟩

/-- A step that tells its failure in other words. -/
def reword (step : HostStep σ α) (words : Failure → Failure) : HostStep σ α :=
  ExceptT.mk fun host =>
    let (result, host) := step.run host
    (result.mapError (Halt.map words), host)

/-- A step that is undone if it fails. What breaks off is left as it is. -/
def undoneBy (step : HostStep σ α) (undo : Host σ → Host σ) : HostStep σ α :=
  ExceptT.mk fun host =>
    match step.run host with
    | (.error (.failed failure), host) => (.error (.failed failure), undo host)
    | done => done

def makeDirectories (layout : Layout) : HostStep σ Unit :=
  ExceptT.mk fun host =>
    let (disk, result) := layout.createDirectories host.disk
    (result.mapError .failed, { host with disk })

def openStore (group : GroupId) (layout : Layout) (state : σ) : HostStep σ (Store σ) :=
  ExceptT.mk fun host =>
    let (volume, result) := Store.open machine group layout.logPath (layout.volume host.disk) state
    (result.mapError .failed, { host with disk := layout.putVolume host.disk volume })

/-- Resumes the replica of a node: the number under which the host has the node now. -/
def resume (settings : NodeSettings) (peer : Peer) (roster : Roster) (store : Store σ) :
    HostStep σ Nat := do
  let number ← roster.numberOf peer
  (settings.options.check.mapError (Halt.map fun fault => Failure.config fault.message) :)
  let (replica, result) := (Step.resume machine).perform { number, store }
  let node : Node σ :=
    { group := settings.group, peer, roster, layout := settings.layout
      forwardTimeout := settings.options.forwardTimeout, replica }
  modify fun host => { host with disk := node.save host.disk }
  match result with
  | .error halt =>
      throw (halt.map fun error =>
        .initialization ("Failed to create raft instance: " ++ error.message))
  | .ok _ =>
      let host ← get
      set { host with
        nodes := host.nodes ++ [node]
        replicas := host.replicas.insert settings.group host.nodes.length }
      return host.nodes.length

/-- Founds the group of a node. -/
def found (number : Nat) : HostStep σ Unit :=
  ExceptT.mk fun host =>
    let (host, result) := host.visit number fun node =>
      let (replica, result) :=
        (Step.found machine node.roster.membership).perform node.replica
      ({ node with replica }, result.mapError (Halt.map fun error => Failure.initialization
        ("Failed to initialize group " ++ node.group.name ++ ": " ++ error.message)))
    (result.getD (.ok ()), host)

/-- Lets the host take forwarded commands for a node. -/
def register (group : GroupId) (number : Nat) : HostStep σ Unit :=
  modify fun host => { host with routes := host.routes.insert group number }.note (.started number)

/-- Undoes the start of a node whose group could not be founded. -/
def abandon (group : GroupId) (number : Nat) (host : Host σ) : Host σ :=
  (host.unregister group).halt number

/-- Starts a node: the number under which the host has it. -/
def start (settings : NodeSettings) (state : σ) : HostStep σ Nat := do
  let (peer, roster) ← settings.read
  -- A peer outside its group is found out before anything is made.
  let _ ← roster.numberOf peer
  makeDirectories settings.layout
  let store ← (openStore machine settings.group settings.layout state).reword
    fun failure => .initialization ("Failed to open raft store: " ++ failure.message)
  let number ← resume machine settings peer roster store
  (found machine number).undoneBy (abandon settings.group number)
  register settings.group number
  return number

/-- Starts a node of a group that is founded later or by another node. -/
def join (settings : NodeSettings) (state : σ) : HostStep σ Nat := do
  let (peer, roster) ← settings.read
  makeDirectories settings.layout
  let store ← openStore machine settings.group settings.layout state
  let number ← resume machine settings peer roster store
  register settings.group number
  return number

end HostStep
end Quorum
