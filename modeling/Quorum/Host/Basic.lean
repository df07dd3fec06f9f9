import Quorum.Node.Session
import Quorum.Service.Route

/-! # Hosts

A host is a server with all its nodes. The nodes share the disk and the two registries
by which calls of peers and forwarded commands find their node; each node touches only
the files of its own group. A journal tells when the host listened and which nodes were
started and stopped.
-/

namespace Quorum

/-- What the journal of a host tells. Nodes are numbered from zero. -/
inductive HostEvent where
  | bound (address : String)
  | started (node : Nat)
  | stopped (node : Nat)
  | closed
  deriving DecidableEq, Repr

/-- A server with its nodes. -/
structure Host (σ : Type) where
  disk : Disk := {}
  /-- All nodes that were ever started, in order. -/
  nodes : List (Node σ) := []
  /-- The nodes that calls of peers go to. -/
  replicas : Registry Nat := {}
  /-- The nodes that forwarded commands go to. -/
  routes : Registry Nat := {}
  journal : List HostEvent := []

namespace Node

variable {σ : Type}

def load (node : Node σ) (disk : Disk) : Node σ :=
  { node with replica := { node.replica with
      store := { node.replica.store with volume := node.layout.volume disk } } }

/-- The disk with the files of the node as they are now. -/
def save (node : Node σ) (disk : Disk) : Disk :=
  node.layout.putVolume disk node.replica.store.volume

end Node

namespace Host

variable {σ α : Type} (machine : StateMachine σ) (reach : Peer → CommandRequest → Reply)

def isServing (host : Host σ) : Bool :=
  host.journal.foldl (fun serving event =>
    match event with
    | .bound _ => true
    | .closed => false
    | .started _ | .stopped _ => serving) false

/-- Writes something into the journal. -/
def note (host : Host σ) (event : HostEvent) : Host σ :=
  { host with journal := host.journal ++ [event] }

/-- Does something at a node, if there is one of that number. -/
def visit (host : Host σ) (number : Nat) (act : Node σ → Node σ × α) : Host σ × Option α :=
  match host.nodes[number]? with
  | none => (host, none)
  | some node =>
      -- The files are the disk's; a node holds them only while something is done at it.
      let (node, value) := act (node.load host.disk)
      ({ host with disk := node.save host.disk, nodes := host.nodes.set number node }, some value)

/-- Forgets the node of a group. -/
def unregister (host : Host σ) (group : GroupId) : Host σ :=
  { host with replicas := host.replicas.erase group, routes := host.routes.erase group }

/-- Ends a node without forgetting it. -/
def halt (host : Host σ) (number : Nat) : Host σ :=
  (host.visit number fun node => (node.stop, ())).1

/-- Forgets a node and then stops it. -/
def stop (host : Host σ) (number : Nat) : Host σ :=
  match host.nodes[number]? with
  | none => host
  | some node => ((host.unregister node.group).halt number).note (.stopped number)

/-- Asks a node. -/
def ask (number : Nat) (call : Call) (host : Host σ) :
    Host σ × Except ReplicaFault call.kind.Response :=
  let (host, result) := host.visit number fun node => node.answer machine call
  -- Where there is no node there is none that runs.
  (host, result.getD (.error .stopped))

def answer (host : Host σ) (message : PeerRequest) : Host σ × Except Status PeerResponse :=
  Route.answer (fun _ => ReplicaFault.format) host.replicas (ask machine) message host

/-- Answers a forwarded command, once there is an answer. -/
def take (host : Host σ) (request : CommandRequest) : Host σ × Option CommandResponse :=
  match host.routes.find? ⟨request.group⟩ with
  | none => (host, (Submission.handle false request).value?)
  | some number =>
      let (host, response) := host.visit number fun node => node.take machine reach request
      (host, response.join)

end Host
end Quorum
