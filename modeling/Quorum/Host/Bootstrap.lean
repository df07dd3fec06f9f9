import Quorum.Host.Start
import Quorum.Address
import Quorum.Settings.Fault

/-! # Starting and stopping a server

A server listens before its first node is started, and starts a node for every store in
the configured order. If one of them cannot be started, all nodes before it are stopped
and the server no longer listens.
-/

namespace Quorum

/-- Why a server does not start. -/
inductive StartupFault where
  | address (text : String)
  | failed (failure : Failure)
  deriving DecidableEq, Repr

def StartupFault.message : StartupFault → String
  | .address text => "Invalid rpc.addr '" ++ text ++ "': invalid socket address syntax"
  | .failed failure => failure.message

namespace Host

variable {σ : Type}

/-- Stops nodes one after the other, and then listening. -/
def shutdown (host : Host σ) (nodes : List Nat) : Host σ :=
  (nodes.foldl Host.stop host).note .closed

end Host

namespace HostStep

variable {σ : Type} (machine : StateMachine σ) (settings : Settings) (state : σ)

/-- Starts the nodes of stores behind those that were started before: all of them. -/
def startStores (started : List Nat) : List StoreSettings → HostStep σ (List Nat)
  | [] => return started
  | store :: rest => do
      -- A node that fails has undone its own start.
      let number ← (start machine (.ofSettings store.group settings.replication) state).undoneBy
        fun host => host.shutdown started
      startStores (started ++ [number]) rest

/-- Listens at the configured address. -/
def listen (bind : String → Except Failure Unit) : HostStep σ Unit := do
  bind settings.listen.address
  modify fun host => host.note (.bound settings.listen.address)

end HostStep

namespace Host

variable {σ : Type} (machine : StateMachine σ)

/-- Starts a server, where `bind` tells whether an address can be listened at. -/
def bootstrap (bind : String → Except Failure Unit) (settings : Settings) (state : σ)
    (host : Host σ) : Host σ × Except (Halt StartupFault) (List Nat) :=
  if !Address.isValid settings.listen.address then
    (host, .error (.failed (.address settings.listen.address)))
  else
    let (result, host) := (do
      HostStep.listen settings bind
      HostStep.startStores machine settings state [] settings.stores : HostStep σ _).run host
    (host, result.mapError (Halt.map .failed))

end Host
end Quorum
