import Quorum.Proofs.Storage.Files

/-! # Runs of a store

A run is a sequence of operations and reopenings, each of which was reported done. A
reopening goes by the files alone, with the state machine in its first state. Which
operations a run may have is a parameter, so that what holds of all runs and what needs
more of the caller are said of the same runs.
-/

namespace Quorum

/-- The files of a group for which nothing was written yet. -/
def Volume.empty (useSnapshot : Bool) : Volume where
  snapshot := if useSnapshot then some {} else none

/-- What changes a store. -/
inductive Operation where
  | saveVote (vote : Vote)
  | saveCommitted (committed : Option LogId)
  | append (entries : List Entry)
  | deleteSince (id : LogId)
  | purge (id : LogId)
  | apply (entries : List Entry)
  | build
  | install (snapshot : Snapshot)
  deriving DecidableEq, Repr

variable {σ : Type} (machine : StateMachine σ)

namespace Operation

def perform (store : Store σ) : Operation → Store σ × Except (Halt StorageError) Unit
  | .saveVote vote => store.saveVote vote
  | .saveCommitted committed => store.saveCommitted committed
  | .append entries => store.append entries
  | .deleteSince id => store.deleteSince id
  | .purge id => store.purge id
  | .apply entries => ((store.applyAll machine entries).1, .ok ())
  | .build => (store.buildSnapshot machine).map id (·.map fun _ => ())
  | .install snapshot => store.installSnapshot machine snapshot

/-- What an operation writes is not too long for the length in front of it: that of a log
record has four bytes. That of a part of a snapshot has eight, which no memory exceeds. -/
def Sized (store : Store σ) : Operation → Prop
  | .append entries => ∀ entry ∈ entries, Record.Fits (Entry.format.write entry)
  | .build => ∀ snapshot, (store.buildSnapshot machine).2 = .ok snapshot →
      (Snapshot.format.write snapshot).Fits
  | .install snapshot => (Snapshot.format.write snapshot).Fits
  | _ => True

end Operation

/-- What a store is opened with, apart from its files. -/
structure Setup (σ : Type) where
  machine : StateMachine σ
  /-- The first state of the machine. -/
  fresh : σ
  group : GroupId
  logPath : String
  useSnapshot : Bool

/-- A store with a memory and a file for its snapshot. -/
def Memory.setup (group : GroupId) (logPath : String) : Setup Memory where
  machine := Memory.machine
  fresh := {}
  group := group
  logPath := logPath
  useSnapshot := true

def Setup.open {σ : Type} (setup : Setup σ) (volume : Volume) :
    Volume × Except Failure (Store σ) :=
  Store.open setup.machine setup.group setup.logPath volume setup.fresh

/-- What may happen to a store. -/
inductive Event where
  | performed (operation : Operation)
  | reopened
  deriving DecidableEq, Repr

def Event.operation? : Event → Option Operation
  | .performed operation => some operation
  | .reopened => none

/-- The stores that some events lead to from empty files, if only allowed operations are
carried out and everything is reported done. -/
inductive Run {σ : Type} (setup : Setup σ) (allowed : Store σ → Operation → Prop) :
    List Event → Store σ → Prop where
  | start {volume : Volume} {store : Store σ}
      (hdone : setup.open (.empty setup.useSnapshot) = (volume, .ok store)) :
      Run setup allowed [] store
  | perform {events : List Event} {store next : Store σ} {operation : Operation}
      (before : Run setup allowed events store) (hallowed : allowed store operation)
      (hdone : operation.perform setup.machine store = (next, .ok ())) :
      Run setup allowed (events ++ [.performed operation]) next
  | reopen {events : List Event} {store next : Store σ} {volume : Volume}
      (before : Run setup allowed events store)
      (hdone : setup.open store.volume = (volume, .ok next)) :
      Run setup allowed (events ++ [.reopened]) next

end Quorum
