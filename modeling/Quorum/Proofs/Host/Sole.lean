import Quorum.Proofs.Disk.Volume
import Quorum.Proofs.Host.Steps
import Quorum.Proofs.Node.Served
import Quorum.Proofs.Node.Sole

/-! # Groups of one peer

The only peer of a group founds it when its node is first started, and is in charge of it
from then on. It takes commands one after the other, and may be stopped and started again on
the same files. Its submitters are told what a memory makes of their commands in turn, and
its state machine remembers what that memory does.
-/

namespace Quorum

namespace Roster

variable {roster : Roster} {peer : Peer}

theorem numberOf_sole (h : roster.peers = [peer]) : roster.numberOf peer = .ok 1 := by
  simp [numberOf, number?, h, List.idxOf?, List.findIdx?_cons]

theorem membership_sole (h : roster.peers = [peer]) : roster.membership.Sole 1 := by
  have hmembership : roster.membership = .ofLists [[1]] [(1, peer.endpoint)] := by
    simp [membership, members, h]
  rw [hmembership]
  exact ⟨rfl, rfl, rfl⟩

end Roster

/-- What the store of a node is opened with. -/
def NodeSettings.setup {σ : Type} (settings : NodeSettings) (machine : StateMachine σ) (fresh : σ) :
    Setup σ where
  machine := machine
  fresh := fresh
  group := settings.group
  logPath := settings.layout.logPath
  useSnapshot := settings.options.useSnapshot

theorem NodeSettings.isSome_snapshotDirectory (settings : NodeSettings) :
    settings.layout.snapshotDirectory.isSome = settings.options.useSnapshot := by
  cases h : settings.options.useSnapshot <;> simp [NodeSettings.layout, Layout.ofRoot, h]

namespace Host

variable {σ α : Type} {host : Host σ} {number : Nat} {node after : Node σ}

/-- Whether a host has a node under a number, with its files on the disk. -/
structure Serves (host : Host σ) (number : Nat) (node : Node σ) : Prop where
  found : host.nodes[number]? = some node
  files : node.layout.volume host.disk = node.replica.store.volume
  usable : node.replica.store.volume.Usable
  snapshotFile :
    node.replica.store.volume.snapshot.isSome = node.layout.snapshotDirectory.isSome

namespace Serves

theorem load (h : host.Serves number node) : node.load host.disk = node := by
  rw [Node.load, h.files]

/-- What is done at a node is done with its files as they are on the disk. -/
theorem visit (h : host.Serves number node) (act : Node σ → Node σ × α) {value : α}
    (hact : act node = (after, value)) (hlayout : after.layout = node.layout)
    (husable : after.replica.store.volume.Usable)
    (hsnapshot :
      after.replica.store.volume.snapshot.isSome = node.layout.snapshotDirectory.isSome) :
    (host.visit number act).2 = some value ∧ (host.visit number act).1.Serves number after := by
  have hfiles : after.layout.volume (after.save host.disk) = after.replica.store.volume := by
    rw [Node.save, hlayout]
    refine Layout.volume_putVolume ?_ husable hsnapshot
    rw [h.files]
    exact h.usable
  have hvisit : host.visit number act =
      ({ host with disk := after.save host.disk, nodes := host.nodes.set number after },
        some value) := by
    rw [Host.visit, h.found]
    simp only [h.load, hact]
  rw [hvisit]
  refine ⟨rfl, ?_, hfiles, husable, hlayout ▸ hsnapshot⟩
  exact List.getElem?_set_self (List.getElem?_eq_some_iff.mp h.found).1

/-- A node that was stopped leaves its files as they were. -/
theorem stop (h : host.Serves number node) :
    node.layout.volume (host.stop number).disk = node.replica.store.volume := by
  have hforgotten : (host.unregister node.group).Serves number node :=
    ⟨h.found, h.files, h.usable, h.snapshotFile⟩
  have hstopped : ((host.unregister node.group).halt number).Serves number node.stop :=
    (hforgotten.visit (fun node => (node.stop, ())) rfl rfl h.usable h.snapshotFile).2
  rw [Host.stop, h.found]
  exact hstopped.files

end Serves
end Host

/-! ## Starts -/

namespace HostStep

variable {σ : Type} {machine : StateMachine σ} {host after : Host σ} {settings : NodeSettings}
  {peer : Peer} {roster : Roster} {state : σ} {number : Nat} {volume : Volume} {store : Store σ}

/-- The node that a start makes of a replica. -/
def started (settings : NodeSettings) (peer : Peer) (roster : Roster) (replica : Replica σ) :
    Node σ where
  group := settings.group
  peer := peer
  roster := roster
  layout := settings.layout
  forwardTimeout := settings.options.forwardTimeout
  replica := replica

theorem makeDirectories_run {layout : Layout} {made : Disk} {result : Except Failure Unit}
    (h : layout.createDirectories host.disk = (made, result)) :
    (makeDirectories layout).run host = (result.mapError .failed, { host with disk := made }) := by
  simp only [makeDirectories, ExceptT.run_mk]
  rw [h]

theorem openStore_run {disk : Disk} {result : Except Failure (Store σ)}
    (h : (settings.setup machine state).open (settings.layout.volume disk) = (volume, result)) :
    (openStore machine settings.group settings.layout state).run { host with disk } =
      (result.mapError .failed, { host with disk := settings.layout.putVolume disk volume }) := by
  simp only [Setup.open, NodeSettings.setup] at h
  simp only [openStore, ExceptT.run_mk]
  rw [h]

theorem made_of_run {layout : Layout} {value : Unit}
    (h : (makeDirectories layout).run host = (.ok value, after)) :
    ∃ made, layout.createDirectories host.disk = (made, .ok ()) ∧
      after = { host with disk := made } := by
  rcases hmade : layout.createDirectories host.disk with ⟨made, result⟩
  rw [makeDirectories_run hmade, Prod.mk.injEq, mapError_eq_ok] at h
  exact ⟨made, Prod.ext rfl h.1, h.2.symm⟩

theorem opened_of_run {disk : Disk}
    (h : (openStore machine settings.group settings.layout state).run { host with disk } =
      (.ok store, after)) :
    ∃ opened, (settings.setup machine state).open (settings.layout.volume disk) =
        (opened, .ok store) ∧
      after = { host with disk := settings.layout.putVolume disk opened } := by
  rcases hopened : (settings.setup machine state).open (settings.layout.volume disk) with
    ⟨opened, result⟩
  rw [openStore_run hopened, Prod.mk.injEq, mapError_eq_ok] at h
  exact ⟨opened, Prod.ext rfl h.1, h.2.symm⟩

/-- When a start succeeds, the directories could be made and the store be opened. -/
theorem opened_of_start (hread : settings.read = .ok (peer, roster))
    (h : (start machine settings state).run host = (.ok number, after)) :
    settings.options.check = .ok () ∧
    ∃ made, settings.layout.createDirectories host.disk = (made, .ok ()) ∧
      ∃ volume store, (settings.setup machine state).open (settings.layout.volume made) =
        (volume, .ok store) := by
  obtain ⟨⟨_, _⟩, _, hsettings, h⟩ := bind_run_eq_ok.mp h
  obtain ⟨hsettings, rfl⟩ := lift_run_eq_ok.mp hsettings
  rw [hread] at hsettings
  cases hsettings
  simp only [bind_run_eq_ok, lift_run_eq_ok, reword_run_eq_ok] at h
  obtain ⟨_, _, ⟨-, rfl⟩, _, made, hmake, store, opened, hopen, resumed, middle, hresume, -⟩ := h
  obtain ⟨peerNumber, _, hown, hresume⟩ := bind_run_eq_ok.mp hresume
  obtain ⟨-, rfl⟩ := lift_run_eq_ok.mp hown
  obtain ⟨_, _, hoptions, -⟩ := bind_run_eq_ok.mp hresume
  obtain ⟨hoptions, -⟩ := liftM_run_eq_ok.mp hoptions
  obtain ⟨disk, hmade, rfl⟩ := made_of_run hmake
  obtain ⟨volume, hopened, -⟩ := opened_of_run hopen
  refine ⟨?options, disk, hmade, volume, store, hopened⟩
  case options =>
    cases hcheck : settings.options.check with
    | ok value => rfl
    | error halt =>
        rw [hcheck] at hoptions
        cases hoptions

theorem resume_run {own : UInt64} {resumed : Replica σ} (hown : roster.numberOf peer = .ok own)
    (hoptions : settings.options.check = .ok ())
    (hresume : (Step.resume machine).run { number := own, store } = (.ok (), resumed))
    (husable : (settings.layout.volume host.disk).Usable)
    (hresumed : resumed.store.volume.Usable)
    (hsnapshot : resumed.store.volume.snapshot.isSome = settings.layout.snapshotDirectory.isSome) :
    ∃ after, (resume machine settings peer roster store).run host =
        (.ok host.nodes.length, after) ∧
      after.Serves host.nodes.length (started settings peer roster resumed) := by
  let node := started settings peer roster resumed
  have hrun : (resume machine settings peer roster store).run host =
      (.ok host.nodes.length, { host with
        disk := node.save host.disk
        nodes := host.nodes ++ [node]
        replicas := host.replicas.insert settings.group host.nodes.length }) := by
    rw [resume, run_bind, hown, run_lift_ok]
    simp only
    rw [run_bind, hoptions]
    simp only [Step.perform, hresume]
    rfl
  exact ⟨_, hrun, by simp [node],
    Layout.volume_putVolume husable hresumed hsnapshot, hresumed, hsnapshot⟩

/-- A node at which the founding of its group is done goes on to serve. -/
theorem found_run {resumed founded : Replica σ}
    (h : host.Serves number (started settings peer roster resumed))
    (hfound : (Step.found machine roster.membership).run resumed = (.ok (), founded))
    (hfounded : founded.store.volume.Usable)
    (hsnapshot : founded.store.volume.snapshot.isSome = settings.layout.snapshotDirectory.isSome) :
    ∃ after, (found machine number).run host = (.ok (), after) ∧
      after.Serves number (started settings peer roster founded) := by
  let act : Node σ → Node σ × Except (Halt Failure) Unit := fun node =>
    let done := (Step.found machine node.roster.membership).perform node.replica
    ({ node with replica := done.1 }, done.2.mapError (Halt.map fun error => Failure.initialization
      ("Failed to initialize group " ++ node.group.name ++ ": " ++ error.message)))
  have hact : act (started settings peer roster resumed) =
      (started settings peer roster founded, .ok ()) := by
    simp only [act, started, Step.perform, hfound]
    rfl
  obtain ⟨hvalue, hserves⟩ := h.visit act hact rfl hfounded hsnapshot
  refine ⟨(host.visit number act).1, ?_, hserves⟩
  change ((host.visit number act).2.getD (.ok ()), (host.visit number act).1) = _
  rw [hvalue]
  rfl

/-- When the directories can be made and the store be opened, and the replica resumes on what
was opened and founds its group or is in it, a start succeeds. -/
theorem start_run {own : UInt64} {made : Disk} {resumed founded : Replica σ}
    (hread : settings.read = .ok (peer, roster)) (hown : roster.numberOf peer = .ok own)
    (hoptions : settings.options.check = .ok ())
    (hmake : settings.layout.createDirectories host.disk = (made, .ok ()))
    (hopen : (settings.setup machine state).open (settings.layout.volume made) =
      (settings.layout.volume made, .ok store))
    (husable : (settings.layout.volume made).Usable)
    (hresume : (Step.resume machine).run { number := own, store } = (.ok (), resumed))
    (hresumed : resumed.store.volume = settings.layout.volume made)
    (hfound : (Step.found machine roster.membership).run resumed = (.ok (), founded))
    (hfounded : founded.store.volume.Usable)
    (hsnapshot : founded.store.volume.snapshot.isSome = settings.layout.snapshotDirectory.isSome) :
    ∃ after, (start machine settings state).run host = (.ok host.nodes.length, after) ∧
      after.Serves host.nodes.length (started settings peer roster founded) := by
  have hplace : (settings.layout.volume made).snapshot.isSome =
      settings.layout.snapshotDirectory.isSome := Option.isSome_map
  let opened : Host σ :=
    { host with disk := settings.layout.putVolume made (settings.layout.volume made) }
  have hkept : settings.layout.volume opened.disk = settings.layout.volume made :=
    Layout.volume_putVolume husable husable hplace
  have hmakeRun : (makeDirectories settings.layout).run host =
      (.ok (), { host with disk := made }) := by
    exact makeDirectories_run hmake
  have hopenRun : (openStore machine settings.group settings.layout state).run
      { host with disk := made } = (.ok store, opened) := by
    exact openStore_run hopen
  obtain ⟨middle, hresumeRun, hserves⟩ :
      ∃ middle, (resume machine settings peer roster store).run opened =
          (.ok host.nodes.length, middle) ∧
        middle.Serves host.nodes.length (started settings peer roster resumed) := by
    refine resume_run hown hoptions hresume ?_ ?_ ?_
    · rw [hkept]
      exact husable
    · rw [hresumed]
      exact husable
    · rw [hresumed]
      exact hplace
  obtain ⟨after, hfoundRun, hserves⟩ := found_run hserves hfound hfounded hsnapshot
  let registered := ((register settings.group host.nodes.length : HostStep σ Unit).run after).2
  refine ⟨registered, ?run, hserves.found, hserves.files, hserves.usable, hserves.snapshotFile⟩
  case run =>
    rw [start, run_bind, hread, run_lift_ok]
    simp only
    rw [run_bind, hown, run_lift_ok]
    simp only
    rw [run_bind, hmakeRun]
    simp only
    rw [run_bind, run_reword, hopenRun]
    simp only [Except.mapError]
    rw [run_bind, hresumeRun]
    simp only
    rw [run_bind, run_undoneBy, hfoundRun]
    rfl

end HostStep

/-! ## Runs -/

/-- What may happen to the node of a group's only peer. -/
inductive SoleEvent where
  | submitted (command : Command)
  /-- The replica did something of its own. -/
  | kept (duty : Upkeep)
  /-- The node was stopped, and was started again on its files. -/
  | restarted
  deriving DecidableEq, Repr

namespace SoleEvent

def command? : SoleEvent → Option Command
  | .submitted command => some command
  | .kept _ | .restarted => none

/-- The commands in the order in which they were submitted. -/
def commands (events : List SoleEvent) : List Command :=
  events.filterMap command?

/-- The payloads of the entries that are written. -/
def payloads : SoleEvent → List Payload
  | .submitted command => [.normal command.toEntry]
  | .kept duty => duty.payloads
  | .restarted => []

/-- The payloads of all entries that are written, those of the founding first. -/
def written (roster : Roster) (events : List SoleEvent) : List Payload :=
  [.membership roster.membership, .blank] ++ events.flatMap payloads

variable {events : List SoleEvent} {event : SoleEvent}

theorem length_lt {bound : Nat} (h : (events ++ [event]).length + 2 < bound) :
    events.length + 2 < bound := by
  rw [List.length_append] at h
  exact Nat.lt_of_succ_lt h

theorem commands_concat :
    commands (events ++ [event]) = commands events ++ event.command?.toList := by
  cases h : event.command? <;> simp [commands, h]

/-- The log holds no other payloads if it held no others before and nothing else was added. -/
theorem stored_concat {roster : Roster} {before after : Store Memory}
    (h : ∀ entry ∈ before.log.entries, entry.payload ∈ written roster events)
    (hextends : before.Extends after event.payloads) :
    ∀ entry ∈ after.log.entries, entry.payload ∈ written roster (events ++ [event]) := by
  intro entry hentry
  have hwritten : written roster (events ++ [event]) = written roster events ++ event.payloads := by
    simp [written]
  rw [hwritten, List.mem_append]
  exact (hextends entry hentry).imp_left (h entry)

end SoleEvent

/-- The hosts, each with the number of its node, that some events lead to from empty
directories, and what the submitters were told. The state machine is a fresh memory at every
start. No entry is too long for any memory. -/
inductive SoleRun (settings : NodeSettings) (roster : Roster)
    (reach : Peer → CommandRequest → Reply) :
    List SoleEvent → List (Option Outcome) → Host Memory → Nat → Prop where
  | start {host after : Host Memory} {number : Nat}
      (hempty : settings.layout.volume (settings.layout.createDirectories host.disk).1 =
        .empty settings.options.useSnapshot)
      (hfits : (Payload.membership roster.membership).Fits)
      (hdone : (HostStep.start Memory.machine settings {}).run host = (.ok number, after)) :
      SoleRun settings roster reach [] [] after number
  | submit {events : List SoleEvent} {told : List (Option Outcome)} {host after : Host Memory}
      {number : Nat} {command : Command} {returned : Option (Except Failure Unit)}
      {outcome : Option Outcome} (before : SoleRun settings roster reach events told host number)
      (hfits : (Payload.normal command.toEntry).Fits)
      (hdone : host.visit number (fun node => node.submit Memory.machine reach command) =
        (after, some (returned, outcome))) :
      SoleRun settings roster reach (events ++ [.submitted command]) (told ++ [outcome]) after
        number
  | keep {events : List SoleEvent} {told : List (Option Outcome)} {host after : Host Memory}
      {number : Nat} {node : Node Memory} {duty : Upkeep}
      {result : Except (Halt StorageError) Unit}
      (before : SoleRun settings roster reach events told host number)
      (hnode : host.nodes[number]? = some node)
      (hallowed : duty.Allowed (settings.setup Memory.machine {}) node.replica)
      (hdone : host.visit number (fun node => node.upkeep Memory.machine duty) =
        (after, some result)) :
      SoleRun settings roster reach (events ++ [.kept duty]) told after number
  | restart {events : List SoleEvent} {told : List (Option Outcome)} {host next after : Host Memory}
      {number started : Nat} (before : SoleRun settings roster reach events told host number)
      (hdisk : next.disk = (host.stop number).disk)
      (hdone : (HostStep.start Memory.machine settings {}).run next = (.ok started, after)) :
      SoleRun settings roster reach (events ++ [.restarted]) told after started

namespace SoleRun

variable {settings : NodeSettings} {peer : Peer} {roster : Roster}
  {reach : Peer → CommandRequest → Reply} {events : List SoleEvent} {told : List (Option Outcome)}
  {host : Host Memory} {number : Nat} {node : Node Memory} {term : UInt64} {last : LogId}

/-- What a node is after some events: it is in charge, its log holds no entries but those of
the founding and of the events, and it is an engine that the commands lead to. -/
structure Sound (settings : NodeSettings) (roster : Roster) (events : List SoleEvent)
    (told : List (Option Outcome)) (node : Node Memory) (term : UInt64) (last : LogId) : Prop where
  options : settings.options.check = .ok ()
  layout : node.layout = settings.layout
  peers : node.roster = roster
  number : node.replica.number = 1
  leads : node.Leads (settings.setup Memory.machine {}) term last
  term_le : term.toNat ≤ events.length + 1
  index_le : last.index.toNat ≤ events.length + 1
  stored : ∀ entry ∈ node.replica.store.log.entries,
    entry.payload ∈ SoleEvent.written roster events
  engine : node.IsEngine (settings.setup Memory.machine {}) (SoleEvent.commands events) told

namespace Sound

theorem submit (h : Sound settings roster events told node term last)
    (reach : Peer → CommandRequest → Reply) (hindex : last.index.toNat + 1 < UInt64.size)
    {command : Command} (hfits : (Payload.normal command.toEntry).Fits) :
    ∃ after outcome, node.submit Memory.machine reach command =
        (after, some (.ok ()), some outcome) ∧
      Sound settings roster (events ++ [.submitted command]) (told ++ [some outcome]) after term
        (last.successor term node.replica.number) := by
  obtain ⟨hsubmit, hextends, hleads⟩ := h.leads.submit reach hindex hfits
  refine ⟨_, _, hsubmit, h.options, h.layout, h.peers, h.number, hleads, ?term, ?index,
    SoleEvent.stored_concat h.stored hextends, ?engine⟩
  case term => exact Nat.le_trans h.term_le (by simp)
  case index =>
    rw [toNat_succ hindex, List.length_append]
    exact Nat.succ_le_succ h.index_le
  case engine =>
    rw [SoleEvent.commands_concat]
    exact h.engine.submit ⟨rfl, rfl⟩ h.leads hindex hfits

theorem keep (h : Sound settings roster events told node term last)
    (hindex : last.index.toNat + 1 < UInt64.size) (hterm : term.toNat + 1 < UInt64.size)
    {duty : Upkeep} (hallowed : duty.Allowed (settings.setup Memory.machine {}) node.replica) :
    ∃ after nextTerm next, node.upkeep Memory.machine duty = (after, .ok ()) ∧
      Sound settings roster (events ++ [.kept duty]) told after nextTerm next := by
  obtain ⟨store, nextTerm, next, hupkeep, htended, hextends, hleads, honward⟩ :=
    h.leads.upkeep Memory.faithful hindex hterm hallowed
  refine ⟨_, nextTerm, next, hupkeep, h.options, h.layout, h.peers, h.number, hleads, ?term,
    ?index, SoleEvent.stored_concat h.stored hextends, ?engine⟩
  case term =>
    rw [List.length_append]
    exact Nat.le_trans honward.term (Nat.succ_le_succ h.term_le)
  case index =>
    rw [List.length_append]
    exact Nat.le_trans honward.index (Nat.succ_le_succ h.index_le)
  case engine =>
    rw [SoleEvent.commands_concat, SoleEvent.command?, Option.toList_none, List.append_nil]
    exact h.engine.upkeep htended

theorem snapshotFile (h : Sound settings roster events told node term last) :
    node.replica.store.volume.snapshot.isSome = settings.layout.snapshotDirectory.isSome :=
  h.leads.replica.settled.snapshotFile.trans settings.isSome_snapshotDirectory.symm

theorem indexes (h : Sound settings roster events told node term last)
    (hcount : events.length + 2 < UInt64.size) :
    last.index.toNat + 1 < UInt64.size ∧ term.toNat + 1 < UInt64.size :=
  ⟨Nat.lt_of_le_of_lt (Nat.succ_le_succ h.index_le) hcount,
    Nat.lt_of_le_of_lt (Nat.succ_le_succ h.term_le) hcount⟩

/-- What leads from one sound node to another leaves the other one serving. -/
theorem visit {α : Type} {more : List SoleEvent} {allTold : List (Option Outcome)}
    {after : Node Memory} {nextTerm : UInt64} {next : LogId} {value : α} {afterHost : Host Memory}
    {returned : Option α} (h : Sound settings roster events told node term last)
    (hnext : Sound settings roster more allTold after nextTerm next)
    (hserves : host.Serves number node) (act : Node Memory → Node Memory × α)
    (hact : act node = (after, value)) (hdone : host.visit number act = (afterHost, returned)) :
    returned = some value ∧ afterHost.Serves number after := by
  have hlayout : after.layout = node.layout := hnext.layout.trans h.layout.symm
  have hvisit := hserves.visit act hact hlayout hnext.leads.replica.settled.usable
    (h.layout ▸ hnext.snapshotFile)
  rw [hdone] at hvisit
  exact hvisit

theorem files_of_stopped (h : Sound settings roster events told node term last)
    (hserves : host.Serves number node) {next : Host Memory}
    (hdisk : next.disk = (host.stop number).disk) :
    settings.layout.volume next.disk = node.replica.store.volume := by
  rw [hdisk, ← h.layout]
  exact hserves.stop

/-- A node whose files can be opened again goes on where it was. -/
theorem restart (h : Sound settings roster events told node term last)
    (hread : settings.read = .ok (peer, roster)) (hsole : roster.peers = [peer])
    (hindex : last.index.toNat + 1 < UInt64.size) {next : Host Memory}
    (hfiles : settings.layout.volume next.disk = node.replica.store.volume) {store : Store Memory}
    (hopen : (settings.setup Memory.machine {}).open node.replica.store.volume =
      (node.replica.store.volume, .ok store)) :
    ∃ after node, (HostStep.start Memory.machine settings {}).run next =
        (.ok next.nodes.length, after) ∧
      after.Serves next.nodes.length node ∧
      Sound settings roster (events ++ [.restarted]) told node term last := by
  have hsettled := h.leads.replica.settled
  rw [h.number] at hsettled
  let resumed : Replica Memory :=
    { number := 1, store := node.replica.store.recounted, role := .leader }
  have hleads : Step.Leads (settings.setup Memory.machine {}) term last resumed :=
    ⟨rfl, hsettled.recounted⟩
  have hresume : (Step.resume Memory.machine).run { number := 1, store } = (.ok (), resumed) :=
    Step.resume_of_settled hsettled hindex hopen
  have husable : (settings.layout.volume next.disk).Usable := hfiles ▸ hsettled.usable
  obtain ⟨after, hstart, hserves⟩ := HostStep.start_run hread (Roster.numberOf_sole hsole) h.options
    (Layout.createDirectories_of_usable husable) (hfiles ▸ hopen) husable hresume hfiles.symm
    (hleads.found roster.membership) hsettled.usable h.snapshotFile
  refine ⟨after, _, hstart, hserves, h.options, rfl, rfl, rfl, ⟨hleads, ApplyQueue.idle_first⟩,
    ?term, ?index, ?stored, ?engine⟩
  case term => exact Nat.le_trans h.term_le (by simp)
  case index => exact Nat.le_trans h.index_le (by simp)
  case stored => exact SoleEvent.stored_concat h.stored fun _ hentry => .inl hentry
  case engine =>
    rw [SoleEvent.commands_concat, SoleEvent.command?, Option.toList_none, List.append_nil]
    exact h.engine.restart h.leads hopen h.peers.symm rfl rfl

end Sound

/-- The first start of a node founds its group. -/
theorem founded (hread : settings.read = .ok (peer, roster)) (hsole : roster.peers = [peer])
    (hoptions : settings.options.check = .ok ()) {made : Disk}
    (hmake : settings.layout.createDirectories host.disk = (made, .ok ()))
    (hempty : settings.layout.volume made = .empty settings.options.useSnapshot)
    (hfits : (Payload.membership roster.membership).Fits) :
    ∃ after node, (HostStep.start Memory.machine settings {}).run host =
        (.ok host.nodes.length, after) ∧
      after.Serves host.nodes.length node ∧ Sound settings roster [] [] node 1 ⟨1, 1, 1⟩ := by
  let setup := settings.setup Memory.machine {}
  obtain ⟨store, hfound, htended, hextends, hleads⟩ :=
    @Step.found_first _ setup 1 _ (Roster.membership_sole hsole) hfits
  have hfirst := Store.filed_first setup
  have hvolume : settings.layout.volume made = setup.first.volume := hempty
  have hopen : setup.open (settings.layout.volume made) =
      (settings.layout.volume made, .ok setup.first) := by
    rw [hempty]
    exact setup.open_empty
  obtain ⟨after, hstart, hserves⟩ := HostStep.start_run hread (Roster.numberOf_sole hsole) hoptions
    hmake hopen (hvolume ▸ hfirst.usable) (Step.resume_first setup 1) hvolume.symm hfound
    hleads.settled.usable
    (hleads.settled.snapshotFile.trans settings.isSome_snapshotDirectory.symm)
  refine ⟨after, _, hstart, hserves, hoptions, rfl, rfl, rfl, ⟨hleads, ApplyQueue.idle_first⟩,
    ?term, ?index, ?stored, ?engine⟩
  case term => decide
  case index => decide
  case stored =>
    intro entry hentry
    rcases hextends entry hentry with hbefore | hnew
    · cases hbefore
    · exact List.mem_append_left _ hnew
  case engine =>
    have hfirst : Engine.Run setup roster [] { store := setup.first } := .start setup.open_empty
    exact hfirst.tended htended

/-- After every run the node of the group's only peer serves. -/
theorem sound (hread : settings.read = .ok (peer, roster)) (hsole : roster.peers = [peer])
    (run : SoleRun settings roster reach events told host number)
    (hcount : events.length + 2 < UInt64.size) :
    ∃ node term last, host.Serves number node ∧
      Sound settings roster events told node term last := by
  induction run with
  | start hempty hfits hdone =>
      obtain ⟨hoptions, made, hmake, -⟩ := HostStep.opened_of_start hread hdone
      rw [hmake] at hempty
      obtain ⟨after, node, hstart, hserves, hsound⟩ :=
        founded hread hsole hoptions hmake hempty hfits
      cases hdone.symm.trans hstart
      exact ⟨node, 1, _, hserves, hsound⟩
  | submit before hfits hdone ih =>
      have hbefore := SoleEvent.length_lt hcount
      obtain ⟨node, term, last, hserves, hsound⟩ := ih hbefore
      obtain ⟨after, outcome, hsubmit, hnext⟩ :=
        hsound.submit reach (hsound.indexes hbefore).1 hfits
      obtain ⟨hreturned, hafter⟩ := hsound.visit hnext hserves _ hsubmit hdone
      cases hreturned
      exact ⟨after, term, _, hafter, hnext⟩
  | keep before hnode hallowed hdone ih =>
      have hbefore := SoleEvent.length_lt hcount
      obtain ⟨node, term, last, hserves, hsound⟩ := ih hbefore
      cases hnode.symm.trans hserves.found
      obtain ⟨hindex, hterm⟩ := hsound.indexes hbefore
      obtain ⟨after, nextTerm, next, hkept, hnext⟩ := hsound.keep hindex hterm hallowed
      obtain ⟨-, hafter⟩ := hsound.visit hnext hserves _ hkept hdone
      exact ⟨after, nextTerm, next, hafter, hnext⟩
  | restart before hdisk hdone ih =>
      have hbefore := SoleEvent.length_lt hcount
      obtain ⟨node, term, last, hserves, hsound⟩ := ih hbefore
      have hfiles := hsound.files_of_stopped hserves hdisk
      have hsettled := hsound.leads.replica.settled
      obtain ⟨-, made, hmake, volume, store, hopen⟩ := HostStep.opened_of_start hread hdone
      rw [Layout.createDirectories_of_usable (hfiles ▸ hsettled.usable)] at hmake
      cases hmake
      rw [hfiles] at hopen
      obtain ⟨rfl, -⟩ := hsettled.toFiled.reopened hopen
      obtain ⟨after, node, hstart, hafter, hnext⟩ :=
        hsound.restart hread hsole (hsound.indexes hbefore).1 hfiles hopen
      cases hdone.symm.trans hstart
      exact ⟨node, term, last, hafter, hnext⟩

/-- A node goes on with every command that is submitted. -/
theorem exists_submit (hread : settings.read = .ok (peer, roster)) (hsole : roster.peers = [peer])
    (run : SoleRun settings roster reach events told host number)
    (hcount : events.length + 2 < UInt64.size) (command : Command)
    (hfits : (Payload.normal command.toEntry).Fits) :
    ∃ outcome after, SoleRun settings roster reach (events ++ [.submitted command])
      (told ++ [some outcome]) after number := by
  obtain ⟨node, term, last, hserves, hsound⟩ := run.sound hread hsole hcount
  obtain ⟨after, outcome, hsubmit, hnext⟩ := hsound.submit reach (hsound.indexes hcount).1 hfits
  have hreturned := (hsound.visit hnext hserves
    (fun node => node.submit Memory.machine reach command) hsubmit rfl).1
  exact ⟨outcome, _, .submit run hfits (Prod.ext rfl hreturned)⟩

/-- A node goes on with all upkeep that is allowed. -/
theorem exists_keep (hread : settings.read = .ok (peer, roster)) (hsole : roster.peers = [peer])
    (run : SoleRun settings roster reach events told host number)
    (hcount : events.length + 2 < UInt64.size) (duty : Upkeep)
    (hallowed : ∀ node, host.nodes[number]? = some node →
      duty.Allowed (settings.setup Memory.machine {}) node.replica) :
    ∃ after, SoleRun settings roster reach (events ++ [.kept duty]) told after number := by
  obtain ⟨node, term, last, hserves, hsound⟩ := run.sound hread hsole hcount
  have hduty := hallowed node hserves.found
  obtain ⟨hindex, hterm⟩ := hsound.indexes hcount
  obtain ⟨after, nextTerm, next, hkept, hnext⟩ := hsound.keep hindex hterm hduty
  have hreturned := (hsound.visit hnext hserves
    (fun node => node.upkeep Memory.machine duty) hkept rfl).1
  exact ⟨_, .keep run hserves.found hduty (Prod.ext rfl hreturned)⟩

/-- A node that wrote no entry that is too long can be started again. -/
theorem exists_restart (hread : settings.read = .ok (peer, roster)) (hsole : roster.peers = [peer])
    (run : SoleRun settings roster reach events told host number)
    (hcount : events.length + 2 < UInt64.size)
    (hshort : ∀ payload ∈ SoleEvent.written roster events, payload.IsShort) {next : Host Memory}
    (hdisk : next.disk = (host.stop number).disk) :
    ∃ started after, (HostStep.start Memory.machine settings {}).run next =
      (.ok started, after) := by
  obtain ⟨node, term, last, hserves, hsound⟩ := run.sound hread hsole hcount
  obtain ⟨store, hopen⟩ := hsound.leads.replica.settled.toFiled.opens fun entry hentry =>
    (hshort _ (hsound.stored entry hentry)).entry entry.id
  obtain ⟨after, -, hstart, -⟩ := hsound.restart hread hsole (hsound.indexes hcount).1
    (hsound.files_of_stopped hserves hdisk) hopen
  exact ⟨next.nodes.length, after, hstart⟩

end SoleRun

/-- At the only peer of a group the submitters are told what a memory makes of their commands one
after the other, and its state machine remembers what that memory does. This is so for every
engine that gives each write the next index, applies the entries in order and tells each write
its own result, however many writes are in flight, and such an engine can always come to the end
of its work. The node is one, and takes each command all the way at once. If no entry is too long
for its record, it can be started again at any time. -/
theorem sole_peer_in_sequence {settings : NodeSettings} {peer : Peer} {roster : Roster}
    (hread : settings.read = .ok (peer, roster)) (hsole : roster.peers = [peer]) :
    let setup := settings.setup Memory.machine {}
    (∀ commands engine, Engine.Run setup roster commands engine →
      (∀ numbered : List Memory.Numbered, numbered.map (·.command) = commands →
        Memory.Rising numbered → engine.Follows numbered) ∧
      (LogId.behind engine.store.lastLogId + commands.length < UInt64.size →
        (∀ command ∈ commands, (Payload.normal command.toEntry).Fits) →
        ∃ after, Engine.Run setup roster commands after ∧ after.Idle ∧ after.CaughtUp) ∧
      ((∀ entry ∈ engine.store.log.entries, entry.payload.IsShort) →
        ∃ store, setup.open engine.store.volume = (engine.store.volume, .ok store))) ∧
    ∀ reach events told host number, SoleRun settings roster reach events told host number →
      events.length + 2 < UInt64.size →
      (∃ node engine, host.nodes[number]? = some node ∧
        Engine.Run setup roster (SoleEvent.commands events) engine ∧
        engine.store = node.replica.store ∧ engine.queue = node.queue ∧ engine.told = told) ∧
      (∀ numbered : List Memory.Numbered,
        numbered.map (·.command) = SoleEvent.commands events → Memory.Rising numbered →
        told = (Memory.applyAll {} numbered).2.map (fun result => some result.outcome) ∧
        ∃ node, host.nodes[number]? = some node ∧
          node.replica.store.state.commands = (Memory.applyAll {} numbered).1.commands ∧
          node.replica.store.state.counter = (Memory.applyAll {} numbered).1.counter) ∧
      ((∀ payload ∈ SoleEvent.written roster events, payload.IsShort) →
        ∀ next : Host Memory, next.disk = (host.stop number).disk →
          ∃ started after, (HostStep.start Memory.machine settings {}).run next =
            (.ok started, after)) := by
  intro setup
  have hmemory : setup.OfMemory := ⟨rfl, rfl⟩
  refine ⟨fun commands engine run => ⟨fun numbered hcommands hrising =>
    run.follows hmemory hcommands hrising, run.exists_idle hmemory, run.opens hmemory⟩, ?_⟩
  intro reach events told host number run hcount
  obtain ⟨node, term, last, hserves, hsound⟩ := run.sound hread hsole hcount
  obtain ⟨engine, hengine, hstore, hqueue, htold⟩ := hsound.engine
  rw [hsound.peers] at hengine
  refine ⟨⟨node, engine, hserves.found, hengine, hstore, hqueue, htold⟩, ?answers,
    fun hshort next hdisk => run.exists_restart hread hsole hcount hshort hdisk⟩
  case answers =>
    intro numbered hcommands hrising
    have hidle : engine.Idle :=
      ⟨hqueue ▸ hsound.leads.idle.queued, hqueue ▸ hsound.leads.idle.inFlight⟩
    have hcaught : engine.CaughtUp := by
      rw [Engine.CaughtUp, hstore]
      exact hsound.leads.replica.settled.after_lastApplied
    obtain ⟨hanswers, hstate⟩ := (hengine.follows hmemory hcommands hrising).idle hidle
    have halike := hstore ▸ hstate hcaught
    exact ⟨htold.symm.trans hanswers, node, hserves.found, halike.commands, halike.counter⟩

/-- Two increments are counted across a snapshot, an election and a restart, and also where both
are in flight at once. -/
theorem sole_peer_in_sequence_counts :
    let peer : Peer := ⟨"h", 1, 0⟩
    let roster : Roster := ⟨[peer], by decide, by decide⟩
    let settings : NodeSettings := ⟨⟨"db-s"⟩, "h:1", "h:1", "r", ⟨1000, 0, true, 1, 1, false, 0⟩⟩
    let setup := settings.setup Memory.machine {}
    let increment : Int64 → Command := fun n => ⟨.incrCounter, Memory.signedBytes n⟩
    let counted : List (Option Outcome) :=
      [some (.ok (Memory.signedBytes 1)), some (.ok (Memory.signedBytes 3))]
    let events : List SoleEvent :=
      [.kept .snapshot, .submitted (increment 1), .kept .elect, .restarted,
        .submitted (increment 2)]
    settings.read = .ok (peer, roster) ∧ roster.peers = [peer] ∧
    events.length + 2 < UInt64.size ∧
    (∃ told host number node, SoleRun settings roster Channel.unreached events told host number ∧
      told = counted ∧ host.nodes[number]? = some node ∧
      node.replica.store.state.counter = 3) ∧
    ∃ engine after, Engine.Run setup roster [increment 1, increment 2] engine ∧
      engine.queue.inFlight.length = 2 ∧
      Engine.Run setup roster [increment 1, increment 2] after ∧ after.told = counted ∧
      after.store.state.counter = 3 := by
  have hread : (NodeSettings.mk ⟨"db-s"⟩ "h:1" "h:1" "r" ⟨1000, 0, true, 1, 1, false, 0⟩).read =
    .ok (⟨"h", 1, 0⟩, ⟨[⟨"h", 1, 0⟩], by decide, by decide⟩) := by rfl
  intro peer roster settings setup increment counted events
  have hcount : events.length + 2 < UInt64.size := by decide
  let disk : Disk := ⟨[["r"], ["r", "log"], ["r", "log", "db-s"], ["r", "meta"],
    ["r", "meta", "db-s"], ["r", "snapshot"], ["r", "snapshot", "db-s"]].map (·, .directory)⟩
  have hempty : settings.layout.volume disk = .empty true := by decide
  have husable : (settings.layout.volume disk).Usable := by
    rw [hempty]
    exact (Store.filed_first (settings.setup Memory.machine {})).usable
  have hmake := Layout.createDirectories_of_usable husable
  let first := (HostStep.start Memory.machine settings {}).run { disk }
  have hfirst : first.1 = .ok 0 := by decide +kernel
  have hstart : (HostStep.start Memory.machine settings {}).run { disk } = (.ok 0, first.2) :=
    Prod.ext hfirst rfl
  have founded : SoleRun settings roster Channel.unreached [] [] first.2 0 :=
    .start (by rw [hmake]; exact hempty) (by decide) hstart
  have hsnapshot : (first.2.nodes[0]?.all fun node => decide (Snapshot.format.write
      (node.replica.store.nextSnapshot node.replica.store.state.snapshot)).Fits) = true := by
    decide +kernel
  obtain ⟨_, kept⟩ := founded.exists_keep hread rfl (by decide) .snapshot fun node hnode => by
    rw [hnode] at hsnapshot
    exact ⟨rfl, _, rfl, of_decide_eq_true hsnapshot⟩
  obtain ⟨_, _, one⟩ := kept.exists_submit hread rfl (by decide) (increment 1) (by decide +kernel)
  obtain ⟨elected, led⟩ := one.exists_keep hread rfl (by decide) .elect fun _ _ => trivial
  let stopped : Host Memory := { disk := (elected.stop 0).disk }
  have hdisk : stopped.disk = (elected.stop 0).disk := rfl
  obtain ⟨_, _, hrestart⟩ :=
    led.exists_restart hread rfl (by decide) (by decide +kernel) hdisk
  have again := led.restart hdisk hrestart
  obtain ⟨_, _, two⟩ := again.exists_submit hread rfl (by decide) (increment 2) (by decide +kernel)
  obtain ⟨hengines, hsole⟩ := sole_peer_in_sequence hread rfl
  obtain ⟨-, hsequence, -⟩ := hsole _ _ _ _ _ two hcount
  let numbered : List Memory.Numbered := [⟨1, 0, increment 1⟩, ⟨2, 0, increment 2⟩]
  have hrising : Memory.Rising numbered := by decide
  have hanswers : (Memory.applyAll {} numbered).2.map (fun result => some result.outcome) =
      counted := by decide +kernel
  have hthree : (Memory.applyAll {} numbered).1.counter = 3 := by decide +kernel
  obtain ⟨htold, node, hnode, -, hcounter⟩ := hsequence numbered rfl hrising
  have begun : Engine.Run setup roster [] { store := setup.first } :=
    .start (show setup.open (.empty true) = (.empty true, .ok setup.first) from rfl)
  have writing := (((begun.submit (increment 1)).submit (increment 2)).take rfl).take rfl
  obtain ⟨-, hends, -⟩ := hengines _ _ writing
  obtain ⟨after, ended, hidle, hcaught⟩ := hends (by decide) (by decide +kernel)
  obtain ⟨hafter, hstate⟩ := ((hengines _ _ ended).1 numbered rfl hrising).idle hidle
  exact ⟨hread, rfl, hcount, ⟨_, _, _, node, two, htold.trans hanswers, hnode,
    hcounter.trans hthree⟩, _, after, writing, rfl, ended, hafter.trans hanswers,
    (hstate hcaught).counter.trans hthree⟩

end Quorum
