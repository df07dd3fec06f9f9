import Quorum.Proofs.Host.Stores
import Quorum.Proofs.Replica.Lasting
import Quorum.StateMachine.Memory

/-! # Servers that start as a whole

A server starts the nodes of its stores one after the other. Each start leaves one of three
things behind: a node that runs and is registered, no node at all, or a node that was stopped
again and is not registered. When a start fails, the nodes before it are stopped in turn, each
of which takes its group out of both registries, and at last the server no longer listens.
-/

namespace Quorum

theorem Registry.find?_of_erase {registry : Registry Nat} {group other : GroupId} {number : Nat}
    (h : (registry.erase group).find? other = some number) :
    other ≠ group ∧ registry.find? other = some number := by
  rw [find?_erase] at h
  split at h
  next => cases h
  next hne => exact ⟨hne, h⟩

/-! ## Nodes that run and nodes that were stopped -/

namespace Node

variable {σ : Type} {node : Node σ}

/-- Whether a node runs, and nothing was handed to it yet. -/
structure IsUp (node : Node σ) : Prop where
  role : node.replica.role ≠ .shutdown
  queue : node.queue = {}

/-- Whether a node was stopped: its replica does nothing more, and no task is taken or begun. -/
structure IsDown (node : Node σ) : Prop where
  role : node.replica.role = .shutdown
  isOpen : node.queue.isOpen = false
  isRunning : node.queue.isRunning = false

theorem isDown_stop (h : node.queue = {}) : node.stop.IsDown := by
  have hqueue : node.stop.queue = { isOpen := false, isRunning := false } := by
    rw [stop, h]
    rfl
  exact ⟨rfl, by rw [hqueue], by rw [hqueue]⟩

end Node

namespace Host

variable {σ : Type} {host : Host σ} {number : Nat} {node : Node σ}

theorem halt_of_queue (host : Host σ) (hnode : host.nodes[number]? = some node)
    (hqueue : node.queue = {}) :
    ∃ (disk : Disk) (next : Node σ), next.IsDown ∧
      host.halt number = { host with disk, nodes := host.nodes.set number next } := by
  rw [halt, visit, hnode]
  exact ⟨_, _, Node.isDown_stop (show (node.load host.disk).queue = {} from hqueue), rfl⟩

theorem stop_of_queue (hnode : host.nodes[number]? = some node) (hqueue : node.queue = {}) :
    ∃ (disk : Disk) (next : Node σ), next.IsDown ∧
      host.stop number = ({ host.unregister node.group with
        disk, nodes := host.nodes.set number next } : Host σ).note (.stopped number) := by
  obtain ⟨disk, next, hdown, hhalt⟩ := (host.unregister node.group).halt_of_queue hnode hqueue
  refine ⟨disk, next, hdown, ?_⟩
  rw [stop, hnode]
  simp only [hhalt]
  rfl

/-! ## Stopping nodes in turn -/

/-- Whether some nodes are left to be stopped: the others were, and what is registered is
registered for the group of one of these. -/
structure Awaits (host : Host σ) (numbers : List Nat) : Prop where
  nodup : numbers.Nodup
  up : ∀ number ∈ numbers, ∃ node, host.nodes[number]? = some node ∧ node.queue = {}
  down : ∀ number node, host.nodes[number]? = some node → number ∉ numbers → node.IsDown
  registered : ∀ registry ∈ [host.replicas, host.routes], ∀ group number,
    registry.find? group = some number →
    ∃ other ∈ numbers, ∃ node, host.nodes[other]? = some node ∧ node.group = group

/-- Whether nothing runs and nothing is registered, and nobody is listened to. -/
structure Down (host : Host σ) : Prop where
  nodes : ∀ node ∈ host.nodes, node.IsDown
  replicas : ∀ group, host.replicas.find? group = none
  routes : ∀ group, host.routes.find? group = none
  silent : host.isServing = false

namespace Awaits

/-- A node that is stopped takes its group out of both registries, and is not stopped again. -/
theorem stop {rest : List Nat} (h : host.Awaits (number :: rest)) :
    (host.stop number).Awaits rest ∧
      (host.stop number).journal = host.journal ++ [.stopped number] := by
  obtain ⟨hnumber, hrest⟩ := List.nodup_cons.mp h.nodup
  obtain ⟨node, hnode, hqueue⟩ := h.up number List.mem_cons_self
  obtain ⟨disk, next, hdown, hstop⟩ := stop_of_queue hnode hqueue
  have hother {other : Nat} (hne : other ≠ number) :
      (host.nodes.set number next)[other]? = host.nodes[other]? :=
    List.getElem?_set_ne (Ne.symm hne)
  rw [hstop]
  refine ⟨⟨hrest, fun other hmem => ?_, fun other found hfound hmem => ?_, ?_⟩, rfl⟩
  · obtain ⟨found, hfound, hempty⟩ := h.up other (List.mem_cons_of_mem _ hmem)
    exact ⟨found, (hother (ne_of_mem_of_not_mem hmem hnumber)).trans hfound, hempty⟩
  · by_cases hsame : other = number
    · subst hsame
      have hset := List.getElem?_set_self (a := next) (List.getElem?_eq_some_iff.mp hnode).1
      obtain rfl := Option.some.inj (hset.symm.trans hfound)
      exact hdown
    · refine h.down other found ((hother hsame).symm.trans hfound) fun hin => ?_
      exact (List.mem_cons.mp hin).elim hsame hmem
  · intro registry hregistry group found hfound
    -- What is still registered was registered before, and for another group.
    obtain ⟨before, hbefore, rfl⟩ : ∃ before ∈ [host.replicas, host.routes],
        registry = before.erase node.group := by
      rcases List.mem_pair.mp hregistry with rfl | rfl
      · exact ⟨host.replicas, List.mem_cons_self, rfl⟩
      · exact ⟨host.routes, List.mem_cons_of_mem _ List.mem_cons_self, rfl⟩
    obtain ⟨hgroup, hkept⟩ := Registry.find?_of_erase hfound
    obtain ⟨other, hmem, holder, hholder, rfl⟩ := h.registered before hbefore _ _ hkept
    have hne : other ≠ number := by
      rintro rfl
      obtain rfl := Option.some.inj (hnode.symm.trans hholder)
      exact hgroup rfl
    exact ⟨other, (List.mem_cons.mp hmem).resolve_left hne, holder, (hother hne).trans hholder,
      rfl⟩

theorem stopAll {numbers : List Nat} (h : host.Awaits numbers) :
    (numbers.foldl Host.stop host).Awaits [] ∧
      (numbers.foldl Host.stop host).journal = host.journal ++ numbers.map .stopped := by
  induction numbers generalizing host with
  | nil => exact ⟨h, (List.append_nil _).symm⟩
  | cons number rest ih =>
      obtain ⟨hnext, hjournal⟩ := h.stop
      obtain ⟨hdone, hall⟩ := ih hnext
      refine ⟨hdone, hall.trans ?_⟩
      rw [hjournal, List.append_assoc]
      rfl

/-- Each of the nodes that were left is stopped once, and then nothing is left. -/
theorem shutdown {numbers : List Nat} (h : host.Awaits numbers) :
    (host.shutdown numbers).Down ∧
      (host.shutdown numbers).journal = host.journal ++ numbers.map .stopped ++ [.closed] := by
  obtain ⟨hdone, hjournal⟩ := h.stopAll
  have hnone : ∀ registry ∈ [(numbers.foldl Host.stop host).replicas,
      (numbers.foldl Host.stop host).routes], ∀ group, registry.find? group = none := by
    intro registry hregistry group
    rw [Option.eq_none_iff_forall_ne_some]
    intro number hfound
    obtain ⟨_, hmem, -⟩ := hdone.registered registry hregistry group number hfound
    cases hmem
  refine ⟨⟨fun node hnode => ?_, ?_, ?_, ?_⟩, ?_⟩
  · obtain ⟨number, hnumber⟩ := List.mem_iff_getElem?.mp hnode
    exact hdone.down number node hnumber List.not_mem_nil
  · exact hnone _ List.mem_cons_self
  · exact hnone _ (List.mem_cons_of_mem _ List.mem_cons_self)
  · rw [Host.shutdown, isServing, note, List.foldl_concat]
  · rw [Host.shutdown, note, hjournal]

end Awaits
end Host

/-! ## What starts leave -/

namespace HostStep

variable {σ : Type} {machine : StateMachine σ} {host after : Host σ} {settings : NodeSettings}
  {state : σ} {number : Nat} {node : Node σ}

/-- What the start of a node leaves of a host: a node that runs and is registered, or none, or
one that was stopped again and is not registered. -/
inductive Left (group : GroupId) (host : Host σ) : Except Failure Nat → Host σ → Prop where
  | started {node : Node σ} {disk : Disk} (hgroup : node.group = group) (hup : node.IsUp) :
      Left group host (.ok host.nodes.length)
        (({ host with
            disk
            nodes := host.nodes ++ [node]
            replicas := host.replicas.insert group host.nodes.length
            routes := host.routes.insert group host.nodes.length } : Host σ).note
          (.started host.nodes.length))
  | refused {failure : Failure} {disk : Disk} :
      Left group host (.error failure) { host with disk }
  | abandoned {failure : Failure} {node : Node σ} {disk : Disk} (hdown : node.IsDown) :
      Left group host (.error failure) { host with
        disk
        nodes := host.nodes ++ [node]
        replicas := (host.replicas.insert group host.nodes.length).erase group
        routes := host.routes.erase group }

theorem makeDirectories_left {layout : Layout} {result : Except (Halt Failure) Unit}
    (h : (makeDirectories layout).run host = (result, after)) :
    ∃ disk, after = { host with disk } := by
  cases h
  exact ⟨_, rfl⟩

theorem openStore_left {group : GroupId} {layout : Layout}
    {result : Except (Halt Failure) (Store σ)}
    (h : (openStore machine group layout state).run host = (result, after)) :
    ∃ disk, after = { host with disk } := by
  cases h
  exact ⟨_, rfl⟩

/-- A replica that is resumed belongs to a node that runs, and otherwise there is none. -/
theorem resume_left {peer : Peer} {roster : Roster} {store : Store σ}
    {result : Except (Halt Failure) Nat}
    (h : (resume machine settings peer roster store).run host = (result, after)) :
    (∃ halt disk, result = .error halt ∧ after = { host with disk }) ∨
    ∃ node disk, result = .ok host.nodes.length ∧ node.group = settings.group ∧ node.IsUp ∧
      after = { host with
        disk
        nodes := host.nodes ++ [node]
        replicas := host.replicas.insert settings.group host.nodes.length } := by
  rw [resume, run_bind] at h
  cases hown : roster.numberOf peer with
  | error failure =>
      rw [hown, run_lift] at h
      cases h
      exact .inl ⟨_, host.disk, rfl, rfl⟩
  | ok own =>
      rw [hown, run_lift_ok] at h
      simp only at h
      rw [run_bind, run_liftM] at h
      cases hcheck : settings.options.check.mapError
        (Halt.map fun fault => Failure.config fault.message) with
      | error halt =>
          rw [hcheck] at h
          cases h
          exact .inl ⟨halt, host.disk, rfl, rfl⟩
      | ok _ =>
          simp only [hcheck] at h
          rcases hresume : (Step.resume machine).perform { number := own, store } with
            ⟨replica, cause | _⟩
          · simp only [hresume] at h
            cases h
            exact .inl ⟨_, _, rfl, rfl⟩
          · simp only [hresume] at h
            cases h
            refine .inr ⟨_, _, rfl, rfl, ⟨?_, rfl⟩, rfl⟩
            exact Step.lasts_resume.perform (show Role.learner ≠ .shutdown by decide) hresume

theorem found_left {result : Except (Halt Failure) Unit} (hnode : host.nodes[number]? = some node)
    (hup : node.IsUp) (h : (found machine number).run host = (result, after)) :
    ∃ (next : Node σ) (disk : Disk), next.group = node.group ∧ next.queue = {} ∧
      after = { host with disk, nodes := host.nodes.set number next } ∧
      (result = .ok () → next.IsUp) := by
  have hrole : (node.load host.disk).replica.role ≠ .shutdown := hup.role
  simp only [found, ExceptT.run_mk, Host.visit, hnode] at h
  cases h
  refine ⟨_, _, ?_, ?_, rfl, fun hdone => ⟨?_, hup.queue⟩⟩
  · rfl
  · exact hup.queue
  rcases hfound : (Step.found machine (node.load host.disk).roster.membership).perform
    (node.load host.disk).replica with ⟨replica, cause | _⟩
  · rw [hfound] at hdone
    cases hdone
  · have hfounded := (Step.lasts_found _).perform hrole hfound
    exact hfounded

theorem set_concat_length (nodes : List (Node σ)) (node next : Node σ) :
    (nodes ++ [node]).set nodes.length next = nodes ++ [next] := by
  simp

theorem abandon_left (group : GroupId) (hnode : host.nodes[number]? = some node)
    (hqueue : node.queue = {}) :
    ∃ (disk : Disk) (next : Node σ), next.IsDown ∧ abandon group number host =
      { host.unregister group with disk, nodes := host.nodes.set number next } :=
  (host.unregister group).halt_of_queue hnode hqueue

theorem left_of_started (h : (start machine settings state).run host = (.ok number, after)) :
    Left settings.group host (.ok number) after := by
  obtain ⟨⟨peer, roster⟩, _, hread, h⟩ := bind_run_eq_ok.mp h
  obtain ⟨-, rfl⟩ := lift_run_eq_ok.mp hread
  simp only [bind_run_eq_ok, lift_run_eq_ok, reword_run_eq_ok, undoneBy_run_eq_ok] at h
  obtain ⟨_, _, ⟨-, rfl⟩, _, made, hmake, store, opened, hopen, resumed, middle, hresume, _,
    founded, hfound, _, _, hregister, hdone⟩ := h
  obtain ⟨_, rfl⟩ := makeDirectories_left hmake
  obtain ⟨_, rfl⟩ := openStore_left hopen
  rcases resume_left hresume with ⟨_, _, hnone, -⟩ | ⟨node, _, hnumber, hgroup, hup, rfl⟩
  · cases hnone
  cases hnumber
  obtain ⟨next, disk, hsame, -, rfl, hfounded⟩ :=
    found_left List.getElem?_concat_length hup hfound
  cases hregister
  cases hdone
  simp only [set_concat_length]
  exact .started (hsame.trans hgroup) (hfounded rfl)

theorem left_of_failed {failure : Failure}
    (h : (start machine settings state).run host = (.error (.failed failure), after)) :
    Left settings.group host (.error failure) after := by
  rcases bind_run_eq_error.mp h with h | ⟨⟨peer, roster⟩, _, h, hrest⟩
  · obtain ⟨-, rfl⟩ := lift_run_eq_error.mp h
    exact .refused
  obtain ⟨-, rfl⟩ := lift_run_eq_ok.mp h
  rcases bind_run_eq_error.mp hrest with h | ⟨own, _, h, hrest⟩
  · obtain ⟨-, rfl⟩ := lift_run_eq_error.mp h
    exact .refused
  obtain ⟨-, rfl⟩ := lift_run_eq_ok.mp h
  rcases bind_run_eq_error.mp hrest with h | ⟨_, middle, hmake, hrest⟩
  · obtain ⟨_, rfl⟩ := makeDirectories_left h
    exact .refused
  obtain ⟨_, rfl⟩ := makeDirectories_left hmake
  rcases bind_run_eq_error.mp hrest with h | ⟨store, middle, hopen, hrest⟩
  · obtain ⟨cause, hopen, -⟩ := reword_run_eq_error.mp h
    obtain ⟨_, rfl⟩ := openStore_left hopen
    exact .refused
  obtain ⟨_, rfl⟩ := openStore_left (reword_run_eq_ok.mp hopen)
  rcases bind_run_eq_error.mp hrest with h | ⟨number, middle, hresume, hrest⟩
  · rcases resume_left h with ⟨_, _, -, rfl⟩ | ⟨_, _, hdone, -⟩
    · exact .refused
    · cases hdone
  rcases resume_left hresume with ⟨_, _, hnone, -⟩ | ⟨node, _, hnumber, -, hup, rfl⟩
  · cases hnone
  cases hnumber
  -- From here on the node is registered for the calls of its peers.
  rcases bind_run_eq_error.mp hrest with h | ⟨_, middle, -, hrest⟩
  · obtain ⟨middle, hfound, rfl⟩ := undoneBy_run_eq_failed.mp h
    obtain ⟨next, _, -, hqueue, hmiddle, -⟩ := found_left List.getElem?_concat_length hup hfound
    have hnext : middle.nodes[host.nodes.length]? = some next := by
      simp only [hmiddle, set_concat_length, List.getElem?_concat_length]
    obtain ⟨_, gone, hdown, habandon⟩ := abandon_left settings.group hnext hqueue
    rw [habandon, hmiddle]
    simp only [Host.unregister, set_concat_length]
    exact .abandoned hdown
  cases hrest

end HostStep

/-! ## Starting the nodes of stores -/

theorem Registry.withStores_concat (registry : Registry Nat) (next : Nat)
    (stores : List StoreSettings) (store : StoreSettings) :
    registry.withStores next (stores ++ [store]) =
      (registry.withStores next stores).insert store.group (next + stores.length) := by
  induction stores generalizing registry next with
  | nil => rfl
  | cons first rest ih =>
      rw [List.cons_append, withStores, ih, withStores, List.length_cons, Nat.add_right_comm,
        Nat.add_assoc]

theorem Registry.contains_withStores_iff {stores : List StoreSettings} {group : GroupId} :
    (withStores {} 0 stores).contains group = true ↔
      ∃ store ∈ stores, store.group = group := by
  rw [contains]
  rcases find?_withStores {} 0 stores group with
    ⟨hnone, hfind⟩ | ⟨k, store, hstore, hgroup, hfind⟩
  · rw [hfind]
    refine iff_of_false nofun ?_
    rintro ⟨store, hmem, hgroup⟩
    exact hnone store hmem hgroup
  · rw [hfind]
    exact iff_of_true rfl ⟨store, List.mem_of_getElem? hstore, hgroup⟩

namespace Host

variable {σ : Type} {host after : Host σ} {address : String} {stores : List StoreSettings}
  {store : StoreSettings}

/-- Whether a host that listens at an address runs the nodes of some stores, in their order. -/
structure Runs (address : String) (stores : List StoreSettings) (host : Host σ) : Prop where
  groups : host.nodes.map Node.group = stores.map StoreSettings.group
  up : ∀ node ∈ host.nodes, node.IsUp
  replicas : host.replicas = Registry.withStores {} 0 stores
  routes : host.routes = Registry.withStores {} 0 stores
  journal : host.journal = .bound address :: (List.range stores.length).map .started

/-- What remains of a start that failed: no node that runs, and nothing that is registered
besides what was registered before. -/
structure Undone (host after : Host σ) : Prop where
  nodes : ∃ more, after.nodes = host.nodes ++ more ∧ ∀ node ∈ more, node.IsDown
  replicas : ∀ group number, after.replicas.find? group = some number →
    host.replicas.find? group = some number
  routes : ∀ group number, after.routes.find? group = some number →
    host.routes.find? group = some number
  journal : after.journal = host.journal

theorem undone_of_left {group : GroupId} {failure : Failure}
    (hleft : HostStep.Left group host (.error failure) after) : host.Undone after := by
  cases hleft with
  | refused =>
      exact ⟨⟨[], (List.append_nil _).symm, List.forall_mem_nil _⟩, fun _ _ h => h, fun _ _ h => h,
        rfl⟩
  | @abandoned _ node disk hdown =>
      refine ⟨⟨[node], rfl, List.forall_mem_singleton.mpr hdown⟩, ?_, ?_, rfl⟩
      · intro other number hfound
        obtain ⟨hne, hkept⟩ := Registry.find?_of_erase hfound
        rwa [Registry.find?_insert, if_neg hne] at hkept
      · exact fun other number hfound => (Registry.find?_of_erase hfound).2

namespace Runs

theorem length (h : host.Runs address stores) : host.nodes.length = stores.length := by
  rw [← List.length_map Node.group, h.groups, List.length_map]

theorem node (h : host.Runs address stores) {number : Nat} (hstore : stores[number]? = some store) :
    ∃ node, host.nodes[number]? = some node ∧ node.group = store.group ∧ node.IsUp := by
  have hgroup : (host.nodes.map Node.group)[number]? = some store.group := by
    rw [h.groups, List.getElem?_map, hstore]
    rfl
  rw [List.getElem?_map, Option.map_eq_some_iff] at hgroup
  obtain ⟨node, hnode, hgroup⟩ := hgroup
  exact ⟨node, hnode, hgroup, h.up node (List.mem_of_getElem? hnode)⟩

/-- What is registered for a group is the node of a store of that group. -/
theorem registered (h : host.Runs address stores) {group : GroupId} {number : Nat}
    (hfound : (Registry.withStores {} 0 stores).find? group = some number) :
    number < stores.length ∧
      ∃ node, host.nodes[number]? = some node ∧ node.group = group ∧ node.IsUp := by
  rcases Registry.find?_withStores {} 0 stores group with
    ⟨-, hnone⟩ | ⟨k, store, hstore, rfl, hnumber⟩
  · rw [hnone] at hfound
    cases hfound
  · rw [hnumber, Nat.zero_add, Option.some.injEq] at hfound
    subst hfound
    exact ⟨(List.getElem?_eq_some_iff.mp hstore).1, h.node hstore⟩

theorem isServing (h : host.Runs address stores) : host.isServing = true := by
  rw [Host.isServing, h.journal, List.foldl_cons, List.foldl_map]
  induction List.range stores.length with
  | nil => rfl
  | cons number rest ih => exact ih

/-- One more node runs after it was started. -/
theorem started {number : Nat} (h : host.Runs address stores)
    (hleft : HostStep.Left store.group host (.ok number) after) :
    number = stores.length ∧ after.Runs address (stores ++ [store]) := by
  cases hleft with
  | @started node disk hgroup hup =>
      refine ⟨h.length, ?_, ?_, ?_, ?_, ?_⟩
      · simp only [note, List.map_append, h.groups, List.map_cons, List.map_nil, hgroup]
      · exact List.forall_mem_append.mpr ⟨h.up, List.forall_mem_singleton.mpr hup⟩
      · simp only [note, h.replicas, h.length, Registry.withStores_concat, Nat.zero_add]
      · simp only [note, h.routes, h.length, Registry.withStores_concat, Nat.zero_add]
      · simp only [note, h.journal, h.length, List.length_append, List.length_singleton,
          List.range_succ, List.map_append, List.map_cons, List.map_nil, List.cons_append]

/-- After a start that failed the nodes before it are left to be stopped. -/
theorem awaits (h : host.Runs address stores) (hundone : host.Undone after) :
    after.Awaits (List.range stores.length) := by
  obtain ⟨more, hnodes, hmore⟩ := hundone.nodes
  have hbefore {number : Nat} {node : Node σ} (hnode : host.nodes[number]? = some node) :
      after.nodes[number]? = some node := by
    rw [hnodes, List.getElem?_append_left (List.getElem?_eq_some_iff.mp hnode).1, hnode]
  refine ⟨List.nodup_range, fun number hnumber => ?_, fun number node hnode hnumber => ?_, ?_⟩
  · have hlt : number < stores.length := List.mem_range.mp hnumber
    obtain ⟨node, hnode, -, hup⟩ := h.node (List.getElem?_eq_getElem hlt)
    exact ⟨node, hbefore hnode, hup.queue⟩
  · rw [List.mem_range, Nat.not_lt, ← h.length] at hnumber
    rw [hnodes, List.getElem?_append_right hnumber] at hnode
    exact hmore node (List.mem_of_getElem? hnode)
  · intro registry hregistry group number hfound
    have hstores : (Registry.withStores {} 0 stores).find? group = some number := by
      rcases List.mem_pair.mp hregistry with rfl | rfl
      · exact h.replicas ▸ hundone.replicas group number hfound
      · exact h.routes ▸ hundone.routes group number hfound
    obtain ⟨hlt, node, hnode, hgroup, -⟩ := h.registered hstores
    exact ⟨number, List.mem_range.mpr hlt, node, hbefore hnode, hgroup⟩

end Runs
end Host

/-! ## Starting a server -/

namespace HostStep

variable {σ : Type} {machine : StateMachine σ} {host after : Host σ} {settings : Settings}
  {state : σ} {done stores : List StoreSettings}

/-- Whether the node of the store behind so many others does not start on a host that runs the
nodes of those, and how that leaves the host. -/
def FailsAt (machine : StateMachine σ) (settings : Settings) (state : σ)
    (stores : List StoreSettings) (count : Nat) (halt : Halt Failure) (failed : Host σ) : Prop :=
  ∃ store before, stores[count]? = some store ∧
    before.Runs settings.listen.address (stores.take count) ∧
    (start machine (.ofSettings store.group settings.replication) state).run before =
      (.error halt, failed)

/-- Either the nodes of all stores run, or those of the first ones are stopped again. They run
on when the start of the next one breaks off. -/
theorem startStores_left {result : Except (Halt Failure) (List Nat)}
    (hruns : host.Runs settings.listen.address done)
    (h : (startStores machine settings state (List.range done.length) stores).run host =
      (result, after)) :
    (result = .ok (List.range (done ++ stores).length) ∧
      after.Runs settings.listen.address (done ++ stores)) ∨
    (∃ count failure failed, result = .error (.failed failure) ∧
      FailsAt machine settings state (done ++ stores) count (.failed failure) failed ∧
      after = failed.shutdown (List.range count)) ∨
    ∃ count, result = .error .overflow ∧
      FailsAt machine settings state (done ++ stores) count .overflow after := by
  induction stores generalizing done host with
  | nil =>
      cases h
      rw [List.append_nil]
      exact .inl ⟨rfl, hruns⟩
  | cons store rest ih =>
      -- The node that is started next is the one behind those that run.
      have hnext : (done ++ store :: rest)[done.length]? = some store := by
        rw [List.getElem?_append_right (Nat.le_refl _), Nat.sub_self]
        rfl
      have hbefore : host.Runs settings.listen.address
          ((done ++ store :: rest).take done.length) := by
        rw [List.take_left]
        exact hruns
      rw [startStores, run_bind, run_undoneBy] at h
      rcases hstart : (start machine (.ofSettings store.group settings.replication) state).run
        host with ⟨(failure | _) | number, middle⟩
      · rw [hstart] at h
        cases h
        exact .inr (.inl ⟨done.length, failure, middle, rfl, ⟨store, host, hnext, hbefore, hstart⟩,
          rfl⟩)
      · rw [hstart] at h
        cases h
        exact .inr (.inr ⟨done.length, rfl, store, host, hnext, hbefore, hstart⟩)
      · rw [hstart] at h
        obtain ⟨rfl, hstarted⟩ := hruns.started (left_of_started hstart)
        have hrange : List.range done.length ++ [done.length] =
            List.range (done ++ [store]).length := by
          rw [List.length_append, List.length_singleton, List.range_succ]
        simp only [hrange] at h
        rw [← List.singleton_append, ← List.append_assoc]
        exact ih hstarted h

end HostStep

namespace Host

variable {σ : Type} {machine : StateMachine σ} {settings : Settings} {state : σ}

/-- The nodes that ran when a start failed are stopped, each of them once. -/
theorem down_of_failsAt {stores : List StoreSettings} {count : Nat} {failure : Failure}
    {failed : Host σ}
    (h : HostStep.FailsAt machine settings state stores count (.failed failure) failed) :
    (failed.shutdown (List.range count)).Down ∧
      (failed.shutdown (List.range count)).journal =
        .bound settings.listen.address :: (List.range count).map .started ++
          (List.range count).map .stopped ++ [.closed] := by
  obtain ⟨store, before, hstore, hruns, hstart⟩ := h
  have hundone := undone_of_left (HostStep.left_of_failed hstart)
  have hlength : (stores.take count).length = count :=
    List.length_take_of_le (Nat.le_of_lt (List.getElem?_eq_some_iff.mp hstore).1)
  have hawaits := hruns.awaits hundone
  rw [hlength] at hawaits
  obtain ⟨hdown, hjournal⟩ := hawaits.shutdown
  refine ⟨hdown, ?_⟩
  rw [hjournal, hundone.journal, hruns.journal, hlength]

theorem down_of_fresh (disk : Disk) : ({ disk } : Host σ).Down :=
  ⟨List.forall_mem_nil _, fun _ => rfl, fun _ => rfl, rfl⟩

/-- Nothing is done where nobody can be listened to; otherwise nodes are started. -/
theorem bootstrap_cases (machine : StateMachine σ) (bind : String → Except Failure Unit)
    (settings : Settings) (state : σ) (disk : Disk) :
    (∃ fault, Host.bootstrap machine bind settings state { disk } =
      ({ disk }, .error (.failed fault))) ∨
    (∃ count failure failed,
      HostStep.FailsAt machine settings state settings.stores count (.failed failure) failed ∧
      Host.bootstrap machine bind settings state { disk } =
        (failed.shutdown (List.range count), .error (.failed (.failed failure)))) ∨
    (∃ count failed,
      HostStep.FailsAt machine settings state settings.stores count .overflow failed ∧
      Host.bootstrap machine bind settings state { disk } = (failed, .error .overflow)) ∨
    ∃ after, after.Runs settings.listen.address settings.stores ∧
      Host.bootstrap machine bind settings state { disk } =
        (after, .ok (List.range settings.stores.length)) := by
  let listening : Host σ := note { disk } (.bound settings.listen.address)
  have hlistening : listening.Runs settings.listen.address [] :=
    ⟨rfl, List.forall_mem_nil _, rfl, rfl, rfl⟩
  rw [Host.bootstrap]
  split
  next => exact .inl ⟨_, rfl⟩
  next =>
    cases hbind : bind settings.listen.address with
    | error failure =>
        refine .inl ⟨.failed failure, ?_⟩
        rw [HostStep.listen, hbind]
        rfl
    | ok _ =>
        rcases hstores : (HostStep.startStores machine settings state [] settings.stores).run
          listening with ⟨result, after⟩
        have hrun : (do
            HostStep.listen settings bind
            HostStep.startStores machine settings state [] settings.stores : HostStep σ _).run
              { disk } = (result, after) := by
          rw [run_bind, HostStep.listen, hbind]
          exact hstores
        rw [hrun]
        rcases HostStep.startStores_left hlistening hstores with
          ⟨rfl, hruns⟩ | ⟨count, failure, failed, rfl, hfails, rfl⟩ | ⟨count, rfl, hfails⟩
        · exact .inr (.inr (.inr ⟨after, hruns, rfl⟩))
        · exact .inr (.inl ⟨count, failure, failed, hfails, rfl⟩)
        · exact .inr (.inr (.inl ⟨count, after, hfails, rfl⟩))

/-- A server starts as a whole or not at all. If it does not start, no group is registered, no
node runs, and nobody is listened to: either nothing was done, or a store's node did not start
and those of the stores before it were stopped again, each of them once. If it starts, its nodes
are those of its stores, in their order, and it listens; in both registries are the groups of its
stores and no others, and each of them stands for a node of the group that runs. Where the start
of a store's node breaks off, so does all of it, and the nodes before it run on. -/
theorem bootstrap_all_or_nothing (machine : StateMachine σ) (bind : String → Except Failure Unit)
    (settings : Settings) (state : σ) (disk : Disk) :
    let started := Host.bootstrap machine bind settings state ({ disk } : Host σ)
    (∀ after fault, started = (after, .error (.failed fault)) →
      after.Down ∧
      (after = { disk } ∨ ∃ count failure failed, fault = .failed failure ∧
        HostStep.FailsAt machine settings state settings.stores count (.failed failure) failed ∧
        after.journal = .bound settings.listen.address :: (List.range count).map .started ++
          (List.range count).map .stopped ++ [.closed])) ∧
    (∀ after numbers, started = (after, .ok numbers) →
      numbers = List.range settings.stores.length ∧
      after.Runs settings.listen.address settings.stores ∧ after.isServing = true ∧
      ∀ registry ∈ [after.replicas, after.routes], ∀ group,
        (registry.contains group = true ↔ ∃ store ∈ settings.stores, store.group = group) ∧
        ∀ number, registry.find? group = some number →
          ∃ node, after.nodes[number]? = some node ∧ node.group = group ∧ node.IsUp) ∧
    ∀ after, started = (after, .error .overflow) →
      ∃ count, HostStep.FailsAt machine settings state settings.stores count .overflow after := by
  intro started
  rcases bootstrap_cases machine bind settings state disk with
    ⟨fault, heq⟩ | ⟨count, failure, failed, hfails, heq⟩ | ⟨count, failed, hfails, heq⟩ |
    ⟨after, hruns, heq⟩
  · refine ⟨fun _ _ h => ?_, fun _ _ h => ?_, fun _ h => ?_⟩
    · cases heq.symm.trans h
      exact ⟨down_of_fresh disk, .inl rfl⟩
    · cases heq.symm.trans h
    · cases heq.symm.trans h
  · refine ⟨fun _ _ h => ?_, fun _ _ h => ?_, fun _ h => ?_⟩
    · cases heq.symm.trans h
      obtain ⟨hdown, hjournal⟩ := down_of_failsAt hfails
      exact ⟨hdown, .inr ⟨count, failure, failed, rfl, hfails, hjournal⟩⟩
    · cases heq.symm.trans h
    · cases heq.symm.trans h
  · refine ⟨fun _ _ h => ?_, fun _ _ h => ?_, fun _ h => ?_⟩
    · cases heq.symm.trans h
    · cases heq.symm.trans h
    · cases heq.symm.trans h
      exact ⟨count, hfails⟩
  · refine ⟨fun _ _ h => ?_, fun _ _ h => ?_, fun _ h => ?_⟩
    · cases heq.symm.trans h
    · cases heq.symm.trans h
      refine ⟨rfl, hruns, hruns.isServing, fun registry hregistry group => ?_⟩
      obtain rfl : registry = Registry.withStores {} 0 settings.stores := by
        rcases List.mem_pair.mp hregistry with rfl | rfl
        · exact hruns.replicas
        · exact hruns.routes
      refine ⟨Registry.contains_withStores_iff, fun number hfound => ?_⟩
      exact (hruns.registered hfound).2
    · cases heq.symm.trans h

/-- Where a file is in the way of the second store's log, the first store's node is stopped. -/
theorem bootstrap_undone_at_second :
    let settings : Settings :=
      { replication := { path := "/r" }, stores := [⟨"a", "b"⟩, ⟨"c", "d"⟩] }
    let disk : Disk :=
      ⟨[(["r"], .directory), (["r", "log"], .directory), (["r", "log", "c-d"], .file [])]⟩
    let done := Host.bootstrap Memory.machine (fun _ => .ok ()) settings {} { disk }
    done.2 = .error (.failed (.failed (.initialization
        "Failed to create dir /r/log/c-d: File exists (os error 17)"))) ∧
      done.1.journal = [.bound "127.0.0.1:8090", .started 0, .stopped 0, .closed] ∧
      done.1.Down := by
  intro settings disk done
  have hdone : done.2 = .error (.failed (.failed (.initialization
        "Failed to create dir /r/log/c-d: File exists (os error 17)"))) ∧
      done.1.journal = [.bound "127.0.0.1:8090", .started 0, .stopped 0, .closed] := by
    decide +kernel
  obtain ⟨hundone, -⟩ := bootstrap_all_or_nothing Memory.machine (fun _ => .ok ()) settings {} disk
  exact ⟨hdone.1, hdone.2, (hundone done.1 _ (Prod.ext rfl hdone.1)).1⟩

end Host
end Quorum
