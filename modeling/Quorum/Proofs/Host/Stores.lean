import Mathlib.Data.List.Nodup
import Quorum.Host.Bootstrap
import Quorum.Proofs.Disk.Joined
import Quorum.Proofs.Host.Steps

/-! # The groups of the stores of a server

Settings name each pair of a database and a store once. A group is named by the two joined,
and so are its directories and what is registered for it. Different pairs join to the same
name where one database goes on, behind the separator, with what the other's store begins
with; then two stores of one server are one group.
-/

namespace Quorum

namespace StoreSettings

variable {a b : StoreSettings}

/-- Whether the first database goes on behind the second one with what the second store
begins with. -/
def Overlaps (a b : StoreSettings) : Prop :=
  ∃ middle, a.database = b.database ++ "-" ++ middle ∧ b.store = middle ++ "-" ++ a.store

theorem group_eq_of_overlaps (h : a.Overlaps b) : a.group = b.group := by
  obtain ⟨middle, hdatabase, hstore⟩ := h
  simp only [group, GroupId.ofStore, hdatabase, hstore, String.append_assoc]

theorem toList_group_name (store : StoreSettings) :
    store.group.name.toList = store.database.toList ++ '-' :: store.store.toList := by
  simp [group, GroupId.ofStore]

/-- The longer one of two databases that are joined to the same name overlaps. -/
theorem eq_or_overlaps {rest : List Char}
    (hdatabase : b.database.toList = a.database.toList ++ rest)
    (hstore : '-' :: a.store.toList = rest ++ '-' :: b.store.toList) :
    a = b ∨ b.Overlaps a := by
  cases rest with
  | nil =>
      rw [List.append_nil, String.toList_inj] at hdatabase
      rw [List.nil_append, List.cons.injEq, String.toList_inj] at hstore
      obtain ⟨-, hstore⟩ := hstore
      left
      cases a
      cases b
      simp_all
  | cons separator middle =>
      rw [List.cons_append, List.cons.injEq] at hstore
      obtain ⟨rfl, hstore⟩ := hstore
      exact .inr ⟨.ofList middle, String.toList_inj.mp (by simp [hdatabase]),
        String.toList_inj.mp (by simp [hstore])⟩

theorem group_eq_iff : a.group = b.group ↔ a = b ∨ a.Overlaps b ∨ b.Overlaps a := by
  constructor
  · intro h
    have hname := congrArg (fun group => group.name.toList) h
    simp only [toList_group_name] at hname
    rcases List.append_eq_append_iff.mp hname with ⟨rest, hlong, hrest⟩ | ⟨rest, hlong, hrest⟩
    · rcases eq_or_overlaps hlong hrest with heq | hoverlaps
      · exact .inl heq
      · exact .inr (.inr hoverlaps)
    · rcases eq_or_overlaps hlong hrest with heq | hoverlaps
      · exact .inl heq.symm
      · exact .inr (.inl hoverlaps)
  · rintro (rfl | h | h)
    · rfl
    · exact group_eq_of_overlaps h
    · exact (group_eq_of_overlaps h).symm

/-- Stores without faults are different pairs. -/
theorem nodup_of_faultsAfter {before stores : List StoreSettings}
    (h : faultsAfter before stores = []) : stores.Nodup ∧ ∀ store ∈ stores, store ∉ before := by
  induction stores generalizing before with
  | nil => simp
  | cons store rest ih =>
      simp only [faultsAfter, List.append_eq_nil_iff] at h
      obtain ⟨⟨-, hrepeated⟩, hrest⟩ := h
      have hnew : store ∉ before := fun hmem => by simp [SettingsFault.when, hmem] at hrepeated
      obtain ⟨hnodup, hbefore⟩ := ih hrest
      refine ⟨List.nodup_cons.mpr ⟨fun hmem => ?_, hnodup⟩, ?_⟩
      · exact hbefore store hmem List.mem_cons_self
      · intro other hother
        rcases List.mem_cons.mp hother with rfl | hother
        · exact hnew
        · exact fun hmem => hbefore other hother (List.mem_cons_of_mem _ hmem)

end StoreSettings

theorem Settings.nodup_stores {settings : Settings} (h : settings.check = .ok ()) :
    settings.stores.Nodup := by
  have hfaults := Settings.check_eq_ok_iff.mp h
  rw [Settings.faults, List.append_eq_nil_iff] at hfaults
  exact (StoreSettings.nodup_of_faultsAfter hfaults.2).1

/-! ## Directories -/

namespace Layout

variable {root : String} {group other : GroupId} {useSnapshot : Bool}

/-- The directories that those of the groups are in. -/
def kinds (useSnapshot : Bool) : List String :=
  ["log", "meta"] ++ if useSnapshot then ["snapshot"] else []

theorem directories_ofRoot : (ofRoot root group useSnapshot).directories =
    (kinds useSnapshot).map fun kind => Path.join (Path.join root kind) group.name := by
  cases useSnapshot <;> rfl

theorem directories_of_absolute (h : Path.isAbsolute group.name = true) {directory : String} :
    directory ∈ (ofRoot root group useSnapshot).directories ↔ directory = group.name := by
  simp only [directories_ofRoot, Path.join_of_absolute h]
  cases useSnapshot <;> simp [kinds]

theorem mem_kinds {kind : String} (h : kind ∈ kinds useSnapshot) :
    kind = "log" ∨ kind = "meta" ∨ kind = "snapshot" := by
  cases useSnapshot with
  | false => simpa [kinds] using Or.imp_right Or.inl (by simpa [kinds] using h)
  | true => simpa [kinds] using h

theorem lead_kind {kind : String} (h : kind ∈ kinds useSnapshot) :
    Path.lead (Path.join root kind) = Path.lead root ++ kind ++ "/" := by
  rcases mem_kinds h with rfl | rfl | rfl <;>
    simp [Path.join_of_relative, Path.isAbsolute, Path.lead]

theorem kind_append_inj {kind otherKind name otherName : String} (hkind : kind ∈ kinds useSnapshot)
    (hother : otherKind ∈ kinds useSnapshot)
    (h : kind ++ "/" ++ name = otherKind ++ "/" ++ otherName) : name = otherName := by
  have hlist := congrArg String.toList h
  rcases mem_kinds hkind with rfl | rfl | rfl <;> rcases mem_kinds hother with rfl | rfl | rfl <;>
    simp at hlist <;> exact String.toList_inj.mp hlist

theorem directories_of_relative (h : Path.isAbsolute group.name = false) {directory : String} :
    directory ∈ (ofRoot root group useSnapshot).directories ↔
      ∃ kind ∈ kinds useSnapshot, directory = Path.lead root ++ kind ++ "/" ++ group.name := by
  rw [directories_ofRoot, List.mem_map]
  refine exists_congr fun kind => and_congr_right fun hkind => ?_
  rw [Path.join_of_relative h, lead_kind hkind, eq_comm]

/-- Two groups have no directory in common, unless the name of one is the path of the
other's. -/
theorem disjoint_directories_iff :
    List.Disjoint (ofRoot root group useSnapshot).directories
        (ofRoot root other useSnapshot).directories ↔
      group ≠ other ∧
      (Path.isAbsolute group.name = true →
        group.name ∉ (ofRoot root other useSnapshot).directories) ∧
      (Path.isAbsolute other.name = true →
        other.name ∉ (ofRoot root group useSnapshot).directories) := by
  constructor
  · intro hdisjoint
    refine ⟨?_, fun h hmem => ?_, fun h hmem => ?_⟩
    · rintro rfl
      exact hdisjoint List.mem_cons_self List.mem_cons_self
    · exact hdisjoint ((directories_of_absolute h).mpr rfl) hmem
    · exact hdisjoint hmem ((directories_of_absolute h).mpr rfl)
  · rintro ⟨hne, hgroup, hother⟩ directory hmem hmemOther
    cases hrelative : Path.isAbsolute group.name with
    | true =>
        rw [directories_of_absolute hrelative] at hmem
        exact hgroup hrelative (hmem ▸ hmemOther)
    | false =>
        cases hrelativeOther : Path.isAbsolute other.name with
        | true =>
            rw [directories_of_absolute hrelativeOther] at hmemOther
            exact hother hrelativeOther (hmemOther ▸ hmem)
        | false =>
            obtain ⟨kind, hkind, rfl⟩ := (directories_of_relative hrelative).mp hmem
            obtain ⟨otherKind, hotherKind, heq⟩ :=
              (directories_of_relative hrelativeOther).mp hmemOther
            simp only [String.append_assoc, String.append_right_inj] at heq
            refine hne ?_
            cases group
            cases other
            exact congrArg GroupId.mk
              (kind_append_inj hkind hotherKind (by simpa [String.append_assoc] using heq))

end Layout

/-! ## Starting nodes -/

namespace Registry

/-- The registry after the groups of some stores were registered in turn, each under the
number that follows that of the store before. -/
def withStores (registry : Registry Nat) (next : Nat) : List StoreSettings → Registry Nat
  | [] => registry
  | store :: rest => (registry.insert store.group next).withStores (next + 1) rest

/-- A group stands for the last store of that group, if there is one. -/
theorem find?_withStores (registry : Registry Nat) (next : Nat) (stores : List StoreSettings)
    (group : GroupId) :
    ((∀ store ∈ stores, store.group ≠ group) ∧
      (registry.withStores next stores).find? group = registry.find? group) ∨
    ∃ k store, stores[k]? = some store ∧ store.group = group ∧
      (registry.withStores next stores).find? group = some (next + k) := by
  induction stores generalizing registry next with
  | nil => simp [withStores]
  | cons store rest ih =>
      rw [withStores]
      rcases ih (registry.insert store.group next) (next + 1) with
        ⟨hnone, hfind⟩ | ⟨k, last, hlast, hgroup, hfind⟩
      · rw [find?_insert] at hfind
        by_cases hstore : group = store.group
        · exact .inr ⟨0, store, rfl, hstore.symm, by rw [hfind, if_pos hstore, Nat.add_zero]⟩
        · rw [if_neg hstore] at hfind
          exact .inl ⟨List.forall_mem_cons.mpr ⟨Ne.symm hstore, hnone⟩, hfind⟩
      · exact .inr ⟨k + 1, last, hlast, hgroup, by rw [hfind, Nat.add_right_comm, Nat.add_assoc]⟩

/-- Registered stores are told apart by their groups. -/
theorem find?_withStores_inj (registry : Registry Nat) (next : Nat) {stores : List StoreSettings}
    {a b : StoreSettings} (ha : a ∈ stores) (hb : b ∈ stores) :
    ((registry.withStores next stores).find? a.group).isSome = true ∧
      ((registry.withStores next stores).find? a.group =
        (registry.withStores next stores).find? b.group ↔ a.group = b.group) := by
  rcases find?_withStores registry next stores a.group with
    ⟨hnone, -⟩ | ⟨k, last, hlast, hgroup, hfind⟩
  · exact absurd rfl (hnone a ha)
  · refine ⟨by rw [hfind]; rfl, fun heq => ?_, fun heq => by rw [heq]⟩
    rcases find?_withStores registry next stores b.group with
      ⟨hnone, -⟩ | ⟨l, other, hother, hotherGroup, hotherFind⟩
    · exact absurd rfl (hnone b hb)
    · rw [hfind, hotherFind, Option.some.injEq, Nat.add_left_cancel_iff] at heq
      rw [← heq, hlast, Option.some.injEq] at hother
      rw [← hgroup, ← hotherGroup, hother]

end Registry

/-- Whether a host has as many nodes as before, and what is registered with it still is. -/
structure Host.Same {σ : Type} (before after : Host σ) : Prop where
  nodes : after.nodes.length = before.nodes.length
  replicas : after.replicas = before.replicas
  routes : after.routes = before.routes

/-- What is done at a node leaves alone what is registered. -/
theorem Host.visit_same {σ α : Type} (host : Host σ) (number : Nat)
    (act : Node σ → Node σ × α) : host.Same (host.visit number act).1 := by
  rw [Host.visit]
  split
  case h_1 => exact ⟨rfl, rfl, rfl⟩
  case h_2 => exact ⟨List.length_set, rfl, rfl⟩

namespace HostStep

variable {σ α β : Type} {machine : StateMachine σ} {host after : Host σ}

theorem makeDirectories_same {layout : Layout} {value : Unit}
    (h : (makeDirectories layout).run host = (.ok value, after)) : host.Same after := by
  rw [makeDirectories] at h
  obtain ⟨-, rfl⟩ := Prod.mk.inj h
  exact ⟨rfl, rfl, rfl⟩

theorem openStore_same {group : GroupId} {layout : Layout} {state : σ} {store : Store σ}
    (h : (openStore machine group layout state).run host = (.ok store, after)) :
    host.Same after := by
  rw [openStore] at h
  obtain ⟨-, rfl⟩ := Prod.mk.inj h
  exact ⟨rfl, rfl, rfl⟩

theorem found_same {number : Nat} {value : Unit}
    (h : (found machine number).run host = (.ok value, after)) : host.Same after := by
  have hafter := congrArg Prod.snd h
  simp only [found, ExceptT.run, ExceptT.mk] at hafter
  exact hafter ▸ host.visit_same number _

theorem resume_ok {settings : NodeSettings} {peer : Peer} {roster : Roster} {store : Store σ}
    {number : Nat}
    (h : (resume machine settings peer roster store).run host = (.ok number, after)) :
    number = host.nodes.length ∧ after.nodes.length = host.nodes.length + 1 ∧
      after.replicas = host.replicas.insert settings.group number ∧ after.routes = host.routes := by
  obtain ⟨peerNumber, _, hown, h⟩ := bind_run_eq_ok.mp h
  obtain ⟨-, rfl⟩ := lift_run_eq_ok.mp hown
  obtain ⟨_, _, hoptions, h⟩ := bind_run_eq_ok.mp h
  obtain ⟨-, rfl⟩ := liftM_run_eq_ok.mp hoptions
  simp only [bind_run_eq_ok] at h
  split at h
  case h_1 =>
    obtain ⟨_, _, -, hthrow⟩ := h
    cases hthrow
  case h_2 =>
    obtain ⟨_, _, hsave, hdone⟩ := h
    cases hsave
    cases hdone
    exact ⟨rfl, List.length_append, rfl, rfl⟩

/-- A node that was started has the next number, under which all find it by its group. -/
theorem start_ok {settings : NodeSettings} {state : σ} {number : Nat}
    (h : (start machine settings state).run host = (.ok number, after)) :
    number = host.nodes.length ∧ after.nodes.length = host.nodes.length + 1 ∧
      after.replicas = host.replicas.insert settings.group number ∧
      after.routes = host.routes.insert settings.group number := by
  obtain ⟨⟨peer, roster⟩, _, hread, h⟩ := bind_run_eq_ok.mp h
  obtain ⟨-, rfl⟩ := lift_run_eq_ok.mp hread
  simp only [bind_run_eq_ok, lift_run_eq_ok, reword_run_eq_ok, undoneBy_run_eq_ok] at h
  obtain ⟨_, _, ⟨-, rfl⟩, _, made, hmake, store, opened, hopen, resumed, middle, hresume, _,
    founded, hfound, _, _, hregister, hdone⟩ := h
  have hmade := makeDirectories_same hmake
  have hopened := openStore_same hopen
  have hfounded := found_same hfound
  obtain ⟨rfl, hnodes, hreplicas, hroutes⟩ := resume_ok hresume
  cases hregister
  cases hdone
  have hcount : opened.nodes.length = host.nodes.length := hopened.nodes.trans hmade.nodes
  refine ⟨hcount, ?_, ?_, ?_⟩
  · exact (hfounded.nodes.trans hnodes).trans (congrArg (· + 1) hcount)
  · rw [← hmade.replicas, ← hopened.replicas, ← hreplicas]
    exact hfounded.replicas
  · rw [← hmade.routes, ← hopened.routes, ← hroutes, ← hfounded.routes]
    rfl

/-- The nodes of stores are numbered in their order and registered one after the other. -/
theorem startStores_ok {settings : Settings} {state : σ} {started numbers : List Nat}
    {stores : List StoreSettings}
    (h : (startStores machine settings state started stores).run host = (.ok numbers, after)) :
    after.replicas = host.replicas.withStores host.nodes.length stores ∧
      after.routes = host.routes.withStores host.nodes.length stores := by
  induction stores generalizing started host with
  | nil =>
      cases h
      exact ⟨rfl, rfl⟩
  | cons store rest ih =>
      rw [startStores, bind_run_eq_ok] at h
      obtain ⟨number, middle, hstart, hrest⟩ := h
      rw [undoneBy_run_eq_ok] at hstart
      obtain ⟨rfl, hnodes, hreplicas, hroutes⟩ := start_ok hstart
      obtain ⟨hafterReplicas, hafterRoutes⟩ := ih hrest
      rw [hafterReplicas, hafterRoutes, hnodes, hreplicas, hroutes]
      exact ⟨rfl, rfl⟩

end HostStep

theorem Host.bootstrap_ok {σ : Type} {machine : StateMachine σ}
    {bind : String → Except Failure Unit} {settings : Settings} {state : σ} {host after : Host σ}
    {numbers : List Nat}
    (h : host.bootstrap machine bind settings state = (after, .ok numbers)) :
    after.replicas = host.replicas.withStores host.nodes.length settings.stores ∧
      after.routes = host.routes.withStores host.nodes.length settings.stores := by
  rw [bootstrap] at h
  split at h
  case isTrue => cases h
  case isFalse =>
    rcases hrun : (do
      HostStep.listen settings bind
      HostStep.startStores machine settings state [] settings.stores : HostStep σ _).run host with
      ⟨failure | started, last⟩
    · rw [hrun] at h
      cases h
    · rw [hrun] at h
      cases h
      simp only [HostStep.listen, bind_run_eq_ok, HostStep.lift_run_eq_ok] at hrun
      obtain ⟨_, _, ⟨_, _, ⟨-, rfl⟩, hbound⟩, hstores⟩ := hrun
      cases hbound
      have hregistered := HostStep.startStores_ok hstores
      exact hregistered

/-- Two stores of a server share their group where their names overlap, and only there. Stores
that share it share all directories and the entries in both registries, so the node of one of
them is not found; others have their own, but for a database that is named like a directory
of the other's. -/
theorem stores_apart_iff {settings : Settings} (haccepted : settings.check = .ok ())
    {i j : Nat} (hne : i ≠ j) {a b : StoreSettings} (ha : settings.stores[i]? = some a)
    (hb : settings.stores[j]? = some b) :
    let layout := fun store : StoreSettings =>
      (NodeSettings.ofSettings store.group settings.replication).layout
    (a.group = b.group ↔ a.Overlaps b ∨ b.Overlaps a) ∧
    (a.group = b.group → layout a = layout b) ∧
    (List.Disjoint (layout a).directories (layout b).directories ↔
      a.group ≠ b.group ∧
      (Path.isAbsolute a.group.name = true → a.group.name ∉ (layout b).directories) ∧
      (Path.isAbsolute b.group.name = true → b.group.name ∉ (layout a).directories)) ∧
    ∀ {σ : Type} (machine : StateMachine σ) (bind : String → Except Failure Unit) (state : σ)
      (host after : Host σ) (numbers : List Nat),
      host.bootstrap machine bind settings state = (after, .ok numbers) →
      ∀ registry ∈ [after.replicas, after.routes],
        (registry.find? a.group).isSome = true ∧
        (registry.find? a.group = registry.find? b.group ↔ a.group = b.group) := by
  intro layout
  have hdifferent : a ≠ b := by
    rintro rfl
    exact hne ((List.getElem?_inj (List.getElem?_eq_some_iff.mp ha).1
      (settings.nodup_stores haccepted)).mp (ha.trans hb.symm))
  refine ⟨?group, ?shared, Layout.disjoint_directories_iff, ?registered⟩
  case group => rw [StoreSettings.group_eq_iff, or_iff_right hdifferent]
  case shared =>
    intro hgroup
    simp only [layout, hgroup]
  case registered =>
    intro σ machine bind state host after numbers hbootstrap registry hregistry
    obtain ⟨hreplicas, hroutes⟩ := Host.bootstrap_ok hbootstrap
    rw [hreplicas, hroutes, List.mem_pair] at hregistry
    have hmemA := List.mem_of_getElem? ha
    have hmemB := List.mem_of_getElem? hb
    rcases hregistry with rfl | rfl
    · exact Registry.find?_withStores_inj _ _ hmemA hmemB
    · exact Registry.find?_withStores_inj _ _ hmemA hmemB

/-- Settings with two stores of one group are accepted. -/
theorem stores_share_group :
    let a : StoreSettings := ⟨"a-b", "c"⟩
    let b : StoreSettings := ⟨"a", "b-c"⟩
    let settings : Settings := { stores := [a, b] }
    settings.check = .ok () ∧ a ≠ b ∧ a.group = b.group := by
  intro a b settings
  have haccepted : settings.check = .ok () := by decide
  have hapart := stores_apart_iff haccepted (i := 0) (j := 1) (by decide) rfl rfl
  exact ⟨haccepted, by decide, hapart.1.mpr (.inl ⟨"b", rfl, rfl⟩)⟩

end Quorum
