import Mathlib.Data.List.Nodup
import Quorum.Host.Start
import Quorum.Node.Session

/-! # Numbers of peers

Peers and the numbers from one up to their count correspond, since no peer occurs twice in a
roster. All nodes with the same roster therefore mean the same peer by a number: the one they
found the group with, and the one that their replicas take for the leader.
-/

namespace Quorum

namespace Roster

variable {roster : Roster} {peers : List Peer} {peer : Peer} {number : Nat}

/-! ## Rosters of given peers -/

theorem repeated?_eq_none {before : List Peer} (hnodup : peers.Nodup)
    (hnew : ∀ peer ∈ peers, peer ∉ before) : repeated? before peers = none := by
  induction peers generalizing before with
  | nil => rfl
  | cons peer rest ih =>
      obtain ⟨hpeer, hrest⟩ := List.nodup_cons.mp hnodup
      rw [repeated?, if_neg (hnew peer List.mem_cons_self)]
      refine ih hrest fun other hother hmem => ?_
      rcases List.mem_cons.mp hmem with rfl | hmem
      · exact hpeer hother
      · exact hnew other (List.mem_cons_of_mem _ hother) hmem

/-- Any peers make a roster if there are some and none occurs twice. -/
theorem ofPeers_eq_ok_iff : ofPeers peers = .ok roster ↔ roster.peers = peers := by
  constructor
  · intro h
    rw [ofPeers] at h
    split at h
    next => cases h
    next =>
      split at h
      next => cases h
      next =>
        injection h with h
        rw [← h]
  · rintro rfl
    have hrepeated : repeated? [] roster.peers = none :=
      repeated?_eq_none roster.nodup fun _ _ => List.not_mem_nil
    rw [ofPeers, dif_neg roster.nonempty]
    split
    next hsome => cases hrepeated.symm.trans hsome
    next => rfl

/-- A roster is known by its peers. -/
theorem eq_of_peers_eq {other : Roster} (h : roster.peers = other.peers) : roster = other := by
  cases roster
  cases other
  cases h
  rfl

/-- Where a roster of some peers comes from: they are given, or stand in a text. -/
inductive Made (peers : List Peer) : Roster → Prop where
  | given {roster : Roster} (h : ofPeers peers = .ok roster) : Made peers roster
  | read {roster : Roster} {text : String} (hitems : (items text).mapM Peer.parse = .ok peers)
      (h : parse text = .ok roster) : Made peers roster

theorem Made.peers_eq (h : Made peers roster) : roster.peers = peers := by
  cases h with
  | given h => exact ofPeers_eq_ok_iff.mp h
  | read hitems h =>
      rw [Roster.parse] at h
      split at h
      next => cases h
      next =>
        rw [hitems] at h
        exact ofPeers_eq_ok_iff.mp h

/-! ## Peers and numbers -/

theorem peer?_succ (position : Nat) : roster.peer? (position + 1) = roster.peers[position]? :=
  rfl

theorem getElem?_eq_some_iff_idxOf? {position : Nat} :
    roster.peers.idxOf? peer = some position ↔ roster.peers[position]? = some peer := by
  rw [List.idxOf?_eq_some_iff, List.getElem?_eq_some_iff]
  constructor
  · rintro ⟨hlt, hpeer, -⟩
    exact ⟨hlt, hpeer⟩
  · rintro ⟨hlt, hpeer⟩
    refine ⟨hlt, hpeer, fun earlier hearlier heq => ?_⟩
    have hsame := (roster.nodup.getElem_inj_iff).mp (heq.trans hpeer.symm)
    omega

/-- A peer has the number under which it is found. -/
theorem number?_eq_some_iff :
    roster.number? peer = some number ↔ roster.peer? number = some peer := by
  rw [number?, Option.map_eq_some_iff]
  cases number with
  | zero =>
      constructor
      · rintro ⟨position, -, hzero⟩
        cases hzero
      · exact nofun
  | succ position =>
      rw [peer?_succ, ← getElem?_eq_some_iff_idxOf?]
      constructor
      · rintro ⟨_, hposition, heq⟩
        rw [hposition, Nat.succ.inj heq]
      · exact fun h => ⟨position, h, rfl⟩

theorem number?_eq_none_iff : roster.number? peer = none ↔ peer ∉ roster.peers := by
  rw [number?, Option.map_eq_none_iff, List.idxOf?_eq_none_iff]

theorem peer?_eq_none_iff :
    roster.peer? number = none ↔ number = 0 ∨ roster.peers.length < number := by
  cases number with
  | zero => exact ⟨fun _ => .inl rfl, fun _ => rfl⟩
  | succ position =>
      rw [peer?_succ, List.getElem?_eq_none_iff]
      omega

theorem exists_number?_iff :
    (∃ number, roster.number? peer = some number) ↔ peer ∈ roster.peers := by
  rw [← Option.ne_none_iff_exists', Ne, number?_eq_none_iff, Classical.not_not]

theorem exists_peer?_iff :
    (∃ peer, roster.peer? number = some peer) ↔ 1 ≤ number ∧ number ≤ roster.peers.length := by
  rw [← Option.ne_none_iff_exists', Ne, peer?_eq_none_iff]
  omega

/-! ## Members -/

theorem mem_members_iff :
    (number, peer) ∈ roster.members ↔ roster.peer? number = some peer := by
  simp only [members, List.mem_map, Prod.mk.injEq, Prod.exists]
  constructor
  · rintro ⟨_, position, hmem, rfl, rfl⟩
    exact List.mem_zipIdx_iff_getElem?.mp hmem
  · intro h
    cases number with
    | zero => cases h
    | succ position => exact ⟨peer, position, List.mem_zipIdx_iff_getElem?.mpr h, rfl, rfl⟩

/-- The members are numbered from one on without a gap. -/
theorem members_numbers (roster : Roster) :
    roster.members.map Prod.fst = List.range' 1 roster.peers.length := by
  have hpositions := List.zipIdx_map_snd 0 roster.peers
  calc roster.members.map Prod.fst
      = (roster.peers.zipIdx.map Prod.snd).map (1 + ·) := by
        simp only [members, List.map_map, Function.comp_def, Nat.add_comm]
    _ = List.range' 1 roster.peers.length := by rw [hpositions, List.map_add_range']

theorem length_members : roster.members.length = roster.peers.length := by
  have hlength := congrArg List.length (members_numbers roster)
  rwa [List.length_map, List.length_range'] at hlength

theorem le_of_mem_members {member : Nat × Peer} (h : member ∈ roster.members) :
    member.1 ≤ roster.peers.length := by
  have hnumber := List.mem_map_of_mem (f := Prod.fst) h
  rw [members_numbers, List.mem_range'_1] at hnumber
  omega

/-! ## Numbers of 64 bits -/

theorem toNat_number {member : Nat × Peer} (hcount : roster.peers.length < UInt64.size)
    (h : member ∈ roster.members) : (UInt64.ofNat member.1).toNat = member.1 :=
  UInt64.toNat_ofNat_of_lt (Nat.lt_of_le_of_lt (le_of_mem_members h) hcount)

theorem ascending_nodes (hcount : roster.peers.length < UInt64.size) :
    Ascending Prod.fst (roster.members.map fun member =>
      (UInt64.ofNat member.1, member.2.endpoint)) := by
  have hnumbers : roster.members.Pairwise fun a b => a.1 < b.1 := by
    rw [← List.pairwise_map (f := Prod.fst), members_numbers]
    exact List.pairwise_lt_range'
  rw [Ascending, List.pairwise_map]
  refine hnumbers.imp_of_mem fun ha hb hlt => ?_
  rwa [UInt64.lt_iff_toNat_lt, toNat_number hcount ha, toNat_number hcount hb]

/-- A group is founded with all peers, each at its number. -/
theorem nodes_membership (hcount : roster.peers.length < UInt64.size) :
    roster.membership.nodes =
      roster.members.map fun member => (UInt64.ofNat member.1, member.2.endpoint) :=
  Ascending.putAll_nil (ascending_nodes hcount)

theorem mem_nodes_membership {id : UInt64} {address : String}
    (hcount : roster.peers.length < UInt64.size) :
    (id, address) ∈ roster.membership.nodes ↔
      ∃ peer, roster.peer? id.toNat = some peer ∧ peer.endpoint = address := by
  rw [nodes_membership hcount, List.mem_map]
  constructor
  · rintro ⟨⟨number, peer⟩, hmem, heq⟩
    obtain ⟨rfl, rfl⟩ := Prod.mk.inj heq
    refine ⟨peer, ?_, rfl⟩
    rw [toNat_number hcount hmem]
    exact mem_members_iff.mp hmem
  · rintro ⟨peer, hpeer, rfl⟩
    exact ⟨(id.toNat, peer), mem_members_iff.mpr hpeer, by rw [UInt64.ofNat_toNat]⟩

theorem numberOf_eq_ok_iff {id : UInt64} :
    roster.numberOf peer = .ok id ↔
      ∃ number, roster.number? peer = some number ∧ .ofNat number = id := by
  rw [numberOf]
  cases roster.number? peer with
  | none => simp
  | some number => simp

theorem mem_peers_of_numberOf {id : UInt64} (h : roster.numberOf peer = .ok id) :
    peer ∈ roster.peers := by
  obtain ⟨number, hnumber, -⟩ := numberOf_eq_ok_iff.mp h
  exact exists_number?_iff.mp ⟨number, hnumber⟩

theorem not_mem_peers_of_numberOf {failure : Failure} (h : roster.numberOf peer = .error failure) :
    peer ∉ roster.peers := by
  intro hmem
  obtain ⟨number, hnumber⟩ := exists_number?_iff.mpr hmem
  have hok := numberOf_eq_ok_iff.mpr ⟨number, hnumber, rfl⟩
  cases h.symm.trans hok

/-- The number of a peer stands for it, as long as numbers have 64 bits. -/
theorem numberOf_eq_ok_iff_peer? {id : UInt64} (hcount : roster.peers.length < UInt64.size) :
    roster.numberOf peer = .ok id ↔ roster.peer? id.toNat = some peer := by
  rw [numberOf_eq_ok_iff]
  constructor
  · rintro ⟨number, hnumber, rfl⟩
    have hpeer := number?_eq_some_iff.mp hnumber
    rwa [toNat_number hcount (mem_members_iff.mpr hpeer)]
  · intro hpeer
    exact ⟨id.toNat, number?_eq_some_iff.mpr hpeer, UInt64.ofNat_toNat⟩

end Roster

/-- A node takes the peer of the leader's number for the leader. -/
theorem Node.leader?_eq_some_iff {σ : Type} {node : Node σ} {peer : Peer}
    (hcount : node.roster.peers.length < UInt64.size) :
    node.leader? = some peer ↔
      ∃ id, node.replica.leader? = some id ∧ node.roster.numberOf peer = .ok id := by
  rw [Node.leader?, Option.bind_eq_some_iff]
  refine exists_congr fun id => and_congr_right fun _ => ?_
  rw [Roster.numberOf_eq_ok_iff_peer? hcount]

/-- The peers of a roster and the numbers from one up to their count correspond, and there is
no peer under another number and no number for another peer. The members are the pairs of
both in the order of the numbers. As far as the numbers have 64 bits a group is founded with
just these pairs, and all nodes that were told the same peers mean the same one by the number
of the leader. -/
theorem Roster.numbers_correspond {peers : List Peer} {roster : Roster}
    (h : Made peers roster) :
    (∀ peer, roster.contains peer = true ↔ peer ∈ peers) ∧
    (∀ peer ∈ peers, ∃ number, roster.number? peer = some number ∧
      1 ≤ number ∧ number ≤ peers.length ∧ roster.peer? number = some peer) ∧
    (∀ number, 1 ≤ number → number ≤ peers.length →
      ∃ peer ∈ peers, roster.peer? number = some peer ∧ roster.number? peer = some number) ∧
    (∀ peer, roster.number? peer = none ↔ peer ∉ peers) ∧
    (∀ number, roster.peer? number = none ↔ number = 0 ∨ peers.length < number) ∧
    roster.members.map Prod.fst = List.range' 1 peers.length ∧
    (∀ number peer, (number, peer) ∈ roster.members ↔ roster.peer? number = some peer) ∧
    (peers.length < UInt64.size →
      roster.membership.nodes.length = peers.length ∧
      (∀ id address, (id, address) ∈ roster.membership.nodes ↔
        ∃ peer, roster.peer? id.toNat = some peer ∧ peer.endpoint = address) ∧
      ∀ {σ : Type} (node : Node σ) (peer : Peer), Made peers node.roster →
        (node.leader? = some peer ↔
          ∃ id, node.replica.leader? = some id ∧ roster.numberOf peer = .ok id)) := by
  obtain rfl := h.peers_eq
  refine ⟨fun peer => List.contains_iff_mem, ?numbered, ?found, fun peer => number?_eq_none_iff,
    fun number => peer?_eq_none_iff, members_numbers roster, fun number peer => mem_members_iff,
    fun hcount => ⟨?_, fun id address => mem_nodes_membership hcount, ?leader⟩⟩
  case numbered =>
    intro peer hpeer
    obtain ⟨number, hnumber⟩ := exists_number?_iff.mpr hpeer
    have hback := number?_eq_some_iff.mp hnumber
    obtain ⟨hpos, hle⟩ := exists_peer?_iff.mp ⟨peer, hback⟩
    exact ⟨number, hnumber, hpos, hle, hback⟩
  case found =>
    intro number hpos hle
    obtain ⟨peer, hpeer⟩ := exists_peer?_iff.mpr ⟨hpos, hle⟩
    have hnumber := number?_eq_some_iff.mpr hpeer
    exact ⟨peer, exists_number?_iff.mp ⟨number, hnumber⟩, hpeer, hnumber⟩
  case leader =>
    intro σ node peer hmade
    obtain rfl := eq_of_peers_eq hmade.peers_eq
    exact Node.leader?_eq_some_iff hcount
  rw [nodes_membership hcount, List.length_map, length_members]

/-- Two peers on one endpoint have different numbers, and are told apart as leaders. -/
theorem Roster.second_of_endpoint :
    let peers : List Peer := [⟨"a", 1, 0⟩, ⟨"a", 1, 1⟩]
    let roster : Roster := ⟨peers, by decide, by decide⟩
    let node : Node Unit :=
      { group := ⟨"g"⟩, peer := ⟨"a", 1, 0⟩, roster, layout := .ofRoot "" ⟨"g"⟩ false
        forwardTimeout := 0
        replica :=
          { number := 1
            store :=
              { group := ⟨"g"⟩, logPath := "", volume := {}, state := ()
                hardState := { vote := some ⟨1, 2, true⟩ }
                lastMembership := ⟨none, roster.membership⟩ } } }
    Roster.parse " a:1:0 ,, a:1:1" = .ok roster ∧
      roster.membership.nodes.length = 2 ∧ roster.peer? 3 = none ∧
      roster.numberOf ⟨"a", 1, 1⟩ = .ok 2 ∧ node.leader? = some ⟨"a", 1, 1⟩ := by
  intro peers roster node
  have hread : Roster.parse " a:1:0 ,, a:1:1" = .ok roster := rfl
  have hmade : Made peers roster := .read (by rfl) hread
  obtain ⟨-, -, -, -, hnone, -, -, hwords⟩ := numbers_correspond hmade
  obtain ⟨hlength, -, hleader⟩ := hwords (by decide)
  exact ⟨hread, hlength, (hnone 3).mpr (.inr (by decide)), rfl,
    (hleader node _ hmade).mpr ⟨2, by decide, rfl⟩⟩

end Quorum
