import Quorum.Peer.Basic

/-! # Replication groups

Every store has a replication group of its own, named after its database and itself, so
all peers agree on the name. The roster of a group holds the peers it starts with, in the
order in which all of them read the same text. The number of a peer is its place in that
order, counted from one, so all peers of a group agree on it. No peer occurs twice, which
makes numbers and peers correspond.
-/

namespace Quorum

/-- The name of a replication group. -/
structure GroupId where
  name : String
  deriving DecidableEq, Repr

namespace GroupId

def ofStore (database store : String) : GroupId :=
  ⟨database ++ "-" ++ store⟩

/-- A name as diagnostics show it. -/
def debug (group : GroupId) : String :=
  "GroupId(" ++ Text.Quoting.text.quote group.name ++ ")"

/-- Names sorted by their bytes, each one once. -/
def sort (groups : List GroupId) : List GroupId :=
  (groups.mergeSort fun a b => decide (a.name ≤ b.name)).eraseDups

def format : Binary.Format GroupId :=
  Binary.Format.string.convert GroupId.mk GroupId.name

end GroupId

/-- The peers of a group. -/
structure Roster where
  peers : List Peer
  nonempty : peers ≠ []
  nodup : peers.Nodup

namespace Roster

/-- The first peer that also occurs before. -/
def repeated? (before : List Peer) : List Peer → Option Peer
  | [] => none
  | peer :: rest => if peer ∈ before then some peer else repeated? (peer :: before) rest

theorem nodup_of_repeated? {before peers : List Peer} (h : repeated? before peers = none) :
    peers.Nodup ∧ ∀ peer ∈ peers, peer ∉ before := by
  induction peers generalizing before with
  | nil => simp
  | cons peer rest ih =>
      rw [repeated?] at h
      split at h
      · contradiction
      next hnew =>
        obtain ⟨hnodup, hrest⟩ := ih h
        refine ⟨List.nodup_cons.mpr ⟨fun hmem => ?_, hnodup⟩, ?_⟩
        · exact hrest peer hmem List.mem_cons_self
        · intro other hother
          rcases List.mem_cons.mp hother with rfl | hother
          · exact hnew
          · exact fun hmem => hrest other hother (List.mem_cons_of_mem _ hmem)

/-- The roster of some peers, unless there is none or one occurs twice. -/
def ofPeers (peers : List Peer) : Except Failure Roster :=
  if hnonempty : peers = [] then .error (.config "Initial configuration has no peers")
  else match hrepeated : repeated? [] peers with
    | some peer =>
        .error (.config ("Duplicate peer " ++ peer.display ++ " in initial configuration"))
    | none => .ok ⟨peers, hnonempty, (nodup_of_repeated? hrepeated).1⟩

/-- The items of a list in text: what stands between commas, without blanks around it
and without the items that are blank. -/
def items (text : String) : List String :=
  ((text.toList.splitOn ',').map Text.trim).filter (· ≠ []) |>.map String.ofList

/-- Reads a roster from a list in text. -/
def parse (text : String) : Except Failure Roster :=
  if Text.isAllBlank text then
    .error (.config ("Failed to parse group peers '" ++ text ++ "'"))
  else do
    let peers ← (items text).mapM Peer.parse
    ofPeers peers

def display (roster : Roster) : String :=
  ",".intercalate (roster.peers.map Peer.display)

def contains (roster : Roster) (peer : Peer) : Bool :=
  roster.peers.contains peer

def number? (roster : Roster) (peer : Peer) : Option Nat :=
  (roster.peers.idxOf? peer).map (· + 1)

def peer? (roster : Roster) : (number : Nat) → Option Peer
  | 0 => none
  | position + 1 => roster.peers[position]?

/-- The peers with their numbers, in ascending order. -/
def members (roster : Roster) : List (Nat × Peer) :=
  roster.peers.zipIdx.map fun (peer, position) => (position + 1, peer)

end Roster

end Quorum
