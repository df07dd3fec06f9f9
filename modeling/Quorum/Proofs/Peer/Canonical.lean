import Mathlib.Data.List.Forall2
import Quorum.Except
import Quorum.Proofs.Peer.Numbering
import Quorum.Proofs.Text.Surrounded

/-! # Texts of peers and rosters

A peer may be written in many ways: with blanks around it and around its parts, with leading
zeros, plus signs and an index of zero. The text a peer is shown as is one of them. The same
goes for rosters, which may also have blank items.
-/

namespace Quorum

open Text

variable {peer : Peer} {roster : Roster} {text other : String} {host port : List Char}
  {c : Char}

namespace Peer

/-! ## Parts of a peer's text -/

/-- The peer whose parts some texts are. -/
def fromParts : List (List Char) → Except PeerFault Peer
  | [host, port] => ofParts host port none
  | [host, port, index] => ofParts host port (some index)
  | _ => .error .parts

theorem ofParts_trim (host port : List Char) (index : Option (List Char)) :
    ofParts (trim host) (trim port) (index.map trim) = ofParts host port index := by
  cases index with
  | none => simp only [ofParts, trim_trim, Option.map_none]
  | some index => simp only [ofParts, trim_trim, Option.map_some]

theorem fromParts_map_trim (parts : List (List Char)) :
    fromParts (parts.map trim) = fromParts parts := by
  match parts with
  | [] | [_] | _ :: _ :: _ :: _ :: _ => rfl
  | [host, port] => exact ofParts_trim host port none
  | [host, port, index] => exact ofParts_trim host port (some index)

theorem map_trim_eq {outers inners : List (List Char)} (h : List.Forall₂ Surrounds outers inners) :
    outers.map trim = inners.map trim := by
  rw [← List.forall₂_eq_eq_eq, List.forall₂_map_left_iff, List.forall₂_map_right_iff]
  exact h.imp fun _ _ => Surrounds.trim_eq

/-- A peer is read from the parts of its text, whatever blanks are around these. -/
theorem ofText_eq (text : List Char) : ofText text = fromParts ((text.splitOn ':').map trim) := by
  have hcolon : isBlank ':' = false := by decide
  have hparts := map_trim_eq ((surrounds_trim text).splitOn hcolon)
  have htext : ofText text = fromParts ((trim text).splitOn ':') := rfl
  rw [htext, hparts, fromParts_map_trim]

theorem ofText_trim (text : List Char) : ofText (trim text) = ofText text := by
  rw [ofText, ofText, trim_trim]

theorem parse_eq_ok_iff : parse text = .ok peer ↔ ofText text.toList = .ok peer := by
  rw [parse]
  cases ofText text.toList with
  | error fault => exact ⟨nofun, nofun⟩
  | ok found =>
      constructor
      · intro h
        injection h with h
        rw [h]
      · intro h
        injection h with h
        rw [h]

theorem parse_of_parts (h : parse text = .ok peer)
    (hparts : List.Forall₂ Surrounds (other.toList.splitOn ':') (text.toList.splitOn ':')) :
    parse other = .ok peer := by
  rw [parse_eq_ok_iff, ofText_eq] at h ⊢
  rwa [map_trim_eq hparts]

theorem parse_of_surrounds (h : parse text = .ok peer)
    (hother : Surrounds other.toList text.toList) : parse other = .ok peer :=
  parse_of_parts h (hother.splitOn (by decide))

/-! ## Peers that can be read -/

/-- Whether a peer has a text: its host is neither empty nor divided nor with blanks at an end,
and its port is not zero. -/
structure Named (peer : Peer) : Prop where
  host_ne : peer.host ≠ ""
  trim_host : trim peer.host.toList = peer.host.toList
  undivided : ':' ∉ peer.host.toList
  port_ne : peer.port ≠ 0

theorem ofParts_eq_ok {index : Option (List Char)} (h : ofParts host port index = .ok peer) :
    peer.host.toList = trim host ∧ trim host ≠ [] ∧ peer.port ≠ 0 := by
  rw [ofParts] at h
  split at h
  next => cases h
  next hhost =>
    split at h
    next => cases h
    next => cases h
    next number hnonzero hnumber =>
      have hport : UInt16.ofNat number ≠ 0 := by
        intro hzero
        have hle := unsigned?_le hnumber
        have htoNat := congrArg UInt16.toNat hzero
        rw [UInt16.toNat_ofNat_of_lt' (Nat.lt_succ_of_le hle)] at htoNat
        exact hnonzero htoNat
      split at h
      next =>
        injection h with h
        rw [← h]
        exact ⟨String.toList_ofList, hhost, hport⟩
      next =>
        split at h
        next => cases h
        next =>
          injection h with h
          rw [← h]
          exact ⟨String.toList_ofList, hhost, hport⟩

theorem exists_parts_of_parse (h : parse text = .ok peer) :
    ∃ host port index, host ∈ text.toList.splitOn ':' ∧ ofParts host port index = .ok peer := by
  rw [parse_eq_ok_iff, ofText_eq, fromParts_map_trim] at h
  rw [fromParts.eq_def] at h
  split at h
  next host port hparts => exact ⟨host, port, none, by simp [hparts], h⟩
  next host port index hparts => exact ⟨host, port, some index, by simp [hparts], h⟩
  next => cases h

theorem named_of_parse (h : parse text = .ok peer) : peer.Named := by
  obtain ⟨host, port, index, hmem, hok⟩ := exists_parts_of_parse h
  obtain ⟨hhost, hne, hport⟩ := ofParts_eq_ok hok
  refine ⟨?_, ?_, ?_, hport⟩
  · intro hempty
    rw [hempty] at hhost
    exact hne hhost.symm
  · rw [hhost, trim_trim]
  · rw [hhost]
    intro hcolon
    exact (mem_of_mem_splitOn hmem (mem_of_mem_trim hcolon)).2 rfl

/-- The host is a piece of the text it was read from. -/
theorem mem_of_mem_host (h : parse text = .ok peer) (hc : c ∈ peer.host.toList) :
    c ∈ text.toList := by
  obtain ⟨host, port, index, hmem, hok⟩ := exists_parts_of_parse h
  rw [(ofParts_eq_ok hok).1] at hc
  exact (mem_of_mem_splitOn hmem (mem_of_mem_trim hc)).1

/-! ## The text of a peer -/

/-- The texts of a peer's parts. -/
def parts (peer : Peer) : List (List Char) :=
  let numbers := if peer.index = 0 then [] else [peer.index.toNat]
  peer.host.toList :: (peer.port.toNat :: numbers).map (Nat.toDigits 10)

theorem toList_display : peer.display.toList = [':'].intercalate peer.parts := by
  rw [display, parts]
  split
  next => simp [endpoint, List.intercalate]
  next => simp [endpoint, List.intercalate]

theorem not_mem_toDigits (hdigit : c.isDigit = false) (number : Nat) :
    c ∉ Nat.toDigits 10 number := by
  intro hc
  cases hdigit.symm.trans (isDigit_toDigits number c hc)

theorem not_mem_of_mem_parts {part : List Char} (hhost : c ∉ peer.host.toList)
    (hdigit : c.isDigit = false) (hpart : part ∈ peer.parts) : c ∉ part := by
  rcases List.mem_cons.mp hpart with rfl | hpart
  · exact hhost
  · obtain ⟨number, -, rfl⟩ := List.mem_map.mp hpart
    exact not_mem_toDigits hdigit number

theorem trim_toDigits (number : Nat) : trim (Nat.toDigits 10 number) = Nat.toDigits 10 number :=
  trim_eq_self fun c hc => isBlank_of_isDigit (isDigit_toDigits number c hc)

/-- A peer is read back from its parts, where an index that is not shown is zero. -/
theorem fromParts_parts (h : peer.Named) : fromParts peer.parts = .ok peer := by
  obtain ⟨hhost, htrim, -, hport⟩ := h
  have hhost' : peer.host.toList ≠ [] := by
    rwa [Ne, String.toList_eq_nil_iff]
  have hport' : peer.port.toNat ≠ 0 := fun hzero => hport (UInt16.toNat_inj.mp hzero)
  have hportText := unsigned?_toDigits (Nat.le_of_lt_succ peer.port.toNat_lt)
  have hindexText := unsigned?_toDigits (Nat.le_of_lt_succ peer.index.toNat_lt)
  rw [parts]
  split
  next hindex =>
    rw [List.map_cons, List.map_nil, fromParts, ofParts, htrim, if_neg hhost', trim_toDigits,
      hportText]
    simp [← hindex]
  next =>
    rw [List.map_cons, List.map_cons, List.map_nil, fromParts, ofParts, htrim, if_neg hhost',
      trim_toDigits, hportText]
    simp [trim_toDigits, hindexText]

/-- A peer that can be read is read from the text it is shown as. -/
theorem parse_display (h : peer.Named) : parse peer.display = .ok peer := by
  have hcolon : ∀ part ∈ peer.parts, ':' ∉ part := fun part hpart =>
    not_mem_of_mem_parts h.undivided (by decide) hpart
  rw [parse_eq_ok_iff, ofText_eq, toList_display,
    List.splitOn_intercalate ':' hcolon (List.cons_ne_nil _ _), fromParts_map_trim,
    fromParts_parts h]

theorem not_mem_display (hhost : c ∉ peer.host.toList) (hdigit : c.isDigit = false)
    (hcolon : c ≠ ':') : c ∉ peer.display.toList := by
  have hdigits := not_mem_toDigits hdigit
  rw [display]
  split
  next => simp [endpoint, hhost, hdigits, hcolon]
  next => simp [endpoint, hhost, hdigits, hcolon]

theorem parse_ofList_trim (text : String) :
    parse (String.ofList (trim text.toList)) = .ok peer ↔ parse text = .ok peer := by
  rw [parse_eq_ok_iff, parse_eq_ok_iff, String.toList_ofList, ofText_trim]

theorem trim_ne_nil_of_parse (h : parse text = .ok peer) : trim text.toList ≠ [] := by
  intro hblank
  rw [parse_eq_ok_iff, ← ofText_trim, hblank] at h
  cases h

end Peer

namespace Roster

/-! ## Items of a roster's text -/

theorem mapM_eq_ok_iff {ε α β : Type} {step : α → Except ε β} {inputs : List α}
    {outputs : List β} : inputs.mapM step = .ok outputs ↔ inputs.map step = outputs.map .ok := by
  induction inputs generalizing outputs with
  | nil =>
      cases outputs with
      | nil => exact ⟨fun _ => rfl, fun _ => rfl⟩
      | cons => exact ⟨nofun, nofun⟩
  | cons input rest ih =>
      rw [List.mapM_cons, bind_eq_ok]
      constructor
      · rintro ⟨output, houtput, h⟩
        obtain ⟨others, hothers, h⟩ := bind_eq_ok.mp h
        cases h
        rw [List.map_cons, List.map_cons, houtput, ih.mp hothers]
      · intro h
        cases outputs with
        | nil => cases h
        | cons output others =>
            obtain ⟨houtput, hothers⟩ := List.cons.inj h
            exact ⟨output, houtput, bind_eq_ok.mpr ⟨others, ih.mpr hothers, rfl⟩⟩

theorem items_of_isAllBlank (h : isAllBlank text = true) : items text = [] := by
  rw [items, List.map_eq_nil_iff, List.filter_eq_nil_iff]
  intro part hpart
  obtain ⟨whole, hwhole, rfl⟩ := List.mem_map.mp hpart
  have hblank : whole.all isBlank = true := List.all_eq_true.mpr fun c hc =>
    List.all_eq_true.mp h c (mem_of_mem_splitOn hwhole hc).1
  simp [trim_eq_nil_iff.mpr hblank]

/-- A text makes a roster if its items are the roster's peers. -/
theorem parse_eq_ok_iff :
    parse text = .ok roster ↔ (items text).map Peer.parse = roster.peers.map .ok := by
  rw [parse]
  split
  next hblank =>
    rw [items_of_isAllBlank hblank]
    constructor
    · intro h
      cases h
    · intro h
      exact absurd (List.map_eq_nil_iff.mp h.symm) roster.nonempty
  next =>
    rw [bind_eq_ok]
    constructor
    · rintro ⟨peers, hpeers, h⟩
      rw [mapM_eq_ok_iff.mp hpeers, ofPeers_eq_ok_iff.mp h]
    · intro h
      exact ⟨roster.peers, mapM_eq_ok_iff.mpr h, ofPeers_eq_ok_iff.mpr rfl⟩

/-- Whether some parts are others with blanks around them and with blank parts between. -/
inductive Loosened : List (List Char) → List (List Char) → Prop where
  | nil : Loosened [] []
  | part {outer inner : List Char} {outers inners : List (List Char)} (h : Surrounds outer inner)
      (rest : Loosened outers inners) : Loosened (outer :: outers) (inner :: inners)
  | blank {part : List Char} {outers inners : List (List Char)} (h : part.all isBlank = true)
      (rest : Loosened outers inners) : Loosened (part :: outers) inners

theorem Loosened.kept {outers inners : List (List Char)} (h : Loosened outers inners) :
    (outers.map trim).filter (· ≠ []) = (inners.map trim).filter (· ≠ []) := by
  induction h with
  | nil => rfl
  | part h _ ih =>
      rw [List.map_cons, List.map_cons, List.filter_cons, List.filter_cons, h.trim_eq, ih]
  | blank h _ ih =>
      rw [List.map_cons, trim_eq_nil_iff.mpr h, ← ih]
      rfl

theorem parse_of_loosened (h : parse text = .ok roster)
    (hother : Loosened (other.toList.splitOn ',') (text.toList.splitOn ',')) :
    parse other = .ok roster := by
  rw [parse_eq_ok_iff, items] at h ⊢
  rwa [hother.kept]

theorem exists_item_of_parse (h : parse text = .ok roster) (hpeer : peer ∈ roster.peers) :
    ∃ item ∈ items text, Peer.parse item = .ok peer := by
  have hmem := List.mem_map_of_mem (f := Except.ok (ε := Failure)) hpeer
  rwa [← parse_eq_ok_iff.mp h, List.mem_map] at hmem

theorem not_mem_item {item : String} (h : item ∈ items text) : ',' ∉ item.toList := by
  rw [items, List.mem_map] at h
  obtain ⟨part, hpart, rfl⟩ := h
  obtain ⟨whole, hwhole, rfl⟩ := List.mem_map.mp (List.mem_of_mem_filter hpart)
  rw [String.toList_ofList]
  intro hc
  exact (mem_of_mem_splitOn hwhole (mem_of_mem_trim hc)).2 rfl

/-! ## The text of a roster -/

/-- Texts with commas between are the items again, without the blanks around them. -/
theorem items_intercalate {texts : List String} (hne : texts ≠ [])
    (hcomma : ∀ text ∈ texts, ',' ∉ text.toList) (hblank : ∀ text ∈ texts, trim text.toList ≠ []) :
    items (",".intercalate texts) = texts.map fun text => .ofList (trim text.toList) := by
  have hparts : (",".intercalate texts).toList.splitOn ',' = texts.map String.toList := by
    rw [String.toList_intercalate]
    refine List.splitOn_intercalate ',' ?_ (by simpa using hne)
    intro part hpart
    obtain ⟨text, htext, rfl⟩ := List.mem_map.mp hpart
    exact hcomma text htext
  have hkept : ((texts.map String.toList).map trim).filter (· ≠ []) =
      (texts.map String.toList).map trim := by
    rw [List.filter_eq_self]
    intro part hpart
    simp only [List.mem_map, exists_exists_and_eq_and] at hpart
    obtain ⟨text, htext, rfl⟩ := hpart
    simpa using hblank text htext
  rw [items, hparts, hkept, List.map_map, List.map_map]
  rfl

/-- A roster that was read is read again from the text it is shown as. -/
theorem parse_display (h : parse text = .ok roster) : parse roster.display = .ok roster := by
  have hread : ∀ peer ∈ roster.peers, Peer.parse peer.display = .ok peer := by
    intro peer hpeer
    obtain ⟨item, -, hitem⟩ := exists_item_of_parse h hpeer
    exact Peer.parse_display (Peer.named_of_parse hitem)
  have hcomma : ∀ shown ∈ roster.peers.map Peer.display, ',' ∉ shown.toList := by
    intro shown hshown
    obtain ⟨peer, hpeer, rfl⟩ := List.mem_map.mp hshown
    obtain ⟨item, hmem, hitem⟩ := exists_item_of_parse h hpeer
    have hhost : ',' ∉ peer.host.toList := fun hc =>
      not_mem_item hmem (Peer.mem_of_mem_host hitem hc)
    exact Peer.not_mem_display hhost (by decide) (by decide)
  have hblank : ∀ shown ∈ roster.peers.map Peer.display, trim shown.toList ≠ [] := by
    intro shown hshown
    obtain ⟨peer, hpeer, rfl⟩ := List.mem_map.mp hshown
    exact Peer.trim_ne_nil_of_parse (hread peer hpeer)
  have hne : roster.peers.map Peer.display ≠ [] := by
    simpa using roster.nonempty
  rw [parse_eq_ok_iff, display, items_intercalate hne hcomma hblank, List.map_map, List.map_map]
  refine List.map_congr_left fun peer hpeer => ?_
  rw [Function.comp_apply, Function.comp_apply]
  exact (Peer.parse_ofList_trim peer.display).mpr (hread peer hpeer)

/-- Two items that are read as one peer make no roster. -/
theorem refused_of_same {first second : Nat} (hplaces : first ≠ second)
    (hfirst : ((items text).map Peer.parse)[first]? = some (.ok peer))
    (hsecond : ((items text).map Peer.parse)[second]? = some (.ok peer)) :
    ∃ failure, parse text = .error failure := by
  cases h : parse text with
  | error failure => exact ⟨failure, rfl⟩
  | ok roster =>
      have found : ∀ {place : Nat}, ((items text).map Peer.parse)[place]? = some (.ok peer) →
          roster.peers[place]? = some peer := by
        intro place hplace
        rw [parse_eq_ok_iff.mp h, List.getElem?_map, Option.map_eq_some_iff] at hplace
        obtain ⟨_, hpeer, heq⟩ := hplace
        cases heq
        exact hpeer
      obtain ⟨hlt, hpeer⟩ := List.getElem?_eq_some_iff.mp (found hfirst)
      obtain ⟨hlt', hpeer'⟩ := List.getElem?_eq_some_iff.mp (found hsecond)
      exact absurd (roster.nodup.getElem_inj_iff.mp (hpeer.trans hpeer'.symm)) hplaces

end Roster

/-- What a text is read as does not depend on how it is written: a peer and a roster are read
again from the text they are shown as, and from the text with more blanks, which in a roster
may also be items. Every peer that is read has a host and a port. A text makes a roster just if
its items are the peers of that roster, of which no two are the same even when the items differ;
and peers with a proper name can always be read. -/
theorem canonical_texts :
    (∀ peer : Peer, peer.Named → Peer.parse peer.display = .ok peer) ∧
    (∀ (text : String) (peer : Peer), Peer.parse text = .ok peer →
      Peer.parse peer.display = .ok peer ∧
      (∀ other : String, Surrounds other.toList text.toList ∨
          List.Forall₂ Surrounds (other.toList.splitOn ':') (text.toList.splitOn ':') →
        Peer.parse other = .ok peer) ∧
      peer.host ≠ "" ∧ peer.port ≠ 0) ∧
    (∀ (text : String) (roster : Roster), Roster.parse text = .ok roster ↔
      (Roster.items text).map Peer.parse = roster.peers.map .ok) ∧
    (∀ (text : String) (roster : Roster), Roster.parse text = .ok roster →
      Roster.parse roster.display = .ok roster ∧
      (∀ other : String,
          Roster.Loosened (other.toList.splitOn ',') (text.toList.splitOn ',') →
        Roster.parse other = .ok roster) ∧
      roster.peers ≠ [] ∧ (∀ peer ∈ roster.peers, peer.host ≠ "" ∧ peer.port ≠ 0) ∧
      roster.peers.Nodup) ∧
    ∀ (text : String) (first second : Nat) (peer : Peer), first ≠ second →
      ((Roster.items text).map Peer.parse)[first]? = some (.ok peer) →
      ((Roster.items text).map Peer.parse)[second]? = some (.ok peer) →
      ∃ failure, Roster.parse text = .error failure := by
  refine ⟨fun peer => Peer.parse_display, fun text peer h => ?peer,
    fun text roster => Roster.parse_eq_ok_iff, fun text roster h => ?roster,
    fun text first second peer => Roster.refused_of_same⟩
  case peer =>
    have hnamed := Peer.named_of_parse h
    refine ⟨Peer.parse_display hnamed, fun other hother => ?_, hnamed.host_ne, hnamed.port_ne⟩
    rcases hother with hother | hother
    · exact Peer.parse_of_surrounds h hother
    · exact Peer.parse_of_parts h hother
  case roster =>
    refine ⟨Roster.parse_display h, fun other => Roster.parse_of_loosened h, roster.nonempty,
      fun peer hpeer => ?_, roster.nodup⟩
    obtain ⟨item, -, hitem⟩ := Roster.exists_item_of_parse h hpeer
    have hnamed := Peer.named_of_parse hitem
    exact ⟨hnamed.host_ne, hnamed.port_ne⟩

/-- One peer in three texts, of which a roster can have only one. -/
theorem one_peer_in_texts :
    Peer.parse "a:1" = .ok ⟨"a", 1, 0⟩ ∧ Peer.parse " a\t: 1 " = .ok ⟨"a", 1, 0⟩ ∧
      (∃ roster, Roster.parse "a : +01 : 0" = .ok roster ∧
        Roster.parse "a:1" = .ok roster ∧ Roster.parse ", a : +01 : 0 ,, " = .ok roster) ∧
      ∃ failure, Roster.parse "a:1,a : +01 : 0" = .error failure := by
  obtain ⟨hshown, hpeers, -, hrosters, hrefused⟩ := canonical_texts
  have hpeer : Peer.parse "a:1" = .ok ⟨"a", 1, 0⟩ :=
    hshown ⟨"a", 1, 0⟩ ⟨by decide, by decide, by decide, by decide⟩
  let roster : Roster := ⟨[⟨"a", 1, 0⟩], by decide, by decide⟩
  have hroster : Roster.parse "a : +01 : 0" = .ok roster := rfl
  obtain ⟨-, hother, -⟩ := hpeers _ _ hpeer
  obtain ⟨hdisplay, hloosened, -⟩ := hrosters _ _ hroster
  refine ⟨hpeer, hother " a\t: 1 " (.inr ?parts), ⟨roster, hroster, hdisplay, hloosened _ ?items⟩,
    hrefused _ 0 1 _ (by decide) rfl rfl⟩
  case parts =>
    exact .cons ⟨[' '], ['\t'], rfl, rfl, rfl⟩ (.cons ⟨[' '], [' '], rfl, rfl, rfl⟩ .nil)
  case items =>
    exact .blank rfl (.part ⟨[' '], [' '], rfl, rfl, rfl⟩ (.blank rfl (.blank rfl .nil)))

end Quorum
