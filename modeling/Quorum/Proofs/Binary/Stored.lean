import Quorum.Proofs.Binary.RoundTrip
import Quorum.StateMachine.Memory
import Quorum.Storage.Store

/-! # What is stored is read back

The formats of log entries, of the hard state, of snapshots and of the memory's state are
lossless. Memberships are because their sets and addresses are ascending lists, which
putting their values one after the other makes again.
-/

namespace Quorum

open Binary.Format

/-! ## Places, votes and memberships -/

theorem LogId.lossless_format : LogId.format.Lossless :=
  (lossless_u64.pair (lossless_u64.pair lossless_u64)).convert fun _ => rfl

theorem Vote.lossless_format : Vote.format.Lossless :=
  (lossless_u64.pair (lossless_u64.pair lossless_bool)).convert fun _ => rfl

theorem LogId.length_write_le (id : LogId) : (LogId.format.write id).length ≤ 27 := by
  have hterm := length_writeNumber_le id.term.toNat
  have hnode := length_writeNumber_le id.node.toNat
  have hindex := length_writeNumber_le id.index.toNat
  simp only [LogId.format, convert, pair, u64, List.length_append]
  omega

theorem LogId.length_writeOption_le (id : Option LogId) :
    ((Binary.Format.option LogId.format).write id).length ≤ 28 := by
  cases id with
  | none => simp [Binary.Format.option]
  | some id =>
      have hlength := id.length_write_le
      simp only [Binary.Format.option, List.length_cons]
      omega

theorem Vote.length_write_le (vote : Vote) : (Vote.format.write vote).length ≤ 19 := by
  have hterm := length_writeNumber_le vote.term.toNat
  have hnode := length_writeNumber_le vote.node.toNat
  simp only [Vote.format, convert, pair, u64, Binary.Format.bool, List.length_append,
    List.length_cons, List.length_nil]
  omega

theorem Membership.ofLists_self (membership : Membership) :
    ofLists membership.configs membership.nodes = membership := by
  have hconfigs : membership.configs.map (fun voters => Ascending.putAll id voters []) =
      membership.configs := by
    refine (List.map_congr_left fun voters hvoters => ?_).trans (List.map_id _)
    exact Ascending.putAll_nil (membership.voters_ascending voters hvoters)
  have hnodes := Ascending.putAll_nil membership.nodes_ascending
  simp only [ofLists, hconfigs, hnodes]

theorem Membership.lossless_format : Membership.format.Lossless := by
  have hset : (Binary.Format.list Binary.Format.u64).Lossless :=
    lossless_u64.list fun value => length_writeNumber_pos value.toNat
  have hconfigs := hset.list fun voters => by
    simp only [Binary.Format.list, List.length_append]
    have := length_writeNumber_pos voters.length
    omega
  have hnodes := (lossless_u64.pair lossless_string).list fun node => by
    simp only [Binary.Format.pair, Binary.Format.u64, List.length_append]
    have := length_writeNumber_pos node.1.toNat
    omega
  exact (hconfigs.pair hnodes).convert Membership.ofLists_self

theorem StoredMembership.lossless_format : StoredMembership.format.Lossless :=
  (LogId.lossless_format.option.pair Membership.lossless_format).convert fun _ => rfl

/-! ## Entries -/

theorem Payload.lossless_format : Payload.format.Lossless := by
  refine lossless_choice (by decide) (fun payload => by cases payload <;> simp [Payload.number]) ?_
  intro payload
  cases payload with
  | blank => exact (lossless_unit ()).convert rfl
  | normal data => exact (lossless_bytes data).convert rfl
  | membership membership => exact (Membership.lossless_format membership).convert rfl

theorem Entry.lossless_format : Entry.format.Lossless :=
  (LogId.lossless_format.pair Payload.lossless_format).convert fun _ => rfl

/-! ## Hard states and snapshots -/

theorem HardState.lossless_format : HardState.format.Lossless :=
  (Vote.lossless_format.option.pair <|
    LogId.lossless_format.option.pair LogId.lossless_format.option).convert fun _ => rfl

theorem SnapshotMeta.lossless_format : SnapshotMeta.format.Lossless :=
  (LogId.lossless_format.option.pair <|
    StoredMembership.lossless_format.pair lossless_string).convert fun _ => rfl

theorem Snapshot.lossless_format : Snapshot.format.Lossless :=
  (SnapshotMeta.lossless_format.pair lossless_bytes).convert fun _ => rfl

theorem SnapshotContent.lossless_format : SnapshotContent.format.Lossless :=
  (LogId.lossless_format.option.pair <|
    StoredMembership.lossless_format.pair lossless_bytes).convert fun _ => rfl

/-- The bytes that are stored of a value are decoded to the value. -/
theorem decodeStored_write {α : Type} {format : Binary.Format α} (h : format.Lossless)
    {value : α} (hfits : (format.write value).Fits) :
    decodeStored format (format.write value) = .ok value := by
  rw [decodeStored, h.decode_write hfits]

/-! ## The memory's state -/

theorem Action.lossless_format : Action.format.Lossless := by
  refine lossless_choice (by decide) (fun action => by cases action <;> decide) ?_
  intro action
  exact (lossless_unit ()).convert (by rw [Action.ofCode?_code]; rfl)

theorem Command.lossless_format : Command.format.Lossless :=
  (Action.lossless_format.pair lossless_bytes).convert fun _ => rfl

theorem Memory.lossless_format : Memory.format.Lossless := by
  have hcommands := Command.lossless_format.list fun command => by
    simp only [Command.format, Binary.Format.convert, Binary.Format.pair, Action.format,
      Binary.Format.choice, List.length_append]
    have := length_writeNumber_pos command.action.code.toNat
    omega
  exact (lossless_u64.pair <| lossless_u64.pair <| hcommands.pair lossless_i64).convert
    fun _ => rfl

theorem Memory.restore_snapshot {memory : Memory} (hfits : memory.snapshot.Fits) :
    restore memory.snapshot = .ok memory := by
  rw [restore, snapshot, Memory.lossless_format.decode_write hfits]

end Quorum
