import Quorum.Peer.Basic
import Quorum.Proofs.Binary.Stored
import Quorum.Proofs.Binary.Truncation

/-! # What is stored and exchanged delimits itself

Whatever a node stores or sends is a value of one of some types. For each of them the bytes
of a value are read back as the value with any bytes behind them, and a part of them that
stops before their end is refused because bytes are missing, so no value's bytes begin with
those of another.
-/

namespace Quorum

open Binary.Format

/-! ## Lossless formats -/

theorem Peer.lossless_format : Peer.format.Lossless :=
  (lossless_string.pair (lossless_u16.pair lossless_u32)).convert fun _ => rfl

theorem ApplyResult.lossless_format : ApplyResult.format.Lossless := by
  refine lossless_choice (by decide) (fun result => by cases result <;> simp [number]) ?_
  intro result
  cases result with
  | ok data => exact (lossless_bytes data).convert rfl
  | noOp => exact (lossless_unit ()).convert rfl
  | error text => exact (lossless_string text).convert rfl

theorem VoteRequest.lossless_format : VoteRequest.format.Lossless :=
  (Vote.lossless_format.pair LogId.lossless_format.option).convert fun _ => rfl

theorem Entry.length_write_pos (entry : Entry) : 0 < (Entry.format.write entry).length := by
  have hterm := length_writeNumber_pos entry.id.term.toNat
  simp only [Entry.format, LogId.format, convert, pair, u64, List.length_append]
  omega

theorem AppendRequest.lossless_format : AppendRequest.format.Lossless :=
  (Vote.lossless_format.pair <| LogId.lossless_format.option.pair <|
    (Entry.lossless_format.list Entry.length_write_pos).pair
      LogId.lossless_format.option).convert fun _ => rfl

theorem InstallRequest.lossless_format : InstallRequest.format.Lossless :=
  (Vote.lossless_format.pair <| SnapshotMeta.lossless_format.pair <|
    lossless_u64.pair <| lossless_bytes.pair lossless_bool).convert fun _ => rfl

/-! ## Incremental formats -/

theorem LogId.incremental_format : LogId.format.Incremental :=
  (incremental_u64.pair (incremental_u64.pair incremental_u64)).convert

theorem Vote.incremental_format : Vote.format.Incremental :=
  (incremental_u64.pair (incremental_u64.pair incremental_bool)).convert

theorem Membership.incremental_format : Membership.format.Incremental :=
  (incremental_u64.list.list.pair (incremental_u64.pair incremental_string).list).convert

theorem StoredMembership.incremental_format : StoredMembership.format.Incremental :=
  (LogId.incremental_format.option.pair Membership.incremental_format).convert

theorem Payload.incremental_format : Payload.format.Incremental := by
  refine incremental_choice fun found _ => ?_
  match found with
  | 0 => exact incremental_unit.convert
  | 1 => exact incremental_bytes.convert
  | _ + 2 => exact Membership.incremental_format.convert

theorem Entry.incremental_format : Entry.format.Incremental :=
  (LogId.incremental_format.pair Payload.incremental_format).convert

theorem HardState.incremental_format : HardState.format.Incremental :=
  (Vote.incremental_format.option.pair <|
    LogId.incremental_format.option.pair LogId.incremental_format.option).convert

theorem SnapshotMeta.incremental_format : SnapshotMeta.format.Incremental :=
  (LogId.incremental_format.option.pair <|
    StoredMembership.incremental_format.pair incremental_string).convert

theorem Snapshot.incremental_format : Snapshot.format.Incremental :=
  (SnapshotMeta.incremental_format.pair incremental_bytes).convert

theorem SnapshotContent.incremental_format : SnapshotContent.format.Incremental :=
  (LogId.incremental_format.option.pair <|
    StoredMembership.incremental_format.pair incremental_bytes).convert

theorem Action.incremental_format : Action.format.Incremental :=
  incremental_choice fun _ _ => incremental_unit.convert

theorem Command.incremental_format : Command.format.Incremental :=
  (Action.incremental_format.pair incremental_bytes).convert

theorem Memory.incremental_format : Memory.format.Incremental :=
  (incremental_u64.pair <| incremental_u64.pair <|
    Command.incremental_format.list.pair incremental_i64).convert

theorem Peer.incremental_format : Peer.format.Incremental :=
  (incremental_string.pair (incremental_u16.pair incremental_u32)).convert

theorem ApplyResult.incremental_format : ApplyResult.format.Incremental := by
  refine incremental_choice fun found _ => ?_
  match found with
  | 0 => exact incremental_bytes.convert
  | 1 => exact incremental_unit.convert
  | _ + 2 => exact incremental_string.convert

theorem VoteRequest.incremental_format : VoteRequest.format.Incremental :=
  (Vote.incremental_format.pair LogId.incremental_format.option).convert

theorem AppendRequest.incremental_format : AppendRequest.format.Incremental :=
  (Vote.incremental_format.pair <| LogId.incremental_format.option.pair <|
    Entry.incremental_format.list.pair LogId.incremental_format.option).convert

theorem InstallRequest.incremental_format : InstallRequest.format.Incremental :=
  (Vote.incremental_format.pair <| SnapshotMeta.incremental_format.pair <|
    incremental_u64.pair <| incremental_bytes.pair incremental_bool).convert

/-! ## All types -/

/-- The types of what is stored and exchanged. -/
inductive Exchanged where
  | command
  | applyResult
  | peer
  /-- Where a node of a membership is reached. -/
  | address
  | logId
  | vote
  | membership
  | storedMembership
  | entry
  | snapshotMeta
  | hardState
  | snapshot
  | snapshotContent
  | memory
  | voteRequest
  | appendRequest
  | installRequest

namespace Exchanged

abbrev Value : Exchanged → Type
  | .command => Command
  | .applyResult => ApplyResult
  | .peer => Peer
  | .address => String
  | .logId => LogId
  | .vote => Vote
  | .membership => Membership
  | .storedMembership => StoredMembership
  | .entry => Entry
  | .snapshotMeta => SnapshotMeta
  | .hardState => HardState
  | .snapshot => Snapshot
  | .snapshotContent => SnapshotContent
  | .memory => Memory
  | .voteRequest => VoteRequest
  | .appendRequest => AppendRequest
  | .installRequest => InstallRequest

def format : (type : Exchanged) → Binary.Format type.Value
  | .command => Command.format
  | .applyResult => ApplyResult.format
  | .peer => Peer.format
  | .address => .string
  | .logId => LogId.format
  | .vote => Vote.format
  | .membership => Membership.format
  | .storedMembership => StoredMembership.format
  | .entry => Entry.format
  | .snapshotMeta => SnapshotMeta.format
  | .hardState => HardState.format
  | .snapshot => Snapshot.format
  | .snapshotContent => SnapshotContent.format
  | .memory => Memory.format
  | .voteRequest => VoteRequest.format
  | .appendRequest => AppendRequest.format
  | .installRequest => InstallRequest.format

theorem lossless_format (type : Exchanged) : type.format.Lossless := by
  cases type with
  | command => exact Command.lossless_format
  | applyResult => exact ApplyResult.lossless_format
  | peer => exact Peer.lossless_format
  | address => exact lossless_string
  | logId => exact LogId.lossless_format
  | vote => exact Vote.lossless_format
  | membership => exact Membership.lossless_format
  | storedMembership => exact StoredMembership.lossless_format
  | entry => exact Entry.lossless_format
  | snapshotMeta => exact SnapshotMeta.lossless_format
  | hardState => exact HardState.lossless_format
  | snapshot => exact Snapshot.lossless_format
  | snapshotContent => exact SnapshotContent.lossless_format
  | memory => exact Memory.lossless_format
  | voteRequest => exact VoteRequest.lossless_format
  | appendRequest => exact AppendRequest.lossless_format
  | installRequest => exact InstallRequest.lossless_format

theorem incremental_format (type : Exchanged) : type.format.Incremental := by
  cases type with
  | command => exact Command.incremental_format
  | applyResult => exact ApplyResult.incremental_format
  | peer => exact Peer.incremental_format
  | address => exact incremental_string
  | logId => exact LogId.incremental_format
  | vote => exact Vote.incremental_format
  | membership => exact Membership.incremental_format
  | storedMembership => exact StoredMembership.incremental_format
  | entry => exact Entry.incremental_format
  | snapshotMeta => exact SnapshotMeta.incremental_format
  | hardState => exact HardState.incremental_format
  | snapshot => exact Snapshot.incremental_format
  | snapshotContent => exact SnapshotContent.incremental_format
  | memory => exact Memory.incremental_format
  | voteRequest => exact VoteRequest.incremental_format
  | appendRequest => exact AppendRequest.incremental_format
  | installRequest => exact InstallRequest.incremental_format

end Exchanged

/-- A value that loses nothing when it is written is found again in front of any bytes. -/
theorem decodeStored_append {α : Type} {format : Binary.Format α} (h : format.Lossless)
    {value : α} (hfits : (format.write value).Fits) (rest : Bytes) :
    decodeStored format (format.write value ++ rest) = .ok value := by
  rw [decodeStored, decode, h value hfits rest]
  rfl

/-- A part of its bytes is refused. -/
theorem decodeStored_part {α : Type} {format : Binary.Format α} (h : format.Lossless)
    (hincremental : format.Incremental) {value : α} (hfits : (format.write value).Fits)
    {part : Bytes} (hpart : part <+: format.write value) (hproper : part ≠ format.write value) :
    ∃ additional, decodeStored format part =
      .error (.serialization (Binary.DecodeError.unexpectedEnd additional).message) := by
  obtain ⟨missing, hcut⟩ := hpart
  have hmissing : missing ≠ [] := by
    rintro rfl
    exact hproper ((List.append_nil part).symm.trans hcut)
  obtain ⟨additional, hread⟩ := h.read_part hincremental hfits hcut hmissing
  refine ⟨additional, ?_⟩
  rw [decodeStored, decode, hread]
  rfl

/-- The bytes of every value that is stored or exchanged tell where they end: with any bytes
behind them the value is read back, and no part that stops before their end is read as
anything, as bytes are missing. -/
theorem exchanged_values_delimit_themselves (type : Exchanged) (value : type.Value)
    (hfits : (type.format.write value).Fits) :
    (∀ rest, decodeStored type.format (type.format.write value ++ rest) = .ok value) ∧
      ∀ part, part <+: type.format.write value → part ≠ type.format.write value →
        ∃ additional, decodeStored type.format part =
          .error (.serialization (Binary.DecodeError.unexpectedEnd additional).message) :=
  ⟨decodeStored_append type.lossless_format hfits,
    fun _ => decodeStored_part type.lossless_format type.incremental_format hfits⟩

/-- An entry with numbers of one, two and four bytes and a membership of two sets. -/
theorem membership_entry_delimits_itself :
    let entry : Entry :=
      ⟨⟨300, 1, 70000⟩, .membership (.ofLists [[1, 2], [3]] [(1, "a:1"), (2, "é:2")])⟩
    (Entry.format.write entry).Fits ∧
      decodeStored Entry.format (Entry.format.write entry ++ [7, 7]) = .ok entry ∧
      ∃ additional, decodeStored Entry.format ((Entry.format.write entry).take 26) =
        .error (.serialization (Binary.DecodeError.unexpectedEnd additional).message) := by
  intro entry
  have hfits : (Entry.format.write entry).Fits := by decide
  obtain ⟨hread, hpart⟩ := exchanged_values_delimit_themselves .entry entry hfits
  exact ⟨hfits, hread [7, 7], hpart _ (List.take_prefix 26 _) (by decide)⟩

end Quorum
