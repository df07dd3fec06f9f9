import Quorum.Except
import Quorum.Proofs.Binary.RoundTrip

/-! # Truncated values

A reader of the binary format looks at nothing behind the bytes that it takes: more bytes
change neither the value it finds nor the fault it meets, unless that fault was that bytes
are missing. Every way of making a format from others keeps that. If the format loses
nothing as well, a value that is cut off anywhere is never another value: its bytes end too
early.
-/

namespace Quorum.Binary

variable {α β : Type}

/-- More bytes behind the given ones matter only to a reader that runs out of bytes. -/
structure Reader.Incremental (reader : Reader α) : Prop where
  ok : ∀ {bytes value rest}, reader bytes = .ok (value, rest) →
    ∀ more, reader (bytes ++ more) = .ok (value, rest ++ more)
  error : ∀ {bytes fault}, reader bytes = .error fault →
    (∃ additional, fault = .unexpectedEnd additional) ∨
      ∀ more, reader (bytes ++ more) = .error fault

namespace Reader.Incremental

theorem done (value : α) : Incremental fun bytes => .ok (value, bytes) where
  ok := by
    rintro bytes _ _ ⟨⟩ more
    rfl
  error := by
    rintro bytes _ ⟨⟩

theorem refuse (fault : DecodeError) :
    Incremental (fun _ => .error fault : Reader α) where
  ok := by
    rintro bytes _ _ ⟨⟩
  error := by
    rintro bytes _ ⟨⟩
    exact .inr fun _ => rfl

/-- One reader after another, which may depend on what was read. -/
theorem bind {first : Reader α} {second : α → Reader β} (hfirst : first.Incremental)
    (hsecond : ∀ value, (second value).Incremental) :
    Incremental fun bytes => first bytes >>= fun (value, rest) => second value rest where
  ok := by
    intro bytes value rest h more
    obtain ⟨⟨found, behind⟩, hfound, hrest⟩ := bind_eq_ok.mp h
    rw [hfirst.ok hfound more]
    exact (hsecond found).ok hrest more
  error := by
    intro bytes fault h
    cases hread : first bytes with
    | error cause =>
        rw [hread] at h
        cases h
        refine (hfirst.error hread).imp id fun hmore more => ?_
        rw [hmore more]
        rfl
    | ok found =>
        rw [hread] at h
        refine ((hsecond found.1).error h).imp id fun hmore more => ?_
        rw [hfirst.ok hread more]
        exact hmore more

theorem ite (condition : Prop) [Decidable condition] {first second : Reader α}
    (hfirst : first.Incremental) (hsecond : second.Incremental) :
    Incremental fun bytes => if condition then first bytes else second bytes := by
  by_cases h : condition
  · simpa only [if_pos h] using hfirst
  · simpa only [if_neg h] using hsecond

end Reader.Incremental

namespace Format

open Reader.Incremental

/-- Whether the reader of a format looks at nothing behind the bytes it takes. -/
def Incremental (format : Format α) : Prop :=
  Reader.Incremental format.read

/-- A value whose bytes were cut off before their end is not found, and for no other reason
than that bytes are missing. -/
theorem Lossless.read_part {format : Format α} (h : format.Lossless)
    (hincremental : format.Incremental) {value : α} (hfits : (format.write value).Fits)
    {part missing : Bytes} (hcut : part ++ missing = format.write value) (hmissing : missing ≠ []) :
    ∃ additional, format.read part = .error (.unexpectedEnd additional) := by
  have hwhole := h value hfits []
  rw [List.append_nil, ← hcut] at hwhole
  cases hread : format.read part with
  | ok found =>
      have hmore := hincremental.ok hread missing
      rw [hwhole] at hmore
      have hrest := congrArg Prod.snd (Except.ok.inj hmore)
      exact absurd (List.append_eq_nil_iff.mp hrest.symm).2 hmissing
  | error fault =>
      rcases hincremental.error hread with ⟨additional, rfl⟩ | hmore
      · exact ⟨additional, rfl⟩
      · rw [hmore missing] at hwhole
        contradiction

/-! ## Single values -/

theorem incremental_readBytes (count : Nat) : Reader.Incremental (readBytes count) where
  ok := by
    intro bytes value rest h more
    rw [readBytes] at h
    split at h
    next found hsplit =>
      obtain rfl := Except.ok.inj h
      obtain ⟨rfl, rfl⟩ := Bytes.eq_append_of_splitAt? hsplit
      rw [List.append_assoc, readBytes_append]
    next => contradiction
  error := by
    intro bytes fault h
    rw [readBytes] at h
    split at h
    next => contradiction
    next => exact .inl ⟨_, (Except.error.inj h).symm⟩

theorem incremental_byte : byte.Incremental where
  ok := by
    intro bytes value rest h more
    cases bytes with
    | nil => contradiction
    | cons head tail =>
        obtain ⟨rfl, rfl⟩ := Prod.mk.inj (Except.ok.inj h)
        rfl
  error := by
    intro bytes fault h
    cases bytes with
    | nil => exact .inl ⟨1, (Except.error.inj h).symm⟩
    | cons head tail => contradiction

theorem incremental_unit : unit.Incremental :=
  done ()

theorem incremental_bool : bool.Incremental :=
  incremental_byte.bind fun tag =>
    ite (tag = 0) (done false) (ite (tag = 1) (done true) (refuse (.boolean tag)))

/-- Whether a tag can be used is asked before the bytes behind it are, so a number that is
cut off is not taken for one of another width. -/
theorem incremental_readNumber (kind : IntegerKind) (width : Nat) :
    Reader.Incremental (readNumber kind width) :=
  incremental_byte.bind fun tag => ite (tag < 251) (done tag.toNat) <|
    ite ((announced tag).2 ≠ .reserved ∧ (announced tag).1 ≤ width)
      ((incremental_readBytes (announced tag).1).bind fun digits => done digits.toNat)
      (refuse (.integer kind (announced tag).2))

theorem incremental_u16 : u16.Incremental :=
  (incremental_readNumber .u16 2).bind fun n => done (UInt16.ofNat n)

theorem incremental_u32 : u32.Incremental :=
  (incremental_readNumber .u32 4).bind fun n => done (UInt32.ofNat n)

theorem incremental_u64 : u64.Incremental :=
  (incremental_readNumber .u64 8).bind fun n => done (UInt64.ofNat n)

theorem incremental_i64 : i64.Incremental where
  ok := by
    intro bytes value rest h more
    simp only [i64] at h ⊢
    split at h
    next n behind hread =>
      obtain ⟨rfl, rfl⟩ := Prod.mk.inj (Except.ok.inj h)
      rw [(incremental_readNumber .u64 8).ok hread more]
    next => contradiction
    next => contradiction
  error := by
    intro bytes cause h
    simp only [i64] at h ⊢
    cases hread : readNumber .u64 8 bytes with
    | ok found =>
        rw [hread] at h
        contradiction
    | error found =>
        rw [hread] at h
        rcases (incremental_readNumber .u64 8).error hread with ⟨additional, rfl⟩ | hmore
        · exact .inl ⟨additional, (Except.error.inj h).symm⟩
        · exact .inr fun more => by rw [hmore more, h]

/-- A text that is cut off is found out by its length, before its bytes are decoded. -/
theorem incremental_decoded (content : Bytes) :
    Reader.Incremental fun rest =>
      match Text.Utf8.decode content with
      | .ok text => .ok (text, rest)
      | .error cause => .error (.utf8 cause) := by
  cases Text.Utf8.decode content with
  | ok text => exact done text
  | error cause => exact refuse (.utf8 cause)

theorem incremental_string : string.Incremental :=
  (incremental_readNumber .u64 8).bind fun count =>
    (incremental_readBytes count).bind incremental_decoded

/-! ## Formats made of formats -/

theorem Incremental.convert {format : Format α} (h : format.Incremental) {pack : α → β}
    {unpack : β → α} : (format.convert pack unpack).Incremental :=
  Reader.Incremental.bind h fun value => .done (pack value)

theorem Incremental.pair {first : Format α} {second : Format β} (hfirst : first.Incremental)
    (hsecond : second.Incremental) : (first.pair second).Incremental :=
  Reader.Incremental.bind hfirst fun a => Reader.Incremental.bind hsecond fun b => .done (a, b)

theorem Incremental.option {format : Format α} (h : format.Incremental) :
    (Format.option format).Incremental :=
  incremental_byte.bind fun tag => ite (tag = 0) (done none) <|
    ite (tag = 1) (Reader.Incremental.bind h fun value => done (some value))
      (refuse (.option tag))

theorem incremental_readMany {item : Format α} (h : item.Incremental) (count : Nat) :
    Reader.Incremental (readMany item count) := by
  induction count with
  | zero => exact done []
  | succ count ih =>
      exact Reader.Incremental.bind h fun value => ih.bind fun values => done (value :: values)

theorem Incremental.list {item : Format α} (h : item.Incremental) :
    (Format.list item).Incremental :=
  (incremental_readNumber .usize 8).bind fun count => incremental_readMany h count

theorem incremental_bytes : bytes.Incremental :=
  incremental_byte.list

theorem incremental_choice {count : Nat} {number : α → Nat} {alternative : Nat → Format α}
    (h : ∀ found < count, (alternative found).Incremental) :
    (choice count number alternative).Incremental := by
  have halternative (found : Nat) : Reader.Incremental fun rest =>
      if found < count then (alternative found).read rest
      else .error (.variant found count) := by
    by_cases hfound : found < count
    · simp only [if_pos hfound]
      exact h found hfound
    · simp only [if_neg hfound]
      exact refuse (.variant found count)
  exact (incremental_readNumber .u32 4).bind halternative

end Format
end Quorum.Binary
