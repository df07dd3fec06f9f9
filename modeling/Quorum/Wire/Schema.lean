import Quorum.Text.Utf8
import Quorum.Wire.Field

/-! # Messages on the wire

A schema lists the fields a message knows. A message is written field after field,
without those that hold their default. Read fields may come in any order: the last
one of a number wins, and fields the schema does not know are stepped over.
-/

namespace Quorum.Wire

/-- Where a message keeps the value of a field, by the type of the value. -/
inductive Slot (M : Type) where
  | text (get : M → String) (set : M → String → M)
  | blob (get : M → Bytes) (set : M → Bytes → M)
  | number (get : M → UInt32) (set : M → UInt32 → M)
  | flag (get : M → Bool) (set : M → Bool → M)

/-- A field that a message knows. -/
structure Field (M : Type) where
  number : Nat
  name : String
  slot : Slot M

/-- The fields of a message, and the message in which all have their default. -/
structure Schema (M : Type) where
  name : String
  empty : M
  fields : List (Field M)

/-- Why bytes are no message, and in which known field's value that showed. -/
structure DecodeFailure where
  /-- The names of the message and the field. -/
  place : Option (String × String)
  fault : Fault
  deriving DecidableEq, Repr

def DecodeFailure.message (failure : DecodeFailure) : String :=
  let place := match failure.place with
    | some (message, field) => message ++ "." ++ field ++ ": "
    | none => ""
  "failed to decode Protobuf message: " ++ place ++ failure.fault.message

variable {M : Type}

/-- The shape in which a slot's values are written. -/
def Slot.shape : Slot M → Shape
  | .text _ _ | .blob _ _ => .lengthDelimited
  | .number _ _ | .flag _ _ => .varint

/-- Bytes with their number in front. -/
def writeDelimited (content : Bytes) : Bytes :=
  Varint.write content.length ++ content

/-- The bytes of a field, none where the field holds its default. -/
def Field.write (field : Field M) (message : M) : Bytes :=
  let key := Key.write (Key.mk field.number field.slot.shape)
  match field.slot with
  | .text get _ =>
      if get message = "" then [] else key ++ writeDelimited (Text.Utf8.encode (get message))
  | .blob get _ => if get message = [] then [] else key ++ writeDelimited (get message)
  | .number get _ => if get message = 0 then [] else key ++ Varint.write (get message).toNat
  | .flag get _ => if get message then key ++ Varint.write 1 else []

def Schema.encode (schema : Schema M) (message : M) : Bytes :=
  schema.fields.flatMap (·.write message)

/-- Reads a value into its slot. Of a number the lowest 32 bits are kept, and every
number but zero is true. -/
def Slot.read (slot : Slot M) (shape : Shape) (message : M) (bytes : Bytes) :
    Except Fault (M × Bytes) :=
  if shape ≠ slot.shape then .error (.shape shape slot.shape)
  else match slot with
    | .text _ set =>
        match readDelimited bytes with
        | .error fault => .error fault
        | .ok (content, rest) =>
            match Text.Utf8.decode content with
            | .ok value => .ok (set message value, rest)
            | .error _ => .error .utf8
    | .blob _ set => (readDelimited bytes).map (Prod.map (set message ·) id)
    | .number _ set => (readVarint bytes).map (Prod.map (set message <| .ofNat ·) id)
    | .flag _ set => (readVarint bytes).map (Prod.map (set message <| decide <| · ≠ 0) id)

theorem length_le_of_slot_read {slot : Slot M} {shape : Shape} {message found : M}
    {bytes rest : Bytes} (h : slot.read shape message bytes = .ok (found, rest)) :
    rest.length ≤ bytes.length := by
  have ok_of_map {α : Type} {read : Except Fault (α × Bytes)} {f : α → M}
      (h : read.map (Prod.map f id) = .ok (found, rest)) : ∃ value, read = .ok (value, rest) := by
    cases read with
    | error => simp [Except.map] at h
    | ok pair => exact ⟨pair.1, by simp_all [Except.map, Prod.map, Prod.ext_iff]⟩
  simp only [Slot.read] at h
  split at h
  · contradiction
  · split at h
    · split at h
      · contradiction
      next heq =>
        split at h
        · injection h with h
          injection h with _ h
          subst h
          exact Nat.le_of_lt (length_lt_of_readDelimited heq)
        · contradiction
    · obtain ⟨_, h⟩ := ok_of_map h
      exact Nat.le_of_lt (length_lt_of_readDelimited h)
    · obtain ⟨_, h⟩ := ok_of_map h
      exact Nat.le_of_lt (length_lt_of_readVarint h)
    · obtain ⟨_, h⟩ := ok_of_map h
      exact Nat.le_of_lt (length_lt_of_readVarint h)

/-- Reads the value of a field: into its slot if the schema knows its number. -/
def Schema.readValue (schema : Schema M) (key : Key) (message : M) (bytes : Bytes) :
    Except DecodeFailure (M × Bytes) :=
  match schema.fields.find? (·.number = key.number) with
  | some field =>
      match field.slot.read key.shape message bytes with
      | .ok found => .ok found
      | .error fault => .error ⟨some (schema.name, field.name), fault⟩
  | none =>
      match skipValue key bytes with
      | .ok rest => .ok (message, rest)
      | .error fault => .error ⟨none, fault⟩

theorem length_le_of_closeGroups {opened : List Nat} {bytes rest : Bytes}
    (h : closeGroups opened bytes = .ok rest) : rest.length ≤ bytes.length := by
  fun_induction closeGroups opened bytes with
  | case1 bytes =>
      injection h with h
      exact h ▸ Nat.le_refl _
  | case3 bytes outer key after hkey _ ih =>
      exact Nat.le_trans (ih h) (Nat.le_of_lt (length_lt_of_readKey hkey))
  | case6 bytes number outer key after hkey _ _ _ ih =>
      exact Nat.le_trans (ih h) (Nat.le_of_lt (length_lt_of_readKey hkey))
  | case8 bytes number outer key after hkey _ _ _ skipped hplain ih =>
      have := length_le_of_skipPlain hplain
      have := length_lt_of_readKey hkey
      have := ih h
      omega
  | _ => contradiction

theorem length_le_of_readValue {schema : Schema M} {key : Key} {message found : M}
    {bytes rest : Bytes} (h : schema.readValue key message bytes = .ok (found, rest)) :
    rest.length ≤ bytes.length := by
  simp only [Schema.readValue] at h
  split at h
  · split at h
    next heq =>
      injection h with h
      subst h
      exact length_le_of_slot_read heq
    next => contradiction
  · split at h
    next after heq =>
      injection h with h
      injection h with _ h
      subst h
      simp only [skipValue] at heq
      split at heq
      · exact length_le_of_closeGroups heq
      · exact length_le_of_skipPlain heq
    next => contradiction

/-- Reads all fields into a message. -/
def Schema.merge (schema : Schema M) (message : M) (bytes : Bytes) : Except DecodeFailure M :=
  if bytes = [] then .ok message
  else match _hkey : readKey bytes with
    | .error fault => .error ⟨none, fault⟩
    | .ok (key, rest) =>
        match _hvalue : schema.readValue key message rest with
        | .error failure => .error failure
        | .ok (message, rest) => schema.merge message rest
termination_by bytes.length
decreasing_by
  exact Nat.lt_of_le_of_lt (length_le_of_readValue _hvalue) (length_lt_of_readKey _hkey)

/-- The message that some bytes hold. -/
def Schema.decode (schema : Schema M) (bytes : Bytes) : Except DecodeFailure M :=
  schema.merge schema.empty bytes

end Quorum.Wire
