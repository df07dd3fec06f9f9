import Quorum.Proofs.Binary.RoundTrip
import Quorum.Wire.Message

/-! # Messages are read back from the wire

What was written for a message is read as that message, or not at all: a text or a byte
string whose length is no number of 64 bits makes the reader fail at its length. Fields
that hold their default are not written, so reading starts from a message in which all do.
-/

namespace Quorum.Wire

theorem Varint.readWithin_last {n : Nat} (hn : n < 128) (left : Nat) (rest : Bytes) :
    readWithin (left + 1) (UInt8.ofNat n :: rest) =
      if left = 0 ∧ 1 < n then none else some (n, rest) := by
  have hbyte : (UInt8.ofNat n).toNat = n := by
    rw [UInt8.toNat_ofNat']
    omega
  have hlast : UInt8.ofNat n < 128 := by
    rw [UInt8.lt_iff_toNat_lt, hbyte]
    exact hn
  have hlow : 1 < UInt8.ofNat n ↔ 1 < n := by
    rw [UInt8.lt_iff_toNat_lt, hbyte]
    rfl
  simp only [readWithin, if_pos hlast, hlow, hbyte]

theorem Varint.readWithin_more {low : Nat} (hlow : low < 128) (left : Nat) (rest : Bytes) :
    readWithin (left + 1) (UInt8.ofNat (128 + low) :: rest) =
      (readWithin left rest).map fun (high, rest) => (low + 128 * high, rest) := by
  have hbyte : (UInt8.ofNat (128 + low)).toNat = 128 + low := by
    rw [UInt8.toNat_ofNat']
    omega
  have hmore : ¬ UInt8.ofNat (128 + low) < 128 := by
    rw [UInt8.lt_iff_toNat_lt, hbyte]
    exact Nat.not_lt.2 (Nat.le_add_right 128 low)
  simp only [readWithin, if_neg hmore, hbyte, Nat.add_sub_cancel_left]
  cases readWithin left rest <;> rfl

/-- A number that has room in its bytes is read back, and a larger one is refused. -/
theorem Varint.readWithin_write (left n : Nat) (rest : Bytes) :
    readWithin (left + 1) (write n ++ rest) =
      if n < 2 * Nat.pow 128 left then some (n, rest) else none := by
  rw [Nat.pow_eq]
  induction left generalizing n with
  | zero =>
      rw [write]
      split
      next hn =>
        rw [List.singleton_append, readWithin_last hn]
        by_cases htwo : n < 2
        · rw [if_neg (by omega), if_pos (by omega)]
        · rw [if_pos (by omega), if_neg (by omega)]
      next hn =>
        rw [List.cons_append, readWithin_more (Nat.mod_lt n (by omega)), if_neg (by omega)]
        rfl
  | succ left ih =>
      have hpow : 1 ≤ 128 ^ left := Nat.one_le_pow left 128 (by omega)
      rw [write, Nat.pow_succ']
      split
      next hn =>
        rw [List.singleton_append, readWithin_last hn, if_neg (by omega), if_pos (by omega)]
      next hn =>
        rw [List.cons_append, readWithin_more (Nat.mod_lt n (by omega)), ih]
        by_cases hroom : n / 128 < 2 * 128 ^ left
        · have hsum : n % 128 + 128 * (n / 128) = n := Nat.mod_add_div n 128
          rw [if_pos hroom, if_pos (by omega), Option.map_some]
          simp only [hsum]
        · rw [if_neg hroom, if_neg (by omega)]
          rfl

theorem Varint.read_write (n : Nat) (rest : Bytes) :
    read (write n ++ rest) = if n < UInt64.size then some (n, rest) else none :=
  readWithin_write 9 n rest

theorem readVarint_write (n : Nat) (rest : Bytes) :
    readVarint (Varint.write n ++ rest) =
      if n < UInt64.size then .ok (n, rest) else .error .varint := by
  rw [readVarint, Varint.read_write]
  by_cases hn : n < UInt64.size
  · rw [if_pos hn, if_pos hn]
  · rw [if_neg hn, if_neg hn]

/-- The length in front tells how many bytes are taken. -/
theorem readDelimited_of_readVarint {bytes content rest : Bytes}
    (h : readVarint bytes = .ok (content.length, content ++ rest)) :
    readDelimited bytes = .ok (content, rest) := by
  rw [readDelimited, h]
  simp only [readBytes, Bytes.splitAt?_append]

theorem readDelimited_write (content rest : Bytes) :
    readDelimited (writeDelimited content ++ rest) =
      if content.Fits then .ok (content, rest) else .error .varint := by
  have hlength := readVarint_write content.length (content ++ rest)
  rw [← List.append_assoc] at hlength
  by_cases hfits : content.Fits
  · rw [if_pos hfits]
    rw [if_pos (show content.length < UInt64.size from hfits)] at hlength
    exact readDelimited_of_readVarint hlength
  · rw [if_neg hfits]
    rw [if_neg (show ¬ content.length < UInt64.size from hfits)] at hlength
    rw [readDelimited, writeDelimited, hlength]

/-- A key is read from its number. -/
theorem readKey_of_readVarint {key : Key} (hpos : 0 < key.number)
    (hbound : 8 * key.number + key.shape.code < UInt32.size) {bytes rest : Bytes}
    (h : readVarint bytes = .ok (8 * key.number + key.shape.code, rest)) :
    readKey bytes = .ok (key, rest) := by
  obtain ⟨number, shape⟩ := key
  have hcode : shape.code < 8 := by cases shape <;> decide
  have hshape : Shape.ofCode? shape.code = some shape := by cases shape <;> rfl
  have hmod : (8 * number + shape.code) % 8 = shape.code := by omega
  have hdiv : (8 * number + shape.code) / 8 = number := by omega
  simp only [readKey, h, hmod, hdiv, hshape]
  rw [if_neg (Nat.not_le.mpr hbound), if_neg (by dsimp only at hpos; omega)]

theorem readKey_write {key : Key} (hpos : 0 < key.number)
    (hbound : 8 * key.number + 8 ≤ UInt32.size) (rest : Bytes) :
    readKey (key.write ++ rest) = .ok (key, rest) := by
  have hcode : key.shape.code < 8 := by cases key.shape <;> decide
  have hread := readVarint_write (8 * key.number + key.shape.code) rest
  rw [if_pos (by simp only [UInt64.size, UInt32.size] at hbound ⊢; omega)] at hread
  exact readKey_of_readVarint hpos (by omega) hread

section Slots

variable {M : Type}

/-- The bytes of the value in a slot. -/
def Slot.write (slot : Slot M) (message : M) : Bytes :=
  match slot with
  | .text get _ => writeDelimited (Text.Utf8.encode (get message))
  | .blob get _ => writeDelimited (get message)
  | .number get _ => Varint.write (get message).toNat
  | .flag get _ => Varint.write (get message).toNat

/-- Whether a slot holds the default of its values. -/
def Slot.isDefault (slot : Slot M) (message : M) : Bool :=
  match slot with
  | .text get _ => get message = ""
  | .blob get _ => get message = []
  | .number get _ => get message = 0
  | .flag get _ => !get message

/-- The bytes of a value that have their length in front. -/
def Slot.content (slot : Slot M) (message : M) : Bytes :=
  match slot with
  | .text get _ => Text.Utf8.encode (get message)
  | .blob get _ => get message
  | .number _ _ | .flag _ _ => []

/-- Copies the value in a slot into another message. -/
def Slot.copy (slot : Slot M) (source message : M) : M :=
  match slot with
  | .text get set => set message (get source)
  | .blob get set => set message (get source)
  | .number get set => set message (get source)
  | .flag get set => set message (get source)

theorem Slot.content_of_isDefault {slot : Slot M} {message : M} (h : slot.isDefault message) :
    slot.content message = [] := by
  cases slot with
  | text get set =>
      have hempty : get message = "" := by simpa [isDefault] using h
      rw [content, hempty]
      rfl
  | blob get set =>
      have hempty : get message = [] := by simpa [isDefault] using h
      rw [content, hempty]
  | number => rfl
  | flag => rfl

theorem Slot.read_write (slot : Slot M) (source message : M) (rest : Bytes) :
    slot.read slot.shape message (slot.write source ++ rest) =
      if (slot.content source).Fits then .ok (slot.copy source message, rest)
      else .error .varint := by
  cases slot with
  | text get set =>
      simp only [read, write, content, copy, ne_eq, not_true, if_false, readDelimited_write]
      by_cases hfits : (Text.Utf8.encode (get source)).Fits
      · simp [hfits]
      · simp [hfits]
  | blob get set =>
      simp only [read, write, content, copy, ne_eq, not_true, if_false, readDelimited_write]
      by_cases hfits : (get source).Fits
      · simp [hfits, Except.map]
      · simp [hfits, Except.map]
  | number get set =>
      have hbound : (get source).toNat < UInt64.size :=
        Nat.lt_trans (get source).toNat_lt (by decide)
      simp [read, write, content, copy, readVarint_write, hbound, Except.map, Bytes.Fits]
  | flag get set =>
      have hbound : (get source).toNat < UInt64.size := by
        cases get source <;> decide
      cases hflag : get source <;>
        simp_all [read, write, content, copy, readVarint_write, Except.map, Bytes.Fits]

theorem Field.write_eq (field : Field M) (message : M) :
    field.write message = if field.slot.isDefault message then []
      else Key.write ⟨field.number, field.slot.shape⟩ ++ field.slot.write message := by
  obtain ⟨number, name, slot⟩ := field
  cases slot with
  | text get set => simp [write, Slot.isDefault, Slot.write]
  | blob get set => simp [write, Slot.isDefault, Slot.write]
  | number get set => simp [write, Slot.isDefault, Slot.write]
  | flag get set => cases hflag : get message <;> simp [write, Slot.isDefault, Slot.write, hflag]

/-- Copies the value of a field into another message, unless it is the default. -/
def Field.copy (field : Field M) (source message : M) : M :=
  if field.slot.isDefault source then message else field.slot.copy source message

/-- A field that can be told from the others of a schema by a key of 32 bits. -/
structure Schema.Knows (schema : Schema M) (field : Field M) : Prop where
  found : schema.fields.find? (·.number = field.number) = some field
  positive : 0 < field.number
  bounded : 8 * field.number + 8 ≤ UInt32.size

variable {schema : Schema M}

/-- Reading goes on behind a value that was read. -/
theorem Schema.merge_of_value {key : Key} {message found : M} {bytes rest after : Bytes}
    (hkey : readKey bytes = .ok (key, rest))
    (hvalue : schema.readValue key message rest = .ok (found, after)) :
    schema.merge message bytes = schema.merge found after := by
  have hne : bytes ≠ [] := by
    rintro rfl
    simp [readKey, readVarint, Varint.read, Varint.readWithin] at hkey
  rw [Schema.merge, if_neg hne]
  split
  next heq =>
    rw [hkey] at heq
    contradiction
  next heq =>
    rw [hkey] at heq
    injection heq with heq
    injection heq with hk hr
    subst hk hr
    split
    next heq =>
      rw [hvalue] at heq
      contradiction
    next heq =>
      rw [hvalue] at heq
      injection heq with heq
      injection heq with hf ha
      rw [hf, ha]

/-- Reading ends at a value that cannot be read. -/
theorem Schema.merge_of_fault {key : Key} {message : M} {bytes rest : Bytes}
    {failure : DecodeFailure} (hkey : readKey bytes = .ok (key, rest))
    (hvalue : schema.readValue key message rest = .error failure) :
    schema.merge message bytes = .error failure := by
  have hne : bytes ≠ [] := by
    rintro rfl
    simp [readKey, readVarint, Varint.read, Varint.readWithin] at hkey
  rw [Schema.merge, if_neg hne]
  split
  next heq =>
    rw [hkey] at heq
    contradiction
  next heq =>
    rw [hkey] at heq
    injection heq with heq
    injection heq with hk hr
    subst hk hr
    split
    next heq =>
      rw [hvalue] at heq
      injection heq with heq
      rw [heq]
    next heq =>
      rw [hvalue] at heq
      contradiction

/-- Reading a written field copies its value, if its length can be told. -/
theorem Schema.Knows.merge {field : Field M} (h : schema.Knows field) (source message : M)
    (rest : Bytes) :
    schema.merge message (field.write source ++ rest) =
      if (field.slot.content source).Fits then schema.merge (field.copy source message) rest
      else .error ⟨some (schema.name, field.name), .varint⟩ := by
  rw [Field.write_eq, Field.copy]
  cases hdefault : field.slot.isDefault source with
  | true =>
      have hfits : (field.slot.content source).Fits := by
        rw [Slot.content_of_isDefault hdefault]
        decide
      simp only [if_true, List.nil_append, if_pos hfits]
  | false =>
      simp only [Bool.false_eq_true, if_false, List.append_assoc]
      have hkey := @readKey_write ⟨field.number, field.slot.shape⟩ h.positive h.bounded
        (field.slot.write source ++ rest)
      by_cases hfits : (field.slot.content source).Fits
      · rw [if_pos hfits]
        apply merge_of_value hkey
        simp only [readValue, h.found, Slot.read_write, if_pos hfits]
      · rw [if_neg hfits]
        apply merge_of_fault hkey
        simp only [readValue, h.found, Slot.read_write, if_neg hfits]

/-- Reading written fields copies their values. -/
theorem Schema.merge_fields {fields : List (Field M)}
    (hknows : ∀ field ∈ fields, schema.Knows field) {source : M}
    (hfits : ∀ field ∈ fields, (field.slot.content source).Fits) (message : M) :
    schema.merge message (fields.flatMap (·.write source)) =
      .ok (fields.foldl (fun message field => field.copy source message) message) := by
  induction fields generalizing message with
  | nil => rw [List.flatMap_nil, Schema.merge, if_pos rfl, List.foldl_nil]
  | cons field fields ih =>
      obtain ⟨hfield, hfields⟩ := List.forall_mem_cons.1 hknows
      obtain ⟨hfit, hfit'⟩ := List.forall_mem_cons.1 hfits
      rw [List.flatMap_cons, hfield.merge, if_pos hfit, ih hfields hfit', List.foldl_cons]

/-- Written fields that are read have lengths that could be told. -/
theorem Schema.fits_of_merge_fields {fields : List (Field M)}
    (hknows : ∀ field ∈ fields, schema.Knows field) {source message found : M}
    (h : schema.merge message (fields.flatMap (·.write source)) = .ok found) :
    ∀ field ∈ fields, (field.slot.content source).Fits := by
  induction fields generalizing message with
  | nil => simp
  | cons field fields ih =>
      obtain ⟨hfield, hfields⟩ := List.forall_mem_cons.1 hknows
      rw [List.flatMap_cons, hfield.merge] at h
      split at h
      next hfit => exact List.forall_mem_cons.2 ⟨hfit, ih hfields h⟩
      next => contradiction

/-- A schema that knows its fields, and whose fields are all that a message has. -/
structure Schema.Lossless (schema : Schema M) : Prop where
  knows : ∀ field ∈ schema.fields, schema.Knows field
  complete : ∀ message,
    schema.fields.foldl (fun found field => field.copy message found) schema.empty = message

theorem Schema.Lossless.decode_encode (h : schema.Lossless) {message : M}
    (hfits : ∀ field ∈ schema.fields, (field.slot.content message).Fits) :
    schema.decode (schema.encode message) = .ok message := by
  rw [decode, encode, merge_fields h.knows hfits, h.complete]

/-- The bytes of a message hold no other message, however long its parts are. -/
theorem Schema.Lossless.eq_of_decode (h : schema.Lossless) {message found : M}
    (hdecode : schema.decode (schema.encode message) = .ok found) : found = message := by
  have hfits := fits_of_merge_fields h.knows hdecode
  rw [h.decode_encode hfits] at hdecode
  injection hdecode with hdecode
  exact hdecode.symm

end Slots

theorem lossless_commandRequest : commandRequest.Lossless where
  knows := by
    intro field hfield
    simp only [commandRequest, List.mem_cons, List.not_mem_nil, or_false] at hfield
    rcases hfield with rfl | rfl | rfl <;> exact ⟨rfl, by decide, by decide⟩
  complete := by
    rintro ⟨group, action, data⟩
    by_cases hgroup : group = "" <;> by_cases haction : action = 0 <;>
      by_cases hdata : data = [] <;>
        simp [commandRequest, Field.copy, Slot.isDefault, Slot.copy, hgroup, haction, hdata]

theorem lossless_peerRequest : peerRequest.Lossless where
  knows := by
    intro field hfield
    simp only [peerRequest, List.mem_cons, List.not_mem_nil, or_false] at hfield
    rcases hfield with rfl | rfl | rfl <;> exact ⟨rfl, by decide, by decide⟩
  complete := by
    rintro ⟨group, kind, payload⟩
    by_cases hgroup : group = "" <;> by_cases hkind : kind = "" <;>
      by_cases hpayload : payload = [] <;>
        simp [peerRequest, Field.copy, Slot.isDefault, Slot.copy, hgroup, hkind, hpayload]

theorem lossless_peerResponse : peerResponse.Lossless where
  knows := by
    intro field hfield
    simp only [peerResponse, List.mem_cons, List.not_mem_nil, or_false] at hfield
    rcases hfield with rfl | rfl <;> exact ⟨rfl, by decide, by decide⟩
  complete := by
    rintro ⟨payload, error⟩
    by_cases hpayload : payload = [] <;> by_cases herror : error = "" <;>
      simp [peerResponse, Field.copy, Slot.isDefault, Slot.copy, hpayload, herror]

theorem lossless_commandResponse : commandResponse.Lossless where
  knows := by
    intro field hfield
    simp only [commandResponse, List.mem_cons, List.not_mem_nil, or_false] at hfield
    rcases hfield with rfl | rfl <;> exact ⟨rfl, by decide, by decide⟩
  complete := by
    rintro ⟨status, message⟩
    cases status <;> by_cases hmessage : message = "" <;>
      simp [commandResponse, Field.copy, Slot.isDefault, Slot.copy, hmessage]

end Quorum.Wire
