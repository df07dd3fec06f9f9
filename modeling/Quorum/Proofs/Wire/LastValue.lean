import Quorum.Proofs.Wire.Spelling

/-! # The last value of a field counts

A message is made of a run of fields, in any order and any form, with fields among them that it
does not know. Its reader gives each field the last value that the run has for it, and the
default if there is none. What a message is written as is one of these runs, so of two messages
written one after the other the second one overwrites the first.
-/

namespace Quorum.Wire

/-! ## Values -/

/-- A value of a field, by its type. -/
inductive Value where
  | text (value : String)
  | blob (value : Bytes)
  | number (value : UInt32)
  | flag (value : Bool)
  deriving DecidableEq, Repr

variable {M : Type}

namespace Slot

/-- The value that a message has in a slot. -/
def value (slot : Slot M) (message : M) : Value :=
  match slot with
  | .text get _ => .text (get message)
  | .blob get _ => .blob (get message)
  | .number get _ => .number (get message)
  | .flag get _ => .flag (get message)

/-- The default of a slot's values. -/
def default : Slot M → Value
  | .text _ _ => .text ""
  | .blob _ _ => .blob []
  | .number _ _ => .number 0
  | .flag _ _ => .flag false

/-- The message with another value in a slot. Values of other types leave it as it is. -/
def put (slot : Slot M) (value : Value) (message : M) : M :=
  match slot, value with
  | .text _ set, .text value => set message value
  | .blob _ set, .blob value => set message value
  | .number _ set, .number value => set message value
  | .flag _ set, .flag value => set message value
  | _, _ => message

/-- Whether values of a type belong in a slot. -/
def Takes : Slot M → Value → Prop
  | .text _ _, .text _ | .blob _ _, .blob _ | .number _ _, .number _ | .flag _ _, .flag _ => True
  | _, _ => False

/-- The bytes in which a value of a slot may stand. A number of more than 32 bits stands for its
lowest ones, and every number but zero for true. -/
inductive Spells : Slot M → Value → Bytes → Prop where
  | text {get : M → String} {set : M → String → M} {value : String} {bytes : Bytes}
      (h : Delimited (Text.Utf8.encode value) bytes) : Spells (.text get set) (.text value) bytes
  | blob {get : M → Bytes} {set : M → Bytes → M} {value bytes : Bytes}
      (h : Delimited value bytes) : Spells (.blob get set) (.blob value) bytes
  | number {get : M → UInt32} {set : M → UInt32 → M} {n : Nat} {bytes : Bytes}
      (h : Varint.Admissible n bytes) : Spells (.number get set) (.number (.ofNat n)) bytes
  | flag {get : M → Bool} {set : M → Bool → M} {n : Nat} {bytes : Bytes}
      (h : Varint.Admissible n bytes) : Spells (.flag get set) (.flag (decide (n ≠ 0))) bytes

variable {slot : Slot M} {value : Value} {bytes : Bytes} {message : M}

theorem Spells.takes (h : slot.Spells value bytes) : slot.Takes value := by
  cases h <;> trivial

theorem Spells.read (h : slot.Spells value bytes) (message : M) (rest : Bytes) :
    slot.read slot.shape message (bytes ++ rest) = .ok (slot.put value message, rest) := by
  cases h with
  | text h => simp [Slot.read, put, h.readDelimited]
  | blob h => simp [Slot.read, put, h.readDelimited, Except.map]
  | number h => simp [Slot.read, put, h.readVarint, Except.map]
  | flag h => simp [Slot.read, put, h.readVarint, Except.map]

/-- What is written for a slot is one of the forms of its value. -/
theorem spells_write (hfits : (slot.content message).Fits) :
    slot.Spells (slot.value message) (slot.write message) := by
  cases slot with
  | text get set => exact .text (delimited_write hfits)
  | blob get set => exact .blob (delimited_write hfits)
  | number get set =>
      have hbound : (get message).toNat < UInt64.size :=
        Nat.lt_trans (get message).toNat_lt (by decide)
      have hspells := @Spells.number M get set _ _ (Varint.admissible_write hbound)
      rwa [UInt32.ofNat_toNat] at hspells
  | flag get set =>
      have hbound : (get message).toNat < UInt64.size := by
        cases get message <;> decide
      have hspells := @Spells.flag M get set _ _ (Varint.admissible_write hbound)
      have hvalue : decide ((get message).toNat ≠ 0) = get message := by
        cases get message <;> rfl
      rwa [hvalue] at hspells

theorem value_of_isDefault (h : slot.isDefault message) : slot.value message = slot.default := by
  cases slot <;> simp_all [isDefault, value, default]

end Slot

/-! ## Runs of fields -/

/-- The bytes of a run of fields, and the values that it has for the numbers of known fields, in
order. -/
inductive Schema.Spells (schema : Schema M) : List (Nat × Value) → Bytes → Prop where
  | done : schema.Spells [] []
  | known {field : Field M} {value : Value} {values : List (Nat × Value)}
      {front bytes rest : Bytes} (hfield : field ∈ schema.fields)
      (hkey : Key.Spells ⟨field.number, field.slot.shape⟩ front)
      (hvalue : field.slot.Spells value bytes) (hrest : schema.Spells values rest) :
      schema.Spells ((field.number, value) :: values) (front ++ (bytes ++ rest))
  | unknown {key : Key} {values : List (Nat × Value)} {front bytes rest : Bytes}
      (hnumber : ∀ field ∈ schema.fields, field.number ≠ key.number)
      (hkey : key.Spells front) (hvalue : Unread key bytes) (hrest : schema.Spells values rest) :
      schema.Spells values (front ++ (bytes ++ rest))

/-- The last of some values that a field has, or its default. -/
def Field.last (field : Field M) (values : List (Nat × Value)) : Value :=
  (values.reverse.lookup field.number).getD field.slot.default

/-- The values of the fields of a message that are written. -/
def Schema.values (schema : Schema M) (message : M) : List (Nat × Value) :=
  (schema.fields.filter (!·.slot.isDefault message)).map
    fun field => (field.number, field.slot.value message)

/-- Each text and each byte string of a message fits in memory. -/
def Schema.Fits (schema : Schema M) (message : M) : Prop :=
  ∀ field ∈ schema.fields, (field.slot.content message).Fits

instance (schema : Schema M) : DecidablePred schema.Fits :=
  fun message => inferInstanceAs
    (Decidable (∀ field ∈ schema.fields, (field.slot.content message).Fits))

/-- A lossless schema whose messages are made of their fields, each set apart from the others. -/
structure Schema.Lawful (schema : Schema M) : Prop extends schema.Lossless where
  ext : ∀ message other, (∀ field ∈ schema.fields,
    field.slot.value message = field.slot.value other) → message = other
  value_put : ∀ field ∈ schema.fields, ∀ other ∈ schema.fields, ∀ value message,
    other.slot.Takes value → field.slot.value (other.slot.put value message) =
      if other.number = field.number then value else field.slot.value message
  value_empty : ∀ field ∈ schema.fields, field.slot.value schema.empty = field.slot.default

namespace Schema

variable {schema : Schema M} {field : Field M} {value : Value} {values : List (Nat × Value)}
  {front bytes rest : Bytes} {message : M}

theorem Knows.merge_spelled (h : schema.Knows field)
    (hkey : Key.Spells ⟨field.number, field.slot.shape⟩ front)
    (hvalue : field.slot.Spells value bytes) :
    schema.merge message (front ++ (bytes ++ rest)) =
      schema.merge (field.slot.put value message) rest := by
  apply merge_of_value (hkey.readKey _)
  simp only [readValue, h.found, hvalue.read]

theorem merge_unknown {key : Key} (hnumber : ∀ field ∈ schema.fields, field.number ≠ key.number)
    (hkey : key.Spells front) (hvalue : Unread key bytes) :
    schema.merge message (front ++ (bytes ++ rest)) = schema.merge message rest := by
  have hnone : schema.fields.find? (·.number = key.number) = none := by
    simpa using hnumber
  apply merge_of_value (hkey.readKey _)
  simp only [readValue, hnone, hvalue.skipValue]

/-- Reading a run of fields into a message changes those that the run has a value for. -/
theorem Spells.merge (hlawful : schema.Lawful) (h : schema.Spells values bytes) (message : M) :
    ∃ found, schema.merge message bytes = .ok found ∧ ∀ field ∈ schema.fields,
      field.slot.value found =
        (values.reverse.lookup field.number).getD (field.slot.value message) := by
  induction h generalizing message with
  | done =>
      refine ⟨message, ?_, fun _ _ => rfl⟩
      rw [Schema.merge, if_pos rfl]
  | @known other value values _ _ _ hother hkey hvalue _ ih =>
      obtain ⟨found, hmerge, hfound⟩ := ih (other.slot.put value message)
      refine ⟨found, ?_, fun field hfield => ?_⟩
      · rw [(hlawful.knows other hother).merge_spelled hkey hvalue, hmerge]
      · -- Of the values behind this one the last counts; without one it is this one.
        rw [hfound field hfield, hlawful.value_put field hfield other hother _ _ hvalue.takes,
          List.reverse_cons, List.lookup_append]
        cases values.reverse.lookup field.number with
        | some later => rfl
        | none =>
            by_cases hnumber : other.number = field.number
            · simp [hnumber]
            · have hne : (field.number == other.number) = false := by simpa using Ne.symm hnumber
              simp [hnumber, List.lookup_cons, hne]
  | unknown hnumber hkey hvalue _ ih =>
      obtain ⟨found, hmerge, hfound⟩ := ih message
      exact ⟨found, by rw [merge_unknown hnumber hkey hvalue, hmerge], hfound⟩

/-- The only message with the last value of each field is read. -/
theorem Spells.decode (hlawful : schema.Lawful) (h : schema.Spells values bytes) :
    ∃ message, schema.decode bytes = .ok message ∧ ∀ other, other = message ↔
      ∀ field ∈ schema.fields, field.slot.value other = field.last values := by
  obtain ⟨found, hmerge, hfound⟩ := h.merge hlawful schema.empty
  have hlast : ∀ field ∈ schema.fields, field.slot.value found = field.last values := by
    intro field hfield
    rw [hfound field hfield, hlawful.value_empty field hfield, Field.last]
  refine ⟨found, hmerge, fun other => ⟨?_, fun hother => ?_⟩⟩
  · rintro rfl
    exact hlast
  · exact hlawful.ext _ _ fun field hfield =>
      (hother field hfield).trans (hlast field hfield).symm

/-! ## Runs that are written -/

theorem Spells.append {more : List (Nat × Value)} (h : schema.Spells values bytes)
    (hrest : schema.Spells more rest) : schema.Spells (values ++ more) (bytes ++ rest) := by
  induction h with
  | done => exact hrest
  | known hfield hkey hvalue _ ih =>
      simp only [List.append_assoc, List.cons_append]
      exact .known hfield hkey hvalue ih
  | unknown hnumber hkey hvalue _ ih =>
      simp only [List.append_assoc]
      exact .unknown hnumber hkey hvalue ih

theorem Knows.spells_write (h : schema.Knows field) (hfield : field ∈ schema.fields)
    (hfits : (field.slot.content message).Fits) (hdefault : ¬ field.slot.isDefault message)
    (hrest : schema.Spells values rest) :
    schema.Spells ((field.number, field.slot.value message) :: values)
      (field.write message ++ rest) := by
  have hcode : field.slot.shape.code < 8 := by cases field.slot.shape <;> decide
  have hbounded := h.bounded
  have hkey : Key.Spells ⟨field.number, field.slot.shape⟩
      (Key.write ⟨field.number, field.slot.shape⟩) :=
    ⟨h.positive, by dsimp only; omega, Varint.admissible_write (by
      simp only [UInt32.size] at hbounded
      simp only [UInt64.size]
      omega)⟩
  rw [Field.write_eq, if_neg hdefault, List.append_assoc]
  exact .known hfield hkey (Slot.spells_write hfits) hrest

/-- Some fields of a message are written as a run with their values that are no defaults. -/
theorem Lossless.spells_fields (h : schema.Lossless) (hfits : schema.Fits message)
    {fields : List (Field M)} (hfields : fields ⊆ schema.fields) :
    schema.Spells ((fields.filter (!·.slot.isDefault message)).map
      fun field => (field.number, field.slot.value message))
      (fields.flatMap (·.write message)) := by
  induction fields with
  | nil => exact .done
  | cons field fields ih =>
      obtain ⟨hfield, hsubset⟩ := List.cons_subset.mp hfields
      rw [List.flatMap_cons]
      by_cases hdefault : field.slot.isDefault message
      · rw [List.filter_cons_of_neg (by simpa using hdefault), Field.write_eq, if_pos hdefault]
        exact ih hsubset
      · rw [List.filter_cons_of_pos (by simpa using hdefault)]
        exact (h.knows field hfield).spells_write hfield (hfits field hfield) hdefault (ih hsubset)

theorem Lossless.spells_encode (h : schema.Lossless) (hfits : schema.Fits message) :
    schema.Spells (schema.values message) (schema.encode message) :=
  h.spells_fields hfits fun _ hfield => hfield

/-- Fields of one number are one field. -/
theorem Lossless.eq_of_number (h : schema.Lossless) {other : Field M}
    (hfield : field ∈ schema.fields) (hother : other ∈ schema.fields)
    (hnumber : other.number = field.number) : other = field := by
  have hfound := (h.knows other hother).found
  rw [hnumber, (h.knows field hfield).found] at hfound
  exact (Option.some.inj hfound).symm

/-- A written message has its value for a field just where that is no default. -/
theorem Lossless.lookup_values (h : schema.Lossless) (hfield : field ∈ schema.fields)
    (message : M) :
    (schema.values message).reverse.lookup field.number =
      if field.slot.isDefault message then none else some (field.slot.value message) := by
  have hmem : ∀ pair ∈ (schema.values message).reverse, pair.1 = field.number →
      pair = (field.number, field.slot.value message) ∧ ¬ field.slot.isDefault message := by
    intro pair hpair hnumber
    obtain ⟨other, hother, rfl⟩ := List.mem_map.mp (List.mem_reverse.mp hpair)
    obtain ⟨hother, hdefault⟩ := List.mem_filter.mp hother
    obtain rfl := h.eq_of_number hfield hother hnumber
    exact ⟨rfl, by simpa using hdefault⟩
  cases hlookup : (schema.values message).reverse.lookup field.number with
  | none =>
      rw [List.lookup_eq_none_iff] at hlookup
      by_cases hdefault : field.slot.isDefault message
      · rw [if_pos hdefault]
      · have hpair : (field.number, field.slot.value message) ∈ (schema.values message).reverse :=
          List.mem_reverse.mpr (List.mem_map.mpr
            ⟨field, List.mem_filter.mpr ⟨hfield, by simpa using hdefault⟩, rfl⟩)
        exact absurd (hlookup _ hpair) (by simp)
  | some found =>
      obtain ⟨before, after, hsplit, -⟩ := List.lookup_eq_some_iff.mp hlookup
      have hpair : (field.number, found) ∈ (schema.values message).reverse := by
        rw [hsplit]
        exact List.mem_append_right _ List.mem_cons_self
      obtain ⟨heq, hdefault⟩ := hmem _ hpair rfl
      rw [if_neg hdefault, (Prod.mk.inj heq).2]

/-- Of two messages the second one's values count, unless they are defaults. -/
theorem Lossless.last_values (h : schema.Lossless) (hfield : field ∈ schema.fields)
    (first second : M) :
    field.last (schema.values first ++ schema.values second) =
      if field.slot.isDefault second then field.slot.value first
      else field.slot.value second := by
  rw [Field.last, List.reverse_append, List.lookup_append, h.lookup_values hfield,
    h.lookup_values hfield]
  by_cases hsecond : field.slot.isDefault second
  · rw [if_pos hsecond, if_pos hsecond]
    by_cases hfirst : field.slot.isDefault first
    · rw [if_pos hfirst, Slot.value_of_isDefault hfirst]
      rfl
    · rw [if_neg hfirst]
      rfl
  · rw [if_neg hsecond, if_neg hsecond]
    rfl

end Schema

/-! ## The messages of a node's service -/

theorem lawful_commandRequest : commandRequest.Lawful where
  toLossless := lossless_commandRequest
  ext := by
    rintro ⟨group, action, data⟩ ⟨otherGroup, otherAction, otherData⟩ h
    simpa [commandRequest, Slot.value] using h
  value_put := by
    intro field hfield other hother value message htakes
    simp only [commandRequest, List.mem_cons, List.not_mem_nil, or_false] at hfield hother
    rcases hfield with rfl | rfl | rfl <;> rcases hother with rfl | rfl | rfl <;>
      cases value <;> simp_all [Slot.Takes, Slot.value, Slot.put]
  value_empty := by simp [commandRequest, Slot.value, Slot.default]

theorem lawful_commandResponse : commandResponse.Lawful where
  toLossless := lossless_commandResponse
  ext := by
    rintro ⟨status, message⟩ ⟨otherStatus, otherMessage⟩ h
    simpa [commandResponse, Slot.value] using h
  value_put := by
    intro field hfield other hother value message htakes
    simp only [commandResponse, List.mem_cons, List.not_mem_nil, or_false] at hfield hother
    rcases hfield with rfl | rfl <;> rcases hother with rfl | rfl <;>
      cases value <;> simp_all [Slot.Takes, Slot.value, Slot.put]
  value_empty := by simp [commandResponse, Slot.value, Slot.default]

theorem lawful_peerRequest : peerRequest.Lawful where
  toLossless := lossless_peerRequest
  ext := by
    rintro ⟨group, kind, payload⟩ ⟨otherGroup, otherKind, otherPayload⟩ h
    simpa [peerRequest, Slot.value] using h
  value_put := by
    intro field hfield other hother value message htakes
    simp only [peerRequest, List.mem_cons, List.not_mem_nil, or_false] at hfield hother
    rcases hfield with rfl | rfl | rfl <;> rcases hother with rfl | rfl | rfl <;>
      cases value <;> simp_all [Slot.Takes, Slot.value, Slot.put]
  value_empty := by simp [peerRequest, Slot.value, Slot.default]

theorem lawful_peerResponse : peerResponse.Lawful where
  toLossless := lossless_peerResponse
  ext := by
    rintro ⟨payload, error⟩ ⟨otherPayload, otherError⟩ h
    simpa [peerResponse, Slot.value] using h
  value_put := by
    intro field hfield other hother value message htakes
    simp only [peerResponse, List.mem_cons, List.not_mem_nil, or_false] at hfield hother
    rcases hfield with rfl | rfl <;> rcases hother with rfl | rfl <;>
      cases value <;> simp_all [Slot.Takes, Slot.value, Slot.put]
  value_empty := by simp [peerResponse, Slot.value, Slot.default]

/-- The kinds of messages that nodes exchange. -/
inductive MessageKind where
  | commandRequest
  | commandResponse
  | peerRequest
  | peerResponse
  deriving DecidableEq, Repr

namespace MessageKind

abbrev Message : MessageKind → Type
  | .commandRequest => CommandRequest
  | .commandResponse => CommandResponse
  | .peerRequest => PeerRequest
  | .peerResponse => PeerResponse

def schema : (kind : MessageKind) → Schema kind.Message
  | .commandRequest => Wire.commandRequest
  | .commandResponse => Wire.commandResponse
  | .peerRequest => Wire.peerRequest
  | .peerResponse => Wire.peerResponse

theorem lawful_schema (kind : MessageKind) : kind.schema.Lawful := by
  cases kind with
  | commandRequest => exact lawful_commandRequest
  | commandResponse => exact lawful_commandResponse
  | peerRequest => exact lawful_peerRequest
  | peerResponse => exact lawful_peerResponse

end MessageKind

/-- A message is read back from what is written for it. Any run of fields is read as the one
message that has the last value of each field: fields in any order and form, repeated, with
defaults and with unknown fields among them, groups of these too. So what is written for two
messages is read as the first one, overwritten by what is no default in the second. -/
theorem last_values_are_read (kind : MessageKind) :
    (∀ message, kind.schema.Fits message →
      kind.schema.decode (kind.schema.encode message) = .ok message) ∧
    (∀ values bytes, kind.schema.Spells values bytes →
      ∃ message, kind.schema.decode bytes = .ok message ∧ ∀ other, other = message ↔
        ∀ field ∈ kind.schema.fields, field.slot.value other = field.last values) ∧
    (∀ first second, kind.schema.Fits first → kind.schema.Fits second →
      ∃ message, kind.schema.decode (kind.schema.encode first ++ kind.schema.encode second) =
          .ok message ∧ ∀ other, other = message ↔
        ∀ field ∈ kind.schema.fields, field.slot.value other =
          if field.slot.isDefault second then field.slot.value first
          else field.slot.value second) := by
  have hlawful := kind.lawful_schema
  have hlossless := hlawful.toLossless
  refine ⟨fun message hfits => hlossless.decode_encode hfits,
    fun values bytes hspells => hspells.decode hlawful, fun first second hfirst hsecond => ?_⟩
  obtain ⟨message, hdecode, hmessage⟩ := ((hlossless.spells_encode hfirst).append
    (hlossless.spells_encode hsecond)).decode hlawful
  refine ⟨message, hdecode, fun other => (hmessage other).trans ?_⟩
  exact forall₂_congr fun field hfield => by rw [hlossless.last_values hfield first second]

/-- A command for a group that is named twice. The first name has a length of two bytes, and
between the two stands a group with a field of a known number and an empty group in it. Of two
commands, one behind the other, the second has no data and leaves those of the first. -/
theorem command_for_last_group :
    let bytes : Bytes := [0x0A, 0x81, 0x00, 0x61, 0x4B, 0x10, 0x07, 0x2B, 0x2C, 0x4C,
      0x90, 0x00, 0xAC, 0x02, 0x0A, 0x01, 0x62]
    let first : CommandRequest := ⟨"a", 7, [1, 2]⟩
    let second : CommandRequest := { group := "b", action := 300 }
    commandRequest.Spells [(1, .text "a"), (2, .number 300), (1, .text "b")] bytes ∧
      commandRequest.decode bytes = .ok second ∧
      commandRequest.Fits first ∧ commandRequest.Fits second ∧
      commandRequest.decode (commandRequest.encode first ++ commandRequest.encode second) =
        .ok ⟨"b", 300, [1, 2]⟩ := by
  intro bytes first second
  have hgroup : (⟨1, "group_id", .text (·.group) fun m v => { m with group := v }⟩ :
      Field CommandRequest) ∈ commandRequest.fields := List.mem_cons_self
  have haction : (⟨2, "action", .number (·.action) fun m v => { m with action := v }⟩ :
      Field CommandRequest) ∈ commandRequest.fields := List.mem_cons_of_mem _ List.mem_cons_self
  have ha : Text.Utf8.encode "a" = [0x61] := by decide
  have hb : Text.Utf8.encode "b" = [0x62] := by decide
  have hfirst : Delimited (Text.Utf8.encode "a") [0x81, 0x00, 0x61] :=
    ha ▸ ⟨[0x81, 0x00], @Varint.admissible_bytes 0x81 0x00 (by decide) (by decide), rfl⟩
  have hsecond : Delimited (Text.Utf8.encode "b") [0x01, 0x62] :=
    hb ▸ ⟨[0x01], @Varint.admissible_byte 0x01 (by decide), rfl⟩
  have hempty : Enclosed 1 [0x2B, 0x2C] :=
    @Enclosed.group 1 5 [0x2B] [] [0x2C] [] (by decide)
      (Key.spells_byte (by decide) (by decide) rfl) .done
      (Key.spells_byte (by decide) (by decide) rfl) .done
  have hinner : Enclosed 1 [0x10, 0x07, 0x2B, 0x2C] :=
    @Enclosed.plain 1 ⟨2, .varint⟩ [0x10] [0x07] _ (by decide)
      (Key.spells_byte (by decide) (by decide) rfl)
      (.varint (@Varint.admissible_byte 0x07 (by decide))) hempty
  have hunknown : Unread ⟨9, .startGroup⟩ [0x10, 0x07, 0x2B, 0x2C, 0x4C] :=
    @Unread.group 9 _ [0x4C] hinner (Key.spells_byte (by decide) (by decide) rfl)
  have hnamed : commandRequest.Spells [(1, .text "b")] [0x0A, 0x01, 0x62] :=
    @Schema.Spells.known _ _ _ _ _ [0x0A] _ [] hgroup
      (Key.spells_byte (by decide) (by decide) rfl) (.text hsecond) .done
  have hacted : commandRequest.Spells [(2, .number 300), (1, .text "b")]
      [0x90, 0x00, 0xAC, 0x02, 0x0A, 0x01, 0x62] :=
    @Schema.Spells.known _ _ _ _ _ [0x90, 0x00] [0xAC, 0x02] _ haction
      ⟨by decide, by decide, @Varint.admissible_bytes 0x90 0x00 (by decide) (by decide)⟩
      (.number (@Varint.admissible_bytes 0xAC 0x02 (by decide) (by decide))) hnamed
  have hspells : commandRequest.Spells [(1, .text "a"), (2, .number 300), (1, .text "b")] bytes :=
    @Schema.Spells.known _ _ _ _ _ [0x0A] [0x81, 0x00, 0x61] _ hgroup
      (Key.spells_byte (by decide) (by decide) rfl) (.text hfirst)
      (@Schema.Spells.unknown _ _ _ _ [0x4B] _ _ (by simp [commandRequest])
        (Key.spells_byte (by decide) (by decide) rfl) hunknown hacted)
  obtain ⟨message, hdecode, hmessage⟩ := (last_values_are_read .commandRequest).2.1 _ _ hspells
  have hone : commandRequest.Fits first := by decide
  have htwo : commandRequest.Fits second := by decide
  obtain ⟨merged, hmerge, hmerged⟩ := (last_values_are_read .commandRequest).2.2 _ _ hone htwo
  refine ⟨hspells, hdecode.trans (congrArg Except.ok ((hmessage _).mpr ?_).symm), hone, htwo,
    hmerge.trans (congrArg Except.ok ((hmerged _).mpr ?_).symm)⟩
  · simp [MessageKind.schema, commandRequest, Slot.value, Field.last, Slot.default,
      List.lookup_cons, second]
  · simp [MessageKind.schema, commandRequest, Slot.value, Slot.isDefault, first, second]

end Quorum.Wire
