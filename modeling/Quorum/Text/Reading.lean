/-! # Blanks, digits and numbers in text

The characters of the Unicode property `White_Space` and the removal of blanks at the two ends
of a text. The digits of a base are `0` to `9` and then letters of either case. To read an
unsigned number, one plus sign may stand in front, then only the digits `0` to `9`, of which
leading zeros are free, and a limit the value must not exceed.
-/

namespace Quorum.Text

/-! ## Blanks -/

/-- The characters of the Unicode property `White_Space`. -/
def isBlank (c : Char) : Bool :=
  let code := c.toNat
  (9 ≤ code && code ≤ 13) || code == 0x20 || code == 0x85 || code == 0xA0 || code == 0x1680 ||
    (0x2000 ≤ code && code ≤ 0x200A) || code == 0x2028 || code == 0x2029 || code == 0x202F ||
    code == 0x205F || code == 0x3000

/-- Every blank that the core library knows is one here too. -/
theorem isBlank_of_isWhitespace {c : Char} (h : c.isWhitespace) : isBlank c := by
  simp only [Char.isWhitespace, Bool.or_eq_true, decide_eq_true_eq] at h
  rcases h with ((rfl | rfl) | rfl) | rfl <;> decide

/-- A text without the blanks at its start and its end. -/
def trim (text : List Char) : List Char :=
  ((text.dropWhile isBlank).reverse.dropWhile isBlank).reverse

/-- A text with nothing but blanks. -/
def isAllBlank (text : String) : Bool :=
  text.toList.all isBlank

/-! ## Digits of a base -/

/-- The value of a hexadecimal digit. -/
def hexDigit? (c : Char) : Option Nat :=
  if '0' ≤ c ∧ c ≤ '9' then some (c.toNat - '0'.toNat)
  else if 'a' ≤ c ∧ c ≤ 'f' then some (c.toNat - 'a'.toNat + 10)
  else if 'A' ≤ c ∧ c ≤ 'F' then some (c.toNat - 'A'.toNat + 10)
  else none

def isDigitIn (base : Nat) (c : Char) : Bool :=
  (hexDigit? c).any (· < base)

/-- The value of digits in a base that each have one. -/
def valueIn? (base : Nat) (digits : List Char) : Option Nat :=
  digits.foldlM (fun value c =>
    match hexDigit? c with
    | some d => if d < base then some (base * value + d) else none
    | none => none) 0

/-! ## Decimal numbers -/

/-- The value of a decimal digit. -/
def digit? (c : Char) : Option Nat :=
  if '0' ≤ c ∧ c ≤ '9' then some (c.toNat - '0'.toNat) else none

/-- The value of digits that follow `value`. -/
def digitsFrom? (value : Nat) : List Char → Option Nat
  | [] => some value
  | c :: rest =>
      match digit? c with
      | some d => digitsFrom? (10 * value + d) rest
      | none => none

/-- The value of at least one decimal digit. -/
def digits? : List Char → Option Nat
  | [] => none
  | text => digitsFrom? 0 text

/-- An unsigned number no greater than `limit`, with or without a plus sign. -/
def unsigned? (limit : Nat) (text : List Char) : Option Nat :=
  let digits := match text with
    | '+' :: rest => rest
    | _ => text
  match digits? digits with
  | some value => if value ≤ limit then some value else none
  | none => none

theorem unsigned?_le {limit : Nat} {text : List Char} {value : Nat}
    (h : unsigned? limit text = some value) : value ≤ limit := by
  simp only [unsigned?] at h
  split at h
  · split at h
    · injection h with h
      omega
    · contradiction
  · contradiction

end Quorum.Text
