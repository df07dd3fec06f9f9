import Quorum.Text.Reading

/-! # Addresses to listen at

An address is four numbers with points between them or, in brackets, eight groups of
hexadecimal digits with colons between them, and then a colon and a port. In brackets
one run of zero groups may be left out, the last two groups may be written as four
numbers, and the number of a network interface may follow.
-/

namespace Quorum.Address

/-- What is left of a text behind something that stands at its front. -/
abbrev Skip := List Char → Option (List Char)

/-- How a number is written. -/
structure Numeral where
  base : Nat
  /-- The greatest number of digits. -/
  longest : Option Nat
  /-- Whether needless zeros may stand in front. -/
  leadingZeros : Bool
  greatest : Nat

def octet : Numeral := ⟨10, some 3, false, 255⟩
def group : Numeral := ⟨16, some 4, true, 65535⟩
def port : Numeral := ⟨10, none, true, 65535⟩
def interface : Numeral := ⟨10, none, true, 4294967295⟩

/-- Whether some digits are a number in its form. -/
def Numeral.admits (numeral : Numeral) (digits : List Char) : Bool :=
  digits ≠ []
    && !numeral.longest.any (· < digits.length)
    && (numeral.leadingZeros || digits.length = 1 || digits.head? ≠ some '0')
    && (Text.valueIn? numeral.base digits).any (· ≤ numeral.greatest)

/-- Skips a number, all digits being part of it. -/
def number (numeral : Numeral) : Skip := fun text =>
  let digits := text.takeWhile (Text.isDigitIn numeral.base)
  if numeral.admits digits then some (text.drop digits.length) else none

/-- Skips a character and what stands behind it. -/
def behind (mark : Char) (skip : Skip) : Skip
  | c :: rest => if c = mark then skip rest else none
  | [] => none

/-- Skips four numbers with points between them. -/
def four : Skip := fun text => do
  let point := behind '.' (number octet)
  point (← point (← point (← number octet text)))

/-- Skips what comes next in a row with colons between. -/
def next (isFirst : Bool) (skip : Skip) : Skip :=
  if isFirst then skip else behind ':' skip

/-- Skips as many groups as there are, at most `left`: how many they are together with
the `before` groups in front, whether they end in four numbers, and the rest. -/
def groups : (left before : Nat) → List Char → Nat × Bool × List Char
  | 0, before, text => (before, false, text)
  | left + 1, before, text =>
      let isFirst := before = 0
      match if left = 0 then none else next isFirst four text with
      | some rest => (before + 2, true, rest)
      | none =>
          match next isFirst (number group) text with
          | some rest => groups left (before + 1) rest
          | none => (before, false, text)

/-- Skips eight groups, of which two colons stand for at least one. -/
def eight : Skip := fun text =>
  match groups 8 0 text with
  | (8, _, rest) => some rest
  | (_, true, _) => none
  | (before, false, ':' :: ':' :: rest) => some (groups (7 - before) 0 rest).2.2
  | _ => none

/-- Skips eight groups in brackets. -/
def bracketed : Skip := behind '[' fun text => do
  let rest ← eight text
  behind ']' some ((behind '%' (number interface) rest).getD rest)

def isValid (text : String) : Bool :=
  let host := (four text.toList).or (bracketed text.toList)
  (host.bind (behind ':' (number port))) = some []

end Quorum.Address
