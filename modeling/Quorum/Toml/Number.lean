import Quorum.Toml.Quoted

/-! # Numbers and dates

Integers have 64 bits, in decimal with a sign or in one of three other bases without.
Floats and dates are recognised and checked, but nothing asks for their values; a date
keeps its text, in one spelling.
-/

namespace Quorum.Toml

def isDigit (c : Char) : Bool :=
  '0' ≤ c && c ≤ '9'

/-- A sign, if there is one: whether it is a minus. -/
def sign : List Char → Bool × List Char
  | '-' :: rest => (true, rest)
  | '+' :: rest => (false, rest)
  | text => (false, text)

/-- Decimal digits without needless zeros in front. -/
def decimalDigits : Scan (List Char)
  | '0' :: rest => some (['0'], rest)
  | text => grouped isDigit text

/-- A decimal integer: its sign and its value. -/
def decimal : Scan (Bool × Nat) := fun text => do
  let (negative, rest) := sign text
  let (digits, rest) ← decimalDigits rest
  some ((negative, ← Text.valueIn? 10 digits), rest)

/-- An integer in its range. -/
def inRange (n : Int) : Option Int :=
  if Int64.minValue.toInt ≤ n ∧ n ≤ Int64.maxValue.toInt then some n else none

/-- An integer in a base, after the letter of the base. -/
def based (base : Nat) : Scan Int := fun text => do
  let (digits, rest) ← grouped (Text.isDigitIn base) text
  some (← inRange (← Text.valueIn? base digits), rest)

def integer : Scan Int
  | '0' :: 'x' :: rest => based 16 rest
  | '0' :: 'o' :: rest => based 8 rest
  | '0' :: 'b' :: rest => based 2 rest
  | text => do
      let ((negative, n), rest) ← decimal text
      some (← inRange (if negative then -n else n), rest)

/-- Whether `digits · 10 ^ exponent` is too large for a float of 64 bits. -/
def isHuge (digits : Nat) (exponent : Int) : Bool :=
  let places := (Nat.toDigits 10 digits).length + exponent
  let limit := Nat.pow 2 1024 - Nat.pow 2 970
  if digits = 0 || places < 300 then false
  else if 320 < places then true
  else if 0 ≤ exponent then limit ≤ digits * Nat.pow 10 exponent.toNat
  else limit * Nat.pow 10 (-exponent).toNat ≤ digits

/-- The exponent of a float, after its letter. -/
def exponent : Scan Int := fun text => do
  let (negative, rest) := sign text
  let (digits, rest) ← grouped isDigit rest
  let n ← Text.valueIn? 10 digits
  some (if negative then -n else n, rest)

/-- An exponent, if there is one. -/
def exponent? : Scan Int
  | 'e' :: rest | 'E' :: rest => exponent rest
  | text => some (0, text)

/-- A float with a fraction or an exponent. A positive one may not be too large. -/
def fractional : Scan Unit := fun text => do
  let (negative, rest) := sign text
  let (whole, rest) ← decimalDigits rest
  let (fraction, rest, hasPoint) ← match rest with
    | '.' :: rest => (grouped isDigit rest).map fun (digits, rest) => (digits, rest, true)
    | rest => some ([], rest, false)
  let hasExponent := rest.head?.any fun c => c = 'e' || c = 'E'
  let (power, rest) ← exponent? rest
  let digits ← Text.valueIn? 10 (whole ++ fraction)
  -- Without either, the text is an integer or nothing.
  if !(hasPoint || hasExponent) then none
  else if !negative && isHuge digits (power - fraction.length) then none
  else some ((), rest)

/-- An infinite or undefined float. -/
def special : Scan Unit := fun text =>
  let (_, rest) := sign text
  ((word ['i', 'n', 'f'] rest).or (word ['n', 'a', 'n'] rest)).map ((), ·)

def float : Scan Unit := fun text =>
  (fractional text).or (special text)

/-- So many digits whose value is within bounds. -/
def digitsIn (count low high : Nat) : Scan Nat := fun text => do
  let (digits, rest) ← exactly isDigit count text
  let n ← Text.valueIn? 10 digits
  if low ≤ n ∧ n ≤ high then some (n, rest) else none

/-- How many days a month has. -/
def daysOf (year month : Nat) : Nat :=
  if month = 2 then
    if year % 4 = 0 ∧ (year % 100 ≠ 0 ∨ year % 400 = 0) then 29 else 28
  else if month = 4 ∨ month = 6 ∨ month = 9 ∨ month = 11 then 30
  else 31

/-- A date, with its text. -/
def date : Scan (List Char) := fun text => do
  let (year, rest) ← digitsIn 4 0 9999 text
  let (month, rest) ← digitsIn 2 1 12 (← word ['-'] rest)
  let (_, rest) ← digitsIn 2 1 (daysOf year month) (← word ['-'] rest)
  some (text.take 10, rest)

/-- The fraction of a second: at most nine digits count, without zeros at their end. -/
def fraction (digits : List Char) : List Char :=
  match (digits.take 9).reverse.dropWhile (· = '0') with
  | [] => []
  | kept => '.' :: kept.reverse

/-- A time of day, with its text; a minute may have a leap second. -/
def time : Scan (List Char) := fun text => do
  let (_, rest) ← digitsIn 2 0 23 text
  let (_, rest) ← digitsIn 2 0 59 (← word [':'] rest)
  let (_, rest) ← digitsIn 2 0 60 (← word [':'] rest)
  match rest with
  | '.' :: rest =>
      match rest.takeWhile isDigit with
      | [] => none
      | digits => some (text.take 8 ++ fraction digits, rest.drop digits.length)
  | rest => some (text.take 8, rest)

/-- Hours and minutes, with their text. -/
def distance : Scan (List Char) := fun text => do
  let (_, rest) ← digitsIn 2 0 23 text
  let (_, rest) ← digitsIn 2 0 59 (← word [':'] rest)
  some (text.take 5, rest)

/-- The distance of a time from that of Greenwich, if it is given, with its text. -/
def offset? : Scan (List Char)
  | 'Z' :: rest | 'z' :: rest => some (['Z'], rest)
  | '+' :: text => (distance text).map (Prod.map ('+' :: ·) id)
  | '-' :: text => (distance text).map fun (clock, rest) =>
      ((if clock = ['0', '0', ':', '0', '0'] then '+' else '-') :: clock, rest)
  | text => some ([], text)

/-- A date with or without a time, or a time, with its text. -/
def dateTime : Scan (List Char) := fun text =>
  match date text with
  | none => time text
  | some (day, rest) =>
      let clock := match rest with
        | 'T' :: rest | 't' :: rest | ' ' :: rest => time rest
        | _ => none
      match clock with
      | none => some (day, rest)
      | some (clock, rest) => (offset? rest).map fun (distance, rest) =>
          (day ++ 'T' :: clock ++ distance, rest)

end Quorum.Toml
