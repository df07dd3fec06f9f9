import Quorum.Text.Reading
import Quorum.Toml.Scan

/-! # Strings

Strings stand in double quotes, with escapes, or in single quotes, without. Three quotes
allow for more than one line: a line end directly after them is left out, every other is
a line feed, and up to two quotes may stand in front of the last three.
-/

namespace Quorum.Toml

/-- The character of so many hexadecimal digits. -/
def codePoint (count : Nat) : Scan Char := fun text => do
  let (digits, rest) ← exactly (fun c => (Text.hexDigit? c).isSome) count text
  let code ← Text.valueIn? 16 digits
  if code.isValidChar then some (Char.ofNat code, rest) else none

/-- The character of an escape, after the backslash. -/
def escape : Scan Char
  | 'b' :: rest => some ('\x08', rest)
  | 't' :: rest => some ('\t', rest)
  | 'n' :: rest => some ('\n', rest)
  | 'f' :: rest => some ('\x0c', rest)
  | 'r' :: rest => some ('\r', rest)
  | '"' :: rest => some ('"', rest)
  | '\\' :: rest => some ('\\', rest)
  | 'u' :: rest => codePoint 4 rest
  | 'U' :: rest => codePoint 8 rest
  | _ => none

structure Quotes where
  mark : Char
  escapes : Bool
  lines : Bool
  deriving DecidableEq, Repr

/-- The blanks and line ends after a backslash at the end of a line, which are left out. -/
def skipFold (text : List Char) : Option (List Char) := do
  let rest ← lineEnd (skipSpaces text)
  some (rest.dropWhile fun c => isSpace c || c = '\n' || c = '\r')

/-- Whether every carriage return among the blanks that were left out ends a line. -/
def endsLines : List Char → Bool
  | '\r' :: '\n' :: rest => endsLines rest
  | '\r' :: _ => false
  | c :: rest => if isSpace c || c = '\n' then endsLines rest else true
  | [] => true

/-- The end of a string with lines: three quotes, of more only the last three. -/
def closeLines (mark : Char) (text : List Char) : Option (List Char × List Char) :=
  let quotes := (text.takeWhile (· = mark)).length
  if quotes < 3 then none
  else
    let kept := min (quotes - 3) 2
    some (List.replicate kept mark, text.drop (kept + 3))

/-- The content of a string up to its end, in at most `fuel` steps. -/
def contentWithin (quotes : Quotes) : (fuel : Nat) → List Char → Scan (List Char)
  | 0, _, _ => none
  | _, _, [] => none
  | fuel + 1, done, c :: text =>
      if c = quotes.mark then
        if quotes.lines then
          match closeLines quotes.mark (c :: text) with
          | some (last, rest) => some (done.reverse ++ last, rest)
          | none => contentWithin quotes fuel (c :: done) text
        else some (done.reverse, text)
      else if c = '\\' && quotes.escapes then
        match escape text with
        | some (escaped, rest) => contentWithin quotes fuel (escaped :: done) rest
        | none =>
            -- No escape: the backslash can only fold the lines behind it.
            if quotes.lines && endsLines (skipSpaces text) then
              match skipFold text with
              | some rest => contentWithin quotes fuel done rest
              | none => none
            else none
      else if isShown c then contentWithin quotes fuel (c :: done) text
      else match quotes.lines, lineEnd (c :: text) with
        | true, some rest => contentWithin quotes fuel ('\n' :: done) rest
        | _, _ => none

/-- The content of a string after its opening quotes. -/
def content (quotes : Quotes) : Scan String := fun text =>
  (contentWithin quotes (text.length + 1) [] text).map (Prod.map String.ofList id)

/-- The content of a string with lines, without a line end at its start. -/
def contentOfLines (mark : Char) (escapes : Bool) : Scan String := fun text =>
  content ⟨mark, escapes, true⟩ ((lineEnd text).getD text)

def lineString : Scan String
  | '"' :: rest => content ⟨'"', true, false⟩ rest
  | '\'' :: rest => content ⟨'\'', false, false⟩ rest
  | _ => none

def string : Scan String
  | '"' :: '"' :: '"' :: rest => contentOfLines '"' true rest
  | '\'' :: '\'' :: '\'' :: rest => contentOfLines '\'' false rest
  | text => lineString text

/-- A name in a key: a string on one line, or bare characters. -/
def simpleKey : Scan String := fun text =>
  match lineString text with
  | some found => some found
  | none =>
      match text.takeWhile isBare with
      | [] => none
      | name => some (String.ofList name, text.drop name.length)

/-- The names of a key between dots, with blanks around them, in at most `fuel` steps. -/
def keyWithin : (fuel : Nat) → Scan (List String)
  | 0, _ => none
  | fuel + 1, text => do
      let (name, rest) ← simpleKey (skipSpaces text)
      match skipSpaces rest with
      | '.' :: rest =>
          let (names, rest) ← keyWithin fuel rest
          some (name :: names, rest)
      | rest => some ([name], rest)

/-- How deep keys and values may be nested. -/
def maximalDepth : Nat := 80

def key : Scan (List String) := fun text => do
  let (names, rest) ← keyWithin text.length text
  if names.length < maximalDepth then some (names, rest) else none

end Quorum.Toml
