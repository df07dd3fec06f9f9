import Quorum.Text.Reading

/-! # Scanning text

A scan takes something off the front of a text or takes nothing and fails. The scans
here are those that every part of a document is made of: blanks, comments, line ends and
words.
-/

namespace Quorum.Toml

/-- Takes a value off the front of a text. -/
abbrev Scan (α : Type) := List Char → Option (α × List Char)

/-- Blanks within a line. -/
def isSpace (c : Char) : Bool :=
  c = ' ' || c = '\t'

/-- Characters that may stand in comments and, but for quotes and backslashes, in strings:
all but the controls other than the tab. -/
def isShown (c : Char) : Bool :=
  c = '\t' || (0x20 ≤ c.toNat && c.toNat ≠ 0x7F)

/-- Characters of a key without quotes. -/
def isBare (c : Char) : Bool :=
  c.isAlphanum || c = '_' || c = '-'

def skipSpaces (text : List Char) : List Char :=
  text.dropWhile isSpace

def word : List Char → List Char → Option (List Char)
  | [], text => some text
  | _, [] => none
  | c :: rest, d :: text => if c = d then word rest text else none

/-- Takes a line end: a line feed, after a carriage return or not. -/
def lineEnd : List Char → Option (List Char)
  | '\n' :: rest => some rest
  | '\r' :: '\n' :: rest => some rest
  | _ => none

/-- Leaves out a comment, if there is one. -/
def skipComment : List Char → List Char
  | '#' :: rest => rest.dropWhile isShown
  | text => text

/-- Takes what may follow at the end of a line, and the line end unless the text ends. -/
def finishLine (text : List Char) : Option (List Char) :=
  match skipComment (skipSpaces text) with
  | [] => some []
  | rest => lineEnd rest

/-- Leaves out blanks, comments and line ends, in at most `fuel` lines. -/
def skipLinesWithin : (fuel : Nat) → List Char → List Char
  | 0, text => text
  | fuel + 1, text =>
      let rest := skipComment (skipSpaces text)
      match lineEnd rest with
      | some rest => skipLinesWithin fuel rest
      | none => rest

/-- Leaves out blanks, comments and line ends. -/
def skipLines (text : List Char) : List Char :=
  skipLinesWithin (text.length + 1) text

/-- Takes exactly so many characters of a kind. -/
def exactly (test : Char → Bool) : (count : Nat) → Scan (List Char)
  | 0, text => some ([], text)
  | _ + 1, [] => none
  | count + 1, c :: text =>
      if test c then (exactly test count text).map (Prod.map (c :: ·) id) else none

/-- Takes digits of a kind, at least one, with single underscores between them. -/
def grouped (test : Char → Bool) : Scan (List Char)
  | [] => none
  | [c] => if test c then some ([c], []) else none
  | c :: '_' :: rest =>
      if test c then (grouped test rest).map (Prod.map (c :: ·) id) else none
  | c :: d :: rest =>
      if test c then
        if test d then (grouped test (d :: rest)).map (Prod.map (c :: ·) id)
        else some ([c], d :: rest)
      else none

end Quorum.Toml
