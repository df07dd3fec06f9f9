import Quorum.Toml.Table

/-! # Documents

A document is a sequence of lines: headers of tables, headers of arrays of tables, and
keys with values. Arrays may go over several lines, tables in braces may not.
-/

namespace Quorum.Toml

/-- A value that holds no other values. -/
def scalar : Scan Value := fun text =>
  match text with
  | '"' :: _ | '\'' :: _ => (string text).map (Prod.map .string id)
  | 't' :: _ => (word ['t', 'r', 'u', 'e'] text).map (.boolean true, ·)
  | 'f' :: _ => (word ['f', 'a', 'l', 's', 'e'] text).map (.boolean false, ·)
  | _ =>
      match dateTime text with
      | some (date, rest) => some (.dateTime (.ofList date), rest)
      | none =>
          match float text with
          | some (_, rest) => some (.float, rest)
          | none => (integer text).map (Prod.map .integer id)

/-- The items of an array after its bracket, in at most `fuel` steps. -/
def arrayItems (item : Scan Value) : (fuel : Nat) → Scan (List Value)
  | 0, _ => none
  | fuel + 1, text =>
      match skipLines text with
      | ']' :: rest => some ([], rest)
      | text => do
          let (value, rest) ← item text
          match skipLines rest with
          | ',' :: rest => (arrayItems item fuel rest).map (Prod.map (value :: ·) id)
          | ']' :: rest => some ([value], rest)
          | _ => none

def pair (value : Scan Value) : Scan (List String × Value) := fun text => do
  let (names, rest) ← key text
  let rest ← word ['='] rest
  let (value, rest) ← value (skipSpaces rest)
  some ((names, value), rest)

/-- The pairs of a table in braces, in at most `fuel` steps. -/
def inlinePairs (value : Scan Value) : (fuel : Nat) → Scan (List (List String × Value))
  | 0, _ => none
  | fuel + 1, text => do
      let (first, rest) ← pair value text
      match skipSpaces rest with
      | ',' :: rest => (inlinePairs value fuel rest).map (Prod.map (first :: ·) id)
      | '}' :: rest => some ([first], rest)
      | _ => none

/-- A table in braces, after the first of them. -/
def inlineTable (value : Scan Value) : Scan Value := fun text =>
  match skipSpaces text with
  | '}' :: rest => some (.table [], rest)
  | _ => do
      let (pairs, rest) ← inlinePairs value (text.length + 1) text
      some (← tableOfPairs pairs, rest)

/-- A value that holds others at most `depth` deep. -/
def value : (depth : Nat) → Scan Value
  | 0, text => scalar text
  | depth + 1, text =>
      match text with
      | '[' :: rest => (arrayItems (value depth) text.length rest).map (Prod.map .array id)
      | '{' :: rest => inlineTable (value depth) rest
      | _ => scalar text

/-- A line of a document, without what may follow at its end. -/
def statement (draft : Draft) : Scan Draft
  | '[' :: '[' :: text => do
      let (names, rest) ← key text
      some (← draft.element names, ← word [']', ']'] rest)
  | '[' :: text => do
      let (names, rest) ← key text
      some (← draft.header names, ← word [']'] rest)
  | text => do
      let ((names, value), rest) ← pair (value (maximalDepth - 1)) text
      some (← draft.assign names value, rest)

/-- All lines of a document, in at most `fuel` steps. -/
def lines : (fuel : Nat) → Draft → List Char → Option Draft
  | 0, _, _ => none
  | fuel + 1, draft, text =>
      match skipLines text with
      | [] => some draft
      | text => do
          let (draft, rest) ← statement draft text
          lines fuel draft (← finishLine rest)

/-- Reads a document, with or without a byte order mark in front. -/
def parse (text : String) : Option Value := do
  let text := match text.toList with
    | '\uFEFF' :: rest => rest
    | text => text
  let draft ← lines (text.length + 1) {} text
  some (← draft.close).toValue

end Quorum.Toml
