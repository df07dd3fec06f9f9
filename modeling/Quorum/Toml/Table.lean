import Quorum.Toml.Number

/-! # Values and tables

A document is one table. While it is read, a table remembers how it came about, since
that decides what may still be added: a table that only a longer key or header implied
may get a header of its own, a table that dotted keys made may get more dotted keys, and
a value written in one piece is closed.
-/

namespace Quorum.Toml

inductive Value where
  | string (text : String)
  | integer (n : Int)
  | float
  | boolean (value : Bool)
  | dateTime (text : String)
  | array (items : List Value)
  | table (entries : List (String × Value))

/-- What stands under a key while a document is read. -/
inductive Item where
  | value (value : Value)
  | table (implied dotted : Bool) (entries : List (String × Item))
  | tables (elements : List (List (String × Item)))

/-- A table while a document is read. -/
structure Table where
  /-- Whether only longer keys or headers made it. -/
  implied : Bool := false
  /-- Whether dotted keys made it. -/
  dotted : Bool := false
  entries : List (String × Item) := []

namespace Table

def get? (table : Table) (name : String) : Option Item :=
  table.entries.lookup name

/-- The table with an item under a key, in place of the one there. -/
def put (table : Table) (name : String) (item : Item) : Table :=
  if table.entries.any (·.1 = name) then
    { table with entries := table.entries.map fun entry =>
        if entry.1 = name then (name, item) else entry }
  else { table with entries := table.entries ++ [(name, item)] }

def erase (table : Table) (name : String) : Table :=
  { table with entries := table.entries.filter (·.1 ≠ name) }

/-- Changes the table at the end of a path, where missing tables are made. Of an array
of tables the last one is meant. Dotted keys do not enter a table with a header. -/
def modifyAt (dotted : Bool) (change : Table → Option Table) :
    List String → Table → Option Table
  | [], table => change table
  | name :: path, table =>
      match table.get? name with
      | none => do
          let inner ← modifyAt dotted change path ⟨true, dotted, []⟩
          some (table.put name (.table inner.implied inner.dotted inner.entries))
      | some (.value _) => none
      | some (.table implied wasDotted entries) =>
          if dotted && !implied then none
          else do
            let inner ← modifyAt dotted change path ⟨implied, wasDotted, entries⟩
            some (table.put name (.table inner.implied inner.dotted inner.entries))
      | some (.tables elements) =>
          match elements.reverse with
          | [] => none
          | last :: before => do
              let inner ← modifyAt dotted change path ⟨false, false, last⟩
              some (table.put name (.tables (before.reverse ++ [inner.entries])))

/-- The table at the end of a path. -/
def at? (table : Table) : List String → Option Table
  | [] => some table
  | name :: path =>
      match table.get? name with
      | some (.table implied dotted entries) => at? ⟨implied, dotted, entries⟩ path
      | some (.tables elements) => elements.getLast?.bind fun last => at? ⟨false, false, last⟩ path
      | _ => none

/-- Puts a new value under a key. Only dotted keys add to tables made by dotted keys. -/
def assign (path : List String) (name : String) (item : Item) (table : Table) : Option Table :=
  modifyAt true (fun inner =>
    if inner.dotted == path.isEmpty then none
    else match inner.get? name with
      | some _ => none
      | none => some (inner.put name item)) path table

end Table

mutual

def Item.toValue : Item → Value
  | .value v => v
  | .table _ _ entries => .table (entryValues entries)
  | .tables elements => .array (elementValues elements)

def entryValues : List (String × Item) → List (String × Value)
  | [] => []
  | (name, item) :: rest => (name, item.toValue) :: entryValues rest

def elementValues : List (List (String × Item)) → List Value
  | [] => []
  | entries :: rest => .table (entryValues entries) :: elementValues rest

end

def Table.toValue (table : Table) : Value :=
  (Item.table table.implied table.dotted table.entries).toValue

/-- A key without its last name, and that name. -/
def splitKey (key : List String) : Option (List String × String) :=
  key.getLast?.map (key.dropLast, ·)

/-- The table that pairs of keys and values in braces make. -/
def tableOfPairs (pairs : List (List String × Value)) : Option Value := do
  let table ← pairs.foldlM (fun table (key, value) => do
    let (path, name) ← splitKey key
    Table.assign path name (.value value) table) ({} : Table)
  some table.toValue

/-- A document while it is read: what is complete, and the table that the next lines
belong to, which is put in its place at the next header. -/
structure Draft where
  root : Table := {}
  current : Table := {}
  path : List String := []
  /-- Whether the table is an element of an array of tables. -/
  isElement : Bool := false

namespace Draft

/-- Puts the current table in its place. -/
def close (draft : Draft) : Option Table :=
  match splitKey draft.path with
  | none => some draft.current
  | some (path, name) =>
      Table.modifyAt false (fun parent =>
        if draft.isElement then
          match parent.get? name with
          | none => some (parent.put name (.tables [draft.current.entries]))
          | some (.tables elements) =>
              some (parent.put name (.tables (elements ++ [draft.current.entries])))
          | some _ => none
        else
          let item := Item.table draft.current.implied draft.current.dotted draft.current.entries
          match parent.get? name with
          | none => some (parent.put name item)
          | some (.table true _ _) => some (parent.put name item)
          | some _ => none) path draft.root

/-- Begins the table of a header. A table there is taken up again if it was only implied. -/
def header (key : List String) (draft : Draft) : Option Draft := do
  let (path, name) ← splitKey key
  let root ← Table.modifyAt false some path (← draft.close)
  match (root.at? path).bind (·.get? name) with
  | none => some ⟨root, {}, key, false⟩
  | some (.table true false entries) =>
      let root ← Table.modifyAt false (fun parent => some (parent.erase name)) path root
      some ⟨root, ⟨false, false, entries⟩, key, false⟩
  | some _ => none

/-- Begins a table that is the next element of an array of tables. -/
def element (key : List String) (draft : Draft) : Option Draft := do
  let root ← draft.close
  let (path, name) ← splitKey key
  let root ← Table.modifyAt false (fun parent =>
    match parent.get? name with
    | none | some (.tables _) => some parent
    | some _ => none) path root
  some ⟨root, {}, key, true⟩

/-- Puts a value under a key of the current table. -/
def assign (key : List String) (value : Value) (draft : Draft) : Option Draft := do
  let (path, name) ← splitKey key
  let current ← Table.assign path name (.value value) draft.current
  some { draft with current }

end Draft
end Quorum.Toml
