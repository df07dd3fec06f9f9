import Quorum.Toml.Table

/-! # Values as records

What a program asks of a value: a text, a number, a flag, texts under names, or the fields
of a record. A record is a table, or an array whose items are the fields in their order.
-/

namespace Quorum.Toml

/-- The name under which a date stands when it is asked for its entries. -/
def dateName : String := "$__toml_private_datetime"

namespace Value

def text? : Value → Option String
  | .string characters => some characters
  | _ => none

/-- A number of 64 bits without a sign. -/
def number? : Value → Option UInt64
  | .integer n => if 0 ≤ n then some (.ofNat n.toNat) else none
  | _ => none

def flag? : Value → Option Bool
  | .boolean isSet => some isSet
  | _ => none

/-- Texts under names. -/
def texts? : Value → Option (List (String × String))
  | .table entries => entries.mapM fun (name, value) => value.text?.map (name, ·)
  | .dateTime date => some [(dateName, date)]
  | _ => none

/-- The items of an array, each as `read` takes it. -/
def items? {α : Type} (read : Value → Option α) : Value → Option (List α)
  | .array items => items.mapM read
  | _ => none

end Value

/-- The values of a record's fields. -/
inductive Fields where
  | byName (entries : List (String × Value))
  | byPosition (values : List Value)

/-- What a value says about the fields of a record. A date has none of them. -/
def Value.fields? : Value → Option Fields
  | .table entries => some (.byName entries)
  | .array values => some (.byPosition values)
  | .dateTime _ => some (.byName [])
  | _ => none

namespace Fields

def value? (fields : Fields) (name : String) (position : Nat) : Option Value :=
  match fields with
  | .byName entries => entries.lookup name
  | .byPosition values => values[position]?

/-- The field with a name and a position, or its default. -/
def read {α : Type} (fields : Fields) (name : String) (position : Nat) (read : Value → Option α)
    (default : α) : Option α :=
  match fields.value? name position with
  | none => some default
  | some value => read value

/-- The field with a name and a position, which must be there. -/
def need {α : Type} (fields : Fields) (name : String) (position : Nat)
    (read : Value → Option α) : Option α :=
  (fields.value? name position).bind read

end Fields
end Quorum.Toml
