import Quorum.Text.Utf8

/-! # Why bytes are no value of the binary format

Each reading step has one way to fail, and a failure names exactly what the step
met: how many bytes were missing for it, or which tag it could not use.
-/

namespace Quorum.Binary

/-- The integers the format knows; `reserved` is the tag that stands for none. -/
inductive IntegerKind where
  | u16
  | u32
  | u64
  | u128
  | usize
  | i64
  | i128
  | reserved
  deriving DecidableEq, Repr

def IntegerKind.name : IntegerKind → String
  | .u16 => "U16"
  | .u32 => "U32"
  | .u64 => "U64"
  | .u128 => "U128"
  | .usize => "Usize"
  | .i64 => "I64"
  | .i128 => "I128"
  | .reserved => "Reserved"

/-- The kind as which the same tag is understood in front of a signed number. -/
def IntegerKind.signed : IntegerKind → IntegerKind
  | .u64 => .i64
  | .u128 => .i128
  | kind => kind

/-- Why a value could not be read. -/
inductive DecodeError where
  /-- So many bytes were missing for the single read that failed. -/
  | unexpectedEnd (additional : Nat)
  /-- A number's tag announces another integer than the one wanted. -/
  | integer (expected found : IntegerKind)
  | boolean (found : UInt8)
  | option (found : UInt8)
  /-- The number of an alternative of which there are only `count`. -/
  | variant (found count : Nat)
  | utf8 (fault : Text.Utf8Fault)
  deriving DecidableEq, Repr

/-- The text by which a failure is reported. -/
def DecodeError.message : DecodeError → String
  | .unexpectedEnd additional => "UnexpectedEnd \x7b additional: " ++ toString additional ++ " \x7d"
  | .integer expected found =>
      "InvalidIntegerType \x7b expected: " ++ expected.name ++ ", found: " ++ found.name ++ " \x7d"
  | .boolean found => "InvalidBooleanValue(" ++ toString found.toNat ++ ")"
  | .option found =>
      "UnexpectedVariant \x7b type_name: \"Option<T>\", allowed: Range \x7b min: 0, max: 1 \x7d, found: "
        ++ toString found.toNat ++ " \x7d"
  | .variant found count =>
      "OtherString(\"invalid value: integer `" ++ toString found
        ++ "`, expected variant index 0 <= i < " ++ toString count ++ "\")"
  | .utf8 fault =>
      let length := match fault.length with
        | some n => "Some(" ++ toString n ++ ")"
        | none => "None"
      "Utf8 \x7b inner: Utf8Error \x7b valid_up_to: " ++ toString fault.validUpTo
        ++ ", error_len: " ++ length ++ " \x7d \x7d"

end Quorum.Binary
