import TreeEval.Double
import TreeEval.Text.Literal
import TreeEval.ValueType

/-!
# Keys

The values that can be a key of a map or an element of a hashed set: truth values, numbers, texts
and bytes. Keys of different types differ, and two keys of one type are the same exactly when the
values they stand for are equal; that is why a double has to be canonical to be a key.
-/

namespace TreeEval

/-- A value that can be looked up by hashing. -/
inductive Key where
  | bool (b : Bool)
  | int (n : Int64)
  | uint (n : UInt64)
  | double (d : Double.Canonical)
  | str (s : String)
  | bytes (b : List UInt8)
deriving DecidableEq, Hashable

namespace Key

/-- The type of the value that a key stands for. -/
def type : Key → ValueType
  | bool _ => .bool
  | int _ => .int
  | uint _ => .uint
  | double _ => .double
  | str _ => .string
  | bytes _ => .bytes

/-- A key reads like the value that it stands for. -/
def text : Key → String
  | bool b => Text.bool b
  | int n => Text.int n
  | uint n => Text.uint n
  | double d => d.value.text
  | str s => Text.str s
  | bytes b => Text.bytes b

/-- The key as a developer reads it: the value that it stands for, marked as a key. -/
def inspect (k : Key) : String :=
  Text.applied "Key" <|
    match k with
    | bool b => Text.inspectBool b
    | int n => Text.inspectInt n
    | uint n => Text.inspectUint n
    | double d => Text.inspectDouble d.value.text
    | str s => Text.inspectStr s
    | bytes b => Text.inspectBytes b

end Key

end TreeEval
