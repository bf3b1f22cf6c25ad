/-!
# Types of values

Every value has one of eleven types. Errors and unknowns are values too and have types of their own.
-/

namespace TreeEval

/-- The type of a value. -/
inductive ValueType where
  | null
  | bool
  | int
  | uint
  | double
  | string
  | bytes
  | list
  | map
  | error
  | unknown
deriving DecidableEq

namespace ValueType

/-- The name of a type. -/
def name : ValueType → String
  | null => "null_type"
  | bool => "bool"
  | int => "int"
  | uint => "uint"
  | double => "double"
  | string => "string"
  | bytes => "bytes"
  | list => "list"
  | map => "map"
  | error => "error"
  | unknown => "unknown"

theorem name_injective {a b : ValueType} (h : a.name = b.name) : a = b := by
  revert h; cases a <;> cases b <;> decide

end ValueType

end TreeEval
