import TreeEval.Text.Inspect
import TreeEval.Text.Quoted

/-!
# Literals

How values without parts are written, by themselves or as keys: once for a reader of results, in
the form of a literal, and once for a developer, after the name of the case.
-/

namespace TreeEval.Text

/-- A signed integer in decimal. -/
def int (n : Int64) : String := toString n.toInt

/-- An unsigned integer in decimal, with the letter that tells it from a signed one. -/
def uint (n : UInt64) : String := toString n.toNat ++ "u"

/-- A text between double quotes, without escapes. -/
def str (s : String) : String := "\"" ++ s ++ "\""

/-- Bytes as ASCII text between double quotes, with a letter that tells them from a text. -/
def bytes (b : List UInt8) : String := "b\"" ++ escapeBytes b ++ "\""

/-- A truth value after the name of its case. -/
def inspectBool (b : Bool) : String := applied "Bool" (bool b)

/-- A signed integer after the name of its case. -/
def inspectInt (n : Int64) : String := applied "Int" (int n)

/-- An unsigned integer after the name of its case. -/
def inspectUint (n : UInt64) : String := applied "Uint" (toString n.toNat)

/-- The text of a double after the name of its case. -/
def inspectDouble (text : String) : String := applied "Double" text

/-- A quoted text after the name of its case. -/
def inspectStr (s : String) : String := applied "Str" (quote s)

/-- The numbers of bytes in a row. -/
def byteNumbers (b : List UInt8) : String := bracketed (b.map fun x => toString x.toNat)

/-- The numbers of bytes after the name of their case. -/
def inspectBytes (b : List UInt8) : String := applied "Bytes" (byteNumbers b)

end TreeEval.Text
