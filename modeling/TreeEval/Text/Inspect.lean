/-!
# Notation for inspected values

The notation in which a developer reads a value: the name of its type or case, then its parts in
brackets. All of it is built from a few shapes.
-/

namespace TreeEval.Text

/-- Items in a row, with a comma and a blank between two of them. -/
def commaSeparated (items : List String) : String := ", ".intercalate items

/-- Items between square brackets: `[a, b]`. -/
def bracketed (items : List String) : String := "[" ++ commaSeparated items ++ "]"

/-- Items between braces, without blanks at the braces: `{a, b}`. -/
def braced (items : List String) : String := "\x7b" ++ commaSeparated items ++ "\x7d"

/-- A key and the value it leads to: `key: value`. -/
def entry (key value : String) : String := key ++ ": " ++ value

/-- A case with one unnamed part: `Name(part)`. -/
def applied (name part : String) : String := name ++ "(" ++ part ++ ")"

/-- A type or case with named parts: `Name { first: a, second: b }`. -/
def record (name : String) (fields : List (String × String)) : String :=
  name ++ " \x7b " ++ commaSeparated (fields.map fun (field, value) => entry field value) ++ " \x7d"

/-- A type with named parts of which some are not shown: `Name { first: a, .. }`. -/
def openRecord (name : String) (fields : List (String × String)) : String :=
  name ++ " \x7b " ++
    commaSeparated ((fields.map fun (field, value) => entry field value) ++ [".."]) ++ " \x7d"

/-- A truth value as a word. -/
def bool (b : Bool) : String := if b then "true" else "false"

end TreeEval.Text
