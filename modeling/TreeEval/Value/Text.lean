import TreeEval.Value.Basic

/-!
# Text of values

`Value.text` is what a reader of a result sees, close to the literal that would produce it.
`Value.inspect` is what a developer sees: the name of the case before each value, and texts quoted.
An error shows its message in both.
-/

namespace TreeEval

namespace Value

mutual

/-- The value as a reader of a result sees it. -/
def text : Value → String
  | null => "null"
  | bool b => Text.bool b
  | int n => Text.int n
  | uint n => Text.uint n
  | double d => d.text
  | str s => Text.str s
  | bytes b => Text.bytes b
  | list elems => Text.bracketed (textElems elems)
  | map ⟨⟨entries⟩, _⟩ => Text.braced (textEntries entries)
  | error e => "<error: " ++ e.message ++ ">"
  | unknown ids => "<unknown: " ++ ids.text ++ ">"

/-- The texts of the elements of a list. -/
def textElems : List Value → List String
  | [] => []
  | x :: xs => text x :: textElems xs

/-- The texts of the entries of a map. -/
def textEntries : List (Key × Value) → List String
  | [] => []
  | (k, x) :: rest => Text.entry k.text (text x) :: textEntries rest

end

mutual

/-- The value as a developer reads it. -/
def inspect : Value → String
  | null => "Null"
  | bool b => Text.inspectBool b
  | int n => Text.inspectInt n
  | uint n => Text.inspectUint n
  | double d => Text.inspectDouble d.text
  | str s => Text.inspectStr s
  | bytes b => Text.inspectBytes b
  | list elems => Text.applied "List" (Text.bracketed (inspectElems elems))
  | map ⟨⟨entries⟩, _⟩ => Text.applied "Map" (Text.braced (inspectEntries entries))
  | error e => Text.applied "Error" e.message
  | unknown ids => Text.applied "Unknown" ids.text

/-- The elements of a list as a developer reads them. -/
def inspectElems : List Value → List String
  | [] => []
  | x :: xs => inspect x :: inspectElems xs

/-- The entries of a map as a developer reads them. -/
def inspectEntries : List (Key × Value) → List String
  | [] => []
  | (k, x) :: rest => Text.entry k.inspect (inspect x) :: inspectEntries rest

end

@[simp] theorem text_ofKey (k : Key) : (ofKey k).text = k.text := by
  cases k <;> rfl

theorem inspect_key (k : Key) : k.inspect = Text.applied "Key" (ofKey k).inspect := by
  cases k <;> rfl

end Value

/-! ## Parts of values

What a developer sees of the part of a value that is kept apart from its case. -/

namespace Value

/-- The part of a value as a developer reads it, for the cases whose part stands by itself. -/
def inspectPart? : Value → Option String
  | str s => some (Text.quote s)
  | bytes b => some (Text.byteNumbers b)
  | list elems => some (Text.bracketed (inspectElems elems))
  | error e => some e.inspect
  | unknown ids => some ids.inspect
  | _ => none

/-- The part of a value as a reader sees it, for the cases whose part has a text of its own. -/
def textPart? : Value → Option String
  | str s => some s
  | error e => some e.message
  | unknown ids => some ids.text
  | _ => none

end Value

end TreeEval
