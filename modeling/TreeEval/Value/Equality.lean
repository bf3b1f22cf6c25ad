import TreeEval.Value.Basic

/-!
# Equality of values

There are two questions, and two answers.

* `Value.equal` is the equality of the expression language. It is itself an evaluation: values of
  different types cannot be compared, a sentinel is handed on, and lists and maps give up at the
  first pair that is not equal, with whatever comparing that pair gave.
* `Value.same` compares structures and always says yes or no. Values of different types differ, and
  errors and unknowns are data like any other.

Both compare doubles as numbers, so a NaN is equal to nothing. The entries of maps are compared in
the order in which they were inserted into the left operand. `same` gives the same answer in any
order; what `equal` hands on is that of the first pair that is not equal.
-/

namespace TreeEval

namespace Value

mutual

/-- Equality in the expression language. -/
def equal (a b : Value) : Value :=
  if a.isSentinel then a
  else if b.isSentinel then b
  else
    match a, b with
    | null, null => bool true
    | bool x, bool y => bool (x == y)
    | int x, int y => bool (x == y)
    | uint x, uint y => bool (x == y)
    | double x, double y => bool (x.equal y)
    | str x, str y => bool (x == y)
    | bytes x, bytes y => bool (x == y)
    | list xs, list ys => if xs.length = ys.length then equalElems xs ys else bool false
    | map ⟨⟨entries⟩, _⟩, map other =>
      if entries.length = other.size then equalEntries entries other else bool false
    | _, _ => fail .noSuchOverload

/-- Compares lists of one length, element by element. -/
def equalElems : List Value → List Value → Value
  | x :: xs, y :: ys =>
    match equal x y with
    | bool true => equalElems xs ys
    | other => other
  | _, _ => bool true

/-- Compares entries with those of a map under the same keys. -/
def equalEntries : List (Key × Value) → OrderedMap Key Value → Value
  | [], _ => bool true
  | (k, x) :: rest, m =>
    match m.get? k with
    | none => bool false
    | some y =>
      match equal x y with
      | bool true => equalEntries rest m
      | other => other

end

mutual

/-- Equality of structures. -/
def same : Value → Value → Bool
  | null, null => true
  | bool x, bool y => x == y
  | int x, int y => x == y
  | uint x, uint y => x == y
  | double x, double y => x.equal y
  | str x, str y => x == y
  | bytes x, bytes y => x == y
  | list xs, list ys => xs.length == ys.length && sameElems xs ys
  | map ⟨⟨entries⟩, _⟩, map other => entries.length == other.size && sameEntries entries other
  | error x, error y => x == y
  | unknown x, unknown y => x == y
  | _, _ => false

/-- Compares the structures of lists of one length. -/
def sameElems : List Value → List Value → Bool
  | x :: xs, y :: ys => same x y && sameElems xs ys
  | _, _ => true

/-- Compares the structures of entries with those of a map under the same keys. -/
def sameEntries : List (Key × Value) → OrderedMap Key Value → Bool
  | [], _ => true
  | (k, x) :: rest, m =>
    match m.get? k with
    | none => false
    | some y => same x y && sameEntries rest m

end

/-- The negation of a truth value; anything else is handed on. -/
def negate : Value → Value
  | bool b => bool !b
  | v => v

end Value

end TreeEval
