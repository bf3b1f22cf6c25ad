/-!
# Character classes

A class of characters is a table of code points at which membership changes. The table of a
property of the Unicode standard is then a plain list of numbers, and a look-up is a binary search.
-/

namespace TreeEval.Text

/-- A set of characters as the ascending code points at which membership changes: the first is the
first member, the second the first non-member after it, the third the next member, and so on. -/
structure CharClass where
  /-- The code points at which membership changes. -/
  changes : Array Nat

namespace CharClass

/-- How many of the changes with index in `[lo, hi)` happen at `code` or before, plus `lo`,
found by halving the range. -/
def rank (changes : Array Nat) (code lo hi : Nat) : Nat :=
  if lo < hi then
    let mid := (lo + hi) / 2
    if changes.getD mid 0 ≤ code then rank changes code (mid + 1) hi
    else rank changes code lo mid
  else lo
termination_by hi - lo

/-- A character is in the class if an odd number of changes happened up to it. -/
def contains (cls : CharClass) (c : Char) : Bool :=
  rank cls.changes c.toNat 0 cls.changes.size % 2 = 1

end CharClass

end TreeEval.Text
