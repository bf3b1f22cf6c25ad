import TreeEval.Decimal.Shortest

/-!
# Where the point goes

A decimal is written with its point in place when it is neither very large nor very small, and with
a power of ten otherwise. What counts as large and small is a `Layout`.
-/

namespace TreeEval.Decimal

/-- When a decimal is written without a power of ten. -/
structure Layout where
  /-- The least number of digits before the point; a negative one counts zeros after it. -/
  leastPlaces : Int
  /-- The greatest number of digits before the point. -/
  greatestPlaces : Int

/-- The number of digits before the point; a negative number counts zeros right after the point. -/
def Scientific.places (d : Scientific) : Int := (toString d.digits).length + d.exponent

/-- The decimal with its point in place, and at least one digit on each side of it. -/
def Scientific.positional (d : Scientific) : String :=
  let digits := (toString d.digits).toList
  let before := d.places.toNat
  let zeros (n : Nat) : List Char := List.replicate n '0'
  let whole := if before = 0 then ['0'] else digits.take before ++ zeros (before - digits.length)
  let rest := zeros (-d.places).toNat ++ digits.drop before
  String.ofList (whole ++ '.' :: (if rest.isEmpty then ['0'] else rest))

/-- The decimal with one digit before the point, the point only when digits follow it, and the
power of ten after the letter `e`. -/
def Scientific.exponential (d : Scientific) : String :=
  let digits := (toString d.digits).toList
  let rest := digits.drop 1
  String.ofList (digits.take 1 ++ (if rest.isEmpty then [] else '.' :: rest)) ++
    "e" ++ toString (d.places - 1)

/-- The decimal in the form that its size calls for. -/
def Layout.render (layout : Layout) (d : Scientific) : String :=
  if layout.leastPlaces ≤ d.places ∧ d.places ≤ layout.greatestPlaces then d.positional
  else d.exponential

end TreeEval.Decimal
