/-!
# The shortest decimal that reads back

A binary floating-point number stands for every real number that rounds to it. Of the decimals in
that interval, the shortest is the one on the coarsest grid `10^k, 2 * 10^k, 3 * 10^k, …`; where a
grid meets the interval twice, the nearer point is taken, and of two equally near ones the upper.

Everything is exact arithmetic on natural numbers: the number, the ends of its interval and the grid
are brought to a common unit first.
-/

namespace TreeEval.Decimal

/-- A positive decimal `digits * 10^exponent`. -/
structure Scientific where
  /-- The digits, read as one number. -/
  digits : Nat
  /-- The power of ten that the last digit counts. -/
  exponent : Int
deriving DecidableEq

/-- A positive number `mantissa * 2^exponent` together with how close its neighbours are. -/
structure Binary where
  /-- The binary digits, read as one number. -/
  mantissa : Nat
  /-- The power of two that the last binary digit counts. -/
  exponent : Int
  /-- Whether the next number below is only half as far away as the next one above. -/
  closerBelow : Bool

/-- A number and the interval that rounds to it, in one unit with a grid of decimals. -/
structure Scaled where
  /-- The distance between two points of the grid. -/
  step : Nat
  /-- The lower end of the interval. -/
  low : Nat
  /-- The number itself. -/
  value : Nat
  /-- The upper end of the interval. -/
  high : Nat
  /-- Whether the ends belong to the interval: they are ties, and ties go to an even mantissa. -/
  closed : Bool

/-- The number against the grid of multiples of `10^k`. The unit is a quarter of the last binary
digit, and whatever makes the grid whole. -/
def Binary.scaled (b : Binary) (k : Int) : Scaled :=
  let unit := Nat.pow 2 (b.exponent - 2).toNat * Nat.pow 10 (-k).toNat
  { step := Nat.pow 2 (2 - b.exponent).toNat * Nat.pow 10 k.toNat
    low := (4 * b.mantissa - (if b.closerBelow then 1 else 2)) * unit
    value := 4 * b.mantissa * unit
    high := (4 * b.mantissa + 2) * unit
    closed := b.mantissa % 2 = 0 }

/-- Whether a point of the grid reads back as the number. -/
def Scaled.accepts (s : Scaled) (point : Nat) : Bool :=
  let p := point * s.step
  if s.closed then s.low ≤ p && p ≤ s.high else s.low < p && p < s.high

/-- The point of the grid that reads back as the number and is nearest to it, if there is one.
Only the two neighbours of the number need to be looked at. -/
def Scaled.nearest? (s : Scaled) : Option Nat :=
  let below := s.value / s.step
  let above := below + 1
  match s.accepts below, s.accepts above with
  | false, false => none
  | true, false => some below
  | false, true => some above
  | true, true =>
    if s.value - below * s.step < above * s.step - s.value then some below else some above

/-- The search through ever finer grids, from multiples of `10^k` on and at most `fuel` of them. -/
def shortestFrom (b : Binary) : (fuel : Nat) → (k : Int) → Scientific
  | 0, k => ⟨(b.scaled k).value / (b.scaled k).step, k⟩
  | fuel + 1, k =>
    match (b.scaled k).nearest? with
    | some digits => ⟨digits, k⟩
    | none => shortestFrom b fuel (k - 1)

/-- The shortest decimal that reads back as the number. The first grid is coarser than the number
is large, since `2^n < 10^(n * 30103 / 100000 + 1)`; twenty-two steps from there reach a grid finer
than the interval of any number of 53 binary digits. -/
def Binary.shortest (b : Binary) : Scientific :=
  let top := (b.exponent + (Nat.log2 b.mantissa + 1)) * 30103 / 100000 + 1
  shortestFrom b 22 top

end TreeEval.Decimal
