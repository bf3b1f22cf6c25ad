import TreeEval.Decimal.Layout

/-!
# Double-precision numbers

A double is its bit pattern: a sign bit, eleven bits of exponent and fifty-two of fraction. So two
doubles are the same exactly when their bits are, zero has two signs, and all statements about
comparison are statements about bit patterns. Only the arithmetic is the machine's.

* `Double.equal` and `Double.compare?` are the comparisons of IEEE 754: a NaN is unordered with
  everything, and the two zeros are equal.
* `Double.Canonical` holds the doubles on which comparing and being the same agree.
* `Double.text` is the shortest decimal that reads back.
-/

namespace TreeEval

/-- A double-precision number. -/
structure Double where
  /-- Sign, exponent and fraction, from the highest bit down. -/
  bits : UInt64
deriving DecidableEq, Hashable

namespace Double

/-- The place value of the sign bit, which is the highest of the sixty-four. -/
def signBit : Nat := 0x8000000000000000

/-- The bits without the sign. -/
def magnitude (d : Double) : Nat := d.bits.toNat % signBit

/-- Whether the sign bit is set. -/
def isNegative (d : Double) : Bool := signBit ≤ d.bits.toNat

/-- The magnitude of the infinities; every greater magnitude is a NaN. -/
def infiniteMagnitude : Nat := 0x7FF0000000000000

/-- Whether the pattern stands for no number. -/
def isNaN (d : Double) : Bool := infiniteMagnitude < d.magnitude

/-- Whether the pattern is one of the two zeros. -/
def isZero (d : Double) : Bool := d.magnitude = 0

/-- Zero without a sign. -/
def zero : Double := ⟨0⟩

/-- The place of a number in the order of all numbers; the zeros share one. -/
def rank (d : Double) : Int := if d.isNegative then -(d.magnitude : Int) else d.magnitude

/-- Comparison, which is undefined when a NaN takes part. -/
def compare? (a b : Double) : Option Ordering :=
  if a.isNaN || b.isNaN then none else some (compare a.rank b.rank)

/-- Equality of numbers: the zeros are equal, and a NaN equals nothing. -/
def equal (a b : Double) : Bool := !a.isNaN && !b.isNaN && a.rank == b.rank

/-! ## Arithmetic -/

/-- The machine number with the same bits. -/
def toFloat (d : Double) : Float := Float.ofBits d.bits

/-- The bits of a machine number. -/
def ofFloat (x : Float) : Double := ⟨x.toBits⟩

/-- The sum, rounded to nearest. -/
def add (a b : Double) : Double := ofFloat (a.toFloat + b.toFloat)

/-- The difference, rounded to nearest. -/
def subtract (a b : Double) : Double := ofFloat (a.toFloat - b.toFloat)

/-- The product, rounded to nearest. -/
def multiply (a b : Double) : Double := ofFloat (a.toFloat * b.toFloat)

/-! ## Canonical doubles -/

/-- A double is canonical if it is a number and not the zero with a sign. -/
def isCanonical (d : Double) : Bool := !d.isNaN && (!d.isZero || !d.isNegative)

/-- A double that equals a canonical double only if it is the same. -/
structure Canonical where
  /-- The double itself. -/
  value : Double
  /-- It is neither a NaN nor the zero with a sign. -/
  isCanonical : value.isCanonical = true
deriving DecidableEq

instance : Hashable Canonical := ⟨fun d => hash d.value⟩

theorem isCanonical_zero : zero.isCanonical = true := by decide

theorem isCanonical_of_not_isZero {d : Double} (hn : d.isNaN = false) (hz : d.isZero = false) :
    d.isCanonical = true := by
  simp [isCanonical, hn, hz]

/-- The canonical double that equals a given one; a NaN has none. -/
def canonical? (d : Double) : Option Canonical :=
  if hn : d.isNaN = true then none
  else if hz : d.isZero = true then some ⟨zero, isCanonical_zero⟩
  else some ⟨d, isCanonical_of_not_isZero (by simpa using hn) (by simpa using hz)⟩

theorem canonical?_eq_none_iff {d : Double} : d.canonical? = none ↔ d.isNaN = true := by
  unfold canonical?
  split
  · simp_all
  · split <;> simp_all

/-! ## Text -/

/-- The place value of the bit above the fraction. It is the lowest of the exponent, and the leading
digit that a normal number has without storing it. -/
def leadingBit : Nat := 0x10000000000000

/-- The binary digits of a finite number other than zero. Below the smallest normal number all
share one exponent; at a power of two the numbers below are twice as dense. -/
def toBinary (d : Double) : Decimal.Binary :=
  let exponent : Nat := d.magnitude / leadingBit
  let fraction : Nat := d.magnitude % leadingBit
  if exponent = 0 then ⟨fraction, -1074, false⟩
  else ⟨leadingBit + fraction, (exponent : Int) - 1075, fraction = 0 && 1 < exponent⟩

/-- Numbers from `0.0001` up to `10^16` are written without a power of ten. -/
def layout : Decimal.Layout := ⟨-3, 16⟩

/-- The shortest decimal that reads back as the number. -/
def text (d : Double) : String :=
  if d.isNaN then "NaN"
  else
    (if d.isNegative then "-" else "") ++
      if d.magnitude = infiniteMagnitude then "inf"
      else if d.isZero then "0.0"
      else layout.render d.toBinary.shortest

end Double

end TreeEval
