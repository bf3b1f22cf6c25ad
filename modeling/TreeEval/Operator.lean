import TreeEval.Overload
import TreeEval.Value.Equality

/-!
# Binary operators

What an operator makes of two values. An operator chooses its meaning by the types of its operands;
operands that fit none of its meanings give the error `noSuchOverload`.

Integer arithmetic is exact or an error, never reduced modulo a power of two: the exact result is
computed first and then fitted into the type. Texts and bytes are ordered by their bytes.
-/

namespace TreeEval

namespace Operator

/-! ## Arithmetic -/

/-- The signed integer of 64 bits that an exact result is, if it fits. -/
def fitInt? (n : Int) : Option Int64 :=
  if Int64.minValue.toInt ≤ n ∧ n ≤ Int64.maxValue.toInt then some (Int64.ofInt n) else none

/-- The unsigned integer of 64 bits that an exact result is, if it fits. -/
def fitUint? (n : Int) : Option UInt64 :=
  if 0 ≤ n ∧ n < UInt64.size then some (UInt64.ofNat n.toNat) else none

/-- The arithmetic operators. -/
inductive Arithmetic where
  | addition
  | subtraction
  | multiplication
deriving DecidableEq

namespace Arithmetic

/-- The name under which an overflow is reported. -/
def name : Arithmetic → String
  | addition => "addition"
  | subtraction => "subtraction"
  | multiplication => "multiplication"

/-- The exact result on integers. -/
def exact : Arithmetic → Int → Int → Int
  | addition, a, b => a + b
  | subtraction, a, b => a - b
  | multiplication, a, b => a * b

/-- The rounded result on doubles. -/
def rounded : Arithmetic → Double → Double → Double
  | addition, a, b => a.add b
  | subtraction, a, b => a.subtract b
  | multiplication, a, b => a.multiply b

/-- The error of a result that does not fit. -/
def overflow (op : Arithmetic) : Value := .fail (.integerOverflow op.name)

/-- The result on signed integers. -/
def onInt (op : Arithmetic) (a b : Int64) : Value :=
  match fitInt? (op.exact a.toInt b.toInt) with
  | some n => .int n
  | none => op.overflow

/-- The result on unsigned integers. -/
def onUint (op : Arithmetic) (a b : UInt64) : Value :=
  match fitUint? (op.exact a.toNat b.toNat) with
  | some n => .uint n
  | none => op.overflow

/-- The result on numbers of one type. -/
def apply (op : Arithmetic) : Value → Value → Value
  | .int a, .int b => op.onInt a b
  | .uint a, .uint b => op.onUint a b
  | .double a, .double b => .double (op.rounded a b)
  | _, _ => .fail .noSuchOverload

end Arithmetic

/-- Addition also joins texts, bytes and lists. -/
def add : Value → Value → Value
  | .str a, .str b => .str (a ++ b)
  | .bytes a, .bytes b => .bytes (a ++ b)
  | .list a, .list b => .list (a ++ b)
  | a, b => Arithmetic.addition.apply a b

/-! ## Order -/

/-- The bytes of a text, by which texts are ordered. -/
def textBytes (s : String) : List UInt8 := s.toUTF8.data.toList

/-- How two values of one ordered type compare: `none` for values that have no order, `some none`
for an unordered pair of doubles. -/
def compare? : Value → Value → Option (Option Ordering)
  | .bool a, .bool b => some (some (compare a b))
  | .int a, .int b => some (some (compare a b))
  | .uint a, .uint b => some (some (compare a b))
  | .double a, .double b => some (a.compare? b)
  | .str a, .str b => some (some (compareOfLessAndEq (textBytes a) (textBytes b)))
  | .bytes a, .bytes b => some (some (compareOfLessAndEq a b))
  | _, _ => none

/-- Whether the order of two values is the wanted one. An unordered pair never is. -/
def ordered (wanted : Ordering) (a b : Value) : Value :=
  match compare? a b with
  | some found => .bool (found == some wanted)
  | none => .fail .noSuchOverload

/-! ## Membership -/

/-- Whether some element equals a value. Comparing goes on past a pair that cannot be compared, but
such a pair turns a negative answer into an error. -/
def scan (x : Value) : List Value → Value
  | [] => .bool false
  | y :: rest =>
    match x.equal y with
    | .bool true => .bool true
    | .bool false => scan x rest
    | _ =>
      match scan x rest with
      | .bool true => .bool true
      | _ => .fail .noSuchOverload

/-- Membership in a list. -/
def inList (x : Value) : Value → Value
  | .list elems => scan x elems
  | _ => .fail .noSuchOverload

/-- Membership among the keys of a map. -/
def inMap (x : Value) : Value → Value
  | .map m =>
    if x.isPrimitive then .bool (x.toKey?.any m.contains) else .fail .noSuchOverload
  | _ => .fail .noSuchOverload

end Operator

open Operator in
/-- The result of a binary operator. -/
def Overload.apply : Overload → Value → Value → Value
  | .add, a, b => Operator.add a b
  | .subtract, a, b => Arithmetic.subtraction.apply a b
  | .multiply, a, b => Arithmetic.multiplication.apply a b
  | .equals, a, b => a.equal b
  | .notEquals, a, b => (a.equal b).negate
  | .less, a, b => ordered .lt a b
  | .greater, a, b => ordered .gt a b
  | .inList, a, b => Operator.inList a b
  | .inMap, a, b => Operator.inMap a b

end TreeEval
