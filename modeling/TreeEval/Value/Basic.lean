import TreeEval.EvalError
import TreeEval.Key
import TreeEval.OrderedMap
import TreeEval.UnknownSet

/-!
# Values

What an expression evaluates to. Errors and unknowns are values of their own, the *sentinels*: most
operations hand a sentinel operand on unchanged instead of computing with it.
-/

namespace TreeEval

/-- The result of an evaluation. -/
inductive Value where
  | null
  | bool (b : Bool)
  | int (n : Int64)
  | uint (n : UInt64)
  | double (d : Double)
  | str (s : String)
  | bytes (b : List UInt8)
  | list (elems : List Value)
  | map (m : OrderedMap Key Value)
  | error (e : EvalError)
  | unknown (ids : UnknownSet)

namespace Value

instance : Inhabited Value := ⟨null⟩

/-- The type of a value. -/
def type : Value → ValueType
  | null => .null
  | bool _ => .bool
  | int _ => .int
  | uint _ => .uint
  | double _ => .double
  | str _ => .string
  | bytes _ => .bytes
  | list _ => .list
  | map _ => .map
  | error _ => .error
  | unknown _ => .unknown

/-- The error that reports a cause, as a value. -/
def fail (cause : EvalError.Cause) : Value := error (EvalError.of cause)

/-! ## Sentinels -/

/-- Whether the value is an error. -/
def isError : Value → Bool
  | error _ => true
  | _ => false

/-- Whether the value is unknown. -/
def isUnknown : Value → Bool
  | unknown _ => true
  | _ => false

/-- Whether the value is an error or unknown. -/
def isSentinel : Value → Bool
  | error _ | unknown _ => true
  | _ => false

/-- A sentinel stays what it is; any other value becomes the given error. -/
def orFail (v : Value) (cause : EvalError.Cause) : Value :=
  if v.isSentinel then v else fail cause

theorem isSentinel_iff {v : Value} :
    v.isSentinel = true ↔ v.isError = true ∨ v.isUnknown = true := by
  cases v <;> simp [isSentinel, isError, isUnknown]

theorem isSentinel_of_isUnknown {v : Value} (h : v.isUnknown = true) : v.isSentinel = true :=
  isSentinel_iff.2 (.inr h)

@[simp] theorem isSentinel_fail (cause : EvalError.Cause) : (fail cause).isSentinel = true := rfl

theorem isUnknown_orFail (v : Value) (cause : EvalError.Cause) :
    (v.orFail cause).isUnknown = v.isUnknown := by
  cases v <;> rfl

theorem orFail_orFail (v : Value) (cause cause' : EvalError.Cause) :
    (v.orFail cause).orFail cause' = v.orFail cause := by
  cases v <;> rfl

theorem orFail_of_isUnknown_eq_false {v : Value} (h : v.isUnknown = false)
    (cause : EvalError.Cause) : v.orFail cause = if v.isError then v else fail cause := by
  cases v with
  | unknown ids => exact nomatch h
  | _ => rfl

/-! ## Views -/

/-- The truth value that a value is. -/
def asBool? : Value → Option Bool
  | bool b => some b
  | _ => none

/-- The signed integer that a value is. -/
def asInt? : Value → Option Int64
  | int n => some n
  | _ => none

/-- The text that a value is. -/
def asStr? : Value → Option String
  | str s => some s
  | _ => none

/-- The elements of a list. -/
def asList? : Value → Option (List Value)
  | list elems => some elems
  | _ => none

/-- The map that a value is. -/
def asMap? : Value → Option (OrderedMap Key Value)
  | map m => some m
  | _ => none

/-- The error that a value is. -/
def asError? : Value → Option EvalError
  | error e => some e
  | _ => none

/-- The identifiers of an unknown. -/
def asUnknown? : Value → Option UnknownSet
  | unknown ids => some ids
  | _ => none

theorem asBool?_eq_some {v : Value} {b : Bool} : v.asBool? = some b ↔ v = .bool b := by
  cases v <;> simp [asBool?]

theorem asBool?_orFail (v : Value) (cause : EvalError.Cause) : (v.orFail cause).asBool? = none := by
  cases v <;> rfl

theorem asBool?_of_isUnknown {v : Value} (h : v.isUnknown = true) : v.asBool? = none := by
  cases v with
  | unknown ids => rfl
  | _ => cases h

/-! ## Keys -/

/-- Whether values of this type can be keys. -/
def isPrimitive : Value → Bool
  | bool _ | int _ | uint _ | double _ | str _ | bytes _ => true
  | _ => false

/-- The key that stands for a value. A NaN has none, and both zeros have the same. -/
def toKey? : Value → Option Key
  | bool b => some (.bool b)
  | int n => some (.int n)
  | uint n => some (.uint n)
  | double d => d.canonical?.map .double
  | str s => some (.str s)
  | bytes b => some (.bytes b)
  | _ => none

/-- The values without a key are those of other types, and the NaNs. -/
theorem toKey?_eq_none_iff {v : Value} :
    v.toKey? = none ↔ v.isPrimitive = false ∨ ∃ d, v = .double d ∧ d.isNaN = true := by
  cases v with
  | double d =>
    show d.canonical?.map Key.double = none ↔ _
    rw [Option.map_eq_none_iff, Double.canonical?_eq_none_iff]
    simp [isPrimitive]
  | _ => simp [toKey?, isPrimitive]

/-- The value that a key stands for. -/
def ofKey : Key → Value
  | .bool b => bool b
  | .int n => int n
  | .uint n => uint n
  | .double d => double d.value
  | .str s => str s
  | .bytes b => bytes b

@[simp] theorem type_ofKey (k : Key) : (ofKey k).type = k.type := by
  cases k <;> rfl

/-! ## Size and iteration -/

/-- The size of a text or of bytes in bytes, and the number of elements or entries. -/
def size? : Value → Option Nat
  | str s => some s.utf8ByteSize
  | bytes b => some b.length
  | list elems => some elems.length
  | map m => some m.size
  | _ => none

/-- What a loop over the value visits: the elements of a list, the keys of a map in the order of
their insertion. -/
def items? : Value → Option (List Value)
  | list elems => some elems
  | map m => some (m.keys.map ofKey)
  | _ => none

theorem items?_of_isUnknown {v : Value} (h : v.isUnknown = true) : v.items? = none := by
  cases v with
  | unknown ids => rfl
  | _ => cases h

end Value

end TreeEval
