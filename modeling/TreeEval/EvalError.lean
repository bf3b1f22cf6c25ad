import TreeEval.Text.Inspect
import TreeEval.Text.Quoted

/-!
# Evaluation errors

An evaluation error is a value like any other. It has a cause, which a program can inspect, and a
message, which a person reads. The message is the wording of the cause unless someone has replaced
it, so two errors are the same only if both parts are.
-/

namespace TreeEval

/-- Why an evaluation has no ordinary result. -/
inductive EvalError.Cause where
  /-- No meaning of the operator fits the types of its operands. -/
  | noSuchOverload
  /-- A loop ranges over a value that is neither a list nor a map. -/
  | notIterable (typeName : String)
  /-- A name is bound nowhere. -/
  | noSuchAttribute (name : String)
  /-- A map literal has the same key twice. -/
  | duplicateMapKey (key : String)
  /-- A value of this type cannot be a key. -/
  | unsupportedKeyType (typeName : String)
  /-- The exact result does not fit the type of the operands. -/
  | integerOverflow (operation : String)
  /-- Anything else, said in words only. -/
  | custom (message : String)
deriving DecidableEq

/-- A cause and the message that reports it. -/
structure EvalError where
  /-- Why there is no ordinary result. -/
  cause : EvalError.Cause
  /-- What is reported. -/
  message : String
deriving DecidableEq

namespace EvalError

/-- The wording of a cause. -/
def Cause.message : Cause → String
  | noSuchOverload => "no such overload"
  | notIterable typeName => "got '" ++ typeName ++ "', expected iterable type"
  | noSuchAttribute name => "no such attribute: " ++ name
  | duplicateMapKey key => "duplicate map key: " ++ key
  | unsupportedKeyType typeName => "unsupported map key type: " ++ typeName
  | integerOverflow operation => "integer overflow in " ++ operation
  | custom message => message

/-- The error that reports a cause in its own wording. -/
def of (cause : Cause) : EvalError := ⟨cause, cause.message⟩

@[simp] theorem cause_of (cause : Cause) : (of cause).cause = cause := rfl

@[simp] theorem message_of (cause : Cause) : (of cause).message = cause.message := rfl

theorem of_inj {a b : Cause} : of a = of b ↔ a = b :=
  ⟨fun h => congrArg cause h, congrArg of⟩

/-- The cause as a developer reads it. -/
def Cause.inspect : Cause → String
  | noSuchOverload => "NoSuchOverload"
  | notIterable typeName => part "NotIterable" "type_name" typeName
  | noSuchAttribute name => part "NoSuchAttribute" "name" name
  | duplicateMapKey key => part "DuplicateMapKey" "key" key
  | unsupportedKeyType typeName => part "UnsupportedKeyType" "type_name" typeName
  | integerOverflow operation => part "IntegerOverflow" "operation" operation
  | custom message => part "Custom" "message" message
where
  /-- A cause with one part, which is a text. -/
  part (name field value : String) : String := Text.record name [(field, Text.quote value)]

/-- The error as a developer reads it. -/
def inspect (e : EvalError) : String :=
  Text.record "EvalError" [("kind", e.cause.inspect), ("message", Text.quote e.message)]

end EvalError

end TreeEval
