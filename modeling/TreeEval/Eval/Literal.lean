import TreeEval.Value.Basic

/-!
# List and map literals

A literal is built from the parts it computes, in order. The first sentinel among them ends the work
and is the value of the literal. In a map a key comes before its value, and a key that is of no use
fails only after its value has been computed.

The parts are actions of any monad, so one definition serves the evaluator and, with parts that are
values already, the folding of constants.
-/

namespace TreeEval.Literal

/-- The value of a list literal of which some elements are built already, the last one first. -/
@[specialize]
def listFrom {m : Type → Type} [Monad m] : List (m Value) → List Value → m Value
  | [], built => pure (.list built.reverse)
  | elem :: rest, built => do
    let value ← elem
    if value.isSentinel then pure value else listFrom rest (value :: built)

/-- The value of a list literal. -/
@[inline]
def list {m : Type → Type} [Monad m] (elems : List (m Value)) : m Value := listFrom elems []

/-- The failure of a map literal with more keys than values or the other way round. -/
def arityError (keys vals : Nat) : Value :=
  .fail (.custom
    ("map has " ++ toString keys ++ " keys but " ++ toString vals ++ " values"))

/-- A map with one more entry, if its key is of use: it has to be a key and must not be taken. -/
def addEntry (map : OrderedMap Key Value) (key value : Value) :
    Except Value (OrderedMap Key Value) :=
  match key.toKey? with
  | none => .error (.fail (.unsupportedKeyType key.type.name))
  | some k =>
    match map.insert k value with
    | .error taken => .error (.fail (.duplicateMapKey taken.text))
    | .ok map => .ok map

/-- The value of a map literal of which some entries are built already. -/
@[specialize]
def mapFrom {m : Type → Type} [Monad m] :
    List (m Value × m Value) → OrderedMap Key Value → m Value
  | [], built => pure (.map built)
  | (key, value) :: rest, built => do
    let key ← key
    if key.isSentinel then pure key
    else
      let value ← value
      if value.isSentinel then pure value
      else
        match addEntry built key value with
        | .error failure => pure failure
        | .ok built => mapFrom rest built

/-- Of an entry whose key and value are computed already. -/
theorem mapFrom_cons (key value : Value) (rest : List (Value × Value))
    (built : OrderedMap Key Value) :
    mapFrom (m := Id) ((key, value) :: rest) built =
      if key.isSentinel then key
      else if value.isSentinel then value
      else
        match addEntry built key value with
        | .error failure => failure
        | .ok built => mapFrom (m := Id) rest built := rfl

/-- The value of a map literal. If keys and values do not match in number, nothing is computed. -/
@[inline]
def map {m : Type → Type} [Monad m] (keys vals : List (m Value)) : m Value :=
  if keys.length = vals.length then
    mapFrom (keys.zip vals) (OrderedMap.emptyWithCapacity keys.length)
  else pure (arityError keys.length vals.length)

end TreeEval.Literal
