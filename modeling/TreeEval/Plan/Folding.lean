import TreeEval.Eval.Literal
import TreeEval.Plan.Basic
import TreeEval.Value.KeySet

/-!
# Computing ahead

Two things are computed when a program is planned instead of each time it runs.

* A list or map literal whose parts are all constants becomes a constant. It may be an error, just
  as the literal would have been.
* A membership test against a constant list becomes false if the list is empty, and a look-up in a
  set if all elements are keys of one type. Any other list stays as it is, since comparing its
  elements may fail.

A constant that is being watched is still a constant. What its watches would have reported is lost
with it.
-/

namespace TreeEval

/-- The value of a constant, watched or not. -/
def Node.constant? : Node → Option Value
  | const _ value => some value
  | watch _ inner => inner.constant?
  | _ => none

/-- The values of nodes that are all constants. -/
def Node.constants? : List Node → Option (List Value)
  | [] => some []
  | n :: ns =>
    match n.constant?, constants? ns with
    | some v, some vs => some (v :: vs)
    | _, _ => none

/-- Replaces a list literal of constants by its value. -/
def Plan.constList (id : NodeId) (elems : List Node) : Plan Node :=
  match Node.constants? elems with
  | none => pure (.list id elems)
  | some values => do
    Plan.note (.listFolded id values.length)
    pure (.const id (Literal.list (m := Id) values))

/-- Replaces a map literal of constants by its value. -/
def Plan.constMap (id : NodeId) (keys vals : List Node) : Plan Node :=
  match Node.constants? keys, Node.constants? vals with
  | some ks, some vs => do
    Plan.note (.mapFolded id ks.length)
    pure (.const id (Literal.map (m := Id) ks vs))
  | _, _ => pure (.map id keys vals)

/-- Replaces a membership test against a constant list by something cheaper. A test against a
constant of another type is refused, unless that constant is a sentinel, which the test hands on. -/
def Plan.hashMembership (id : NodeId) (lhs rhs : Node) : Plan Node :=
  let unchanged : Node := .binary id .inList lhs rhs
  match rhs.constant? with
  | none => pure unchanged
  | some (.error _) | some (.unknown _) => pure unchanged
  | some (.list []) => do
    Plan.note (.emptyMembership id)
    pure (.const id (.bool false))
  | some (.list elems) =>
    match Value.keySet? elems with
    | none => pure unchanged
    | some ⟨elemType, keys⟩ => do
      Plan.note (.membershipHashed id elemType keys.size)
      pure (.setMembership id elemType keys lhs rhs)
  | some other => throw (.notAList id other.type)

/-- Replaces a node by what can be computed of it ahead. -/
def Decorator.computeAhead : Decorator
  | .list id elems => Plan.constList id elems
  | .map id keys vals => Plan.constMap id keys vals
  | .binary id .inList lhs rhs => Plan.hashMembership id lhs rhs
  | n => pure n

end TreeEval
