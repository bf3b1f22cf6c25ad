import TreeEval.Plan.Basic

/-!
# Decorators

Decorators that put something around a node, in its place, or in its way.

* `observe` puts a watch around every node, so that an observer is told its value.
* `makeExhaustive` turns connectives, ternaries and loops that stop when their value is settled into
  ones that visit everything, and so report more to observers.
* The others deal with chosen nodes only: they watch them, take note of them, refuse them, or put
  something else in their place.
-/

namespace TreeEval

namespace Decorator

/-- Puts a watch around a node. -/
def observe (observer : Observer) : Decorator := fun n => pure (.watch observer n)

/-- Makes a short-circuit node exhaustive. -/
def makeExhaustive : Decorator
  | .logical id .shortCircuit connective lhs rhs => do
    Plan.note (.madeExhaustive id (.logical .shortCircuit connective))
    pure (.logical id .exhaustive connective lhs rhs)
  | .conditional id .shortCircuit cond truthy falsy => do
    Plan.note (.madeExhaustive id (.conditional .shortCircuit))
    pure (.conditional id .exhaustive cond truthy falsy)
  | .fold id .shortCircuit accuVar iterVar range init cond step result => do
    Plan.note (.madeExhaustive id (.fold .shortCircuit))
    pure (.fold id .exhaustive accuVar iterVar range init cond step result)
  | n => pure n

end Decorator

/-! ## Chosen nodes -/

/-- A choice of nodes. What is not given does not restrict it. -/
structure NodeFilter where
  /-- The identifiers to choose from. -/
  ids : Option (List NodeId)
  /-- The name of the kind to choose from. -/
  kind : Option String

/-- Whether a node is chosen. -/
def NodeFilter.accepts (filter : NodeFilter) (n : Node) : Bool :=
  filter.ids.all (·.contains n.id) && filter.kind.all (· = n.kind.name)

namespace Decorator

/-- Puts a watch around chosen nodes. -/
def observeOnly (filter : NodeFilter) (observer : Observer) : Decorator := fun n =>
  pure (if filter.accepts n then .watch observer n else n)

/-- Takes note of every node and leaves it as it is. -/
def takeNote (channel : String) : Decorator := fun n => do
  Plan.note (.visited channel n.id n.kind)
  pure n

/-- Refuses chosen nodes. -/
def refuse (filter : NodeFilter) (reason : String) : Decorator := fun n =>
  if filter.accepts n then throw (.rejected n.id reason) else pure n

/-- Puts another node in the place of chosen ones. -/
def substitute (filter : NodeFilter) (replacement : Node) : Decorator := fun n =>
  pure (if filter.accepts n then replacement else n)

end Decorator

end TreeEval
