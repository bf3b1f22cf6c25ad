import TreeEval.Plan.Event

/-!
# Planning actions

A planning action records events and either fails or returns something. The events recorded up to a
failure are kept. A decorator is a planning action for each node: it returns what takes the place of
the node.
-/

namespace TreeEval

/-- A planning action. -/
abbrev Plan := ExceptT PlanError (StateM (Array PlanEvent))

namespace Plan

/-- Records an event. -/
@[inline]
def note (event : PlanEvent) : Plan Unit := modify (·.push event)

/-- Runs an action from the beginning: its outcome, and the events that it recorded. -/
def outcome {α : Type} (action : Plan α) : Except PlanError α × List PlanEvent :=
  let (result, events) := (action.run).run #[]
  (result, events.toList)

end Plan

/-- What takes the place of a node. -/
abbrev Decorator := Node → Plan Node

end TreeEval
