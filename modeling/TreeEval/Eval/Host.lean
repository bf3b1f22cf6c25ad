import TreeEval.Node.Basic
import TreeEval.Scratch.Pool

/-!
# Hosts

What an evaluation needs from its surroundings: scratch slots for the variables of its loops, and
someone who takes in the reports of watches. The evaluator is written once for any host.
-/

namespace TreeEval

/-- The surroundings of an evaluation. -/
class Host (m : Type → Type) where
  /-- Takes a slot for a variable. -/
  checkout : String → m Scratch.Slot
  /-- Gives a slot back. -/
  release : Scratch.Slot → m Unit
  /-- Tells an observer the value of a node. -/
  report : Observer → NodeId → Value → m Unit

end TreeEval
