import TreeEval.Node.Basic
import TreeEval.Plan.Options

/-!
# What happens during planning

Planning either fails with a `PlanError` or returns a tree, and it leaves a record of events: which
phases it entered, what it changed, and how it ended.
-/

namespace TreeEval

/-- Why a tree cannot be planned. -/
inductive PlanError where
  /-- A map literal has more keys than values or the other way round. -/
  | mapArity (id : NodeId) (keys vals : Nat)
  /-- The right side of a membership test in a list is a constant of another type. -/
  | notAList (id : NodeId) (found : ValueType)
  /-- A decorator refuses a node. -/
  | rejected (id : NodeId) (reason : String)
deriving DecidableEq

/-- The wording of an error. -/
def PlanError.message : PlanError → String
  | mapArity id keys vals =>
    "map " ++ id.text ++ " has " ++ toString keys ++ " keys but " ++ toString vals ++ " values"
  | notAList id found =>
    "membership test " ++ id.text ++ " expects a list operand, found " ++ found.name
  | rejected id reason => "node " ++ id.text ++ " rejected: " ++ reason

/-- Something that happens during planning. -/
inductive PlanEvent where
  /-- A program is planned from a tree of some size. -/
  | planning (options : EvalOptions) (nodes : Nat)
  /-- A pipeline of some length is applied. -/
  | applying (decorators : Nat)
  /-- A node, which was of this kind, is made exhaustive. -/
  | madeExhaustive (id : NodeId) (kind : NodeKind)
  /-- A list literal becomes a constant. -/
  | listFolded (id : NodeId) (size : Nat)
  /-- A map literal becomes a constant. -/
  | mapFolded (id : NodeId) (size : Nat)
  /-- A membership test in the empty list becomes false. -/
  | emptyMembership (id : NodeId)
  /-- A membership test in a list becomes one in a set. -/
  | membershipHashed (id : NodeId) (elemType : ValueType) (size : Nat)
  /-- A decorator takes note of a node. -/
  | visited (channel : String) (id : NodeId) (kind : NodeKind)
  /-- The pipeline fails. -/
  | failed (error : PlanError)
  /-- The program is ready, with a tree of some size. -/
  | planned (nodes : Nat)

end TreeEval
