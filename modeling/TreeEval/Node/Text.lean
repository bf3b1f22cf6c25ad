import TreeEval.Node.Basic
import TreeEval.Value.Text

/-!
# Text of nodes

A tree as a developer reads it: the case of every node, the name of the record it holds, and its
parts under their names.
-/

namespace TreeEval.Node

/-- The name of the case of a connective. -/
def connectiveCase : Mode → Connective → String
  | .shortCircuit, .or => "Or"
  | .shortCircuit, .and => "And"
  | .exhaustive, .or => "ExhaustiveOr"
  | .exhaustive, .and => "ExhaustiveAnd"

/-- The name of a case with two modes. -/
def modeCase (name : String) : Mode → String
  | .shortCircuit => name
  | .exhaustive => "Exhaustive" ++ name

/-- A node as its case and the record that the case holds. -/
def caseOf (case type : String) (fields : List (String × String)) : String :=
  Text.applied case (Text.record type fields)

/-- A set of keys as a developer reads it: a map that leads from every member to true. -/
def inspectElems {type : ValueType} (elems : KeySet type) : String :=
  Text.braced (elems.toList.map fun k => Text.entry k.inspect (Text.inspectBool true))

mutual

/-- The tree as a developer reads it. -/
def inspect : Node → String
  | const id value => caseOf "Const" "ConstNode" [("id", id.inspect), ("value", value.inspect)]
  | ident id name => caseOf "Ident" "IdentNode" [("id", id.inspect), ("name", Text.quote name)]
  | binary id op lhs rhs =>
    caseOf "Binary" "BinaryNode"
      [("id", id.inspect), ("overload", op.inspect), ("lhs", lhs.inspect), ("rhs", rhs.inspect)]
  | logical id mode connective lhs rhs =>
    caseOf (connectiveCase mode connective) "LogicalNode"
      [("id", id.inspect), ("lhs", lhs.inspect), ("rhs", rhs.inspect)]
  | conditional id mode cond truthy falsy =>
    caseOf (modeCase "Conditional" mode) "ConditionalNode"
      [("id", id.inspect), ("cond", cond.inspect), ("truthy", truthy.inspect),
        ("falsy", falsy.inspect)]
  | list id elems =>
    caseOf "List" "ListNode" [("id", id.inspect), ("elems", Text.bracketed (inspectAll elems))]
  | map id keys vals =>
    caseOf "Map" "MapNode"
      [("id", id.inspect), ("keys", Text.bracketed (inspectAll keys)),
        ("vals", Text.bracketed (inspectAll vals))]
  | fold id mode accuVar iterVar range init cond step result =>
    caseOf (modeCase "Fold" mode) "FoldNode"
      [("id", id.inspect), ("accu_var", Text.quote accuVar), ("iter_var", Text.quote iterVar),
        ("range", range.inspect), ("accu_init", init.inspect), ("cond", cond.inspect),
        ("step", step.inspect), ("result", result.inspect)]
  | watch _ inner =>
    Text.applied "Watch" (Text.openRecord "WatchNode" [("inner", inner.inspect)])
  | setMembership id elemType elems lhs rhs =>
    caseOf "SetMembership" "SetMembershipNode"
      [("inner",
          Text.record "BinaryNode"
            [("id", id.inspect), ("overload", Overload.inList.inspect), ("lhs", lhs.inspect),
              ("rhs", rhs.inspect)]),
        ("arg_type", Text.quote elemType.name), ("value_set", inspectElems elems)]

/-- Some trees as a developer reads them. -/
def inspectAll : List Node → List String
  | [] => []
  | n :: ns => n.inspect :: inspectAll ns

end

end TreeEval.Node
