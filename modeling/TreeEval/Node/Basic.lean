import TreeEval.Overload
import TreeEval.Value.KeySet

/-!
# Nodes

An expression is a tree of nodes. Connectives, ternaries and loops come in two modes: a
short-circuit node visits only what it needs for its value, an exhaustive one visits everything.
Two kinds of node do not come from source text: a watch reports the value of the node inside it, and
a set membership is a membership test whose list has been turned into a set beforehand.
-/

namespace TreeEval

/-- How much of a connective, a ternary or a loop is visited. -/
inductive Mode where
  /-- Only what the value depends on. -/
  | shortCircuit
  /-- Everything. -/
  | exhaustive
deriving DecidableEq

/-- The logical connectives. -/
inductive Connective where
  | or
  | and
deriving DecidableEq

/-- The operand that settles a connective by itself, and then is its value. -/
def Connective.absorbing : Connective → Bool
  | or => true
  | and => false

/-- Someone who is told the values of nodes while a program runs. -/
inductive Observer where
  /-- Passes the values on, through a channel with a name. -/
  | values (channel : String)
  /-- Passes on how many scratch slots are in use when a value is told. -/
  | scratchUse (channel : String)
  /-- Keeps the latest value of every node. -/
  | tracker
deriving DecidableEq

/-- An expression. -/
inductive Node where
  /-- A literal value. -/
  | const (id : NodeId) (value : Value)
  /-- A name, which means what the activation says. -/
  | ident (id : NodeId) (name : String)
  /-- A binary operator. -/
  | binary (id : NodeId) (op : Overload) (lhs rhs : Node)
  /-- A logical connective. -/
  | logical (id : NodeId) (mode : Mode) (connective : Connective) (lhs rhs : Node)
  /-- A ternary. -/
  | conditional (id : NodeId) (mode : Mode) (cond truthy falsy : Node)
  /-- A list literal. -/
  | list (id : NodeId) (elems : List Node)
  /-- A map literal; it is malformed if it has more keys than values or the other way round. -/
  | map (id : NodeId) (keys vals : List Node)
  /-- A loop over the items of `range`. The accumulator starts as `init` and becomes `step` for
  each item, as long as `cond` holds; then `result` is the value. -/
  | fold (id : NodeId) (mode : Mode) (accuVar iterVar : String)
      (range init cond step result : Node)
  /-- Reports the value of the node inside it. -/
  | watch (observer : Observer) (inner : Node)
  /-- The test of `lhs` for membership in the list `rhs`, all of whose elements are keys of one
  type: they are the keys in the set. -/
  | setMembership (id : NodeId) (elemType : ValueType) (elems : KeySet elemType) (lhs rhs : Node)

namespace Node

instance : Inhabited Node := ⟨const .invalid .null⟩

/-- The expression that a node stands for. A watch stands for what it wraps. -/
def id : Node → NodeId
  | const id _ | ident id _ | binary id _ _ _ | logical id _ _ _ _ | conditional id _ _ _ _
  | list id _ | map id _ _ | fold id _ _ _ _ _ _ _ _ | setMembership id _ _ _ _ => id
  | watch _ inner => inner.id

/-- The value of a literal. -/
def asConst? : Node → Option Value
  | const _ value => some value
  | _ => none

/-- Whether the node is a literal. -/
def isConst (n : Node) : Bool := n.asConst?.isSome

/-! ## Kinds -/

end Node

/-- The kinds of nodes; the two modes of a node are kinds of their own. -/
inductive NodeKind where
  | const
  | ident
  | binary
  | logical (mode : Mode) (connective : Connective)
  | conditional (mode : Mode)
  | list
  | map
  | fold (mode : Mode)
  | watch
  | setMembership
deriving DecidableEq

/-- The name of a kind. -/
def NodeKind.name : NodeKind → String
  | const => "const"
  | ident => "ident"
  | binary => "binary"
  | logical .shortCircuit .or => "or"
  | logical .shortCircuit .and => "and"
  | logical .exhaustive .or => "exhaustive_or"
  | logical .exhaustive .and => "exhaustive_and"
  | conditional .shortCircuit => "conditional"
  | conditional .exhaustive => "exhaustive_conditional"
  | list => "list"
  | map => "map"
  | fold .shortCircuit => "fold"
  | fold .exhaustive => "exhaustive_fold"
  | watch => "watch"
  | setMembership => "set_membership"

namespace Node

/-- The kind of a node. -/
def kind : Node → NodeKind
  | const _ _ => .const
  | ident _ _ => .ident
  | binary _ _ _ _ => .binary
  | logical _ mode connective _ _ => .logical mode connective
  | conditional _ mode _ _ _ => .conditional mode
  | list _ _ => .list
  | map _ _ _ => .map
  | fold _ mode _ _ _ _ _ _ _ => .fold mode
  | watch _ _ => .watch
  | setMembership _ _ _ _ _ => .setMembership

end Node

end TreeEval
