/-!
# Binary operator overloads

A binary call names the operator it applies. The membership operator `in` has one overload for
lists and one for maps; all other operators choose their meaning by the types of their operands.
-/

namespace TreeEval

/-- The operator of a binary call. -/
inductive Overload where
  | add
  | subtract
  | multiply
  | equals
  | notEquals
  | less
  | greater
  | inList
  | inMap
deriving DecidableEq

namespace Overload

/-- All overloads. -/
def all : List Overload :=
  [add, subtract, multiply, equals, notEquals, less, greater, inList, inMap]

theorem mem_all (op : Overload) : op ∈ all := by
  cases op <;> decide

/-- The name by which an overload is looked up. -/
def name : Overload → String
  | add => "add"
  | subtract => "subtract"
  | multiply => "multiply"
  | equals => "equals"
  | notEquals => "not_equals"
  | less => "less"
  | greater => "greater"
  | inList => "in_list"
  | inMap => "in_map"

/-- The overload that has a given name. -/
def ofName? (name : String) : Option Overload :=
  all.find? (·.name = name)

/-- The operator as it stands in source text. -/
def symbol : Overload → String
  | add => "+"
  | subtract => "-"
  | multiply => "*"
  | equals => "=="
  | notEquals => "!="
  | less => "<"
  | greater => ">"
  | inList | inMap => "in"

/-- Whether the operator tests membership. -/
def isMembership (op : Overload) : Bool := op matches inList | inMap

/-- The overload as a developer reads it. -/
def inspect : Overload → String
  | add => "Add"
  | subtract => "Subtract"
  | multiply => "Multiply"
  | equals => "Equals"
  | notEquals => "NotEquals"
  | less => "Less"
  | greater => "Greater"
  | inList => "InList"
  | inMap => "InMap"

theorem name_injective {a b : Overload} (h : a.name = b.name) : a = b := by
  revert h; cases a <;> cases b <;> decide

theorem isMembership_iff {op : Overload} : op.isMembership = true ↔ op.symbol = "in" := by
  cases op <;> decide

end Overload

end TreeEval
