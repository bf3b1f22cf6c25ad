import Std.Data.TreeMap
import TreeEval.Eval.Trace
import TreeEval.Value.Text

/-!
# The state of an evaluation

The latest value of every node that has been evaluated since the last reset, in ascending order of
identifiers.
-/

namespace TreeEval

/-- The order of identifiers is a total order on numbers. -/
instance : Std.TransOrd NodeId where
  eq_swap {a b} := @Std.OrientedCmp.eq_swap UInt32 compare _ a.raw b.raw
  isLE_trans {a b c} := @Std.TransCmp.isLE_trans UInt32 compare _ a.raw b.raw c.raw

theorem NodeId.compare_eq_lt {a b : NodeId} : compare a b = .lt ↔ a < b :=
  compareOfLessAndEq_eq_lt (α := UInt32)

/-- Identifiers that are neither before nor after each other are the same. -/
instance : Std.LawfulEqOrd NodeId where
  eq_of_compare {a b} h :=
    congrArg NodeId.mk (@Std.LawfulEqCmp.eq_of_compare UInt32 compare _ a.raw b.raw h)
  compare_self {a} := @Std.ReflCmp.compare_self UInt32 compare _ a.raw

/-- The latest values of nodes. -/
structure EvalState where
  /-- The value of each identifier. -/
  values : Std.TreeMap NodeId Value

namespace EvalState

/-- The state in which nothing has been evaluated. -/
def empty : EvalState := ⟨∅⟩

instance : Inhabited EvalState := ⟨empty⟩

/-- The state with the value of one node replaced. -/
def record (s : EvalState) (id : NodeId) (value : Value) : EvalState := ⟨s.values.insert id value⟩

/-- The latest value of a node. -/
def value? (s : EvalState) (id : NodeId) : Option Value := s.values[id]?

@[simp] theorem value?_empty (id : NodeId) : empty.value? id = none := by
  simp [empty, value?]

/-- A record replaces the value of its node and no other. -/
theorem value?_record (s : EvalState) (id other : NodeId) (value : Value) :
    (s.record id value).value? other = if id = other then some value else s.value? other := by
  simp [record, value?, Std.TreeMap.getElem?_insert]

/-- The nodes with a value. -/
def ids (s : EvalState) : List NodeId := s.values.keys

/-- The nodes with a value are in strictly ascending order. -/
theorem pairwise_ids (s : EvalState) : s.ids.Pairwise (· < ·) := by
  have hordered : s.ids.Pairwise fun a b => compare a b = .lt := Std.TreeMap.ordered_keys
  exact hordered.imp NodeId.compare_eq_lt.1

theorem mem_ids {s : EvalState} {id : NodeId} : id ∈ s.ids ↔ (s.value? id).isSome = true := by
  rw [ids, value?, Std.TreeMap.mem_keys, Std.TreeMap.isSome_getElem?_iff_mem]

/-- The nodes and their values. -/
def toList (s : EvalState) : List (NodeId × Value) := s.values.toList

/-- The number of nodes with a value. -/
def size (s : EvalState) : Nat := s.values.size

theorem length_ids (s : EvalState) : s.ids.length = s.size := Std.TreeMap.length_keys

/-- Whether nothing has been evaluated. -/
def isEmpty (s : EvalState) : Bool := s.values.isEmpty

/-- The state after a report, which matters only if the tracker is told. -/
def absorb (s : EvalState) (report : Observation) : EvalState :=
  match report.observer with
  | .tracker => s.record report.id report.value
  | _ => s

/-- The state as a developer reads it. -/
def inspect (s : EvalState) : String :=
  Text.applied "SharedEvalState" <|
    let entries := s.toList.map fun (id, value) => Text.entry id.inspect value.inspect
    Text.record "EvalState" [("values", Text.braced entries)]

end EvalState

end TreeEval
