/-!
# Node identifiers

Every node of a tree carries the number of the source expression it stands for. The largest
number is reserved: it stands for no expression and is what a node gets when none is given.
-/

namespace TreeEval

/-- The number of a source expression. -/
structure NodeId where
  /-- The number itself. -/
  raw : UInt32
deriving DecidableEq, Hashable

namespace NodeId

/-- The number that stands for no expression. -/
def invalid : NodeId := ⟨0xFFFFFFFF⟩

instance : Inhabited NodeId := ⟨invalid⟩

/-- Every number but the reserved one stands for an expression. -/
def isValid (id : NodeId) : Bool := id ≠ invalid

/-- The number as a position in a table. -/
def index (id : NodeId) : Nat := id.raw.toNat

/-- Identifiers are ordered by their numbers. -/
instance : LT NodeId := ⟨fun a b => a.raw < b.raw⟩

instance : LE NodeId := ⟨fun a b => a.raw ≤ b.raw⟩

instance (a b : NodeId) : Decidable (a < b) := inferInstanceAs (Decidable (a.raw < b.raw))

instance (a b : NodeId) : Decidable (a ≤ b) := inferInstanceAs (Decidable (a.raw ≤ b.raw))

instance : Ord NodeId := ⟨fun a b => compare a.raw b.raw⟩

theorem lt_def {a b : NodeId} : a < b ↔ a.raw < b.raw := Iff.rfl

theorem le_def {a b : NodeId} : a ≤ b ↔ a.raw ≤ b.raw := Iff.rfl

theorem le_total (a b : NodeId) : a ≤ b ∨ b ≤ a := UInt32.le_total ..

theorem le_trans {a b c : NodeId} (h : a ≤ b) (h' : b ≤ c) : a ≤ c := UInt32.le_trans h h'

theorem lt_trans {a b c : NodeId} (h : a < b) (h' : b < c) : a < c := UInt32.lt_trans h h'

theorem lt_of_le_of_ne {a b : NodeId} (h : a ≤ b) (hne : a ≠ b) : a < b := by
  refine UInt32.lt_of_le_of_ne h fun hraw => hne ?_
  cases a; cases b; cases hraw; rfl

/-- The number in decimal. -/
def text (id : NodeId) : String := toString id.raw.toNat

/-- The identifier as a developer reads it; the reserved one has a name instead of a number. -/
def inspect (id : NodeId) : String :=
  if id.isValid then "NodeId(" ++ id.text ++ ")" else "NodeId::INVALID"

end NodeId

end TreeEval
