import TreeEval.Eval.Basic

/-!
# The value of a tree

The plainest reading of evaluation: a function from activations to values. Every loop variable gets
a slot of its own, and reports go nowhere.
-/

namespace TreeEval

/-- The host that does nothing but compute. -/
instance : Host Id where
  checkout name := pure ⟨name, none⟩
  release _ := pure ()
  report _ _ _ := pure ()

/-- The value of a tree under an activation. -/
def Node.eval (n : Node) (act : Activation) : Value := (n.evalM act : Id Value)

namespace Node

/-! ## What each node makes of its children -/

@[simp] theorem eval_const (id : NodeId) (value : Value) (act : Activation) :
    (const id value).eval act = value := rfl

@[simp] theorem eval_ident (id : NodeId) (name : String) (act : Activation) :
    (ident id name).eval act = act.lookup id name := rfl

theorem eval_binary (id : NodeId) (op : Overload) (lhs rhs : Node) (act : Activation) :
    (binary id op lhs rhs).eval act =
      if (lhs.eval act).isSentinel then lhs.eval act
      else if (rhs.eval act).isSentinel then rhs.eval act
      else op.apply (lhs.eval act) (rhs.eval act) := rfl

/-- Without effects, both modes of a connective have the same value, because an operand that settles
it is its value. -/
theorem eval_logical (id : NodeId) (mode : Mode) (connective : Connective) (lhs rhs : Node)
    (act : Activation) :
    (logical id mode connective lhs rhs).eval act =
      connective.combine (lhs.eval act) (rhs.eval act) := by
  cases mode with
  | exhaustive => rfl
  | shortCircuit =>
    show (if (lhs.eval act).asBool? = some connective.absorbing then lhs.eval act
      else connective.combine (lhs.eval act) (rhs.eval act)) = _
    split
    · next h => rw [Connective.combine_eq_lhs h]
    · rfl

/-- Both modes of a ternary choose between the same values. -/
theorem eval_conditional (id : NodeId) (mode : Mode) (cond truthy falsy : Node)
    (act : Activation) :
    (conditional id mode cond truthy falsy).eval act =
      (cond.eval act).choose (truthy.eval act) (falsy.eval act) := by
  cases mode <;> rfl

theorem eval_list (id : NodeId) (elems : List Node) (act : Activation) :
    (list id elems).eval act = Literal.list (m := Id) (elems.map fun n => n.eval act) := by
  simp only [eval, evalM, evalEachM_eq_map]

theorem eval_map (id : NodeId) (keys vals : List Node) (act : Activation) :
    (map id keys vals).eval act =
      Literal.map (m := Id) (keys.map fun n => n.eval act) (vals.map fun n => n.eval act) := by
  simp only [eval, evalM, evalEachM_eq_map]

@[simp] theorem eval_watch (observer : Observer) (inner : Node) (act : Activation) :
    (watch observer inner).eval act = inner.eval act := rfl

theorem eval_setMembership (id : NodeId) (elemType : ValueType) (elems : KeySet elemType)
    (lhs rhs : Node) (act : Activation) :
    (setMembership id elemType elems lhs rhs).eval act =
      (lhs.eval act).isElemOf elems := rfl

end Node

end TreeEval
