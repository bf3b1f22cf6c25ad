import TreeEval.Node.Children

/-!
# Transforming a tree from the leaves up

A pass over a tree goes to the leaves first. Every node is put together again from its transformed
children and is then visited: the visit sees children that are finished, and returns what takes the
place of the node.
-/

namespace TreeEval.Node

variable {m : Type → Type} [Monad m]

mutual

/-- Transforms a tree from the leaves up. -/
@[specialize]
def transformM (visit : Node → m Node) : Node → m Node
  | const id value => visit (const id value)
  | ident id name => visit (ident id name)
  | binary id op lhs rhs => do
    let lhs ← lhs.transformM visit
    let rhs ← rhs.transformM visit
    visit (binary id op lhs rhs)
  | logical id mode connective lhs rhs => do
    let lhs ← lhs.transformM visit
    let rhs ← rhs.transformM visit
    visit (logical id mode connective lhs rhs)
  | conditional id mode cond truthy falsy => do
    let cond ← cond.transformM visit
    let truthy ← truthy.transformM visit
    let falsy ← falsy.transformM visit
    visit (conditional id mode cond truthy falsy)
  | list id elems => do
    let elems ← inOrder (transformEachM visit elems)
    visit (list id elems)
  | map id keys vals => do
    let (keys, vals) ← inTurns (transformEachM visit keys) (transformEachM visit vals)
    visit (map id keys vals)
  | fold id mode accuVar iterVar range init cond step result => do
    let range ← range.transformM visit
    let init ← init.transformM visit
    let cond ← cond.transformM visit
    let step ← step.transformM visit
    let result ← result.transformM visit
    visit (fold id mode accuVar iterVar range init cond step result)
  | watch observer inner => do
    let inner ← inner.transformM visit
    visit (watch observer inner)
  | setMembership id elemType elems lhs rhs => do
    let lhs ← lhs.transformM visit
    let rhs ← rhs.transformM visit
    visit (setMembership id elemType elems lhs rhs)

/-- The passes over some trees, not yet run. -/
@[specialize]
def transformEachM (visit : Node → m Node) : List Node → List (m Node)
  | [] => []
  | n :: ns => n.transformM visit :: transformEachM visit ns

end

theorem transformEachM_eq_map (visit : Node → m Node) (ns : List Node) :
    transformEachM visit ns = ns.map (transformM visit) := by
  induction ns with
  | nil => rfl
  | cons n ns ih => simp [transformEachM, ih]

/-- Transforming a tree is transforming its children in place and then visiting the result. -/
theorem transformM_eq_mapChildren_bind [LawfulMonad m] (visit : Node → m Node) (n : Node) :
    n.transformM visit = n.mapChildren (transformM visit) >>= visit := by
  cases n <;> simp [transformM, mapChildren, transformEachM_eq_map]

end TreeEval.Node
