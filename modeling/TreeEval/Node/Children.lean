import TreeEval.Node.Basic

/-!
# Children

The children of a node in the order in which an exhaustive evaluation would visit them, and the ways
to go through them: listing, rebuilding, counting, and listing a whole tree from the root down.

A map literal alternates between keys and values. If it is malformed, the surplus of the longer side
takes no part in listing and counting, but rebuilding reaches it, so that a pass over the tree sees
every node before it can refuse the map.
-/

namespace TreeEval

/-! ## Running actions in a row -/

/-- Runs actions one after the other. -/
@[specialize]
def inOrder {m : Type → Type} [Monad m] {α : Type} : List (m α) → m (List α)
  | [] => pure []
  | x :: xs => do
    let a ← x
    let as ← inOrder xs
    pure (a :: as)

/-- Runs two rows of actions in turns, the surplus of the longer one at the end. -/
@[specialize]
def inTurns {m : Type → Type} [Monad m] {α β : Type} :
    List (m α) → List (m β) → m (List α × List β)
  | [], ys => do
    let bs ← inOrder ys
    pure ([], bs)
  | xs, [] => do
    let as ← inOrder xs
    pure (as, [])
  | x :: xs, y :: ys => do
    let a ← x
    let b ← y
    let (as, bs) ← inTurns xs ys
    pure (a :: as, b :: bs)

/-- Two rows in turns, without the surplus of the longer one. -/
def alternate {α : Type} : List α → List α → List α
  | a :: as, b :: bs => a :: b :: alternate as bs
  | _, _ => []

namespace Node

/-- The children of a node. -/
def children : Node → List Node
  | const _ _ | ident _ _ => []
  | binary _ _ lhs rhs | logical _ _ _ lhs rhs | setMembership _ _ _ lhs rhs => [lhs, rhs]
  | conditional _ _ cond truthy falsy => [cond, truthy, falsy]
  | list _ elems => elems
  | map _ keys vals => alternate keys vals
  | fold _ _ _ _ range init cond step result => [range, init, cond, step, result]
  | watch _ inner => [inner]

/-- The node with every child replaced by what an action makes of it. All else is kept. -/
@[specialize]
def mapChildren {m : Type → Type} [Monad m] (f : Node → m Node) : Node → m Node
  | const id value => pure (const id value)
  | ident id name => pure (ident id name)
  | binary id op lhs rhs => do
    let lhs ← f lhs
    let rhs ← f rhs
    pure (binary id op lhs rhs)
  | logical id mode connective lhs rhs => do
    let lhs ← f lhs
    let rhs ← f rhs
    pure (logical id mode connective lhs rhs)
  | conditional id mode cond truthy falsy => do
    let cond ← f cond
    let truthy ← f truthy
    let falsy ← f falsy
    pure (conditional id mode cond truthy falsy)
  | list id elems => do
    let elems ← inOrder (elems.map f)
    pure (list id elems)
  | map id keys vals => do
    let (keys, vals) ← inTurns (keys.map f) (vals.map f)
    pure (map id keys vals)
  | fold id mode accuVar iterVar range init cond step result => do
    let range ← f range
    let init ← f init
    let cond ← f cond
    let step ← f step
    let result ← f result
    pure (fold id mode accuVar iterVar range init cond step result)
  | watch observer inner => do
    let inner ← f inner
    pure (watch observer inner)
  | setMembership id elemType elems lhs rhs => do
    let lhs ← f lhs
    let rhs ← f rhs
    pure (setMembership id elemType elems lhs rhs)

/-! ## Whole trees -/

mutual

/-- The number of nodes in the tree. -/
def size : Node → Nat
  | const _ _ | ident _ _ => 1
  | binary _ _ lhs rhs | logical _ _ _ lhs rhs | setMembership _ _ _ lhs rhs =>
    lhs.size + rhs.size + 1
  | conditional _ _ cond truthy falsy => cond.size + truthy.size + falsy.size + 1
  | list _ elems => (sizes elems).foldr (· + ·) 1
  | map _ keys vals => (alternate (sizes keys) (sizes vals)).foldr (· + ·) 1
  | fold _ _ _ _ range init cond step result =>
    range.size + init.size + cond.size + step.size + result.size + 1
  | watch _ inner => inner.size + 1

/-- The numbers of nodes in some trees. -/
def sizes : List Node → List Nat
  | [] => []
  | n :: ns => n.size :: sizes ns

end

mutual

/-- The nodes of the tree, each before its children. -/
def preorder : Node → List Node
  | const id value => [const id value]
  | ident id name => [ident id name]
  | binary id op lhs rhs => binary id op lhs rhs :: (lhs.preorder ++ rhs.preorder)
  | logical id mode connective lhs rhs =>
    logical id mode connective lhs rhs :: (lhs.preorder ++ rhs.preorder)
  | conditional id mode cond truthy falsy =>
    conditional id mode cond truthy falsy ::
      (cond.preorder ++ truthy.preorder ++ falsy.preorder)
  | list id elems => list id elems :: (preorders elems).flatten
  | map id keys vals => map id keys vals :: (alternate (preorders keys) (preorders vals)).flatten
  | fold id mode accuVar iterVar range init cond step result =>
    fold id mode accuVar iterVar range init cond step result ::
      (range.preorder ++ init.preorder ++ cond.preorder ++ step.preorder ++ result.preorder)
  | watch observer inner => watch observer inner :: inner.preorder
  | setMembership id elemType elems lhs rhs =>
    setMembership id elemType elems lhs rhs :: (lhs.preorder ++ rhs.preorder)

/-- The nodes of some trees, each before its children. -/
def preorders : List Node → List (List Node)
  | [] => []
  | n :: ns => n.preorder :: preorders ns

end

theorem sizes_eq_map (ns : List Node) : sizes ns = ns.map size := by
  induction ns with
  | nil => rfl
  | cons n ns ih => simp [sizes, ih]

theorem preorders_eq_map (ns : List Node) : preorders ns = ns.map preorder := by
  induction ns with
  | nil => rfl
  | cons n ns ih => simp [preorders, ih]

theorem alternate_map {α β : Type} (f : α → β) (as bs : List α) :
    alternate (as.map f) (bs.map f) = (alternate as bs).map f := by
  fun_induction alternate as bs with
  | case1 a as b bs ih => simp [alternate, ih]
  | case2 as bs h =>
    cases as with
    | nil => simp [alternate]
    | cons a as =>
      cases bs with
      | nil => simp [alternate]
      | cons b bs => exact absurd rfl (h a as b bs rfl)

/-- A node is counted together with the trees of its children. -/
theorem size_eq_sum_children (n : Node) : n.size = (n.children.map size).foldr (· + ·) 1 := by
  cases n <;>
    simp [size, children, sizes_eq_map, alternate_map, Nat.add_assoc]

/-- The tree from the root down is the root and then the trees of its children. -/
theorem preorder_eq_cons (n : Node) : n.preorder = n :: n.children.flatMap preorder := by
  cases n <;>
    simp [preorder, children, preorders_eq_map, alternate_map, List.flatMap]

end Node

end TreeEval
