import TreeEval.Node.Children

/-!
# The order of a pass

A pass over a tree from the leaves up comes to a node when it is through with everything below it.
`Node.postorder` lists the nodes in that order. At a map literal a pass alternates between keys and
values. If the map is malformed, it goes on to the surplus of the longer side, so the list has nodes
that are not among the children of the map.
-/

namespace TreeEval

/-- Two rows in turns, the surplus of the longer one at the end. -/
def interleave {α : Type} : List α → List α → List α
  | [], bs => bs
  | a :: as, [] => a :: as
  | a :: as, b :: bs => a :: b :: interleave as bs

theorem interleave_nil {α : Type} (as : List α) : interleave as [] = as := by
  cases as <;> rfl

theorem interleave_map {α β : Type} (f : α → β) (as bs : List α) :
    interleave (as.map f) (bs.map f) = (interleave as bs).map f := by
  fun_induction interleave as bs with
  | case1 bs => simp [interleave]
  | case2 a as => simp [interleave]
  | case3 a as b bs ih => simp [interleave, ih]

theorem mem_interleave {α : Type} {as bs : List α} {x : α} :
    x ∈ interleave as bs ↔ x ∈ as ++ bs := by
  fun_induction interleave as bs with
  | case1 bs => simp
  | case2 a as => simp
  | case3 a as b bs ih =>
    simp only [List.mem_cons, ih, List.mem_append]
    grind

/-- Rows of one length have no surplus. -/
theorem interleave_eq_alternate {α : Type} {as bs : List α} (h : as.length = bs.length) :
    interleave as bs = alternate as bs := by
  fun_induction interleave as bs with
  | case1 bs =>
    have hbs : bs = [] := List.length_eq_zero_iff.1 h.symm
    rw [hbs]
    rfl
  | case2 a as => cases h
  | case3 a as b bs ih => rw [alternate, ih (by simpa using h)]

namespace Node

/-- The direct children of a node in the order in which a pass comes to them. -/
def passOrder : Node → List Node
  | map _ keys vals => interleave keys vals
  | n => n.children

mutual

/-- The nodes of the tree, each after those below it. -/
def postorder : Node → List Node
  | n@(const _ _) | n@(ident _ _) => [n]
  | n@(binary _ _ lhs rhs) | n@(logical _ _ _ lhs rhs) | n@(setMembership _ _ _ lhs rhs) =>
    lhs.postorder ++ rhs.postorder ++ [n]
  | n@(conditional _ _ cond truthy falsy) =>
    cond.postorder ++ truthy.postorder ++ falsy.postorder ++ [n]
  | n@(list _ elems) => (postorders elems).flatten ++ [n]
  | n@(map _ keys vals) => (interleave (postorders keys) (postorders vals)).flatten ++ [n]
  | n@(fold _ _ _ _ range init cond step result) =>
    range.postorder ++ init.postorder ++ cond.postorder ++ step.postorder ++ result.postorder ++ [n]
  | n@(watch _ inner) => inner.postorder ++ [n]

/-- The nodes of some trees, each after those below it. -/
def postorders : List Node → List (List Node)
  | [] => []
  | n :: ns => n.postorder :: postorders ns

end

theorem postorders_eq_map (ns : List Node) : postorders ns = ns.map postorder := by
  induction ns with
  | nil => rfl
  | cons n ns ih => simp [postorders, ih]

/-- A pass comes to a node after it has been through the trees of its children. -/
theorem postorder_eq_concat (n : Node) :
    n.postorder = n.passOrder.flatMap postorder ++ [n] := by
  cases n <;>
    simp [postorder, passOrder, children, postorders_eq_map, interleave_map, List.flatMap]

end Node

end TreeEval
