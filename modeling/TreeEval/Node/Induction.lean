import TreeEval.Node.Basic

/-!
# Induction on nodes

To prove something of every tree it is enough to prove it of every node whose children have it. The
children in a list literal or a map literal are given as the members of a list.
-/

namespace TreeEval.Node

/-- Induction on nodes, with one motive for all of them. -/
@[elab_as_elim, induction_eliminator]
theorem ind {motive : Node → Prop}
    (const : ∀ id value, motive (.const id value))
    (ident : ∀ id name, motive (.ident id name))
    (binary : ∀ id op lhs rhs, motive lhs → motive rhs → motive (.binary id op lhs rhs))
    (logical : ∀ id mode connective lhs rhs, motive lhs → motive rhs →
      motive (.logical id mode connective lhs rhs))
    (conditional : ∀ id mode cond truthy falsy, motive cond → motive truthy → motive falsy →
      motive (.conditional id mode cond truthy falsy))
    (list : ∀ id elems, (∀ n ∈ elems, motive n) → motive (.list id elems))
    (map : ∀ id keys vals, (∀ n ∈ keys, motive n) → (∀ n ∈ vals, motive n) →
      motive (.map id keys vals))
    (fold : ∀ id mode accuVar iterVar range init cond step result, motive range → motive init →
      motive cond → motive step → motive result →
      motive (.fold id mode accuVar iterVar range init cond step result))
    (watch : ∀ observer inner, motive inner → motive (.watch observer inner))
    (setMembership : ∀ id elemType elems lhs rhs, motive lhs → motive rhs →
      motive (.setMembership id elemType elems lhs rhs))
    (n : Node) : motive n :=
  @Node.rec motive (fun ns => ∀ n ∈ ns, motive n)
    const ident binary logical conditional list map fold watch setMembership
    (fun _ h => nomatch h)
    (fun _ _ ihHead ihTail n h => by
      rcases List.mem_cons.1 h with rfl | h
      · exact ihHead
      · exact ihTail n h)
    n

end TreeEval.Node
