import TreeEval.Proofs.KeyLookup
import TreeEval.Proofs.Loop
import TreeEval.Proofs.Planning

/-!
# Computing ahead keeps values

What can be computed when a program is planned has the same value as what would be computed each
time the program runs. `ComputedAhead` lists what may become of one node, `eval_of_computedAhead`
says that the value stays, and `keptAhead_step` carries that from the children of a node to the
node. So it holds of whole trees, wherever in the tree a node is and whatever scope it runs in.

There is one exception, and the statements exclude it: a membership test in the empty list becomes
false without a look at its left side, which may have been a sentinel.
-/

namespace TreeEval

namespace Node

/-! ## Values of nodes with equal children -/

theorem map_eval_eq {ns ns' : List Node} (h : List.Forall₂ (fun c c' => c'.eval = c.eval) ns ns')
    (act : Activation) : ns'.map (fun n => n.eval act) = ns.map fun n => n.eval act := by
  induction h with
  | nil => rfl
  | cons hc _ ih => rw [List.map_cons, List.map_cons, hc, ih]

/-- The value of a node depends on its children through their values only. -/
theorem eval_eq_of_alike {n n' : Node} (h : Alike (fun c c' => c'.eval = c.eval) n n') :
    n'.eval = n.eval := by
  funext act
  cases h with
  | const => rfl
  | ident => rfl
  | binary id op hl hr => rw [eval_binary, eval_binary, hl, hr]
  | logical id mode connective hl hr => rw [eval_logical, eval_logical, hl, hr]
  | conditional id mode hc ht hf => rw [eval_conditional, eval_conditional, hc, ht, hf]
  | list id h => rw [eval_list, eval_list, map_eval_eq h]
  | map id hk hv => rw [eval_map, eval_map, map_eval_eq hk, map_eval_eq hv]
  | fold id mode accuVar iterVar hr hi hc hs hres =>
    rw [eval_fold, eval_fold, hr, hi, hc, hs, hres]
  | watch observer h => rw [eval_watch, eval_watch, h]
  | setMembership id elemType elems hl hr => rw [eval_setMembership, eval_setMembership, hl]

/-! ## Constants -/

/-- A constant has its value everywhere. -/
theorem eval_of_constant? {n : Node} {v : Value} (h : n.constant? = some v) (act : Activation) :
    n.eval act = v := by
  induction n with
  | const id value => exact Option.some_inj.1 h
  | watch observer inner ih => exact ih h
  | _ => cases h

theorem map_eval_of_constants? {ns : List Node} {vs : List Value} (h : constants? ns = some vs)
    (act : Activation) : ns.map (fun n => n.eval act) = vs := by
  induction ns generalizing vs with
  | nil => exact Option.some_inj.1 h
  | cons n ns ih =>
    rw [constants?] at h
    split at h
    · next v vs' hv hvs =>
      cases h
      rw [List.map_cons, eval_of_constant? hv, ih hvs]
    · cases h

/-! ## Rewriting one node -/

/-- What computing ahead may make of a node. -/
inductive ComputedAhead : Node → Node → Prop
  | unchanged (n : Node) : ComputedAhead n n
  | list {elems : List Node} {vs : List Value} (id : NodeId) (h : constants? elems = some vs) :
      ComputedAhead (list id elems) (const id (Literal.list (m := Id) vs))
  | map {keys vals : List Node} {ks vs : List Value} (id : NodeId) (hk : constants? keys = some ks)
      (hv : constants? vals = some vs) :
      ComputedAhead (map id keys vals) (const id (Literal.map (m := Id) ks vs))
  | emptyMembership {lhs rhs : Node} (id : NodeId) (h : rhs.constant? = some (.list [])) :
      ComputedAhead (binary id .inList lhs rhs) (const id (.bool false))
  | membership {lhs rhs : Node} {ys : List Value} {elemType : ValueType} {elems : KeySet elemType}
      (id : NodeId) (h : rhs.constant? = some (.list ys))
      (hs : Value.keySet? ys = some ⟨elemType, elems⟩) :
      ComputedAhead (binary id .inList lhs rhs) (setMembership id elemType elems lhs rhs)

theorem computedAhead_hashMembership {id : NodeId} {lhs rhs t' : Node}
    (h : (Plan.hashMembership id lhs rhs).outcome.1 = .ok t') :
    ComputedAhead (binary id .inList lhs rhs) t' := by
  unfold Plan.hashMembership at h
  split at h
  · cases h; exact .unchanged _
  · cases h; exact .unchanged _
  · cases h; exact .unchanged _
  · next hrhs => cases h; exact .emptyMembership id hrhs
  · next ys _ hrhs =>
    split at h
    · cases h; exact .unchanged _
    · next hset => cases h; exact .membership id hrhs hset
  · cases h

theorem computedAhead_of_rewrite {n t' : Node} (h : Builtin.computeAhead.rewrite n = .ok t') :
    ComputedAhead n t' := by
  rw [Builtin.rewrite, Builtin.decorator] at h
  cases n with
  | list id elems =>
    rw [Decorator.computeAhead, Plan.constList] at h
    split at h
    · cases h; exact .unchanged _
    · next hvs => cases h; exact .list id hvs
  | map id keys vals =>
    rw [Decorator.computeAhead, Plan.constMap] at h
    split at h
    · next hks hvs => cases h; exact .map id hks hvs
    · cases h; exact .unchanged _
  | binary id op lhs rhs =>
    cases op with
    | inList => exact computedAhead_hashMembership h
    | _ => cases h; exact .unchanged _
  | _ => cases h; exact .unchanged _

/-- A look-up has the value of the membership test whose right side lists the keys of the set. -/
theorem eval_setMembership_eq_binary {id : NodeId} {lhs rhs : Node} {ys : List Value}
    {elemType : ValueType} {elems : KeySet elemType} (hs : elems.IsSetOf ys) {act : Activation}
    (hrhs : rhs.eval act = .list ys) :
    (setMembership id elemType elems lhs rhs).eval act = (binary id .inList lhs rhs).eval act := by
  rw [eval_setMembership, eval_binary, hrhs]
  -- the operator hands a sentinel on, and only otherwise scans the list
  by_cases hl : (lhs.eval act).isSentinel = true
  · rw [if_pos hl, Value.isElemOf_of_isSentinel elems hl]
  · rw [Bool.not_eq_true] at hl
    rw [if_neg (by simp [hl]), if_neg (by simp [Value.isSentinel]), Value.isElemOf_eq_scan hs hl]
    rfl

/-- A node computed ahead keeps its value, unless it is a membership test in the empty list. -/
theorem eval_of_computedAhead {n t' : Node} (h : ComputedAhead n t')
    (hne : ∀ id lhs rhs, n = binary id .inList lhs rhs → rhs.constant? ≠ some (.list [])) :
    t'.eval = n.eval := by
  funext act
  cases h with
  | unchanged => rfl
  | list id h => rw [eval_list, map_eval_of_constants? h, eval_const]
  | map id hk hv =>
    rw [eval_map, map_eval_of_constants? hk, map_eval_of_constants? hv, eval_const]
  | emptyMembership id h => exact absurd h (hne _ _ _ rfl)
  | membership id h hs =>
    exact eval_setMembership_eq_binary (Value.isSetOf_of_keySet? hs) (eval_of_constant? h act)

end Node

/-! ## Literals of values -/

namespace Literal

theorem listFrom_eq_list {vs built ws : List Value}
    (h : listFrom (m := Id) vs built = .list ws) : ws = built.reverse ++ vs := by
  induction vs generalizing built with
  | nil =>
    cases h
    rw [List.append_nil]
  | cons v vs ih =>
    change (if v.isSentinel then v else listFrom (m := Id) vs (v :: built)) = .list ws at h
    split at h
    · next hv =>
      subst h
      cases hv
    · rw [ih h, List.reverse_cons, List.append_assoc]
      rfl

/-- A list literal that is a list consists of its elements. -/
theorem list_eq_list {vs ws : List Value} (h : list (m := Id) vs = .list ws) : ws = vs :=
  listFrom_eq_list h

theorem mapFrom_ne_list {entries : List (Value × Value)} {built : OrderedMap Key Value}
    {ws : List Value} : mapFrom (m := Id) entries built ≠ .list ws := by
  induction entries generalizing built with
  | nil => exact nofun
  | cons entry entries ih =>
    obtain ⟨key, value⟩ := entry
    intro h
    rw [mapFrom_cons] at h
    split at h
    · next hk => subst h; cases hk
    split at h
    · next hv => subst h; cases hv
    split at h
    · next failure hadd =>
      subst h
      unfold addEntry at hadd
      split at hadd
      · cases hadd
      · split at hadd <;> cases hadd
    · exact ih h

/-- A map literal is never a list. -/
theorem map_ne_list {ks vs ws : List Value} : map (m := Id) ks vs ≠ .list ws := by
  rw [map]
  split
  · exact mapFrom_ne_list
  · exact nofun

end Literal

namespace Node

/-! ## Whole trees -/

/-- Whether a node is the empty list, as a literal or as a constant, watched or not. -/
def isEmptyList : Node → Bool
  | const _ (.list []) => true
  | list _ [] => true
  | watch _ inner => inner.isEmptyList
  | _ => false

/-- Whether a node tests for membership in what is plainly the empty list. -/
def isEmptyMembership : Node → Bool
  | binary _ .inList _ rhs => rhs.isEmptyList
  | _ => false

/-- What a pass keeps of a tree: its value everywhere, and that it was the empty list if it is the
constant empty list now. The second part is what the test of a membership needs to know. -/
structure KeptAhead (n t' : Node) : Prop where
  eval_eq : t'.eval = n.eval
  isEmptyList : t'.constant? = some (.list []) → n.isEmptyList = true

theorem constants?_eq_nil {ns : List Node} (h : constants? ns = some []) : ns = [] := by
  cases ns with
  | nil => rfl
  | cons n ns =>
    rw [constants?] at h
    split at h <;> cases h

theorem isEmptyList_of_computedAhead {n n' t' : Node} (hn : Alike KeptAhead n n')
    (h : ComputedAhead n' t') (hconst : t'.constant? = some (.list [])) : n.isEmptyList = true := by
  cases h with
  | unchanged =>
    cases hn with
    | const id value => cases hconst; rfl
    | watch observer h => exact h.isEmptyList hconst
    | _ => cases hconst
  | list id h =>
    -- a folded literal that is the empty list has had no elements
    have hvs := Literal.list_eq_list (Option.some_inj.1 hconst)
    subst hvs
    have hnil := constants?_eq_nil h
    subst hnil
    cases hn with
    | list id helems =>
      cases helems
      rfl
  | map id hk hv => exact absurd (Option.some_inj.1 hconst) Literal.map_ne_list
  | emptyMembership id h => cases hconst
  | membership id h hs => cases hconst

/-- One step of a pass: a node whose children are kept is kept. -/
theorem keptAhead_step {n n' t' : Node} (hn : Alike KeptAhead n n') (h : ComputedAhead n' t')
    (hne : n.isEmptyMembership = false) : KeptAhead n t' where
  eval_eq := by
    have hchildren : n'.eval = n.eval :=
      eval_eq_of_alike (hn.imp_of_mem fun _ _ _ hc => hc.eval_eq)
    rw [← hchildren]
    refine eval_of_computedAhead h fun id lhs rhs' hn' hrhs => ?_
    subst hn'
    cases hn with
    | binary id op hl hr =>
      rw [isEmptyMembership, hr.isEmptyList hrhs] at hne
      cases hne
  isEmptyList := isEmptyList_of_computedAhead hn h

/-- Computing ahead what can be computed ahead of a tree leaves its value as it is, under every
activation, be the value an error or an unknown. The exception are membership tests in the empty
list, which hand a sentinel on before they are computed ahead and are false afterwards. -/
theorem eval_computedAhead {t t' : Node}
    (hne : ∀ m ∈ t.preorder, m.isEmptyMembership = false)
    (h : ((Pipeline.ofBuiltins [.computeAhead]).apply t).outcome.1 = .ok t') (act : Activation) :
    t'.eval act = t.eval act := by
  rw [Builtin.apply_ofBuiltins] at h
  refine congrFun (KeptAhead.eval_eq ?_) act
  revert hne
  -- the induction is on the pass, so the exclusion of empty lists travels with the tree
  refine transformM_induction
    (R := fun n t' => (∀ m ∈ n.preorder, m.isEmptyMembership = false) → KeptAhead n t') ?_ h
  intro n n' t' hn hv hne
  obtain ⟨hbal, hrewrite⟩ := Builtin.visit_singleton_eq_ok_iff.1 hv
  obtain ⟨hroot, hbelow⟩ := forall_mem_preorder.1 hne
  have hkept : Alike KeptAhead n n' := hn.imp_of_mem fun c hc c' hcc' =>
    hcc' (hbelow c ((mem_children_iff (hn.balanced_iff.2 hbal)).2 hc))
  exact keptAhead_step hkept (computedAhead_of_rewrite hrewrite) hroot

/-- A loop whose step tests the item for membership in a list. -/
def membershipLoop (step : Node) : Node :=
  fold ⟨1⟩ .shortCircuit "found" "x" (list ⟨2⟩ [const ⟨3⟩ (.int 1), ident ⟨4⟩ "y"])
    (const ⟨5⟩ (.bool false)) (const ⟨6⟩ (.bool true)) step (ident ⟨7⟩ "found")

/-- The step of the loop becomes a look-up. Its last item cannot be compared, which is an error
before and after. -/
theorem eval_computedAhead_membershipLoop :
    let elems : List Node := [const ⟨10⟩ (.int 1), const ⟨11⟩ (.int 2)]
    let t := membershipLoop (binary ⟨8⟩ .inList (ident ⟨9⟩ "x") (list ⟨12⟩ elems))
    let t' := membershipLoop (setMembership ⟨8⟩ .int
      (.ofKeys (.int 1) [.int 2] (by decide)) (ident ⟨9⟩ "x")
      (const ⟨12⟩ (.list [.int 1, .int 2])))
    let act : Activation := .bound ⟨[("y", .null)]⟩
    (∀ m ∈ t.preorder, m.isEmptyMembership = false) ∧
      ((Pipeline.ofBuiltins [.computeAhead]).apply t).outcome.1 = .ok t' ∧
      t'.eval act = t.eval act ∧ t.eval act = .fail .noSuchOverload :=
  ⟨by decide, rfl, eval_computedAhead (by decide) rfl _, rfl⟩

end Node

end TreeEval
