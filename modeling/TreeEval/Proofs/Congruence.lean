import TreeEval.Proofs.Visits

/-!
# One level of evaluation

What a node does with the evaluations of its children does not depend on how these are computed.
`Node.evalBy` is one level of evaluation, with the children evaluated by any function. A relation
between computations that respects sequencing passes from the children of two nodes of one shape to
the nodes, and `rel_evalBy` says so once for all relations. The visits of an evaluation are computed
level by level in this way, which is `visitedBelow_eq`.
-/

namespace TreeEval

/-- Two maps from monads to a third one relate what they send to the same. -/
def MonadHom.equalizer {m m' k : Type → Type} [Monad m] [Monad m'] [Monad k] (φ : MonadHom m k)
    (ψ : MonadHom m' k) : MonadRel m m' where
  Rel x y := φ.app x = ψ.app y
  rel_pure a := (φ.app_pure a).trans (ψ.app_pure a).symm
  rel_bind hxy hfg := by
    rw [φ.app_bind, ψ.app_bind, hxy, funext hfg]

namespace Node

section

variable {m m' : Type → Type} [Monad m] [Monad m']

/-- Evaluates a node whose children are evaluated by `f`. -/
def evalBy (f : Node → Activation → m Value) : Node → Activation → m Value
  | const _ value, _ => pure value
  | ident id name, act => pure (act.lookup id name)
  | binary _ op lhs rhs, act => do
    let lhs ← f lhs act
    let rhs ← f rhs act
    pure (if lhs.isSentinel then lhs else if rhs.isSentinel then rhs else op.apply lhs rhs)
  | logical _ .shortCircuit connective lhs rhs, act => do
    let lhs ← f lhs act
    if lhs.asBool? = some connective.absorbing then pure lhs
    else
      let rhs ← f rhs act
      pure (connective.combine lhs rhs)
  | logical _ .exhaustive connective lhs rhs, act => do
    let lhs ← f lhs act
    let rhs ← f rhs act
    pure (connective.combine lhs rhs)
  | conditional _ .shortCircuit cond truthy falsy, act => do
    let cond ← f cond act
    match cond.branch with
    | .truthy => f truthy act
    | .falsy => f falsy act
    | .neither value => pure value
  | conditional _ .exhaustive cond truthy falsy, act => do
    let cond ← f cond act
    let truthy ← f truthy act
    let falsy ← f falsy act
    pure (cond.choose truthy falsy)
  | list _ elems, act => Literal.list (elems.map fun n => f n act)
  | map _ keys vals, act =>
    Literal.map (keys.map fun n => f n act) (vals.map fun n => f n act)
  | fold _ mode accuVar iterVar range init cond step result, act => do
    let range ← f range act
    match range.items? with
    | none => pure (range.orFail (.notIterable range.type.name))
    | some items =>
      let start ← f init act
      let last ← mode.loop (fun accu item => f cond (act.inLoop accuVar iterVar accu item))
        (fun accu item => f step (act.inLoop accuVar iterVar accu item)) items start
      f result (.frame accuVar (some last) act)
  | watch _ inner, act => f inner act
  | setMembership _ _ elems lhs _, act => do
    let value ← f lhs act
    pure (value.isElemOf elems)

/-- Nodes of one shape whose children are related are related. -/
theorem rel_evalBy (R : MonadRel m m') {f : Node → Activation → m Value}
    {g : Node → Activation → m' Value} {n n' : Node}
    (h : Alike (fun c c' => ∀ act, R.Rel (f c act) (g c' act)) n n') (act : Activation) :
    R.Rel (n.evalBy f act) (n'.evalBy g act) := by
  have hrow : ∀ {cs cs' : List Node},
      List.Forall₂ (fun c c' => ∀ act, R.Rel (f c act) (g c' act)) cs cs' →
        List.Forall₂ R.Rel (cs.map fun c => f c act) (cs'.map fun c => g c act) := fun hcs =>
    List.forall₂_map_left_iff.2 (List.forall₂_map_right_iff.2 (hcs.imp fun _ _ hc => hc act))
  cases h with
  | const id value => exact R.rel_pure value
  | ident id name => exact R.rel_pure _
  | binary id op hl hr =>
    exact R.rel_bind (hl act) fun l => R.rel_bind (hr act) fun r => R.rel_pure _
  | logical id mode connective hl hr =>
    cases mode with
    | shortCircuit =>
      refine R.rel_bind (hl act) fun l => ?_
      split
      · exact R.rel_pure l
      · exact R.rel_bind (hr act) fun r => R.rel_pure _
    | exhaustive => exact R.rel_bind (hl act) fun l => R.rel_bind (hr act) fun r => R.rel_pure _
  | conditional id mode hc ht hf =>
    cases mode with
    | shortCircuit =>
      refine R.rel_bind (hc act) fun c => ?_
      cases c.branch with
      | truthy => exact ht act
      | falsy => exact hf act
      | neither value => exact R.rel_pure value
    | exhaustive =>
      exact R.rel_bind (hc act) fun c => R.rel_bind (ht act) fun t =>
        R.rel_bind (hf act) fun f => R.rel_pure _
  | list id h => exact Literal.rel_list R (hrow h)
  | map id hk hv => exact Literal.rel_map R (hrow hk) (hrow hv)
  | fold id mode accuVar iterVar hr hi hc hs hres =>
    refine R.rel_bind (hr act) fun range => ?_
    cases range.items? with
    | none => exact R.rel_pure _
    | some items =>
      have hloop := Mode.rel_loop R mode
        (fun accu item => hc (act.inLoop accuVar iterVar accu item))
        (fun accu item => hs (act.inLoop accuVar iterVar accu item)) items
      exact R.rel_bind (hi act) fun start => R.rel_bind (hloop start) fun last => hres _
  | watch observer h => exact h act
  | setMembership id elemType elems hl hr =>
    exact R.rel_bind (hl act) fun v => R.rel_pure _

end

/-! ## Visits, level by level -/

/-- The value of a tree, and the visits that lead to it. -/
def visited (n : Node) (act : Activation) : Logged Visit Value := ⟨n.eval act, n.visits act⟩

/-- The value of a tree, and the visits that lead to it but for that of the root. -/
def visitedBelow (n : Node) (act : Activation) : Logged Visit Value :=
  ⟨n.eval act, n.visitsBelow act⟩

theorem visitedBelow_fold (id : NodeId) (mode : Mode) (accuVar iterVar : String)
    (range init cond step result : Node) (act : Activation) :
    (fold id mode accuVar iterVar range init cond step result).visitedBelow act =
      (fold id mode accuVar iterVar range init cond step result).evalBy visited act := by
  rw [visitedBelow, visitsBelow, visits, List.dropLast_concat]
  cases hitems : (range.eval act).items? with
  | none =>
    rw [eval_fold, hitems]
    ext : 1 <;> simp [evalBy, visited, hitems]
  | some items =>
    rw [eval_fold_of_items hitems, lastAccu, turns, hitems]
    -- the loop notes what is visited in its turns, and its turns depend on values only
    simp only [evalBy, visited, Mode.loop_eq_turns]
    ext : 1 <;> simp [hitems]

/-- One level of an evaluation visits what its children visit. -/
theorem visitedBelow_eq (n : Node) (act : Activation) :
    n.visitedBelow act = n.evalBy visited act := by
  cases n with
  | const id value => rfl
  | ident id name => rfl
  | binary id op lhs rhs =>
    rw [visitedBelow, visitsBelow, visits, List.dropLast_concat, eval_binary]
    ext : 1 <;> simp [evalBy, visited]
  | logical id mode connective lhs rhs =>
    rw [visitedBelow, eval_logical]
    cases mode with
    | exhaustive =>
      rw [visitsBelow, visits, List.dropLast_concat]
      ext : 1 <;> simp [evalBy, visited]
    | shortCircuit =>
      rw [visitsBelow, visits, List.dropLast_concat]
      by_cases hl : (lhs.eval act).asBool? = some connective.absorbing
      · rw [Connective.combine_eq_lhs hl]
        ext : 1 <;> simp [evalBy, visited, hl]
      · ext : 1 <;> simp [evalBy, visited, hl]
  | conditional id mode cond truthy falsy =>
    rw [visitedBelow, eval_conditional]
    cases mode with
    | exhaustive =>
      rw [visitsBelow, visits, List.dropLast_concat]
      ext : 1 <;> simp [evalBy, visited]
    | shortCircuit =>
      rw [visitsBelow, visits, List.dropLast_concat, Value.choose]
      cases hb : (cond.eval act).branch <;> ext : 1 <;> simp [evalBy, visited, hb]
  | list id elems =>
    rw [visitedBelow, visitsBelow, visits, List.dropLast_concat, visitEach_eq_map]
    exact Logged.ext (value_list_notes _ id elems act).symm rfl
  | map id keys vals =>
    rw [visitedBelow, visitsBelow, visits, List.dropLast_concat, visitEach_eq_map,
      visitEach_eq_map]
    exact Logged.ext (value_map_notes _ id keys vals act).symm rfl
  | fold id mode accuVar iterVar range init cond step result =>
    exact visitedBelow_fold id mode accuVar iterVar range init cond step result act
  | watch observer inner =>
    rw [visitedBelow, visitsBelow, visits, List.dropLast_concat]
    rfl
  | setMembership id elemType elems lhs rhs =>
    rw [visitedBelow, visitsBelow, visits, List.dropLast_concat, eval_setMembership]
    ext : 1 <;> simp [evalBy, visited]

/-- Relations between visits pass from the children of nodes of one shape to what the nodes do
before they are visited themselves. -/
theorem rel_visitedBelow (R : MonadRel (Logged Visit) (Logged Visit)) {n n' : Node}
    (h : Alike (fun c c' => ∀ act, R.Rel (c.visited act) (c'.visited act)) n n')
    (act : Activation) : R.Rel (n.visitedBelow act) (n'.visitedBelow act) := by
  rw [visitedBelow_eq, visitedBelow_eq]
  exact rel_evalBy R h act

end Node

/-! ## Without loops -/

/-- Whether nodes of the kind put names in front of the activation. -/
def NodeKind.isLoop : NodeKind → Bool
  | fold _ => true
  | _ => false

/-- Computations all of whose notes are good, related to anything. -/
def Logged.allNotes {ω : Type} (good : ω → Prop) : MonadRel (Logged ω) Id where
  Rel x _ := ∀ w ∈ x.log, good w
  rel_pure _ := List.forall_mem_nil _
  rel_bind hx hf := List.forall_mem_append.2 ⟨hx, hf _⟩

namespace Node

/-- Only loops evaluate their children in another activation than their own. -/
theorem evalBy_of_not_isLoop {m : Type → Type} [Monad m] {n : Node} (h : n.kind.isLoop = false)
    (f : Node → Activation → m Value) (act : Activation) :
    n.evalBy f act = n.evalBy (fun c _ => f c act) act := by
  cases n with
  | logical id mode connective lhs rhs => cases mode <;> rfl
  | conditional id mode cond truthy falsy => cases mode <;> rfl
  | fold id mode accuVar iterVar range init cond step result => cases h
  | _ => rfl

/-- Without loops, all visits of an evaluation take place in its activation. -/
theorem act_eq_of_mem_visits {n : Node} (h : ∀ m ∈ n.preorder, m.kind.isLoop = false)
    {act : Activation} {v : Visit} (hv : v ∈ n.visits act) : v.act = act := by
  induction n using parts_induction generalizing v with
  | step n ih =>
    obtain ⟨hn, hbelow⟩ := forall_mem_preorder.1 h
    rw [visits_eq_concat, List.mem_append, List.mem_singleton] at hv
    rcases hv with hv | rfl
    · -- a malformed map has no visits below it, so all parts are children
      obtain ⟨hbal, -⟩ := causedByPart_of_mem_visitsBelow hv
      have hparts : ∀ c ∈ n.parts, ∀ v ∈ c.visits act, v.act = act := fun c hc v hv =>
        ih c hc (hbelow c ((mem_children_iff hbal).2 hc)) hv
      have hall : (Logged.allNotes fun v => v.act = act).Rel (n.evalBy visited act)
          (n.evalBy (fun c _ => c.eval act) act : Id Value) := by
        rw [evalBy_of_not_isLoop hn]
        exact rel_evalBy _ (.of_parts fun c hc _ => hparts c hc) act
      rw [← visitedBelow_eq] at hall
      exact hall v hv
    · rfl

end Node

end TreeEval
