import TreeEval.Proofs.Approximation
import TreeEval.Proofs.Planning

/-!
# Exhaustive evaluation keeps values

A tree that visits everything has the value of the tree that visits only what it needs, although it
evaluates operands, branches and whole loops that the other never sees. What may tell the two apart
is a loop that ends early, because an exhaustive loop does not. So the hypothesis is about the loops
that the short-circuit tree evaluates: none of them is ended by its condition. Loops in skipped
operands are free to do what they like.
-/

namespace TreeEval

/-- No loop ends early in the visit. -/
def Visit.RunsThrough (v : Visit) : Prop := .bool false ∉ v.node.loopConds v.act

instance (v : Visit) : Decidable v.RunsThrough :=
  decidable_of_iff (∀ c ∈ v.node.loopConds v.act, c.asBool? ≠ some false) <| by
    simp only [Visit.RunsThrough, ne_eq, Value.asBool?_eq_some]
    exact ⟨fun h hmem => h _ hmem rfl, fun h c hc heq => h (heq ▸ hc)⟩

namespace Node

/-- One step: a node made exhaustive has the value of a node whose children have the same values,
whatever the exhaustive node visits in addition. -/
theorem approx_madeExhaustive {n n' : Node} (h : Alike (Approx false Visit.RunsThrough) n n') :
    n.Approx false Visit.RunsThrough n'.madeExhaustive := by
  have hsame : n.Approx false Visit.RunsThrough n' :=
    approx_of_alike (fun v _ => decided_strict v) h
  cases h with
  | logical id mode connective hl hr =>
    cases mode with
    | shortCircuit => exact approx_logical id .shortCircuit .exhaustive connective hl hr
    | exhaustive => exact hsame
  | conditional id mode hc ht hf =>
    cases mode with
    | shortCircuit => exact approx_conditional id .shortCircuit .exhaustive hc ht hf
    | exhaustive => exact hsame
  | fold id mode accuVar iterVar hr hi hc hs hres =>
    cases mode with
    | shortCircuit =>
      refine approx_fold id .shortCircuit .exhaustive accuVar iterVar hr hi hc hs hres ?_
      intro p hroot turn hturn go' _
      -- the exhaustive loop never stops, and the other has no reason to
      rw [Mode.stopsAt_eq_false fun hgo => hroot (hgo ▸ List.mem_map_of_mem hturn)]
      rfl
    | exhaustive => exact hsame
  | _ => exact hsame

theorem loopConds_eq_nil {n : Node} (h : n.kind ≠ .fold .shortCircuit) (act : Activation) :
    n.loopConds act = [] := by
  cases n with
  | fold id mode accuVar iterVar range init cond step result =>
    cases mode with
    | shortCircuit => exact absurd rfl h
    | exhaustive => rfl
  | _ => rfl

/-- Making a tree exhaustive leaves its value as it is under every activation in which none of the
short-circuit loops that are evaluated ends early. If there are no such loops in the tree, that is
under every activation. -/
theorem eval_madeExhaustive {t t' : Node}
    (h : ((Pipeline.ofBuiltins [.makeExhaustive]).apply t).outcome.1 = .ok t') :
    (∀ act, (∀ v ∈ t.visits act, v.RunsThrough) → t'.eval act = t.eval act) ∧
      ((∀ m ∈ t.preorder, m.kind ≠ .fold .shortCircuit) → ∀ act, t'.eval act = t.eval act) := by
  rw [Builtin.apply_ofBuiltins] at h
  -- the induction is on the pass, and relates every tree to what it becomes
  have happrox : t.Approx false Visit.RunsThrough t' := by
    refine transformM_induction (fun hn hv => ?_) h
    obtain ⟨-, hrewrite⟩ := Builtin.visit_singleton_eq_ok_iff.1 hv
    rw [Builtin.rewrite_makeExhaustive] at hrewrite
    cases hrewrite
    exact approx_madeExhaustive hn
  have hthrough : ∀ act, (∀ v ∈ t.visits act, v.RunsThrough) → t'.eval act = t.eval act :=
    fun act hvis => ((happrox act act (fun _ _ => .refl _) hvis).eq nofun).symm
  refine ⟨hthrough, fun hloops act => hthrough act fun v hv => ?_⟩
  rw [Visit.RunsThrough, loopConds_eq_nil (hloops _ (node_mem_preorder hv))]
  exact List.not_mem_nil

/-- A ternary between two loops. The loop in its condition runs through; the one in its second
branch would end before its first step. -/
def loopTernary (mode : Mode) : Node :=
  let search (n : UInt32) (cond : Node) : Node :=
    fold ⟨n⟩ mode "found" "x" (const ⟨n + 1⟩ (.list [.int 1, .int 2]))
      (const ⟨n + 2⟩ (.bool false)) cond
      (logical ⟨n + 3⟩ mode .or (ident ⟨n + 4⟩ "found")
        (binary ⟨n + 5⟩ .equals (ident ⟨n + 6⟩ "x") (ident ⟨n + 7⟩ "y")))
      (ident ⟨n + 8⟩ "found")
  conditional ⟨1⟩ mode (search 10 (const ⟨2⟩ (.bool true))) (ident ⟨3⟩ "missing")
    (search 20 (const ⟨4⟩ (.bool false)))

/-- Only the second loop would stop early, and it is not evaluated before the ternary is made
exhaustive. -/
theorem eval_madeExhaustive_loopTernary :
    let act : Activation := .bound ⟨[("y", .int 2)]⟩
    let t := loopTernary .shortCircuit
    let t' := loopTernary .exhaustive
    ((Pipeline.ofBuiltins [.makeExhaustive]).apply t).outcome.1 = .ok t' ∧
      (∀ v ∈ t.visits act, v.RunsThrough) ∧
      t'.eval act = t.eval act ∧ t.eval act = .fail (.noSuchAttribute "missing") :=
  ⟨rfl, by decide, (eval_madeExhaustive rfl).1 _ (by decide), rfl⟩

end Node

end TreeEval
