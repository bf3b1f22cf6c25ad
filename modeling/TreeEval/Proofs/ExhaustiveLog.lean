import TreeEval.Proofs.Exhaustive
import TreeEval.Proofs.Fusion
import TreeEval.Proofs.Sightings

/-!
# What an exhaustive tree tells

A tree that visits everything shows what the tree shows that visits only what it needs, in the same
order, and more in between. As for the value of the tree, this takes that none of the loops that are
evaluated ends early. `showsMore_madeExhaustive` is the step from the children of a node to the node:
operands and branches that are visited in addition change neither the value nor the order of the
others.

Where there are no literals with parts and no loops, an exhaustive evaluation goes through the tree
as a pass does, whatever the values are.
-/

namespace TreeEval

namespace Node

/-! ## One node -/

/-- A loop that runs through visits what it visits when it is made exhaustive. -/
theorem visitedBelow_fold_of_runsThrough {id : NodeId} {accuVar iterVar : String}
    {range init cond step result : Node} {act : Activation}
    (h : Visit.RunsThrough ⟨fold id .shortCircuit accuVar iterVar range init cond step result, act⟩) :
    (fold id .shortCircuit accuVar iterVar range init cond step result).visitedBelow act =
      (fold id .exhaustive accuVar iterVar range init cond step result).visitedBelow act := by
  rw [visitedBelow_eq, visitedBelow_eq]
  refine Logged.bind_congr ?_
  cases hvisited : (range.visited act).value.items? with
  | none => rfl
  | some items =>
    have hitems : (range.eval act).items? = some items := hvisited
    refine Logged.bind_congr ?_
    show Mode.loop _ _ _ items (init.eval act) >>= _ = Mode.loop _ _ _ items (init.eval act) >>= _
    congr 1
    refine Mode.loop_congr_mode fun turn hturn => ?_
    -- the exhaustive loop never stops, and the other has no reason to
    refine (Mode.stopsAt_eq_false fun hgo => h ?_).symm
    rw [loopConds, turns, hitems]
    exact hgo ▸ List.mem_map_of_mem hturn

/-- One step: a node made exhaustive has the value of a node whose children show less, and shows
more. -/
theorem showsMore_madeExhaustive {n n' : Node} (h : Alike (ShowsMore Visit.RunsThrough) n n') :
    ShowsMore Visit.RunsThrough n n'.madeExhaustive := by
  have hsame : ShowsMore Visit.RunsThrough n n' := .of_alike h
  cases h with
  | logical id mode connective hl hr =>
    cases mode with
    | exhaustive => exact hsame
    | shortCircuit =>
      refine .of_below rfl rfl fun act _ => ?_
      rw [visitedBelow_eq, visitedBelow_eq]
      refine (within _).rel_bind (hl.rel act) fun l => ?_
      by_cases hl : l.asBool? = some connective.absorbing
      · -- the operand that is visited in addition does not change the value
        rw [if_pos hl]
        exact fun _ => ⟨(Connective.combine_eq_lhs hl _).symm, List.nil_sublist _⟩
      · rw [if_neg hl]
        exact (within _).rel_bind (hr.rel act) fun r => (within _).rel_pure _
  | conditional id mode hc ht hf =>
    cases mode with
    | exhaustive => exact hsame
    | shortCircuit =>
      refine .of_below rfl rfl fun act _ => ?_
      rw [visitedBelow_eq, visitedBelow_eq]
      refine (within _).rel_bind (hc.rel act) fun c => ?_
      -- only one branch was visited, or none; its visits are among those of both branches
      simp only [within, Value.choose]
      cases c.branch with
      | truthy =>
        intro hgood
        obtain ⟨hvalue, hlog⟩ := ht.rel act hgood
        refine ⟨hvalue, ?_⟩
        rw [Logged.log_bind, List.map_append]
        exact hlog.trans (List.sublist_append_left _ _)
      | falsy =>
        intro hgood
        obtain ⟨hvalue, hlog⟩ := hf.rel act hgood
        refine ⟨hvalue, ?_⟩
        rw [Logged.log_bind, Logged.log_bind, Logged.log_pure, List.append_nil, List.map_append]
        exact hlog.trans (List.sublist_append_right _ _)
      | neither value => exact fun _ => ⟨rfl, List.nil_sublist _⟩
  | fold id mode accuVar iterVar hr hi hc hs hres =>
    cases mode with
    | exhaustive => exact hsame
    | shortCircuit =>
      refine .of_below rfl rfl fun act hthrough => ?_
      rw [visitedBelow_fold_of_runsThrough hthrough]
      exact rel_visitedBelow (within _)
        (.fold id .exhaustive accuVar iterVar hr.rel hi.rel hc.rel hs.rel hres.rel) act
  | _ => exact hsame

/-! ## Whole trees -/

/-- The tree with all its short-circuit nodes made exhaustive. -/
def madeExhaustiveThroughout (t : Node) : Node := t.transformM (m := Id) madeExhaustive

theorem madeExhaustiveThroughout_eq (t : Node) :
    t.madeExhaustiveThroughout =
      (t.mapChildren (m := Id) madeExhaustiveThroughout).madeExhaustive :=
  transformM_eq_mapChildren_bind (m := Id) madeExhaustive t

theorem children_madeExhaustive (n : Node) : n.madeExhaustive.children = n.children := by
  cases n with
  | logical id mode connective lhs rhs => cases mode <;> rfl
  | conditional id mode cond truthy falsy => cases mode <;> rfl
  | fold id mode accuVar iterVar range init cond step result => cases mode <;> rfl
  | _ => rfl

theorem preorder_madeExhaustiveThroughout {t : Node} (h : ∀ m ∈ t.preorder, m.Balanced) :
    t.madeExhaustiveThroughout.preorder = t.preorder.map madeExhaustiveThroughout := by
  induction t using parts_induction with
  | step n ih =>
    obtain ⟨hn, hbelow⟩ := forall_mem_preorder.1 h
    have hchildren : ∀ c ∈ n.children, c.madeExhaustiveThroughout.preorder =
        c.preorder.map madeExhaustiveThroughout := fun c hc =>
      ih c ((mem_children_iff hn).1 hc) (hbelow c hc)
    have hbelow' : n.madeExhaustiveThroughout.children =
        n.children.map madeExhaustiveThroughout := by
      rw [madeExhaustiveThroughout_eq, children_madeExhaustive, children_mapChildren]
    rw [preorder_eq_cons, preorder_eq_cons n, hbelow', List.flatMap_map, List.map_cons,
      List.map_flatMap, List.flatMap_congr hchildren]

/-- A tree made exhaustive shows more, and misses nothing. -/
theorem showsMore_madeExhaustiveThroughout (t : Node) :
    ShowsMore Visit.RunsThrough t t.madeExhaustiveThroughout := by
  induction t using parts_induction with
  | step n ih =>
    rw [madeExhaustiveThroughout_eq]
    exact showsMore_madeExhaustive (.of_mapChildren ih)

theorem transformM_makeExhaustive_eq_ok_iff {t t' : Node} :
    t.transformM (Builtin.visit [.makeExhaustive]) = .ok t' ↔
      (∀ m ∈ t.preorder, m.Balanced) ∧ t.madeExhaustiveThroughout = t' :=
  Builtin.transformM_visit_eq_ok_iff fun n => by
    rw [List.foldlM_cons, Builtin.rewrite_makeExhaustive]
    rfl

/-- To make a tree exhaustive and to observe it in one pass is to observe the exhaustive tree. -/
theorem apply_makeExhaustive_observe_eq_ok_iff {os : List Observer} {t te : Node} :
    ((Pipeline.ofBuiltins (.makeExhaustive :: os.map .observe)).apply t).outcome.1 = .ok te ↔
      (∀ m ∈ t.preorder, m.Balanced) ∧ t.madeExhaustiveThroughout.watchedThroughout os = te := by
  rw [Builtin.apply_ofBuiltins]
  have hnode : ∀ n, (Builtin.makeExhaustive :: os.map .observe).foldlM
      (fun n b => Builtin.rewrite b n) n = .ok (n.madeExhaustive.watchedBy os) := by
    intro n
    rw [List.foldlM_cons, Builtin.rewrite_makeExhaustive]
    exact Builtin.foldlM_observe os n.madeExhaustive
  have hone := @Builtin.transformM_visit_eq_ok_iff _ _ hnode t
  have hrewrite : ∀ d ∈ [Builtin.makeExhaustive], d.isObserver = false := by decide
  have htwo : ∀ {te}, t.transformM (Builtin.visit (.makeExhaustive :: os.map .observe)) = .ok te →
      t.madeExhaustiveThroughout.watchedThroughout os = te := by
    intro te h
    obtain ⟨t₁, h₁, h₂⟩ := (transformM_visit_append hrewrite _).1 h
    obtain ⟨-, rfl⟩ := transformM_makeExhaustive_eq_ok_iff.1 h₁
    exact ((Builtin.transformM_visit_eq_ok_iff (Builtin.foldlM_observe os)).1 h₂).2
  constructor
  · exact fun h => ⟨(hone.1 h).1, htwo h⟩
  · rintro ⟨hbal, rfl⟩
    have hpass := hone.2 ⟨hbal, rfl⟩
    rwa [← htwo hpass] at hpass

end Node

/-! ## Trees that are visited in full -/

/-- The kind of a node that has been made exhaustive. -/
def NodeKind.madeExhaustive : NodeKind → NodeKind
  | logical _ connective => logical .exhaustive connective
  | conditional _ => conditional .exhaustive
  | fold _ => fold .exhaustive
  | kind => kind

/-- Whether nodes of the kind compute with the values of a fixed number of children, and come from
source text. -/
def NodeKind.isScalar : NodeKind → Bool
  | const | ident | binary | logical _ _ | conditional _ => true
  | list | map | fold _ | watch | setMembership => false

namespace Node

theorem kind_madeExhaustiveThroughout (n : Node) :
    n.madeExhaustiveThroughout.kind = n.kind.madeExhaustive := by
  cases n with
  | logical id mode connective lhs rhs => cases mode <;> rfl
  | conditional id mode cond truthy falsy => cases mode <;> rfl
  | fold id mode accuVar iterVar range init cond step result => cases mode <;> rfl
  | _ => rfl

/-- Without loops, a tree is evaluated to the same in both modes. -/
theorem eval_madeExhaustiveThroughout {t : Node}
    (h : ∀ m ∈ t.preorder, m.kind.isScalar = true) (act : Activation) :
    t.madeExhaustiveThroughout.eval act = t.eval act := by
  refine (showsMore_madeExhaustiveThroughout t).eval_eq fun v hv => ?_
  have hscalar := h _ (node_mem_preorder hv)
  have hloop : v.node.kind ≠ .fold .shortCircuit := by
    intro hkind
    rw [hkind] at hscalar
    cases hscalar
  rw [Visit.RunsThrough, loopConds_eq_nil hloop]
  exact List.not_mem_nil

/-- Made exhaustive, a node that is not a literal with parts, a loop, a watch or a look-up visits
all its children. -/
theorem visitsBelow_madeExhaustiveThroughout {n : Node} (h : n.kind.isScalar = true)
    (act : Activation) :
    n.madeExhaustiveThroughout.visitsBelow act =
      n.passOrder.flatMap fun c => c.madeExhaustiveThroughout.visits act := by
  cases n with
  | const id value => rfl
  | ident id name => rfl
  | binary id op lhs rhs =>
    show (binary id op lhs.madeExhaustiveThroughout rhs.madeExhaustiveThroughout).visitsBelow act = _
    simp [visitsBelow, visits, passOrder, children]
  | logical id mode connective lhs rhs =>
    have hmade : (logical id mode connective lhs rhs).madeExhaustiveThroughout =
        logical id .exhaustive connective lhs.madeExhaustiveThroughout
          rhs.madeExhaustiveThroughout := by
      cases mode <;> rfl
    simp [hmade, visitsBelow, visits, passOrder, children]
  | conditional id mode cond truthy falsy =>
    have hmade : (conditional id mode cond truthy falsy).madeExhaustiveThroughout =
        conditional id .exhaustive cond.madeExhaustiveThroughout truthy.madeExhaustiveThroughout
          falsy.madeExhaustiveThroughout := by
      cases mode <;> rfl
    simp [hmade, visitsBelow, visits, passOrder, children]
  | _ => cases h

theorem ownObservers_madeExhaustiveThroughout {n : Node} (h : n.kind.isScalar = true) :
    n.madeExhaustiveThroughout.ownObservers = [] := by
  cases n with
  | logical id mode connective lhs rhs => cases mode <;> rfl
  | conditional id mode cond truthy falsy => cases mode <;> rfl
  | const id value => rfl
  | ident id name => rfl
  | binary id op lhs rhs => rfl
  | _ => cases h

theorem balanced_of_isScalar {n : Node} (h : n.kind.isScalar = true) : n.Balanced := by
  cases n with
  | map id keys vals => cases h
  | _ => trivial

/-- If there is nothing in a tree but constants, names, operators, connectives and ternaries, then
an exhaustive evaluation visits every node once, each after those below it, and finds the values
that the nodes have. -/
theorem sightings_madeExhaustiveThroughout {t : Node}
    (h : ∀ m ∈ t.preorder, m.kind.isScalar = true) (act : Activation) :
    t.madeExhaustiveThroughout.sightings act =
      t.postorder.map fun m => ⟨[], m.id, m.eval act⟩ := by
  induction t using parts_induction with
  | step n ih =>
    obtain ⟨hn, hbelow⟩ := forall_mem_preorder.1 h
    have hchildren : ∀ c ∈ n.passOrder,
        (c.madeExhaustiveThroughout.visits act).map Visit.sighting =
          c.postorder.map fun m => ⟨[], m.id, m.eval act⟩ := fun c hc =>
      ih c (mem_passOrder.1 hc) (hbelow c (passOrder_eq_children (balanced_of_isScalar hn) ▸ hc))
    rw [sightings_eq_concat, visitsBelow_madeExhaustiveThroughout hn, postorder_eq_concat,
      List.map_append, List.map_flatMap, List.map_flatMap, List.flatMap_congr hchildren,
      ownObservers_madeExhaustiveThroughout hn, eval_madeExhaustiveThroughout h,
      (showsMore_madeExhaustiveThroughout n).id_eq]
    rfl

/-- Under every activation in which no short-circuit loop that is evaluated ends early, an observer
of the exhaustive tree is told all that an observer of the tree is told, in the same order. If there
is nothing in the tree but constants, names, operators, connectives and ternaries, the observer of
the exhaustive tree is told of every node once, after those below it, whatever the activation. -/
theorem log_madeExhaustive (a : Observer) (t : Node) :
    (∀ ta, ((Pipeline.ofBuiltins [.observe a]).apply t).outcome.1 = .ok ta →
      ∃ te, ((Pipeline.ofBuiltins [.makeExhaustive, .observe a]).apply t).outcome.1 = .ok te ∧
        ∀ act, (∀ v ∈ t.visits act, v.RunsThrough) →
          (ta.trace act).log.Sublist (te.trace act).log ∧
            (reportsTo [a] (ta.trace act).log).Sublist (reportsTo [a] (te.trace act).log)) ∧
      ((∀ m ∈ t.preorder, m.kind.isScalar = true) →
        t.postorder.Perm t.preorder ∧
          ∃ te, ((Pipeline.ofBuiltins [.makeExhaustive, .observe a]).apply t).outcome.1 = .ok te ∧
            ∀ act, (te.trace act).log = t.postorder.map (fun m => ⟨a, m.id, m.eval act⟩) ∧
              (te.trace act).log.map Observation.id = t.postorder.map Node.id) := by
  refine ⟨fun ta hta => ?_, fun hscalar => ?_⟩
  · obtain ⟨hbal, rfl⟩ := (@apply_observe_eq_ok_iff [a] t ta).1 hta
    refine ⟨_, (@apply_makeExhaustive_observe_eq_ok_iff [a] t _).2 ⟨hbal, rfl⟩, fun act h => ?_⟩
    have hlog : ((t.watchedThroughout [a]).trace act).log.Sublist
        ((t.madeExhaustiveThroughout.watchedThroughout [a]).trace act).log := by
      rw [log_watchedThroughout, log_watchedThroughout]
      exact ((showsMore_madeExhaustiveThroughout t).sublist h).flatMap _
    exact ⟨hlog, hlog.filter _⟩
  · have hbal : ∀ m ∈ t.preorder, m.Balanced := fun m hm => balanced_of_isScalar (hscalar m hm)
    refine ⟨postorder_perm_preorder hbal, _,
      (@apply_makeExhaustive_observe_eq_ok_iff [a] t _).2 ⟨hbal, rfl⟩, fun act => ?_⟩
    have hlog : ((t.madeExhaustiveThroughout.watchedThroughout [a]).trace act).log =
        t.postorder.map fun m => ⟨a, m.id, m.eval act⟩ := by
      rw [log_watchedThroughout, sightings_madeExhaustiveThroughout hscalar, List.flatMap_map,
        List.map_eq_flatMap]
      rfl
    refine ⟨hlog, ?_⟩
    rw [hlog, List.map_map]
    rfl

/-- A connective that is settled by its left side. -/
def settledConnective : Node :=
  logical ⟨1⟩ .shortCircuit .or (const ⟨2⟩ (.bool true))
    (conditional ⟨3⟩ .shortCircuit (ident ⟨4⟩ "x") (const ⟨5⟩ (.int 1)) (const ⟨6⟩ (.int 2)))

/-- Two loops of which the second would end early, but is not evaluated before the tree is made
exhaustive, and a connective without loops. -/
theorem log_madeExhaustive_loopTernary :
    let a : Observer := .values "a"
    let act : Activation := .bound ⟨[("y", .int 2)]⟩
    let t := loopTernary .shortCircuit
    (∃ ta te, ((Pipeline.ofBuiltins [.observe a]).apply t).outcome.1 = .ok ta ∧
      ((Pipeline.ofBuiltins [.makeExhaustive, .observe a]).apply t).outcome.1 = .ok te ∧
        (∀ v ∈ t.visits act, v.RunsThrough) ∧
          (ta.trace act).log.Sublist (te.trace act).log) ∧
      ∃ te, ((Pipeline.ofBuiltins [.makeExhaustive, .observe a]).apply
          settledConnective).outcome.1 = .ok te ∧
        (te.trace .empty).log.map Observation.id = [⟨2⟩, ⟨4⟩, ⟨5⟩, ⟨6⟩, ⟨3⟩, ⟨1⟩] := by
  intro a act t
  have hthrough : ∀ v ∈ t.visits act, v.RunsThrough := by decide
  obtain ⟨te, hte, hlogs⟩ := (log_madeExhaustive a t).1 _ rfl
  obtain ⟨-, te', hte', hids⟩ := (log_madeExhaustive a settledConnective).2 (by decide)
  exact ⟨⟨_, te, rfl, hte, hthrough, (hlogs act hthrough).1⟩, te', hte', (hids .empty).2⟩

end Node

end TreeEval
