import TreeEval.Proofs.Fusion

/-!
# The first defect

A pass that fails returns the error of the first node that it cannot deal with, in the order in which
it comes to the nodes. `failure?_transformM` says so of any pass of which it can be told, of every
node, whether it fails there once the nodes below are done. For the built-in decorators this can be
told from the tree itself. A malformed map keeps its numbers of keys and values, and what counts of
the right side of a membership test is the constant that it becomes, which does not depend on what
else is done to it: `exists_sameConstant`.
-/

namespace TreeEval

/-! ## Actions that fail -/

section

variable {ε α β : Type}

/-- The error with which an action fails, if it fails. -/
def failure? : Except ε α → Option ε
  | .error e => some e
  | .ok _ => none

theorem failure?_eq_some_iff {x : Except ε α} {e : ε} : failure? x = some e ↔ x = .error e := by
  cases x <;> simp [failure?]

theorem failure?_eq_none_iff {x : Except ε α} : failure? x = none ↔ ∃ a, x = .ok a := by
  cases x <;> simp [failure?]

/-- If a sequence of two steps fails, one of them does, and the first one is asked first. -/
theorem failure?_bind {x : Except ε α} {f : α → Except ε β} {rest : Option ε}
    (h : ∀ a, x = .ok a → failure? (f a) = rest) : failure? (x >>= f) = (failure? x).or rest := by
  cases x with
  | error e => rfl
  | ok a => exact h a rfl

/-- A second step that cannot fail leaves it to the first one. -/
theorem failure?_bind_eq_left {x : Except ε α} {f : α → Except ε β}
    (h : ∀ a, failure? (f a) = none) : failure? (x >>= f) = failure? x := by
  rw [failure?_bind fun a _ => h a, Option.or_none]

theorem findSome?_cons_eq_or (f : α → Option β) (a : α) (as : List α) :
    (a :: as).findSome? f = (f a).or (as.findSome? f) := by
  rw [← List.findSome?_singleton (f := f) (a := a), ← List.findSome?_append, List.singleton_append]

theorem findSome?_flatMap {γ : Type} (f : β → Option γ) (g : α → List β) (as : List α) :
    (as.flatMap g).findSome? f = as.findSome? fun a => (g a).findSome? f := by
  induction as with
  | nil => rfl
  | cons a as ih => rw [List.flatMap_cons, List.findSome?_append, ih, findSome?_cons_eq_or]

theorem findSome?_congr {f g : α → Option β} {as : List α} (h : ∀ a ∈ as, f a = g a) :
    as.findSome? f = as.findSome? g := by
  induction as with
  | nil => rfl
  | cons a as ih =>
    rw [findSome?_cons_eq_or, findSome?_cons_eq_or, h a List.mem_cons_self,
      ih fun b hb => h b (List.mem_cons_of_mem _ hb)]

theorem failure?_discard (x : Except ε α) : failure? (discard x) = failure? x := by
  rw [discard_eq_bind]
  exact failure?_bind_eq_left fun _ => rfl

/-- The first action that fails makes the row fail. -/
theorem failure?_forM (f : α → Except ε Unit) (as : List α) :
    failure? (as.forM f) = as.findSome? fun a => failure? (f a) := by
  induction as with
  | nil => rfl
  | cons a as ih =>
    rw [findSome?_cons_eq_or, ← ih]
    exact failure?_bind fun _ _ => rfl

end

namespace Node

variable {ε : Type}

theorem failure?_mapChildren (f : Node → Except ε Node) (n : Node) :
    failure? (n.mapChildren f) = n.passOrder.findSome? fun c => failure? (f c) := by
  rw [← failure?_discard, discard_mapChildren, failure?_forM]
  simp only [failure?_discard]

/-- If it can be said of every node whether it fails once its parts have been through the pass, then
a pass fails with the error of the first node of which this is said. -/
theorem failure?_transformM {visit : Node → Except ε Node} {defect? : Node → Option ε}
    (h : ∀ {n n'}, Alike (fun c c' => c.transformM visit = .ok c') n n' →
      failure? (visit n') = defect? n) (t : Node) :
    failure? (t.transformM visit) = t.postorder.findSome? defect? := by
  induction t using parts_induction with
  | step n ih =>
    have hbelow := failure?_mapChildren (transformM visit) n
    rw [findSome?_congr fun c hc => ih c (mem_passOrder.1 hc)] at hbelow
    rw [transformM_eq_mapChildren_bind, postorder_eq_concat, List.findSome?_append,
      findSome?_flatMap, List.findSome?_singleton, ← hbelow]
    exact failure?_bind fun n' hn' => h (mapChildren_eq_ok_iff.1 hn')

/-! ## Defects -/

/-- What a pipeline cannot deal with: a malformed map, and, if something is to be computed ahead, a
test for membership in what turns out to be a constant of another type than a list. -/
inductive Defect (optimize : Bool) : Node → PlanError → Prop
  | mapArity {id : NodeId} {keys vals : List Node} (h : keys.length ≠ vals.length) :
      Defect optimize (map id keys vals) (.mapArity id keys.length vals.length)
  | notAList {id : NodeId} {lhs rhs rhs' : Node} {found : Value} (ho : optimize = true)
      (hr : ((Pipeline.ofBuiltins [.computeAhead]).apply rhs).outcome.1 = .ok rhs')
      (hc : rhs'.constant? = some found) (hl : found.asList? = none)
      (hs : found.isSentinel = false) :
      Defect optimize (binary id .inList lhs rhs) (.notAList id found.type)

/-- The error that the constant on the right side of a membership test leads to. -/
def notAList? (id : NodeId) (found : Option Value) : Option PlanError :=
  found.bind fun v =>
    if v.asList?.isNone ∧ v.isSentinel = false then some (.notAList id v.type) else none

/-- The defect of a node, if it has one. -/
def defect? (optimize : Bool) : Node → Option PlanError
  | map id keys vals =>
    if keys.length = vals.length then none else some (.mapArity id keys.length vals.length)
  | binary id .inList _ rhs =>
    if optimize then
      match rhs.transformM (Builtin.visit [.computeAhead]) with
      | .ok rhs => notAList? id rhs.constant?
      | .error _ => none
    else none
  | _ => none

theorem notAList?_eq_some_iff {id : NodeId} {found : Option Value} {e : PlanError} :
    notAList? id found = some e ↔
      ∃ v, found = some v ∧ v.asList? = none ∧ v.isSentinel = false ∧ .notAList id v.type = e := by
  cases found with
  | none => simp [notAList?]
  | some v => simp [notAList?, and_assoc]

theorem defect?_eq_some_iff {optimize : Bool} {n : Node} {e : PlanError} :
    n.defect? optimize = some e ↔ n.Defect optimize e := by
  constructor
  · intro h
    unfold defect? at h
    split at h
    · split at h
      · cases h
      · next hne =>
        cases h
        exact .mapArity hne
    · split at h
      · next id lhs rhs ho =>
        split at h
        · next rhs' hr =>
          obtain ⟨v, hc, hl, hs, rfl⟩ := notAList?_eq_some_iff.1 h
          exact .notAList ho (by rwa [Builtin.apply_ofBuiltins]) hc hl hs
        · cases h
      · cases h
    · cases h
  · intro h
    cases h with
    | mapArity hne => rw [defect?, if_neg hne]
    | notAList ho hr hc hl hs =>
      rw [Builtin.apply_ofBuiltins] at hr
      rw [defect?, if_pos ho, hr]
      exact notAList?_eq_some_iff.2 ⟨_, hc, hl, hs, rfl⟩

theorem defect?_eq_none_iff {optimize : Bool} {n : Node} :
    n.defect? optimize = none ↔ ∀ e, ¬ n.Defect optimize e := by
  simp only [Option.eq_none_iff_forall_ne_some, ne_eq, defect?_eq_some_iff]

theorem exists_defect_iff {optimize : Bool} {n : Node} :
    (∃ e, n.Defect optimize e) ↔
      (∃ id keys vals, n = .map id keys vals ∧ keys.length ≠ vals.length) ∨
        optimize = true ∧ ∃ id lhs rhs rhs' found, n = .binary id .inList lhs rhs ∧
          ((Pipeline.ofBuiltins [.computeAhead]).apply rhs).outcome.1 = .ok rhs' ∧
            rhs'.constant? = some found ∧ found.asList? = none ∧ found.isSentinel = false := by
  constructor
  · rintro ⟨e, h⟩
    cases h with
    | mapArity hne => exact .inl ⟨_, _, _, rfl, hne⟩
    | notAList ho hr hc hl hs => exact .inr ⟨ho, _, _, _, _, _, rfl, hr, hc, hl, hs⟩
  · rintro (⟨id, keys, vals, rfl, hne⟩ | ⟨ho, id, lhs, rhs, rhs', found, rfl, hr, hc, hl, hs⟩)
    · exact ⟨_, .mapArity hne⟩
    · exact ⟨_, .notAList ho hr hc hl hs⟩

end Node

namespace Builtin

open Node

/-! ## One node -/

theorem failure?_hashMembership (id : NodeId) (lhs rhs : Node) :
    failure? (Plan.hashMembership id lhs rhs).outcome.1 = notAList? id rhs.constant? := by
  unfold Plan.hashMembership
  cases rhs.constant? with
  | none => rfl
  | some found =>
    cases found with
    | list elems =>
      cases elems with
      | nil => rfl
      | cons elem elems =>
        cases hset : Value.keySet? (elem :: elems) with
        | none => simp only [hset]; rfl
        | some keys => simp only [hset]; rfl
    | _ => rfl

/-- Of the nodes computed ahead, only membership tests can be refused. -/
theorem failure?_rewrite_computeAhead (n : Node) :
    failure? (computeAhead.rewrite n) =
      match n with
      | .binary test .inList _ rhs => notAList? test rhs.constant?
      | _ => none := by
  cases n with
  | binary id op lhs rhs =>
    cases op with
    | inList => exact failure?_hashMembership id lhs rhs
    | _ => rfl
  | list id elems =>
    show failure? (Plan.constList id elems).outcome.1 = none
    unfold Plan.constList
    split <;> rfl
  | map id keys vals =>
    show failure? (Plan.constMap id keys vals).outcome.1 = none
    unfold Plan.constMap
    split <;> rfl
  | _ => rfl

theorem exists_rewriteAll_observers {bs : List Builtin} (h : ∀ b ∈ bs, b.isObserver = true)
    (n : Node) : ∃ t', rewriteAll bs n = .ok t' := by
  induction bs generalizing n with
  | nil => exact ⟨n, rfl⟩
  | cons b bs ih =>
    cases b with
    | observe o => exact ih (fun b' hb' => h b' (List.mem_cons_of_mem _ hb')) (.watch o n)
    | _ => cases h _ List.mem_cons_self

/-- Whether something is computed ahead by the pipeline: whether it does so in front of its first
observer. -/
def computesAhead (bs : List Builtin) : Bool := computeAhead ∈ front bs

/-- Decorators refuse a node if it is refused when it is computed ahead. -/
theorem failure?_rewriteAll (bs : List Builtin) (n : Node) :
    failure? (rewriteAll bs n) =
      if computesAhead bs then failure? (computeAhead.rewrite n) else none := by
  have hobservers : ∀ m, failure? (rewriteAll (bs.filter isObserver) m) = none := fun m =>
    failure?_eq_none_iff.2 <| exists_rewriteAll_observers (fun b hb => (List.mem_filter.1 hb).2) m
  rw [rewriteAll_eq_front_bind, failure?_bind_eq_left hobservers,
    rewriteAll_eq_rewriteOnce fun b hb => isObserver_of_mem_front hb, rewriteOnce, computesAhead]
  split
  · split
    · -- an exhaustive node is refused if the node is
      rw [rewrite_computeAhead_madeExhaustive]
      exact failure?_bind_eq_left fun _ => rfl
    · rfl
  · rfl

/-! ## The parts of a node -/

/-- A pipeline that computes ahead may do so once more, and before everything else. -/
theorem visit_cons_computeAhead {bs : List Builtin} (h : computesAhead bs = true) :
    visit (computeAhead :: bs) = visit bs := by
  have hnormal : normalForm (computeAhead :: bs) = normalForm bs := by
    rw [computesAhead, decide_eq_true_iff] at h
    have hfront : front (computeAhead :: bs) = computeAhead :: front bs := rfl
    rw [normalForm, normalForm, hfront, rewritesOf, rewritesOf]
    simp [h, isObserver]
  rw [← visit_normalForm, hnormal, visit_normalForm]

/-- What has been through a pipeline that computes ahead is the constant that it would be if nothing
else were done. -/
theorem exists_sameConstant {bs : List Builtin} (h : computesAhead bs = true) {t t' : Node}
    (ht : t.transformM (visit bs) = .ok t') :
    ∃ s, t.transformM (visit [computeAhead]) = .ok s ∧ SameConstant s t' := by
  have hrewrite : ∀ d ∈ [computeAhead], d.isObserver = false := by decide
  rw [← visit_cons_computeAhead h] at ht
  obtain ⟨s, hs, hs'⟩ := (transformM_visit_append hrewrite bs).1 ht
  obtain ⟨t'', ht'', hconst⟩ :=
    (settled_of_transformM hrewrite List.mem_cons_self hs).exists_transformM bs
  rw [hs'] at ht''
  cases ht''
  exact ⟨s, hs, hconst⟩

/-- One step: if its parts have been through the pipeline, a node is refused if it has a defect. -/
theorem failure?_visit {bs : List Builtin} {n n' : Node}
    (h : Alike (fun c c' => c.transformM (visit bs) = .ok c') n n') :
    failure? (visit bs n') = n.defect? (computesAhead bs) := by
  have hboth : failure? (visit bs n') = (failure? (Plan.checkArity n').outcome.1).or
      (if computesAhead bs then failure? (computeAhead.rewrite n') else none) :=
    failure?_bind fun _ _ => failure?_rewriteAll bs n'
  rw [failure?_rewrite_computeAhead] at hboth
  rw [hboth]
  cases h with
  | @map keys keys' vals vals' id hk hv =>
    rw [defect?, hk.length_eq, hv.length_eq, Plan.checkArity, ite_self, Option.or_none]
    split <;> rfl
  | @binary lhs lhs' rhs rhs' id op hl hr =>
    cases op with
    | inList =>
      rw [defect?]
      by_cases hahead : computesAhead bs = true
      · obtain ⟨s, hs, hconst⟩ := exists_sameConstant hahead hr
        rw [if_pos hahead, if_pos hahead, hs]
        exact congrArg (notAList? id) hconst
      · rw [if_neg hahead, if_neg hahead]
        rfl
    | _ => exact ite_self none
  | _ => exact ite_self none

/-! ## Whole trees -/

/-- A pipeline of built-in decorators fails with the first defect of the tree. -/
theorem failure?_transformM_visit (bs : List Builtin) (t : Node) :
    failure? (t.transformM (visit bs)) = t.postorder.findSome? (defect? (computesAhead bs)) :=
  failure?_transformM failure?_visit t

end Builtin

theorem EvalOptions.computesAhead_builtins (options : EvalOptions) (hasState : Bool) :
    Builtin.computesAhead (options.builtins hasState) = options.optimize := by
  obtain ⟨_ | _, _ | _, _ | _⟩ := options <;> cases hasState <;> rfl

/-- Planning fails with the first defect of a tree in the order in which a pass comes to its nodes,
those in the surplus of a malformed map included. So it fails if and only if there is a malformed map
somewhere in the tree or, where something is to be computed ahead, a test for membership in what
turns out to be a constant that is neither a list nor a sentinel. -/
theorem Program.plan_eq_error_iff (options : EvalOptions) (t : Node) :
    (∀ e, (plan options t).outcome.1 = .error e ↔
      ∃ before m after, t.postorder = before ++ m :: after ∧
        (∀ x ∈ before, ∀ e', ¬ x.Defect options.optimize e') ∧ m.Defect options.optimize e) ∧
      ((∃ e, (plan options t).outcome.1 = .error e) ↔
        (∃ id keys vals, .map id keys vals ∈ t.postorder ∧ keys.length ≠ vals.length) ∨
          options.optimize = true ∧ ∃ id lhs rhs rhs' found,
            .binary id .inList lhs rhs ∈ t.postorder ∧
              ((Pipeline.ofBuiltins [.computeAhead]).apply rhs).outcome.1 = .ok rhs' ∧
                rhs'.constant? = some found ∧ found.asList? = none ∧ found.isSentinel = false) := by
  have hfirst : failure? (plan options t).outcome.1 =
      t.postorder.findSome? (Node.defect? options.optimize) := by
    rw [outcome_plan, failure?_bind_eq_left fun _ => rfl, Builtin.failure?_transformM_visit,
      EvalOptions.computesAhead_builtins]
  refine ⟨fun e => ?_, ?_⟩
  · rw [← failure?_eq_some_iff, hfirst, List.findSome?_eq_some_iff]
    simp only [Node.defect?_eq_some_iff, Node.defect?_eq_none_iff]
    exact exists_congr fun before => exists_congr fun m => exists_congr fun after =>
      and_congr_right fun _ => and_comm
  · have hsome : (∃ e, (plan options t).outcome.1 = .error e) ↔
        ∃ m ∈ t.postorder, ∃ e, m.Defect options.optimize e := by
      simp only [← failure?_eq_some_iff, ← Option.isSome_iff_exists, hfirst,
        List.findSome?_isSome_iff, ← Node.defect?_eq_some_iff]
    rw [hsome]
    simp only [Node.exists_defect_iff]
    constructor
    · rintro ⟨m, hm, ⟨id, keys, vals, rfl, h⟩ | ⟨ho, id, lhs, rhs, rhs', found, rfl, h⟩⟩
      · exact .inl ⟨id, keys, vals, hm, h⟩
      · exact .inr ⟨ho, id, lhs, rhs, rhs', found, hm, h⟩
    · rintro (⟨id, keys, vals, hm, h⟩ | ⟨ho, id, lhs, rhs, rhs', found, hm, h⟩)
      · exact ⟨_, hm, .inl ⟨id, keys, vals, rfl, h⟩⟩
      · exact ⟨_, hm, .inr ⟨ho, id, lhs, rhs, rhs', found, rfl, h⟩⟩

/-- The surplus of a malformed map is looked at before the map. In it, a test for membership is
refused if it is to be computed ahead. -/
example :
    let membership : Node := .binary ⟨2⟩ .inList (.const ⟨3⟩ .null) (.watch .tracker (.map ⟨4⟩ [] []))
    let t : Node := .map ⟨1⟩ [] [membership]
    (Program.plan ⟨true, true, true⟩ t).outcome.1 = .error (.notAList ⟨2⟩ .map) ∧
      (Program.plan ⟨false, true, true⟩ t).outcome.1 = .error (.mapArity ⟨1⟩ 0 1) :=
  ⟨rfl, rfl⟩

end TreeEval
