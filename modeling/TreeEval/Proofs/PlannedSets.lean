import TreeEval.Proofs.Fusion

/-!
# Trees that are planned and rebuilt

A look-up holds two forms of one list: its right side, which is a part of the tree, and the set of
its keys, which was made of the right side when the look-up was planned. Rebuilding the look-up
replaces the right side and keeps the set.

`Obtained` holds of the trees that can be put together from nodes, planned and rebuilt, any number
of times and in any order, as long as the right sides of look-ups are replaced by nodes with the
same values only. `Obtained.of_returns_transform` says that pipelines of decorators lead to such
trees again, and `eval_setMembership_of_obtained` that in them every look-up has the value of the
membership test that it stands for.
-/

namespace TreeEval

/-! ## What a run may return -/

/-- Started in some state, the action succeeds with the value. -/
def Returns {ε σ α : Type} (x : ExceptT ε (StateM σ) α) (a : α) : Prop :=
  ∃ s, (x.run.run s).1 = .ok a

theorem eq_of_returns_pure {ε σ α : Type} {a b : α}
    (h : Returns (pure a : ExceptT ε (StateM σ) α) b) : a = b := by
  obtain ⟨s, h⟩ := h
  exact Except.ok.inj h

theorem exists_of_returns_bind {ε σ α β : Type} {x : ExceptT ε (StateM σ) α}
    {f : α → ExceptT ε (StateM σ) β} {b : β} (h : Returns (x >>= f) b) :
    ∃ a, Returns x a ∧ Returns (f a) b := by
  obtain ⟨s, h⟩ := h
  rw [ExceptT.run_bind, StateT.run_bind] at h
  cases hrun : x.run.run s with
  | mk result s' =>
    rw [hrun] at h
    cases result with
    | error e => cases h
    | ok a => exact ⟨a, ⟨s, by rw [hrun]⟩, ⟨s', h⟩⟩

/-- An action that may fail and changes a state returns what it succeeds with in some state. -/
def Returning.run (ε σ : Type) : Returning (ExceptT ε (StateM σ)) where
  mayReturn := Returns
  eq_of_pure := eq_of_returns_pure
  exists_of_bind := exists_of_returns_bind

namespace Plan

variable {α : Type}

theorem returns_of_outcome {x : Plan α} {a : α} (h : x.outcome.1 = .ok a) : Returns x a := ⟨#[], h⟩

theorem Gives.eq_of_returns {x : Plan α} {y : Except PlanError α} {a : α} (hx : x.Gives y)
    (h : Returns x a) : y = .ok a := by
  obtain ⟨events, h⟩ := h
  exact (hx events).symm.trans h

/-- Recording a failure and failing again returns nothing. -/
theorem returns_of_tryCatch {x : Plan α} {a : α} {event : PlanError → PlanEvent}
    (h : Returns (tryCatch x fun e => note (event e) >>= fun _ => throw e) a) : Returns x a := by
  obtain ⟨events, h⟩ := h
  change ((ExceptT.tryCatch x _).run.run events).1 = .ok a at h
  rw [ExceptT.tryCatch, ExceptT.run_mk, StateT.run_bind] at h
  refine ⟨events, ?_⟩
  cases hrun : StateT.run x events with
  | mk result events' =>
    rw [hrun] at h
    cases result with
    | error e => cases h
    | ok b =>
      rw [ExceptT.run, hrun]
      exact h

end Plan

namespace Pipeline

variable {p : Pipeline} {n n' t t' : Node}

/-- A pipeline returns what its pass returns. -/
theorem returns_transform (h : Returns (p.apply t) t') : Returns (p.transform t) t' := by
  obtain ⟨_, _, h⟩ := exists_of_returns_bind h
  exact Plan.returns_of_tryCatch h

theorem of_returns_foldlM {P : Node → Prop} {decorators : List Decorator}
    (hall : ∀ decorate ∈ decorators, ∀ n n', P n → Returns (decorate n) n' → P n') (hn : P n)
    (h : Returns (decorators.foldlM (fun n decorate => decorate n) n) n') : P n' := by
  induction decorators generalizing n with
  | nil => exact eq_of_returns_pure h ▸ hn
  | cons decorate rest ih =>
    rw [List.foldlM_cons] at h
    obtain ⟨n₁, hn₁, h⟩ := exists_of_returns_bind h
    exact ih (fun d hd => hall d (List.mem_cons_of_mem _ hd))
      (hall decorate List.mem_cons_self n n₁ hn hn₁) h

/-- What all decorators keep, a visit keeps. -/
theorem of_returns_visit {P : Node → Prop}
    (hp : ∀ decorate ∈ p.decorators, ∀ n n', P n → Returns (decorate n) n' → P n')
    (hn : P n) (h : Returns (p.visit n) n') : P n' := by
  obtain ⟨_, _, h⟩ := exists_of_returns_bind h
  exact of_returns_foldlM hp hn h

end Pipeline

namespace Node

/-! ## Trees that are put together, planned and rebuilt -/

/-- What the action may return for the right side of a look-up has the values of that right side. -/
def KeepsList {ε σ : Type} (f : Node → ExceptT ε (StateM σ) Node) : Node → Prop
  | setMembership _ _ _ _ rhs => ∀ rhs', Returns (f rhs) rhs' → ∀ act, rhs'.eval act = rhs.eval act
  | _ => True

/-- The trees that can be put together, planned and rebuilt. -/
inductive Obtained : Node → Prop
  /-- Nodes are made of such trees, all but look-ups. -/
  | built {n : Node} (hkind : n.kind ≠ .setMembership) (hparts : ∀ c ∈ n.parts, Obtained c) :
    Obtained n
  /-- Built-in decorators are run on nodes. -/
  | rewritten {n n' : Node} (h : Obtained n) (b : Builtin) (hn' : b.rewrite n = .ok n') :
    Obtained n'
  /-- The parts of a node are replaced by any such trees, though by trees with the same values if
  they are right sides of look-ups. -/
  | rebuilt {ε σ : Type} {f : Node → ExceptT ε (StateM σ) Node} {n n' : Node} (h : Obtained n)
    (hf : ∀ c ∈ n.parts, ∀ c', Returns (f c) c' → Obtained c') (hlist : KeepsList f n)
    (hn' : Returns (n.mapChildren f) n') : Obtained n'

theorem keepsList_of_kind_ne {ε σ : Type} {f : Node → ExceptT ε (StateM σ) Node} {n : Node}
    (h : n.kind ≠ .setMembership) : KeepsList f n := by
  cases n with
  | setMembership id elemType elems lhs rhs => exact absurd rfl h
  | _ => trivial

/-- A tree without look-ups can be put together. -/
theorem obtained_of_kind_ne {t : Node} (h : ∀ m ∈ t.postorder, m.kind ≠ .setMembership) :
    Obtained t := by
  induction t using parts_induction with
  | step n ih =>
    obtain ⟨hn, hparts⟩ := forall_mem_postorder.1 h
    exact .built hn fun c hc => ih c hc (hparts c hc)

namespace Obtained

variable {n t t' : Node}

theorem parts (h : Obtained n) : ∀ c ∈ n.parts, Obtained c := by
  induction h with
  | built _ hparts => exact hparts
  | @rewritten n n' h b hn' ih =>
    -- the parts are those of the old node or some of them, and under a watch the old node itself
    cases b with
    | makeExhaustive =>
      cases (Builtin.rewrite_makeExhaustive n).symm.trans hn'
      rwa [parts_madeExhaustive]
    | computeAhead => exact fun c hc => ih c ((computedAhead_of_rewrite hn').parts_subset hc)
    | observe observer =>
      cases hn'
      intro c hc
      rw [List.mem_singleton.1 hc]
      exact h
  | rebuilt _ hf _ hn' =>
    have halike := alike_of_mapChildren (.run _ _) hn'
    exact forall_mem_of_forall₂ (halike.imp_of_mem hf).forall₂_parts

/-- The nodes of such a tree are such trees. -/
theorem of_mem_postorder (h : Obtained t) : ∀ m ∈ t.postorder, Obtained m := by
  induction t using parts_induction with
  | step n ih => exact forall_mem_postorder.2 ⟨h, fun c hc => ih c hc (h.parts c hc)⟩

/-- What a pipeline makes of such a tree is such a tree, if its decorators make such trees of such
trees, and if it keeps the values of the right sides of look-ups. -/
theorem of_returns_transform {p : Pipeline} (h : Obtained t)
    (hp : ∀ decorate ∈ p.decorators, ∀ n n', Obtained n → Returns (decorate n) n' → Obtained n')
    (hlist : ∀ m ∈ t.postorder, KeepsList p.transform m) (ht' : Returns (p.transform t) t') :
    Obtained t' := by
  induction t using parts_induction generalizing t' with
  | step n ih =>
    -- the pass has rebuilt the node from what it made of the parts before it visits the node
    rw [forall_mem_postorder] at hlist
    obtain ⟨n', hn', hv⟩ := exists_of_transformM (.run _ _) ht'
    have hrebuilt : Obtained n' := .rebuilt h (fun c hc c' hcc' =>
      ih c hc (h.parts c hc) (hlist.2 c hc) hcc') hlist.1 hn'
    exact Pipeline.of_returns_visit hp hrebuilt hv

end Obtained

/-! ## Built-in pipelines -/

theorem constant?_of_rewriteAll {bs : List Builtin} {n n' : Node} {v : Value}
    (hn : n.constant? = some v) (h : Builtin.rewriteAll bs n = .ok n') : n'.constant? = some v := by
  induction bs generalizing n with
  | nil =>
    cases h
    exact hn
  | cons b bs ih =>
    obtain ⟨n₁, hb, h⟩ := bind_eq_ok_iff.1 h
    refine ih ?_ h
    cases b with
    | makeExhaustive =>
      cases (Builtin.rewrite_makeExhaustive n).symm.trans hb
      rwa [constant?_madeExhaustive]
    | computeAhead =>
      cases computedAhead_of_rewrite hb with
      | unchanged => exact hn
      | _ => cases hn
    | observe observer =>
      cases hb
      exact hn

/-- Built-in pipelines leave constants what they are, watched or not. -/
theorem constant?_of_transformM {bs : List Builtin} {t t' : Node} {v : Value}
    (ht : t.constant? = some v) (h : t.transformM (Builtin.visit bs) = .ok t') :
    t'.constant? = some v := by
  induction t generalizing t' with
  | const id value => exact constant?_of_rewriteAll ht (Builtin.visit_eq_ok_iff.1 h).2
  | watch observer inner ih =>
    obtain ⟨n', hn', hv⟩ := transformM_eq_ok_iff.1 h
    cases hn' with
    | @watch _ inner' _ hinner =>
      have hinner' : inner'.constant? = some v := ih ht hinner
      have hwatch : (watch observer inner').constant? = some v := hinner'
      exact constant?_of_rewriteAll hwatch (Builtin.visit_eq_ok_iff.1 hv).2
  | _ => cases ht

theorem keepsList_ofBuiltins (bs : List Builtin) {id : NodeId} {elemType : ValueType}
    {elems : KeySet elemType} {lhs rhs : Node} {v : Value} (h : rhs.constant? = some v) :
    KeepsList (Pipeline.ofBuiltins bs).transform (setMembership id elemType elems lhs rhs) := by
  intro rhs' hrhs' act
  have hpass := (Plan.gives_transformM (Builtin.gives_visit bs) rhs).eq_of_returns hrhs'
  rw [eval_of_constant? h, eval_of_constant? (constant?_of_transformM h hpass)]

theorem obtained_of_builtin {bs : List Builtin} :
    ∀ decorate ∈ (Pipeline.ofBuiltins bs).decorators,
      ∀ n n', Obtained n → Returns (decorate n) n' → Obtained n' := by
  intro decorate hd n n' hn hn'
  obtain ⟨b, _, rfl⟩ := List.mem_map.1 hd
  exact .rewritten hn b ((Builtin.gives_decorator b n).eq_of_returns hn')

/-! ## Look-ups in such trees -/

/-- The right side of a look-up is a list that the set is made of. -/
def ListsKeys : Node → Prop
  | setMembership _ _ elems _ rhs => ∀ act, ∃ ys, rhs.eval act = .list ys ∧ elems.IsSetOf ys
  | _ => True

theorem listsKeys_madeExhaustive {n : Node} (h : n.ListsKeys) : n.madeExhaustive.ListsKeys := by
  cases n with
  | logical id mode connective lhs rhs => cases mode <;> trivial
  | conditional id mode cond truthy falsy => cases mode <;> trivial
  | fold id mode accuVar iterVar range init cond step result => cases mode <;> trivial
  | _ => exact h

theorem listsKeys_of_computedAhead {n n' : Node} (hn : n.ListsKeys) (h : ComputedAhead n n') :
    n'.ListsKeys := by
  cases h with
  | unchanged => exact hn
  | membership id h hs => exact fun act => ⟨_, eval_of_constant? h act, Value.isSetOf_of_keySet? hs⟩
  | _ => trivial

theorem listsKeys_of_rebuilt {ε σ : Type} {f : Node → ExceptT ε (StateM σ) Node} {n n' : Node}
    (hn : n.ListsKeys) (hlist : KeepsList f n) (h : Returns (n.mapChildren f) n') :
    n'.ListsKeys := by
  cases alike_of_mapChildren (.run _ _) h with
  | setMembership id elemType elems hl hr =>
    intro act
    obtain ⟨ys, hys, hs⟩ := hn act
    exact ⟨ys, (hlist _ hr act).trans hys, hs⟩
  | _ => trivial

namespace Obtained

variable {t t' : Node}

theorem listsKeys (h : Obtained t) : t.ListsKeys := by
  induction h with
  | @built n hkind hparts ih =>
    -- look-ups are planned and not built
    cases n with
    | setMembership id elemType elems lhs rhs => exact absurd rfl hkind
    | _ => trivial
  | @rewritten n n' h b hn' ih =>
    cases b with
    | makeExhaustive =>
      cases (Builtin.rewrite_makeExhaustive n).symm.trans hn'
      exact listsKeys_madeExhaustive ih
    | computeAhead => exact listsKeys_of_computedAhead ih (computedAhead_of_rewrite hn')
    | observe observer =>
      cases hn'
      trivial
  | rebuilt h hf hlist hn' ih => exact listsKeys_of_rebuilt ih hlist hn'

end Obtained

/-- In a tree that has been put together, planned and rebuilt, every look-up has the value of the
membership test that it stands for, and pipelines of decorators make such trees of such trees. -/
theorem eval_setMembership_of_obtained :
    (∀ t, Obtained t → ∀ id elemType (elems : KeySet elemType) lhs rhs,
      setMembership id elemType elems lhs rhs ∈ t.postorder → ∀ act,
        (setMembership id elemType elems lhs rhs).eval act = (binary id .inList lhs rhs).eval act) ∧
    ∀ (p : Pipeline) t t', Obtained t →
      (∀ decorate ∈ p.decorators, ∀ n n', Obtained n → Returns (decorate n) n' → Obtained n') →
      (∀ m ∈ t.postorder, KeepsList p.transform m) → (p.apply t).outcome.1 = .ok t' →
        Obtained t' := by
  constructor
  · intro t ht id elemType elems lhs rhs hs act
    obtain ⟨ys, hys, helems⟩ := (ht.of_mem_postorder _ hs).listsKeys act
    exact eval_setMembership_eq_binary helems hys
  · intro p t t' ht hp hlist ht'
    have hpass := Pipeline.returns_transform (Plan.returns_of_outcome ht')
    exact ht.of_returns_transform hp hlist hpass

/-- A look-up that is planned, then watched, and then given its list as a literal again. -/
theorem eval_setMembership_of_obtained_relisted :
    let elems : List Node := [const ⟨4⟩ (.int 1), const ⟨5⟩ (.int 2)]
    let keys : KeySet .int := .ofKeys (.int 1) [.int 2] (by decide)
    let listed := const ⟨3⟩ (.list [.int 1, .int 2])
    let test := binary ⟨1⟩ .inList (ident ⟨2⟩ "x") (list ⟨3⟩ elems)
    let found := setMembership ⟨1⟩ .int keys (ident ⟨2⟩ "x") listed
    let watched := watch .tracker
      (setMembership ⟨1⟩ .int keys (watch .tracker (ident ⟨2⟩ "x")) (watch .tracker listed))
    let relisted := setMembership ⟨1⟩ .int keys (watch .tracker (ident ⟨2⟩ "x")) (list ⟨3⟩ elems)
    Obtained test ∧ ((Pipeline.ofBuiltins [.computeAhead]).apply test).outcome.1 = .ok found ∧
      Obtained found ∧
      ((Pipeline.ofBuiltins [.observe .tracker]).apply found).outcome.1 = .ok watched ∧
      Obtained watched ∧ Obtained relisted ∧
      ∀ act, relisted.eval act =
        (binary ⟨1⟩ .inList (watch .tracker (ident ⟨2⟩ "x")) (list ⟨3⟩ elems)).eval act := by
  intro elems keys listed test found watched relisted
  have htest : ∀ m ∈ test.postorder, m.kind ≠ .setMembership := by decide
  have hplanned : ((Pipeline.ofBuiltins [.computeAhead]).apply test).outcome.1 = .ok found := rfl
  have hfound : Obtained found :=
    eval_setMembership_of_obtained.2 _ test found (obtained_of_kind_ne htest) obtained_of_builtin
      (fun m hm => keepsList_of_kind_ne (htest m hm)) hplanned
  have hkept : ∀ m ∈ found.postorder,
      KeepsList (Pipeline.ofBuiltins [.observe .tracker]).transform m := by
    refine forall_mem_postorder.2 ⟨keepsList_ofBuiltins _ rfl, fun c hc => ?_⟩
    rcases List.mem_pair.1 hc with rfl | rfl
    · exact fun m hm => List.mem_singleton.1 hm ▸ trivial
    · exact fun m hm => List.mem_singleton.1 hm ▸ trivial
  have hobserved :
      ((Pipeline.ofBuiltins [.observe .tracker]).apply found).outcome.1 = .ok watched := rfl
  have hwatched : Obtained watched :=
    eval_setMembership_of_obtained.2 _ found watched hfound obtained_of_builtin hkept hobserved
  let relist (c : Node) : ExceptT Unit (StateM Unit) Node :=
    pure (if c.id = ⟨3⟩ then list ⟨3⟩ elems else c)
  have hrelisted : Obtained relisted := by
    refine .rebuilt (f := relist) (hwatched.parts _ List.mem_cons_self) (fun c hc c' hcc' => ?_)
      (fun rhs' hrhs' act => ?_) ⟨(), rfl⟩
    · rw [← eq_of_returns_pure hcc']
      rcases List.mem_pair.1 hc with rfl | rfl
      · exact obtained_of_kind_ne (by decide)
      · exact obtained_of_kind_ne (by decide)
    · rw [← eq_of_returns_pure hrhs']
      rfl
  exact ⟨obtained_of_kind_ne htest, hplanned, hfound, hobserved, hwatched, hrelisted,
    eval_setMembership_of_obtained.1 relisted hrelisted _ _ _ _ _ (by simp [relisted, postorder])⟩

/-- A look-up that is given another list keeps the set of the old one. -/
theorem eval_setMembership_ne_of_otherList :
    let test := binary ⟨1⟩ .inList (ident ⟨2⟩ "x") (const ⟨3⟩ (.list [.int 1]))
    let keys : KeySet .int := .ofKeys (.int 1) [] (by simp)
    let found := setMembership ⟨1⟩ .int keys (ident ⟨2⟩ "x") (const ⟨3⟩ (.list [.int 1]))
    let relist (c : Node) : ExceptT Unit (StateM Unit) Node :=
      pure (if c.id = ⟨3⟩ then const ⟨3⟩ (.list [.int 2]) else c)
    let rebuilt := setMembership ⟨1⟩ .int keys (ident ⟨2⟩ "x") (const ⟨3⟩ (.list [.int 2]))
    let act : Activation := .bound ⟨[("x", .int 1)]⟩
    ((Pipeline.ofBuiltins [.computeAhead]).apply test).outcome.1 = .ok found ∧
      Returns (found.mapChildren relist) rebuilt ∧ rebuilt.eval act = .bool true ∧
      (binary ⟨1⟩ .inList (ident ⟨2⟩ "x") (const ⟨3⟩ (.list [.int 2]))).eval act = .bool false := by
  intro test keys found relist rebuilt act
  have hmem : keys.contains (.int 1) = true :=
    (KeySet.contains_ofKeys _ _ _ _).trans (by decide)
  have hlookup : (Value.int 1).isElemOf keys = .bool true := by
    simp [Value.isElemOf, Value.type, Value.toKey?, hmem]
  exact ⟨rfl, ⟨(), rfl⟩, hlookup, rfl⟩

end Node

end TreeEval
