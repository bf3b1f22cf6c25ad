import TreeEval.Program
import TreeEval.Proofs.NormalForm

/-!
# Two passes in one

A pipeline of rewrites followed by a pipeline of any built-in decorators does to a tree what the two
of them do as one pipeline. In the one pass a rewrite meets children that the later decorators have
been at, so it has to see through their watches: `rewriteAll_alike` says that it does, because all
it asks of a child is which constant it is. In the two passes the second one comes upon trees in
which nothing is left to be computed ahead; on such a tree it cannot fail, so it does not matter
that the one pass goes through operands that the two passes drop in between.
-/

namespace TreeEval

open Builtin

namespace Node

/-! ## Rewriting nodes that differ in their children -/

/-- Two outcomes that fail for the same reason, or return related nodes. -/
def SameOutcome (R : Node → Node → Prop) : Except PlanError Node → Except PlanError Node → Prop
  | .ok n, .ok n' => R n n'
  | .error e, .error e' => e = e'
  | _, _ => False

variable {R : Node → Node → Prop} {n n' : Node}

theorem SameOutcome.ok_left {y : Except PlanError Node} (h : SameOutcome R (.ok n) y) :
    ∃ n', y = .ok n' ∧ R n n' := by
  cases y with
  | ok n' => exact ⟨n', rfl, h⟩
  | error e => exact h.elim

theorem SameOutcome.ok_right {x : Except PlanError Node} (h : SameOutcome R x (.ok n')) :
    ∃ n, x = .ok n ∧ R n n' := by
  cases x with
  | ok n => exact ⟨n, rfl, h⟩
  | error e => exact h.elim

theorem SameOutcome.bind {x y : Except PlanError Node} {f g : Node → Except PlanError Node}
    (h : SameOutcome R x y) (hfg : ∀ n n', R n n' → SameOutcome R (f n) (g n')) :
    SameOutcome R (x >>= f) (y >>= g) := by
  cases x with
  | error e =>
    cases y with
    | error e' => exact h
    | ok n' => exact h.elim
  | ok n =>
    cases y with
    | error e' => exact h.elim
    | ok n' => exact hfg n n' h

/-- A child is the same constant as another one, or neither is constant. -/
def SameConstant (c c' : Node) : Prop := c'.constant? = c.constant?

theorem sameConstant_of_alike (h : Alike SameConstant n n') : SameConstant n n' := by
  cases h with
  | watch observer h => exact h
  | _ => rfl

theorem constants?_eq {cs cs' : List Node} (h : List.Forall₂ SameConstant cs cs') :
    constants? cs' = constants? cs := by
  induction h with
  | nil => rfl
  | cons hc _ ih => rw [constants?, constants?, hc, ih]

theorem hashMembership_alike {id : NodeId} {lhs lhs' rhs rhs' : Node} (hl : R lhs lhs')
    (hr : R rhs rhs') (hconst : SameConstant rhs rhs') :
    SameOutcome (Alike R) (Plan.hashMembership id lhs rhs).outcome.1
      (Plan.hashMembership id lhs' rhs').outcome.1 := by
  have hunchanged : Alike R (binary id .inList lhs rhs) (binary id .inList lhs' rhs') :=
    .binary id .inList hl hr
  unfold Plan.hashMembership
  rw [hconst]
  split
  · exact hunchanged
  · exact hunchanged
  · exact hunchanged
  · exact Alike.const ..
  · split
    · exact hunchanged
    · exact Alike.setMembership _ _ _ hl hr
  · exact rfl

/-- Computing ahead asks of the children only which constants they are. -/
theorem rewrite_computeAhead_alike (hR : ∀ c c', R c c' → SameConstant c c') (h : Alike R n n') :
    SameOutcome (Alike R) (computeAhead.rewrite n) (computeAhead.rewrite n') := by
  have hforall : ∀ {cs cs' : List Node}, List.Forall₂ R cs cs' → constants? cs' = constants? cs :=
    fun hcs => constants?_eq (hcs.imp hR)
  cases h with
  | binary id op hl hr =>
    cases op with
    | inList => exact hashMembership_alike hl hr (hR _ _ hr)
    | _ => exact Alike.binary id _ hl hr
  | @list elems elems' id h =>
    show SameOutcome _ (Plan.constList id elems).outcome.1 (Plan.constList id elems').outcome.1
    unfold Plan.constList
    rw [hforall h]
    split
    · exact Alike.list id h
    · exact Alike.const ..
  | @map keys keys' vals vals' id hk hv =>
    show SameOutcome _ (Plan.constMap id keys vals).outcome.1
      (Plan.constMap id keys' vals').outcome.1
    unfold Plan.constMap
    rw [hforall hk, hforall hv]
    split
    · exact Alike.const ..
    · exact Alike.map id hk hv
  | const id value => exact Alike.const id value
  | ident id name => exact Alike.ident id name
  | logical id mode connective hl hr => exact Alike.logical id mode connective hl hr
  | conditional id mode hc ht hf => exact Alike.conditional id mode hc ht hf
  | fold id mode accuVar iterVar hr hi hc hs hres =>
    exact Alike.fold id mode accuVar iterVar hr hi hc hs hres
  | watch observer h => exact Alike.watch observer h
  | setMembership id elemType elems hl hr => exact Alike.setMembership id elemType elems hl hr

theorem madeExhaustive_alike (h : Alike R n n') : Alike R n.madeExhaustive n'.madeExhaustive := by
  cases h with
  | logical id mode connective hl hr => cases mode <;> exact .logical _ _ _ hl hr
  | conditional id mode hc ht hf => cases mode <;> exact .conditional _ _ hc ht hf
  | fold id mode accuVar iterVar hr hi hc hs hres =>
    cases mode <;> exact .fold _ _ _ _ hr hi hc hs hres
  | const id value => exact .const id value
  | ident id name => exact .ident id name
  | binary id op hl hr => exact .binary id op hl hr
  | list id h => exact .list id h
  | map id hk hv => exact .map id hk hv
  | watch observer h => exact .watch observer h
  | setMembership id elemType elems hl hr => exact .setMembership id elemType elems hl hr

/-- Rewrites do the same to nodes of one shape. The constants among the children matter only if
something is computed ahead. -/
theorem rewriteAll_alike {ds : List Builtin} (hds : ∀ d ∈ ds, d.isObserver = false)
    (hR : computeAhead ∈ ds → ∀ c c', R c c' → SameConstant c c') (h : Alike R n n') :
    SameOutcome (Alike R) (rewriteAll ds n) (rewriteAll ds n') := by
  induction ds generalizing n n' with
  | nil => exact h
  | cons d ds ih =>
    have hrest : ∀ m m', Alike R m m' →
        SameOutcome (Alike R) (rewriteAll ds m) (rewriteAll ds m') :=
      fun m m' hm => ih (fun d' hd' => hds d' (List.mem_cons_of_mem _ hd'))
        (fun hmem => hR (List.mem_cons_of_mem _ hmem)) hm
    rw [rewriteAll_cons, rewriteAll_cons]
    refine SameOutcome.bind ?_ hrest
    cases d with
    | observe o => exact absurd (hds _ List.mem_cons_self) nofun
    | makeExhaustive =>
      rw [rewrite_makeExhaustive, rewrite_makeExhaustive]
      exact madeExhaustive_alike h
    | computeAhead => exact rewrite_computeAhead_alike (hR List.mem_cons_self) h

/-! ## What a rewrite leaves of a node -/

theorem parts_madeExhaustive (n : Node) : n.madeExhaustive.parts = n.parts := by
  cases n with
  | logical id mode connective lhs rhs => cases mode <;> rfl
  | conditional id mode cond truthy falsy => cases mode <;> rfl
  | fold id mode accuVar iterVar range init cond step result => cases mode <;> rfl
  | _ => rfl

theorem balanced_madeExhaustive {n : Node} (h : n.Balanced) : n.madeExhaustive.Balanced := by
  cases n with
  | logical id mode connective lhs rhs => cases mode <;> exact h
  | conditional id mode cond truthy falsy => cases mode <;> exact h
  | fold id mode accuVar iterVar range init cond step result => cases mode <;> exact h
  | _ => exact h

theorem constant?_madeExhaustive (n : Node) : SameConstant n n.madeExhaustive := by
  cases n with
  | logical id mode connective lhs rhs => cases mode <;> rfl
  | conditional id mode cond truthy falsy => cases mode <;> rfl
  | fold id mode accuVar iterVar range init cond step result => cases mode <;> rfl
  | _ => rfl

/-- What is computed ahead has parts of the node, or none. -/
theorem ComputedAhead.parts_subset (h : ComputedAhead n n') : n'.parts ⊆ n.parts := by
  cases h with
  | unchanged => exact List.Subset.refl _
  | membership => exact List.Subset.refl _
  | _ => exact List.nil_subset _

theorem ComputedAhead.balanced (h : ComputedAhead n n') (hn : n.Balanced) : n'.Balanced := by
  cases h with
  | unchanged => exact hn
  | _ => trivial

/-- No rewrite makes a node malformed. -/
theorem balanced_of_rewriteAll {bs : List Builtin} (h : rewriteAll bs n = .ok n')
    (hn : n.Balanced) : n'.Balanced := by
  induction bs generalizing n with
  | nil =>
    cases h
    exact hn
  | cons b bs ih =>
    rw [rewriteAll_cons] at h
    obtain ⟨m, hm, hrest⟩ := bind_eq_ok_iff.1 h
    refine ih hrest ?_
    cases b with
    | makeExhaustive =>
      rw [rewrite_makeExhaustive] at hm
      cases hm
      exact balanced_madeExhaustive hn
    | computeAhead => exact (computedAhead_of_rewrite hm).balanced hn
    | observe o =>
      cases hm
      trivial

/-! ## Trees in which nothing is left to be computed ahead -/

/-- No map is malformed, and computing ahead leaves every node as it is. -/
def Settled (t : Node) : Prop :=
  ∀ m ∈ t.preorder, m.Balanced ∧ computeAhead.rewrite m = .ok m

theorem settled_iff :
    Settled n ↔ (n.Balanced ∧ computeAhead.rewrite n = .ok n) ∧ ∀ c ∈ n.parts, Settled c := by
  rw [Settled, forall_mem_preorder]
  refine and_congr_right fun hn => ?_
  simp only [mem_children_iff hn.1]
  rfl

/-- A pass that computes ahead leaves nothing to be computed ahead. -/
theorem settled_of_transformM {ds : List Builtin} (hds : ∀ d ∈ ds, d.isObserver = false)
    (hahead : computeAhead ∈ ds) {t t' : Node} (h : t.transformM (visit ds) = .ok t') :
    Settled t' := by
  refine transformM_induction (R := fun _ t' => Settled t') (fun {n n' t'} hn hv => ?_) h
  obtain ⟨hbal, hrewrite⟩ := visit_eq_ok_iff.1 hv
  have hparts : ∀ c ∈ n'.parts, Settled c := by
    intro c hc
    obtain ⟨c', hc'⟩ := hn.symm.exists_of_mem_parts hc
    exact hc'
  -- of all rewrites only one computation ahead counts, on the node or its exhaustive form
  obtain ⟨m, hm, hmbal, hmparts⟩ : ∃ m, computeAhead.rewrite m = .ok t' ∧ m.Balanced ∧
      m.parts = n'.parts := by
    have honce := (rewriteAll_eq_rewriteOnce hds n').symm.trans hrewrite
    rw [rewriteOnce, if_pos (decide_eq_true hahead)] at honce
    split at honce
    · exact ⟨_, honce, balanced_madeExhaustive hbal, parts_madeExhaustive n'⟩
    · exact ⟨_, honce, hbal, rfl⟩
  have hcomputed := computedAhead_of_rewrite hm
  refine settled_iff.2 ⟨⟨hcomputed.balanced hmbal, rewrite_computeAhead_eq_ok hm⟩, fun c hc => ?_⟩
  exact hparts c (hmparts ▸ hcomputed.parts_subset hc)

/-- A node of which nothing is computed ahead gets through any decorators, and stays the constant
that it is, if it is one. -/
theorem exists_rewriteAll (es : List Builtin) (h : computeAhead.rewrite n = .ok n) :
    ∃ n', rewriteAll es n = .ok n' ∧ SameConstant n n' := by
  induction es generalizing n with
  | nil => exact ⟨n, rfl, rfl⟩
  | cons e es ih =>
    cases e with
    | makeExhaustive =>
      have hmade : computeAhead.rewrite n.madeExhaustive = .ok n.madeExhaustive := by
        rw [rewrite_computeAhead_madeExhaustive, h]
        rfl
      obtain ⟨n', hn', hconst⟩ := ih hmade
      exact ⟨n', by rw [rewriteAll_cons, rewrite_makeExhaustive]; exact hn',
        hconst.trans (constant?_madeExhaustive n)⟩
    | computeAhead =>
      obtain ⟨n', hn', hconst⟩ := ih h
      exact ⟨n', by rw [rewriteAll_cons, h]; exact hn', hconst⟩
    | observe o => exact ih rfl

/-- A second pass cannot fail on a tree in which nothing is left to be computed ahead. -/
theorem Settled.exists_transformM {t : Node} (h : Settled t) (es : List Builtin) :
    ∃ t', t.transformM (visit es) = .ok t' ∧ SameConstant t t' := by
  induction t using parts_induction with
  | step n ih =>
    obtain ⟨⟨hbal, hn⟩, hparts⟩ := settled_iff.1 h
    obtain ⟨n', hn'⟩ := Alike.exists_of_parts fun c hc => ih c hc (hparts c hc)
    -- the children are the same constants, so nothing of the new node is computed ahead either
    have hagain : computeAhead.rewrite n' = .ok n' := by
      have hsame := rewrite_computeAhead_alike (fun c c' hc => hc.2) hn'
      rw [hn] at hsame
      obtain ⟨u, hu, hnu⟩ := hsame.ok_left
      have hchildren := mapChildren_eq_ok_iff.2 (hn'.imp_of_mem fun _ _ _ hc => hc.1)
      have hchildren' := mapChildren_eq_ok_iff.2 (hnu.imp_of_mem fun _ _ _ hc => hc.1)
      rw [hchildren] at hchildren'
      cases hchildren'
      exact hu
    obtain ⟨t', ht', hconst⟩ := exists_rewriteAll es hagain
    refine ⟨t', transformM_eq_ok_iff.2 ⟨n', hn'.imp_of_mem fun _ _ _ hc => hc.1,
      visit_eq_ok_iff.2 ⟨hn'.balanced_iff.1 hbal, ht'⟩⟩, ?_⟩
    exact hconst.trans (sameConstant_of_alike (hn'.imp_of_mem fun _ _ _ hc => hc.2))

/-! ## Fusion -/

/-- Without computing ahead, the parts of a node stay its parts. -/
theorem parts_of_rewriteAll {ds : List Builtin} (hds : ∀ d ∈ ds, d.isObserver = false)
    (hahead : computeAhead ∉ ds) (h : rewriteAll ds n = .ok n') : n'.parts = n.parts := by
  rw [rewriteAll_eq_rewriteOnce hds, rewriteOnce, if_neg (by simpa using hahead)] at h
  cases h
  split
  · exact parts_madeExhaustive n
  · rfl

section

variable {ds : List Builtin} (hds : ∀ d ∈ ds, d.isObserver = false) (es : List Builtin)

/-- What the second pass makes of a child. If the first pass computes ahead, the child is settled
when the second pass comes to it, and so remains the constant that it is. -/
def SecondPass (ds es : List Builtin) (c c' : Node) : Prop :=
  c.transformM (visit es) = .ok c' ∧ (computeAhead ∈ ds → SameConstant c c')

theorem secondPass_of_settled {c c' : Node} (hc : computeAhead ∈ ds → Settled c)
    (h : c.transformM (visit es) = .ok c') : SecondPass ds es c c' := by
  refine ⟨h, fun hahead => ?_⟩
  obtain ⟨c'', hc'', hconst⟩ := (hc hahead).exists_transformM es
  rw [h] at hc''
  cases hc''
  exact hconst

include hds in
/-- One step: on a node whose parts have been through the first pass, it does not matter whether the
second pass goes on to the parts before the node is rewritten or afterwards. -/
theorem exists_visit_append_iff {n₁ t₂ : Node}
    (hparts : computeAhead ∈ ds → ∀ c ∈ n₁.parts, Settled c) :
    (∃ n', Alike (fun c c' => c.transformM (visit es) = .ok c') n₁ n' ∧
        visit (ds ++ es) n' = .ok t₂) ↔
      ∃ t₁, visit ds n₁ = .ok t₁ ∧ t₁.transformM (visit es) = .ok t₂ := by
  have hsecond : ∀ {n'}, Alike (fun c c' => c.transformM (visit es) = .ok c') n₁ n' →
      Alike (SecondPass ds es) n₁ n' := fun h =>
    h.imp_of_mem fun c hc _ hcc' => secondPass_of_settled es (fun hahead => hparts hahead c hc) hcc'
  have hsame : ∀ {n'}, Alike (SecondPass ds es) n₁ n' →
      SameOutcome (Alike (SecondPass ds es)) (rewriteAll ds n₁) (rewriteAll ds n') :=
    rewriteAll_alike hds fun hahead _ _ hcc' => hcc'.2 hahead
  constructor
  · rintro ⟨n', hn', hv⟩
    obtain ⟨hbal', hrewrite⟩ := visit_eq_ok_iff.1 hv
    have hbal := hn'.balanced_iff.2 hbal'
    obtain ⟨u, hu, hes⟩ := bind_eq_ok_iff.1 ((rewriteAll_append ds es n').symm.trans hrewrite)
    have houtcome := hsame (hsecond hn')
    rw [hu] at houtcome
    obtain ⟨t₁, ht₁, hu'⟩ := houtcome.ok_right
    refine ⟨t₁, visit_eq_ok_iff.2 ⟨hbal, ht₁⟩, transformM_eq_ok_iff.2 ⟨u, ?_, ?_⟩⟩
    · exact hu'.imp_of_mem fun _ _ _ hcc' => hcc'.1
    · exact visit_eq_ok_iff.2 ⟨balanced_of_rewriteAll hu hbal', hes⟩
  · rintro ⟨t₁, hv, ht₂⟩
    obtain ⟨hbal, (ht₁ : rewriteAll ds n₁ = .ok t₁)⟩ := visit_eq_ok_iff.1 hv
    obtain ⟨u, hu, hes⟩ := transformM_eq_ok_iff.1 ht₂
    -- the second pass gets through the parts: they are settled, or are those of the new node
    have hexists : ∀ c ∈ n₁.parts, ∃ c', c.transformM (visit es) = .ok c' := by
      intro c hc
      by_cases hahead : computeAhead ∈ ds
      · obtain ⟨c', hc', _⟩ := (hparts hahead c hc).exists_transformM es
        exact ⟨c', hc'⟩
      · rw [← parts_of_rewriteAll hds hahead ht₁] at hc
        exact hu.exists_of_mem_parts hc
    obtain ⟨n', hn'⟩ := Alike.exists_of_parts hexists
    have houtcome := hsame (hsecond hn')
    rw [ht₁] at houtcome
    obtain ⟨u', hu', ht₁'⟩ := houtcome.ok_left
    have huu' : u' = u := by
      have hchildren := mapChildren_eq_ok_iff.2 (ht₁'.imp_of_mem fun _ _ _ hcc' => hcc'.1)
      rw [mapChildren_eq_ok_iff.2 hu] at hchildren
      cases hchildren
      rfl
    subst huu'
    refine ⟨n', hn', visit_eq_ok_iff.2 ⟨hn'.balanced_iff.1 hbal, ?_⟩⟩
    exact (rewriteAll_append ds es n').trans
      (bind_eq_ok_iff.2 ⟨u', hu', (visit_eq_ok_iff.1 hes).2⟩)

include hds in
/-- A pass with rewrites and more is a pass with the rewrites and then one with the others. -/
theorem transformM_visit_append {t t₂ : Node} :
    t.transformM (visit (ds ++ es)) = .ok t₂ ↔
      ∃ t₁, t.transformM (visit ds) = .ok t₁ ∧ t₁.transformM (visit es) = .ok t₂ := by
  induction t using parts_induction generalizing t₂ with
  | step n ih =>
    have hsettled : ∀ {n₁}, Alike (fun c c' => c.transformM (visit ds) = .ok c') n n₁ →
        computeAhead ∈ ds → ∀ c ∈ n₁.parts, Settled c := by
      intro n₁ hn₁ hahead c hc
      obtain ⟨c₀, hc₀⟩ := hn₁.symm.exists_of_mem_parts hc
      exact settled_of_transformM hds hahead hc₀
    constructor
    · intro h
      obtain ⟨n', hn', hv⟩ := transformM_eq_ok_iff.1 h
      -- every child has been through both passes, so the results of the first can be put together
      have hboth := hn'.imp_of_mem fun c hc c' hcc' => (ih c hc).1 hcc'
      obtain ⟨n₁, hn₁, hsecond⟩ := hboth.exists_between
      obtain ⟨t₁, ht₁, ht₂⟩ :=
        (exists_visit_append_iff hds es (hsettled hn₁)).1 ⟨n', hsecond, hv⟩
      exact ⟨t₁, transformM_eq_ok_iff.2 ⟨n₁, hn₁, ht₁⟩, ht₂⟩
    · rintro ⟨t₁, ht₁, ht₂⟩
      obtain ⟨n₁, hn₁, hv⟩ := transformM_eq_ok_iff.1 ht₁
      obtain ⟨n', hn', hv'⟩ :=
        (exists_visit_append_iff hds es (hsettled hn₁)).2 ⟨t₁, hv, ht₂⟩
      refine transformM_eq_ok_iff.2 ⟨n', ?_, hv'⟩
      have hfirst := hn₁.imp_of_mem fun c hc c₁ hc₁ => And.intro hc hc₁
      exact hfirst.trans hn' fun c c₁ c' hc hc' => (ih c hc.1).2 ⟨c₁, hc.2, hc'⟩

end

end Node

/-! ## Planning with options -/

open Node

/-- Planning with options is the pass that they select. -/
theorem Program.outcome_plan (options : EvalOptions) (t : Node) :
    (plan options t).outcome.1 =
      t.transformM (visit (options.builtins options.trackState)) >>= fun root =>
        .ok ⟨root, options.trackState⟩ :=
  Plan.Gives.outcome <| Plan.Gives.note_bind _ <|
    (gives_apply _ t).bind fun _ => (Plan.gives_pure _).note_bind _

/-- Planning with options succeeds if the pass that they select does, and returns its tree. -/
theorem Program.plan_eq_ok_iff {options : EvalOptions} {t : Node} {p : Program} :
    (plan options t).outcome.1 = .ok p ↔
      t.transformM (visit (options.builtins options.trackState)) = .ok p.root ∧
        p.hasState = options.trackState := by
  rw [outcome_plan, bind_eq_ok_iff]
  constructor
  · rintro ⟨root, hroot, hp⟩
    cases hp
    exact ⟨hroot, rfl⟩
  · rintro ⟨hroot, hstate⟩
    exact ⟨p.root, hroot, by rw [← hstate]⟩

/-- The options ask for the same rewrites, whether they ask for the tracker or not. -/
theorem EvalOptions.builtins_tracking (options : EvalOptions) :
    ({ options with trackState := true } : EvalOptions).builtins true =
      ({ options with trackState := false } : EvalOptions).builtins false ++
        [.observe .tracker] := by
  simp [builtins]

/-- A pipeline of rewrites and other built-in decorators succeeds if first the rewrites do and then
the others on the result, and it returns the same tree. So rewriting a tree again in the same way
changes nothing, and planning with the tracker is tracking what is planned without. -/
theorem apply_append {ds : List Builtin} (hds : ∀ d ∈ ds, d.isObserver = false) (es : List Builtin)
    (t : Node) :
    (∀ t₂, ((Pipeline.ofBuiltins (ds ++ es)).apply t).outcome.1 = .ok t₂ ↔
        ∃ t₁, ((Pipeline.ofBuiltins ds).apply t).outcome.1 = .ok t₁ ∧
          ((Pipeline.ofBuiltins es).apply t₁).outcome.1 = .ok t₂) ∧
      (∀ t₁, ((Pipeline.ofBuiltins ds).apply t).outcome.1 = .ok t₁ →
        ((Pipeline.ofBuiltins ds).apply t₁).outcome.1 = .ok t₁) ∧
      ∀ (options : EvalOptions) (p : Program),
        (Program.plan { options with trackState := true } t).outcome.1 = .ok p ↔
          ∃ q, (Program.plan { options with trackState := false } t).outcome.1 = .ok q ∧
            (Program.plan { EvalOptions.none with trackState := true } q.root).outcome.1 =
              .ok p := by
  simp only [apply_ofBuiltins]
  refine ⟨fun t₂ => transformM_visit_append hds es, fun t₁ ht₁ => ?_, fun options p => ?_⟩
  · have hagain : t.transformM (visit (ds ++ ds)) = .ok t₁ := by rwa [visit_append_self hds]
    obtain ⟨t₁', ht₁', h⟩ := (transformM_visit_append hds ds).1 hagain
    rw [ht₁] at ht₁'
    cases ht₁'
    exact h
  · have hrewrites : ∀ d ∈ ({ options with trackState := false } : EvalOptions).builtins false,
        d.isObserver = false := by
      intro d hd
      simp only [EvalOptions.builtins, Bool.false_and, Bool.false_eq_true, if_false,
        List.append_nil, List.mem_append, List.mem_ite_nil_right, List.mem_singleton] at hd
      rcases hd with ⟨-, rfl⟩ | ⟨-, rfl⟩ <;> rfl
    simp only [Program.plan_eq_ok_iff, EvalOptions.builtins_tracking,
      transformM_visit_append hrewrites]
    constructor
    · rintro ⟨⟨t₁, ht₁, htracked⟩, hstate⟩
      exact ⟨⟨t₁, false⟩, ⟨ht₁, rfl⟩, htracked, hstate⟩
    · rintro ⟨q, ⟨hq, -⟩, htracked, hstate⟩
      exact ⟨⟨q.root, hq, htracked⟩, hstate⟩

/-- A test for membership becomes a look-up, and all that is left is tracked, also the list that the
look-up does without. The tracker is in the way of neither the list nor the test. -/
theorem apply_append_trackedMembership :
    let elems : List Node := [.const ⟨4⟩ (.int 1), .const ⟨5⟩ (.int 2)]
    let t : Node := .binary ⟨1⟩ .inList (.ident ⟨2⟩ "x") (.list ⟨3⟩ elems)
    let t' : Node := .watch .tracker (.setMembership ⟨1⟩ .int
      (.ofKeys (.int 1) [.int 2] (by decide)) (.watch .tracker (.ident ⟨2⟩ "x"))
      (.watch .tracker (.const ⟨3⟩ (.list [.int 1, .int 2]))))
    (∀ d ∈ [computeAhead, makeExhaustive], d.isObserver = false) ∧
      ((Pipeline.ofBuiltins ([computeAhead, makeExhaustive] ++ [.observe .tracker])).apply
        t).outcome.1 = .ok t' :=
  ⟨by decide, ((apply_append (by decide) _ _).1 _).2 ⟨_, rfl, rfl⟩⟩

end TreeEval
