import Mathlib.Data.List.Nodup
import TreeEval.Proofs.ExhaustiveLog
import TreeEval.Proofs.SourceIds
import TreeEval.Proofs.TrackedState

/-!
# What an optimized tree tells

A tree that is computed ahead shows nothing that it would not show otherwise: what has become a
constant shows itself only, a look-up does without its list, and all else is visited as before.
`showsMore_of_computedAhead` says so of one node, and `showsMore_computedAhead` of trees. Tests for
membership in the empty list are left out, as they are when values are compared.

So a tracker is told less of an optimized program. It is told nothing else, since it is told of what
shows. If every node has an identifier of its own and is visited in one activation only, there is one
value that it can be told.
-/

namespace TreeEval

namespace Node

variable {n t' : Node}

/-! ## Computing ahead -/

/-- A constant shows itself, and nothing below it. -/
theorem showsMore_const {id : NodeId} {value : Value} (hid : n.id = id)
    (hobservers : n.ownObservers = []) (heval : (const id value).eval = n.eval) :
    ShowsMore (fun _ => True) (const id value) n :=
  .of_below hid hobservers fun act _ _ => ⟨congrFun heval act, List.nil_sublist _⟩

/-- What is computed ahead of a node shows less than the node. -/
theorem showsMore_of_computedAhead (h : ComputedAhead n t') (heval : t'.eval = n.eval) :
    ShowsMore (fun _ => True) t' n := by
  cases h with
  | unchanged => exact .refl n
  | list id h => exact showsMore_const rfl rfl heval
  | map id hk hv => exact showsMore_const rfl rfl heval
  | emptyMembership id h => exact showsMore_const rfl rfl heval
  | @membership lhs rhs ys elemType elems id h hs =>
    refine .of_below rfl rfl fun act _ _ => ⟨congrFun heval act, ?_⟩
    -- a look-up does without the list, which the test has visited
    show List.Sublist (List.map _ (visitsBelow _ act)) (List.map _ (visitsBelow _ act))
    rw [visitsBelow, visitsBelow, visits, visits, List.dropLast_concat, List.dropLast_concat,
      List.map_append]
    exact List.sublist_append_left _ _

/-- A tree that is computed ahead shows less, and in the same order. -/
theorem showsMore_computedAhead {t : Node} (hne : ∀ m ∈ t.preorder, m.isEmptyMembership = false)
    (h : t.transformM (Builtin.visit [.computeAhead]) = .ok t') :
    ShowsMore (fun _ => True) t' t := by
  suffices hboth : KeptAhead t t' ∧ ShowsMore (fun _ => True) t' t from hboth.2
  revert hne
  refine transformM_induction (R := fun n t' => (∀ m ∈ n.preorder, m.isEmptyMembership = false) →
    KeptAhead n t' ∧ ShowsMore (fun _ => True) t' n) ?_ h
  intro n n' t' hn hv hne
  obtain ⟨hbal, hrewrite⟩ := Builtin.visit_singleton_eq_ok_iff.1 hv
  obtain ⟨hroot, hbelow⟩ := forall_mem_preorder.1 hne
  have hchildren : Alike (fun c c' => KeptAhead c c' ∧ ShowsMore (fun _ => True) c' c) n n' :=
    hn.imp_of_mem fun c hc c' hcc' =>
      hcc' (hbelow c ((mem_children_iff (hn.balanced_iff.2 hbal)).2 hc))
  have hcomputed := computedAhead_of_rewrite hrewrite
  have hkept : KeptAhead n t' :=
    keptAhead_step (hchildren.imp_of_mem fun _ _ _ hc => hc.1) hcomputed hroot
  have hshown : ShowsMore (fun _ => True) n' n :=
    .of_alike (hchildren.symm.imp_of_mem fun _ _ _ hc => hc.2)
  have heval : n.eval = n'.eval := funext fun act => hshown.eval_eq fun _ _ => trivial
  exact ⟨hkept, (showsMore_of_computedAhead hcomputed (hkept.eval_eq.trans heval)).trans hshown⟩

/-! ## Trees that differ in their modes -/

theorem isEmptyList_madeExhaustiveThroughout (n : Node) :
    n.madeExhaustiveThroughout.isEmptyList = n.isEmptyList := by
  induction n with
  | watch observer inner ih => exact ih
  | list id elems ih => cases elems <;> rfl
  | logical id mode connective lhs rhs => cases mode <;> rfl
  | conditional id mode cond truthy falsy => cases mode <;> rfl
  | fold id mode accuVar iterVar range init cond step result => cases mode <;> rfl
  | _ => rfl

theorem isEmptyMembership_madeExhaustiveThroughout (n : Node) :
    n.madeExhaustiveThroughout.isEmptyMembership = n.isEmptyMembership := by
  cases n with
  | binary id op lhs rhs =>
    cases op with
    | inList => exact isEmptyList_madeExhaustiveThroughout rhs
    | _ => rfl
  | logical id mode connective lhs rhs => cases mode <;> rfl
  | conditional id mode cond truthy falsy => cases mode <;> rfl
  | fold id mode accuVar iterVar range init cond step result => cases mode <;> rfl
  | _ => rfl

/-! ## Trees with an identifier for each node -/

/-- What is inside the watches around a node. -/
def unwatched : Node → Node
  | watch _ inner => inner.unwatched
  | n => n

/-- Watches keep everything but the kind of a node. -/
theorem unwatched_spec (n : Node) :
    n.unwatched.id = n.id ∧ n.unwatched.eval = n.eval ∧ n.unwatched ∈ n.preorder ∧
      n.unwatched.kind ≠ .watch := by
  have hself : ∀ m : Node, m ∈ m.preorder := fun m => by
    rw [preorder_eq_cons]
    exact List.mem_cons_self
  induction n with
  | watch observer inner ih =>
    obtain ⟨hid, heval, hmem, hkind⟩ := ih
    exact ⟨hid, heval, List.mem_cons_of_mem _ hmem, hkind⟩
  | _ => exact ⟨rfl, rfl, hself _, nofun⟩

/-- If no two nodes stand for the same, a node is known by its identifier, but for the watches around
it. -/
theorem eval_eq_of_id_eq {t m m' : Node} (h : t.sourceIds.Nodup) (hm : m ∈ t.preorder)
    (hm' : m' ∈ t.preorder) (hid : m.id = m'.id) : m.eval = m'.eval := by
  have hmem : ∀ {m}, m ∈ t.preorder →
      m.unwatched ∈ t.preorder.filter fun m => m.kind ≠ .watch := by
    intro m hm
    obtain ⟨-, -, hself, hkind⟩ := unwatched_spec m
    exact List.mem_filter.2 ⟨preorder_subset hm hself, decide_eq_true hkind⟩
  have hids : m.unwatched.id = m'.unwatched.id := by
    rw [(unwatched_spec m).1, (unwatched_spec m').1, hid]
  have hsame : m.unwatched = m'.unwatched :=
    List.inj_on_of_nodup_map h (hmem hm) (hmem hm') hids
  rw [← (unwatched_spec m).2.1, ← (unwatched_spec m').2.1, hsame]

/-- Without loops, what is recorded of a tree that is tracked is recorded of visits, all of them in
the activation of the evaluation. So nodes with an identifier of their own have one value. -/
theorem value_unique_of_mem_records {t : Node} (hids : t.sourceIds.Nodup)
    (hloops : ∀ m ∈ t.preorder, m.kind.isLoop = false) {act : Activation} {id : NodeId}
    {value value' : Value}
    (h : (id, value) ∈ records ((t.watchedThroughout [.tracker]).trace act).log)
    (h' : (id, value') ∈ records ((t.watchedThroughout [.tracker]).trace act).log) :
    value = value' := by
  have hvisit : ∀ {value}, (id, value) ∈ records ((t.watchedThroughout [.tracker]).trace act).log →
      ∃ m ∈ t.preorder, m.id = id ∧ m.eval act = value := by
    intro value h
    rw [log_watchedThroughout, records_flatMap] at h
    obtain ⟨s, hs, hrecord⟩ := List.mem_flatMap.1 h
    obtain ⟨v, hv, rfl⟩ := List.mem_map.1 hs
    have hsame : (id, value) = (v.node.id, v.value) := v.sighting.records_reports.2 _ hrecord
    obtain ⟨hid, hvalue⟩ := Prod.mk.inj hsame
    rw [Visit.value, act_eq_of_mem_visits hloops hv] at hvalue
    exact ⟨v.node, node_mem_preorder hv, hid.symm, hvalue.symm⟩
  obtain ⟨m, hm, hid, rfl⟩ := hvisit h
  obtain ⟨m', hm', hid', rfl⟩ := hvisit h'
  rw [eval_eq_of_id_eq hids hm hm' (hid.trans hid'.symm)]

theorem sourceIds_madeExhaustiveThroughout {t : Node} (h : ∀ m ∈ t.preorder, m.Balanced) :
    t.madeExhaustiveThroughout.sourceIds = t.sourceIds := by
  have hwatch : ∀ m : Node, decide (m.madeExhaustiveThroughout.kind ≠ .watch) =
      decide (m.kind ≠ .watch) := fun m => by
    rw [kind_madeExhaustiveThroughout]
    cases m.kind <;> rfl
  have hid : ∀ m : Node, m.madeExhaustiveThroughout.id = m.id := fun m =>
    (showsMore_madeExhaustiveThroughout m).id_eq
  rw [sourceIds, preorder_madeExhaustiveThroughout h, List.filter_map, List.map_map, sourceIds,
    Function.comp_def, Function.comp_def]
  simp only [hwatch, hid]

theorem transformM_self (t : Node) : t.transformM (m := Id) (fun n => n) = t := by
  induction t using parts_induction with
  | step n ih =>
    rw [transformM_eq_mapChildren_bind (m := Id)]
    exact (Alike.of_parts ih).mapChildren_eq

/-- What is planned without computing ahead is the tree as it is, or made exhaustive. -/
theorem eq_of_transformM_rewrites {options : EvalOptions} (h : options.optimize = false)
    {t t₁ : Node} (ht : t.transformM (Builtin.visit options.rewrites) = .ok t₁) :
    t.madeExhaustiveThroughout = t₁ ∨ t = t₁ := by
  obtain ⟨optimize, exhaustive, track⟩ := options
  cases h
  cases exhaustive with
  | true => exact .inl (transformM_makeExhaustive_eq_ok_iff.1 ht).2
  | false =>
    have hself := (Builtin.transformM_visit_eq_ok_iff (g := fun n => n) fun _ => rfl).1 ht
    rw [transformM_self] at hself
    exact .inr hself.2

/-- All that matters here stays as it is when a tree is made exhaustive. -/
theorem spec_of_transformM_rewrites {options : EvalOptions} (h : options.optimize = false)
    {t t₁ : Node} (ht : t.transformM (Builtin.visit options.rewrites) = .ok t₁) :
    t₁.sourceIds = t.sourceIds ∧
      ((∀ m ∈ t.preorder, m.kind.isLoop = false) → ∀ m ∈ t₁.preorder, m.kind.isLoop = false) ∧
      ((∀ m ∈ t.preorder, m.isEmptyMembership = false) →
        ∀ m ∈ t₁.preorder, m.isEmptyMembership = false) := by
  have hbal : ∀ m ∈ t.preorder, m.Balanced := Builtin.balanced_of_transformM ht
  rcases eq_of_transformM_rewrites h ht with rfl | rfl
  · have hloop : ∀ m : Node, m.madeExhaustiveThroughout.kind.isLoop = m.kind.isLoop := fun m => by
      rw [kind_madeExhaustiveThroughout]
      cases m.kind <;> rfl
    refine ⟨sourceIds_madeExhaustiveThroughout hbal, ?_, ?_⟩
    · rw [preorder_madeExhaustiveThroughout hbal, List.forall_mem_map]
      exact fun hloops m hm => (hloop m).trans (hloops m hm)
    · rw [preorder_madeExhaustiveThroughout hbal, List.forall_mem_map]
      exact fun hne m hm => (isEmptyMembership_madeExhaustiveThroughout m).trans (hne m hm)
  · exact ⟨rfl, fun hloops => hloops, fun hne => hne⟩

end Node

/-! ## Programs -/

theorem EvalOptions.rewrites_optimize {options : EvalOptions} (h : options.optimize = false) :
    ({ options with optimize := true } : EvalOptions).rewrites =
      options.rewrites ++ [.computeAhead] := by
  obtain ⟨optimize, _ | _, track⟩ := options <;> cases h <;> rfl

/-- A program that is optimized and tracked is planned without being optimized as well, and records
nothing that it would not record then, in the same order. If the nodes of the tree have identifiers
of their own and there are no loops, then all that it knows after an evaluation is known then. -/
theorem Program.records_optimized {options : EvalOptions} (htrack : options.trackState = true)
    (hoptimize : options.optimize = false) {t : Node}
    (hne : ∀ m ∈ t.preorder, m.isEmptyMembership = false) {q : Program}
    (hq : (plan { options with optimize := true } t).outcome.1 = .ok q) :
    ∃ p, (plan options t).outcome.1 = .ok p ∧
      (∀ (sq sp : Session) (act : Activation), sq.program = q → sp.program = p →
        (records (sq.eval act).1.log).Sublist (records (sp.eval act).1.log)) ∧
      (t.sourceIds.Nodup → (∀ m ∈ t.preorder, m.kind.isLoop = false) → ∀ act id value,
        ((Session.ofProgram q).eval act).2.state.value? id = some value →
          ((Session.ofProgram p).eval act).2.state.value? id = some value) := by
  have htrack' : ({ options with optimize := true } : EvalOptions).trackState = true := htrack
  obtain ⟨t₂, ht₂, -, rfl⟩ := (plan_tracking_eq_ok_iff htrack').1 hq
  rw [EvalOptions.rewrites_optimize hoptimize,
    Node.transformM_visit_append options.isObserver_of_mem_rewrites] at ht₂
  obtain ⟨t₁, ht₁, ht₂⟩ := ht₂
  obtain ⟨hids₁, hloops₁, hne₁⟩ := Node.spec_of_transformM_rewrites hoptimize ht₁
  have hshown := Node.showsMore_computedAhead (hne₁ hne) ht₂
  have hsublist : ∀ act, (records ((t₂.watchedThroughout [.tracker]).trace act).log).Sublist
      (records ((t₁.watchedThroughout [.tracker]).trace act).log) := by
    intro act
    rw [Node.log_watchedThroughout, Node.log_watchedThroughout]
    exact ((hshown.sublist fun _ _ => trivial).flatMap _).filterMap _
  refine ⟨⟨t₁.watchedThroughout [.tracker], true⟩, (plan_tracking_eq_ok_iff htrack).2
    ⟨t₁, ht₁, Builtin.balanced_of_transformM ht₂, rfl⟩, fun sq sp act hsq hsp => ?_, ?_⟩
  · rw [(sq.eval_eq act).2, (sp.eval_eq act).2, hsq, hsp]
    exact hsublist act
  · intro hids hloops act id value hvalue
    rw [Session.value?_eval_ofProgram] at hvalue ⊢
    have hmem := (hsublist act).subset (mem_of_latest?_eq_some hvalue)
    -- it is recorded with this value, and with no other
    obtain ⟨value', hvalue'⟩ :=
      Option.isSome_iff_exists.1 (latest?_isSome_iff.2 ⟨_, hmem, rfl⟩)
    rw [hvalue', Node.value_unique_of_mem_records (hids₁ ▸ hids) (hloops₁ hloops)
      (mem_of_latest?_eq_some hvalue') hmem]

/-- A test for membership in a list of constants, next to a constant. -/
def Node.membershipOr : Node :=
  .logical ⟨1⟩ .shortCircuit .or
    (.binary ⟨2⟩ .inList (.ident ⟨3⟩ "x") (.list ⟨4⟩ [.const ⟨5⟩ (.int 1), .const ⟨6⟩ (.int 2)]))
    (.const ⟨7⟩ (.bool false))

/-- The look-up does without the list, so nothing is recorded of the list and its elements. What is
recorded of the test is the same, here that the value on its left side cannot be compared. -/
theorem Program.records_optimized_membershipOr :
    let act : Activation := .bound ⟨[("x", .null)]⟩
    ∃ q p, (Program.plan ⟨true, true, true⟩ Node.membershipOr).outcome.1 = .ok q ∧
      (Program.plan ⟨false, true, true⟩ Node.membershipOr).outcome.1 = .ok p ∧
        records ((Session.ofProgram q).eval act).1.log =
            [(⟨3⟩, .null), (⟨2⟩, .fail .noSuchOverload), (⟨7⟩, .bool false),
              (⟨1⟩, .fail .noSuchOverload)] ∧
          (records ((Session.ofProgram q).eval act).1.log).Sublist
              (records ((Session.ofProgram p).eval act).1.log) ∧
            ((Session.ofProgram p).eval act).2.state.value? ⟨2⟩ =
              some (.fail .noSuchOverload) := by
  intro act
  have hq : (Program.plan ⟨true, true, true⟩ Node.membershipOr).outcome.1 = .ok _ := rfl
  have hoptions : (⟨false, true, true⟩ : EvalOptions).trackState = true := rfl
  obtain ⟨p, hp, hlogs, hstate⟩ := Program.records_optimized hoptions rfl (by decide) hq
  refine ⟨_, p, hq, hp, rfl, hlogs _ _ act rfl rfl, ?_⟩
  exact hstate (by decide) (by decide) act _ _ (Session.value?_eval_ofProgram _ act ⟨2⟩)

/-- An empty list is still an empty list inside a watch. In this tree no test has the empty list
itself on its right side, and yet one becomes false although its left side has no value. -/
theorem Program.records_optimized_not_of_watchedList :
    let t : Node :=
      .binary ⟨1⟩ .inList (.ident ⟨2⟩ "x") (.watch (.values "watch") (.list ⟨3⟩ []))
    (∀ m ∈ t.preorder, m.kind ≠ .setMembership ∧ ∀ id lhs rhs, m = .binary id .inList lhs rhs →
        ∀ i, rhs ≠ .const i (.list []) ∧ rhs ≠ .list i []) ∧
      ∃ q p, (Program.plan ⟨true, false, true⟩ t).outcome.1 = .ok q ∧
        (Program.plan ⟨false, false, true⟩ t).outcome.1 = .ok p ∧
          ¬ (records ((Session.ofProgram q).eval .empty).1.log).Sublist
            (records ((Session.ofProgram p).eval .empty).1.log) := by
  refine ⟨?_, _, _, rfl, rfl, fun h => ?_⟩
  · simp [Node.preorder, Node.preorders, Node.kind]
  · have hmem : (⟨1⟩, .bool false) ∈ ([(⟨2⟩, .fail (.noSuchAttribute "x")), (⟨3⟩, .list []),
        (⟨3⟩, .list []), (⟨1⟩, .fail (.noSuchAttribute "x"))] : List (NodeId × Value)) :=
      h.subset List.mem_cons_self
    simp [Value.fail] at hmem

end TreeEval
