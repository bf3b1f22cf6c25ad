import TreeEval.Plan.Log
import TreeEval.Proofs.Course

/-!
# The history of rewrites

The record that planning leaves is the history of what it does to the nodes of a tree, in the order
in which it comes to them. `EvalOptions.changes` says of every node of the tree what is recorded of
it. It can be told from the tree: that a node is made exhaustive is said of what it was before, and
that something is computed ahead depends only on the constants that the parts of the node become,
whatever else is done to them. So the record has nothing to say about what becomes of a node later:
what is dropped together with an operand of a test has been recorded before.

`takes_visit` is the step of the pass, and `does_plan` the record of a whole run.
-/

namespace TreeEval

open Plan Builtin

/-- Whether the event is logged under this title. -/
def PlanEvent.isTitled (title : String) (event : PlanEvent) : Bool :=
  event.logLine?.any fun line => line.title = title

/-- Nothing that is computed ahead is logged under the titles of other events. -/
theorem PlanEvent.isTitled_of_isFolding {event : PlanEvent} (h : event.isFolding = true)
    {title : String}
    (ht : title ∈ ["disabled short circuit", "decoration failed", "program planned"]) :
    event.isTitled title = false := by
  simp only [List.mem_cons, List.not_mem_nil, or_false] at ht
  cases event with
  | listFolded id size => rcases ht with rfl | rfl | rfl <;> rfl
  | mapFolded id size => rcases ht with rfl | rfl | rfl <;> rfl
  | emptyMembership id => rcases ht with rfl | rfl | rfl <;> rfl
  | membershipHashed id elemType size => rcases ht with rfl | rfl | rfl <;> rfl
  | _ => cases h

/-! ## What is recorded of a node -/

namespace Builtin

theorem events_makeExhaustive (n : Node) : makeExhaustive.events n = n.exhaustiveEvents :=
  congrArg Prod.snd (does_makeExhaustive n).outcome

theorem Folding.isFolding_of_mem {y : Except PlanError Node} {log : List PlanEvent}
    (h : Folding y log) {event : PlanEvent} (hevent : event ∈ log) : event.isFolding = true := by
  cases h with
  | silent => cases hevent
  | recorded n hfolding => rwa [List.mem_singleton.1 hevent]

/-- Of what is refused nothing is recorded. -/
theorem Folding.eq_nil {e : PlanError} {log : List PlanEvent} (h : Folding (.error e) log) :
    log = [] := by
  cases h
  rfl

theorem folding_computeAhead (n : Node) :
    Folding (computeAhead.rewrite n) (computeAhead.events n) := by
  obtain ⟨y, log, hfolding, hdoes⟩ := exists_does_computeAhead n
  rw [rewrite, events, decorator, hdoes.outcome]
  exact hfolding

theorem events_computeAhead_madeExhaustive (n : Node) :
    computeAhead.events n.madeExhaustive = computeAhead.events n := by
  cases n with
  | logical id mode connective lhs rhs => cases mode <;> rfl
  | conditional id mode cond truthy falsy => cases mode <;> rfl
  | fold id mode accuVar iterVar range init cond step result => cases mode <;> rfl
  | _ => rfl

/-- What is computed ahead of a node is told from the constants among its parts. -/
theorem events_computeAhead_alike {n n' : Node} (h : Node.Alike Node.SameConstant n n') :
    computeAhead.events n' = computeAhead.events n := by
  cases h with
  | @binary lhs lhs' rhs rhs' id op hl hr =>
    cases op with
    | inList =>
      show (hashMembership id lhs' rhs').outcome.2 = (hashMembership id lhs rhs).outcome.2
      unfold hashMembership
      rw [hr]
      split
      · rfl
      · rfl
      · rfl
      · rfl
      · split <;> rfl
      · rfl
    | _ => rfl
  | @list elems elems' id h =>
    show (constList id elems').outcome.2 = (constList id elems).outcome.2
    unfold constList
    rw [Node.constants?_eq h]
    split <;> rfl
  | @map keys keys' vals vals' id hk hv =>
    show (constMap id keys' vals').outcome.2 = (constMap id keys vals).outcome.2
    unfold constMap
    rw [Node.constants?_eq hk, Node.constants?_eq hv]
    split <;> rfl
  | _ => rfl

theorem onSuccess_nil {α : Type} (y : Except PlanError α) : onSuccess (fun _ => []) y = [] := by
  cases y <;> rfl

/-- Observers record nothing while a program is planned. -/
theorem eventsAll_observers {bs : List Builtin} (h : ∀ b ∈ bs, b.isObserver = true) (n : Node) :
    eventsAll bs n = [] := by
  induction bs generalizing n with
  | nil => rfl
  | cons b bs ih =>
    have hrest := fun b' hb' => h b' (List.mem_cons_of_mem _ hb')
    cases b with
    | observe o => exact ih hrest _
    | _ => cases h _ List.mem_cons_self

theorem eventsAll_computeAhead {bs : List Builtin} (h : ∀ b ∈ bs, b.isObserver = true) (n : Node) :
    eventsAll (computeAhead :: bs) n = computeAhead.events n := by
  rw [eventsAll, funext (eventsAll_observers h), onSuccess_nil, List.append_nil]

/-- Making a node exhaustive does not keep it from being computed ahead. -/
theorem eventsAll_builtins (options : EvalOptions) (hasState : Bool) (n : Node) :
    eventsAll (options.builtins hasState) n =
      (if options.exhaustive then n.exhaustiveEvents else []) ++
        if options.optimize then computeAhead.events n else [] := by
  -- after the rewrites come observers only, and behind a computation ahead they do not matter
  have hobservers : ∀ b ∈ (if options.trackState && hasState then [observe .tracker] else []),
      b.isObserver = true := by
    intro b hb
    obtain ⟨-, hb⟩ := List.mem_ite_nil_right.1 hb
    rw [List.mem_singleton.1 hb]
    rfl
  have hahead : ∀ m, eventsAll ((if options.optimize then [computeAhead] else []) ++
      if options.trackState && hasState then [observe .tracker] else []) m =
        if options.optimize then computeAhead.events m else [] := by
    intro m
    by_cases ho : options.optimize = true
    · rw [if_pos ho, if_pos ho]
      exact eventsAll_computeAhead hobservers m
    · rw [if_neg ho, if_neg ho]
      exact eventsAll_observers hobservers m
  rw [EvalOptions.builtins, List.append_assoc]
  by_cases he : options.exhaustive = true
  · rw [if_pos he, if_pos he, List.singleton_append, eventsAll, events_makeExhaustive,
      rewrite_makeExhaustive, onSuccess, hahead, events_computeAhead_madeExhaustive]
  · rw [if_neg he, if_neg he]
    exact hahead n

end Builtin

namespace Node

variable {R : Node → Node → Prop} {n n' : Node}

theorem checkArity_alike (h : Alike R n n') :
    (checkArity n').outcome.1 = (checkArity n).outcome.1 := by
  cases h with
  | map id hk hv =>
    rw [checkArity, checkArity, hk.length_eq, hv.length_eq]
  | _ => rfl

theorem exhaustiveEvents_alike (h : Alike R n n') : n'.exhaustiveEvents = n.exhaustiveEvents := by
  cases h <;> rfl

theorem exhaustiveEvents_of_not_balanced (h : ¬ n.Balanced) : n.exhaustiveEvents = [] := by
  cases n with
  | map id keys vals => rfl
  | _ => exact absurd trivial h

/-- What is recorded when a node whose parts have been computed ahead is computed ahead. -/
def aheadEvents (n : Node) : List PlanEvent :=
  let p := Pipeline.ofBuiltins [.computeAhead]
  onSuccess (fun n' => (p.visit n').outcome.2) (n.mapChildren p.transform).outcome.1

theorem aheadEvents_eq (n : Node) :
    n.aheadEvents = onSuccess (visitEvents [.computeAhead])
      (n.mapChildren (transformM (visit [.computeAhead]))) := by
  have hchildren := gives_mapChildren (n := n) fun c _ =>
    gives_transformM (gives_visit [.computeAhead]) c
  have hvisit : ∀ n', ((Pipeline.ofBuiltins [.computeAhead]).visit n').outcome.2 =
      visitEvents [.computeAhead] n' := fun n' => congrArg Prod.snd (does_visit _ n').outcome
  rw [aheadEvents]
  simp only [hvisit]
  exact congrArg _ hchildren.outcome

end Node

/-- What planning with options records of a node. -/
def EvalOptions.changes (options : EvalOptions) (n : Node) : List PlanEvent :=
  (if options.exhaustive then n.exhaustiveEvents else []) ++
    if options.optimize then n.aheadEvents else []

/-! ## One step of the pass -/

namespace Builtin

theorem visitEvents_computeAhead (n : Node) :
    visitEvents [.computeAhead] n =
      onSuccess (fun _ => computeAhead.events n) (checkArity n).outcome.1 := by
  rw [visitEvents, eventsAll_computeAhead (List.forall_mem_nil _)]

theorem visitEvents_builtins (options : EvalOptions) (hasState : Bool) (n : Node) :
    visitEvents (options.builtins hasState) n =
      (if options.exhaustive then n.exhaustiveEvents else []) ++
        if options.optimize then visitEvents [.computeAhead] n else [] := by
  rw [visitEvents_computeAhead, visitEvents, eventsAll_builtins]
  cases hcheck : (checkArity n).outcome.1 with
  | ok u => rfl
  | error e =>
    have hbal : ¬ n.Balanced := by
      rw [← checkArity_eq_ok_iff, hcheck]
      exact nofun
    rw [Node.exhaustiveEvents_of_not_balanced hbal, ite_self, List.nil_append]
    exact (ite_self _).symm

theorem visitEvents_computeAhead_alike {n n' : Node} (h : Node.Alike Node.SameConstant n n') :
    visitEvents [.computeAhead] n' = visitEvents [.computeAhead] n := by
  rw [visitEvents_computeAhead, visitEvents_computeAhead, Node.checkArity_alike h,
    events_computeAhead_alike h]

/-- What a visit records of a node whose parts have been through the pass can be told from the node
before. -/
theorem visitEvents_of_alike (options : EvalOptions) (hasState : Bool) {n n' : Node}
    (h : Node.Alike (fun c c' => c.transformM (visit (options.builtins hasState)) = .ok c') n n') :
    visitEvents (options.builtins hasState) n' = options.changes n := by
  rw [visitEvents_builtins, EvalOptions.changes, Node.exhaustiveEvents_alike h]
  by_cases ho : options.optimize = true
  · have hahead : computesAhead (options.builtins hasState) = true := by
      rwa [EvalOptions.computesAhead_builtins]
    -- the parts are the constants that they are when nothing else is done to them
    obtain ⟨n₁, hn₁, hconst⟩ :=
      (h.imp_of_mem fun c _ c' hc => exists_sameConstant hahead hc).exists_between
    rw [if_pos ho, if_pos ho, Node.aheadEvents_eq, Node.mapChildren_eq_ok_iff.2 hn₁, onSuccess,
      visitEvents_computeAhead_alike hconst]
  · rw [if_neg ho, if_neg ho]

/-- One step: a visit records the changes to its node, and fails if the node has a defect. -/
theorem takes_visit (options : EvalOptions) (hasState : Bool) {n n' : Node}
    (h : Node.Alike (fun c c' => Returns (c.transformM (options.pipeline hasState).visit) c') n n') :
    ((options.pipeline hasState).visit n').Takes
      [⟨options.changes n, n.defect? options.optimize⟩] := by
  have hpass : Node.Alike
      (fun c c' => c.transformM (visit (options.builtins hasState)) = .ok c') n n' :=
    h.imp_of_mem fun c _ c' hc => (gives_transformM (gives_visit _) c).eq_of_returns hc
  have hstep := (does_visit (options.builtins hasState) n').takes
  rw [visitEvents_of_alike options hasState hpass, failure?_visit hpass,
    EvalOptions.computesAhead_builtins] at hstep
  exact hstep

end Builtin

/-! ## The whole record -/

/-- What happens to a node when a tree is planned with options. -/
def EvalOptions.step (options : EvalOptions) (n : Node) : Step :=
  ⟨options.changes n, n.defect? options.optimize⟩

namespace Node

variable {n : Node}

/-- If something is recorded, the parts of the node have been computed ahead, and the node is not
malformed. -/
theorem aheadEvents_eq_nil_or (n : Node) :
    n.aheadEvents = [] ∨ ∃ n', n.mapChildren (transformM (visit [.computeAhead])) = .ok n' ∧
      n'.Balanced ∧ n.aheadEvents = computeAhead.events n' := by
  rw [aheadEvents_eq]
  cases hparts : n.mapChildren (transformM (visit [.computeAhead])) with
  | error e => exact .inl rfl
  | ok n' =>
    rw [onSuccess, visitEvents_computeAhead]
    cases hcheck : (checkArity n').outcome.1 with
    | error e => exact .inl rfl
    | ok u => exact .inr ⟨n', rfl, checkArity_eq_ok_iff.1 hcheck, rfl⟩

theorem isFolding_of_mem_aheadEvents {event : PlanEvent} (h : event ∈ n.aheadEvents) :
    event.isFolding = true := by
  rcases aheadEvents_eq_nil_or n with hnil | ⟨n', -, -, heq⟩
  · rw [hnil] at h
    cases h
  · rw [heq] at h
    exact (folding_computeAhead n').isFolding_of_mem h

theorem aheadEvents_of_defect {e : PlanError} (h : n.Defect true e) : n.aheadEvents = [] := by
  rcases aheadEvents_eq_nil_or n with hnil | ⟨n', hparts, hbal, heq⟩
  · exact hnil
  · -- a pass that only computes ahead fails at the node as well, and there it is the computation
    have hahead : computesAhead [.computeAhead] = true := by decide
    have hvisit : visit [.computeAhead] n' = .error e := by
      rw [← failure?_eq_some_iff, failure?_visit (mapChildren_eq_ok_iff.1 hparts), hahead,
        defect?_eq_some_iff]
      exact h
    have hrefused : computeAhead.rewrite n' = .error e := by
      rw [← hvisit, visit, checkArity_eq_ok_iff.2 hbal]
      exact (bind_pure _).symm
    have hfolding := folding_computeAhead n'
    rw [hrefused] at hfolding
    rw [heq, hfolding.eq_nil]

theorem exhaustiveEvents_of_defect {optimize : Bool} {e : PlanError} (h : n.Defect optimize e) :
    n.exhaustiveEvents = [] := by
  cases h with
  | mapArity h => rfl
  | notAList ho hr hc hl hs => rfl

end Node

namespace EvalOptions

variable {options : EvalOptions}

theorem changes_of_defect {n : Node} {e : PlanError} (h : n.Defect options.optimize e) :
    options.changes n = [] := by
  rw [changes, Node.exhaustiveEvents_of_defect h, ite_self, List.nil_append]
  by_cases ho : options.optimize = true
  · rw [if_pos ho]
    rw [ho] at h
    exact Node.aheadEvents_of_defect h
  · rw [if_neg ho]

/-- A change makes a node exhaustive or computes something ahead. -/
theorem mem_changes {n : Node} {event : PlanEvent} (h : event ∈ options.changes n) :
    event ∈ n.exhaustiveEvents ∨ event.isFolding = true := by
  rw [changes, List.mem_append, List.mem_ite_nil_right, List.mem_ite_nil_right] at h
  rcases h with ⟨-, h⟩ | ⟨-, h⟩
  · exact .inl h
  · exact .inr (Node.isFolding_of_mem_aheadEvents h)

/-- No change is an end of planning. -/
theorem filter_end_changes {title : String} (ht : title ∈ ["decoration failed", "program planned"])
    (ns : List Node) : (ns.flatMap options.changes).filter (PlanEvent.isTitled title) = [] := by
  rw [List.filter_eq_nil_iff]
  intro event hevent
  obtain ⟨n, -, hn⟩ := List.mem_flatMap.1 hevent
  rw [Bool.not_eq_true]
  rcases mem_changes hn with h | h
  · rw [Node.exhaustiveEvents, List.mem_ite_nil_right, List.mem_singleton] at h
    rw [h.2]
    simp only [List.mem_cons, List.not_mem_nil, or_false] at ht
    rcases ht with rfl | rfl <;> rfl
  · exact PlanEvent.isTitled_of_isFolding h (List.mem_cons_of_mem _ ht)

theorem filter_disabled_changes (h : options.exhaustive = true) (ns : List Node) :
    (ns.flatMap options.changes).filter (PlanEvent.isTitled "disabled short circuit") =
      (ns.filter fun n => n.kind.isShortCircuit).map fun n => .madeExhaustive n.id n.kind := by
  have hahead : ∀ n : Node, (if options.optimize then n.aheadEvents else []).filter
      (PlanEvent.isTitled "disabled short circuit") = [] := by
    intro n
    rw [List.filter_eq_nil_iff]
    intro event hevent
    have hfolding := Node.isFolding_of_mem_aheadEvents (List.mem_ite_nil_right.1 hevent).2
    rw [Bool.not_eq_true]
    exact PlanEvent.isTitled_of_isFolding hfolding List.mem_cons_self
  induction ns with
  | nil => rfl
  | cons n ns ih =>
    rw [List.flatMap_cons, List.filter_append, ih, changes, if_pos h, List.filter_append, hahead,
      List.append_nil, Node.exhaustiveEvents, List.filter_cons]
    split
    · rfl
    · rfl

end EvalOptions

namespace Program

/-- What is recorded before a pass begins. -/
def opening (options : EvalOptions) (t : Node) : List PlanEvent :=
  [.planning options t.size, .applying (options.pipeline options.trackState).size]

theorem does_plan (options : EvalOptions) (t : Node) :
    let pass := t.transformM (visit (options.builtins options.trackState))
    (plan options t).Does (pass >>= fun root => .ok ⟨root, options.trackState⟩)
      (opening options t ++
        (recorded (t.postorder.map options.step) ++ ((failure? pass).map .failed).toList ++
          onSuccess (fun root => [.planned root.size]) pass)) := by
  intro pass
  have hsteps : ((options.pipeline options.trackState).transform t).Takes
      (t.postorder.map options.step) := takes_transformM (takes_visit options options.trackState) t
  have hpass : ((options.pipeline options.trackState).transform t).Does pass
      (recorded (t.postorder.map options.step)) :=
    hsteps.does (gives_transformM (gives_visit _) t)
  have happly := (hpass.tryCatch .failed).note_bind
    (.applying (options.pipeline options.trackState).size)
  exact (happly.bind fun root => (does_pure _).note_bind (.planned root.size)).note_bind _

/-- The steps fail with the error that the pass returns. -/
theorem findSome?_failure_step (options : EvalOptions) (hasState : Bool) (t : Node) :
    (t.postorder.map options.step).findSome? Step.failure =
      failure? (t.transformM (visit (options.builtins hasState))) := by
  rw [failure?_transformM_visit, EvalOptions.computesAhead_builtins, List.findSome?_map]
  rfl

theorem log_of_ok {options : EvalOptions} {t : Node} {p : Program}
    (h : (plan options t).outcome.1 = .ok p) :
    (plan options t).outcome.2 =
      opening options t ++ t.postorder.flatMap options.changes ++ [.planned p.root.size] := by
  obtain ⟨hpass, -⟩ := plan_eq_ok_iff.1 h
  have hnone := findSome?_failure_step options options.trackState t
  rw [hpass] at hnone
  rw [(does_plan options t).outcome, hpass, recorded_of_findSome?_eq_none hnone, List.flatMap_map]
  show opening options t ++ (t.postorder.flatMap options.changes ++ [] ++ [.planned p.root.size]) = _
  rw [List.append_nil, List.append_assoc]

theorem log_of_error {options : EvalOptions} {t : Node} {e : PlanError}
    (h : (plan options t).outcome.1 = .error e) :
    ∃ before m after, t.postorder = before ++ m :: after ∧
      (∀ x ∈ before, ∀ e', ¬ x.Defect options.optimize e') ∧ m.Defect options.optimize e ∧
      (plan options t).outcome.2 =
        opening options t ++ before.flatMap options.changes ++ [.failed e] := by
  have hpass : t.transformM (visit (options.builtins options.trackState)) = .error e := by
    rw [outcome_plan, ← failure?_eq_some_iff, failure?_bind_eq_left fun _ => rfl] at h
    exact failure?_eq_some_iff.1 h
  have hfirst := findSome?_failure_step options options.trackState t
  rw [hpass, List.findSome?_map] at hfirst
  obtain ⟨before, m, after, ht, hm, hbefore⟩ := List.findSome?_eq_some_iff.1 hfirst
  -- the steps in front of the first one that fails do not fail, and that one records nothing
  have hdefect : m.Defect options.optimize e := Node.defect?_eq_some_iff.1 hm
  have hnone : (before.map options.step).findSome? Step.failure = none := by
    rw [List.findSome?_map, List.findSome?_eq_none_iff]
    exact hbefore
  refine ⟨before, m, after, ht, fun x hx => Node.defect?_eq_none_iff.1 (hbefore x hx), hdefect, ?_⟩
  rw [(does_plan options t).outcome, hpass, ht, List.map_append, List.map_cons,
    recorded_of_first hnone hm, List.flatMap_map]
  show opening options t ++
    (before.flatMap options.changes ++ options.changes m ++ [.failed e] ++ []) = _
  rw [EvalOptions.changes_of_defect hdefect, List.append_nil, List.append_nil, List.append_assoc]

/-- Under the title of an end, only the last event is logged. -/
theorem filter_end_log (options : EvalOptions) (t : Node) (ns : List Node) (last : PlanEvent)
    {title : String} (ht : title ∈ ["decoration failed", "program planned"]) :
    (opening options t ++ ns.flatMap options.changes ++ [last]).filter (PlanEvent.isTitled title) =
      [last].filter (PlanEvent.isTitled title) := by
  have hopening : (opening options t).filter (PlanEvent.isTitled title) = [] := by
    simp only [List.mem_cons, List.not_mem_nil, or_false] at ht
    rcases ht with rfl | rfl <;> rfl
  rw [List.filter_append, List.filter_append, hopening, EvalOptions.filter_end_changes ht]
  rfl

theorem filter_disabled_log {options : EvalOptions} (h : options.exhaustive = true) (t : Node)
    (ns : List Node) {last : PlanEvent} (hlast : last.isTitled "disabled short circuit" = false) :
    (opening options t ++ ns.flatMap options.changes ++ [last]).filter
        (PlanEvent.isTitled "disabled short circuit") =
      (ns.filter fun n => n.kind.isShortCircuit).map fun n => .madeExhaustive n.id n.kind := by
  have hopening :
      (opening options t).filter (PlanEvent.isTitled "disabled short circuit") = [] := rfl
  rw [List.filter_append, List.filter_append, hopening, EvalOptions.filter_disabled_changes h,
    List.filter_singleton, hlast]
  exact List.append_nil _

end Program

/-- The record of planning is the history of the rewrites. If planning succeeds, it has the changes
to all nodes of the tree, each at its place in the order of a pass, and then says how large the new
tree is. If planning fails, it has the changes to the nodes in front of the first one that has a
defect, and then the error. Where nodes are made exhaustive, the record names those that the tree
has had, whatever has become of them later. -/
theorem Program.log_plan (options : EvalOptions) (h : options.exhaustive = true) (t : Node) :
    let log := (plan options t).outcome.2
    (∀ p, (plan options t).outcome.1 = .ok p →
      log = opening options t ++ t.postorder.flatMap options.changes ++ [.planned p.root.size] ∧
        log.filter (PlanEvent.isTitled "disabled short circuit") =
          (t.postorder.filter fun n => n.kind.isShortCircuit).map
            (fun n => .madeExhaustive n.id n.kind) ∧
        log.filter (PlanEvent.isTitled "decoration failed") = [] ∧
        log.filter (PlanEvent.isTitled "program planned") = [.planned p.root.size]) ∧
    ∀ e, (plan options t).outcome.1 = .error e →
      ∃ before m after, t.postorder = before ++ m :: after ∧
        (∀ x ∈ before, ∀ e', ¬ x.Defect options.optimize e') ∧ m.Defect options.optimize e ∧
        log = opening options t ++ before.flatMap options.changes ++ [.failed e] ∧
        log.filter (PlanEvent.isTitled "disabled short circuit") =
          (before.filter fun n => n.kind.isShortCircuit).map
            (fun n => .madeExhaustive n.id n.kind) ∧
        log.filter (PlanEvent.isTitled "decoration failed") = [.failed e] ∧
        log.filter (PlanEvent.isTitled "program planned") = [] := by
  intro log
  constructor
  · intro p hp
    have hlog : log = _ := log_of_ok hp
    refine ⟨hlog, ?_, ?_, ?_⟩
    · rw [hlog]
      exact filter_disabled_log h t t.postorder rfl
    · rw [hlog]
      exact filter_end_log options t t.postorder (.planned p.root.size) (by decide)
    · rw [hlog]
      exact filter_end_log options t t.postorder (.planned p.root.size) (by decide)
  · intro e he
    obtain ⟨before, m, after, ht, hbefore, hm, herror⟩ := log_of_error he
    have hlog : log = _ := herror
    refine ⟨before, m, after, ht, hbefore, hm, hlog, ?_, ?_, ?_⟩
    · rw [hlog]
      exact filter_disabled_log h t before rfl
    · rw [hlog]
      exact filter_end_log options t before (.failed e) (by decide)
    · rw [hlog]
      exact filter_end_log options t before (.failed e) (by decide)

/-- A connective is made exhaustive before it is dropped together with the test that it is an
operand of. Where a test is refused, the connective in front of it is in the record and the one
behind it is not. -/
theorem Program.log_plan_droppedConnective :
    let options : EvalOptions := ⟨true, true, false⟩
    let either (id : NodeId) : Node :=
      .logical id .shortCircuit .or (.ident ⟨10⟩ "x") (.ident ⟨11⟩ "y")
    let dropped : Node := .binary ⟨1⟩ .inList (either ⟨2⟩) (.list ⟨3⟩ [])
    let refused : Node := .conditional ⟨1⟩ .shortCircuit (either ⟨2⟩)
      (.binary ⟨3⟩ .inList (.ident ⟨4⟩ "x") (.const ⟨5⟩ (.int 1))) (either ⟨6⟩)
    options.exhaustive = true ∧
      (plan options dropped).outcome.1 = .ok ⟨.const ⟨1⟩ (.bool false), false⟩ ∧
      (plan options dropped).outcome.2 =
        [.planning options 5, .applying 2, .madeExhaustive ⟨2⟩ (.logical .shortCircuit .or),
          .listFolded ⟨3⟩ 0, .emptyMembership ⟨1⟩, .planned 1] ∧
      (plan options refused).outcome.1 = .error (.notAList ⟨3⟩ .int) ∧
      (plan options refused).outcome.2 =
        [.planning options 10, .applying 2, .madeExhaustive ⟨2⟩ (.logical .shortCircuit .or),
          .failed (.notAList ⟨3⟩ .int)] ∧
      ∃ before m after, refused.postorder = before ++ m :: after ∧
        m.Defect true (.notAList ⟨3⟩ .int) ∧
        (plan options refused).outcome.2 =
          opening options refused ++ before.flatMap options.changes ++
            [.failed (.notAList ⟨3⟩ .int)] := by
  intro options either dropped refused
  obtain ⟨hdropped, -⟩ := (log_plan options rfl dropped).1 _ rfl
  obtain ⟨before, m, after, ht, -, hm, hlog, -⟩ := (log_plan options rfl refused).2 _ rfl
  exact ⟨rfl, rfl, hdropped, rfl, rfl, before, m, after, ht, hm, hlog⟩

end TreeEval
