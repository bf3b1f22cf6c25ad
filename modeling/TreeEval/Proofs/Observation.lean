import TreeEval.Proofs.Planning
import TreeEval.Proofs.Watching

/-!
# What observers are told

A decorator that observes puts a watch around every node. `observed_of_apply` says what comes of it
on any host: the value stays, and every visit of the evaluation is reported to every observer, in
the order of the visits. Here the host is the one that keeps the reports. So all observers are told
the same, whichever way the evaluation takes, and the visits are those of the tree without
observers.

A tree may have watches of its own, and these go on reporting. An observer whom such a watch reports
to is told of some visits once more than the others.
-/

namespace TreeEval

/-- The reports of one visit if all nodes are observed by `os`: first that of the node itself, if it
is a watch, and then one to each observer. -/
def Visit.reports (os : List Observer) (v : Visit) : List Observation :=
  (v.node.ownObservers ++ os).map fun o => ⟨o, v.node.id, v.value⟩

/-! ## The host that keeps reports -/

/-- Reports without the numbers of slots. -/
def Traced.keeping : MonadRel Traced (Logged Report) where
  Rel x y := x = y.relabel Report.toObservation
  rel_pure _ := rfl
  rel_bind := by
    rintro α β x y f g rfl hfg
    rw [funext hfg]
    exact ((Logged.relabeling Report.toObservation).app_bind y g).symm

/-- Nothing is seen of the slots in use. -/
theorem Traced.rel_above {α : Type} {x : Traced α} {y : Logged Report α}
    (h : Traced.keeping.Rel x y) (slots : Nat) : Traced.keeping.Rel x (y.above slots) := by
  refine h.trans (Logged.ext rfl ?_)
  show y.log.map Report.toObservation = (y.log.map (Report.above slots)).map Report.toObservation
  rw [List.map_map]
  rfl

/-- What can be said of the host that keeps reports. -/
def Traced.description : Host.Description Traced where
  toMonadRel := Traced.keeping
  rel_report _ _ _ := rfl
  rel_fold := by
    intro mode accuVar iterVar items init cond step result init' cond' step' result' hi hc hs hres
    rw [Host.Slotless.fold_eq]
    have hloop := Mode.rel_loop Traced.keeping mode (fun accu item => rel_above (hc accu item) 2)
      (fun accu item => rel_above (hs accu item) 2) items
    exact Traced.keeping.rel_bind (rel_above hi 1) fun start =>
      Traced.keeping.rel_bind (hloop start) fun last => rel_above (hres last) 2

/-- A visit makes the reports that it makes inside any loops, whose slots are not seen here. -/
theorem PlacedVisit.map_toObservation_reports (os : List Observer) (v : PlacedVisit) :
    (v.reports os).map Report.toObservation = v.toVisit.reports os := by
  rw [PlacedVisit.reports, List.map_map]
  rfl

namespace Node

/-- What is kept of the reports of an observed node. -/
theorem Observed.trace_eq {os : List Observer} {n n' : Node} (h : Observed os n n')
    (act : Activation) :
    n'.trace act = ⟨n.eval act, (n.visits act).flatMap (Visit.reports os)⟩ := by
  refine (h.rel Traced.description act).trans (Logged.ext rfl ?_)
  show ((n.placedVisits act).flatMap (PlacedVisit.reports os)).map Report.toObservation = _
  rw [List.map_flatMap, ← map_toVisit_placedVisits, List.flatMap_map]
  exact List.flatMap_congr fun v _ => v.map_toObservation_reports os

/-- Without observers, a tree reports what its own watches see. -/
theorem trace_eq (t : Node) (act : Activation) :
    t.trace act = ⟨t.eval act, (t.visits act).flatMap (Visit.reports [])⟩ :=
  (observed_self t).trace_eq act

end Node

namespace Builtin

open Node

theorem foldlM_observe (os : List Observer) (n : Node) :
    (os.map observe).foldlM (fun n b => b.rewrite n) n = .ok (n.watchedBy os) := by
  induction os generalizing n with
  | nil => rfl
  | cons o os ih =>
    rw [List.map_cons, List.foldlM_cons, rewrite_observe]
    exact ih (watch o n)

end Builtin

namespace Node

/-- A decorator that observes accepts the trees without malformed maps, and puts watches around all
their nodes. -/
theorem apply_observe_eq_ok_iff {os : List Observer} {t t' : Node} :
    ((Pipeline.ofBuiltins (os.map .observe)).apply t).outcome.1 = .ok t' ↔
      (∀ m ∈ t.preorder, m.Balanced) ∧ t.watchedThroughout os = t' := by
  rw [Builtin.apply_ofBuiltins]
  exact Builtin.transformM_visit_eq_ok_iff (Builtin.foldlM_observe os)

theorem observed_of_apply {os : List Observer} {t t' : Node}
    (h : ((Pipeline.ofBuiltins (os.map .observe)).apply t).outcome.1 = .ok t') :
    Observed os t t' := by
  obtain ⟨-, rfl⟩ := apply_observe_eq_ok_iff.1 h
  exact observed_watchedThroughout os t

/-- Observers are put around every tree without malformed maps, and around no other. -/
theorem exists_apply_observe_iff (os : List Observer) (t : Node) :
    (∃ t', ((Pipeline.ofBuiltins (os.map .observe)).apply t).outcome.1 = .ok t') ↔
      ∀ m ∈ t.preorder, m.Balanced := by
  simp only [apply_observe_eq_ok_iff, exists_and_left, exists_eq', and_true]

/-! ## Logs -/

/-- The reports to some observers. -/
def reportsTo (os : List Observer) (log : List Observation) : List Observation :=
  log.filter fun o => o.observer ∈ os

/-- If the watches of a tree report to others, observers are told of every visit exactly once. -/
theorem reportsTo_flatMap_reports {os : List Observer} {t : Node}
    (hos : ∀ m ∈ t.preorder, ∀ o ∈ m.ownObservers, o ∉ os) (act : Activation) :
    reportsTo os ((t.visits act).flatMap (Visit.reports os)) =
      (t.visits act).flatMap fun v => os.map fun o => ⟨o, v.node.id, v.value⟩ := by
  have hvisit : ∀ v ∈ t.visits act,
      reportsTo os (Visit.reports os v) = os.map fun o => ⟨o, v.node.id, v.value⟩ := by
    intro v hv
    -- the visits are to nodes of the tree, whose watches report to others
    have hown := hos v.node (node_mem_preorder hv)
    have hnone : v.node.ownObservers.filter (· ∈ os) = [] := by
      simpa [List.filter_eq_nil_iff] using hown
    have hall : os.filter (· ∈ os) = os := by simp
    rw [reportsTo, Visit.reports, List.filter_map, List.filter_append]
    show ((v.node.ownObservers.filter (· ∈ os)) ++ os.filter (· ∈ os)).map _ = _
    rw [hnone, hall, List.nil_append]
  rw [reportsTo, List.filter_flatMap]
  exact List.flatMap_congr hvisit

/-- The last thing that an observer is told is the value of the tree. -/
theorem getLast?_reportsTo {os : List Observer} {a : Observer} (ha : a ∈ os) (t : Node)
    (act : Activation) :
    (reportsTo [a] ((t.visits act).flatMap (Visit.reports os))).getLast? =
      some ⟨a, t.id, t.eval act⟩ := by
  rw [visits_eq_concat, List.flatMap_append, List.flatMap_singleton, reportsTo, List.filter_append]
  -- all reports of the root to this observer are the same, and there is one
  have hsame : ∀ e ∈ (Visit.reports os ⟨t, act⟩).filter fun o => o.observer ∈ [a],
      e = ⟨a, t.id, t.eval act⟩ := by
    intro e he
    obtain ⟨hmem, hto⟩ := List.mem_filter.1 he
    obtain ⟨o, _, rfl⟩ := List.mem_map.1 hmem
    have ho : o = a := by simpa using hto
    rw [ho]
    rfl
  have hmem : (⟨a, t.id, t.eval act⟩ : Observation) ∈
      (Visit.reports os ⟨t, act⟩).filter fun o => o.observer ∈ [a] := by
    refine List.mem_filter.2 ⟨List.mem_map.2 ⟨a, List.mem_append_right _ ha, rfl⟩, ?_⟩
    simp
  have hne := List.ne_nil_of_mem hmem
  rw [List.getLast?_append_of_ne_nil _ hne, List.getLast?_eq_some_getLast hne,
    hsame _ (List.getLast_mem hne)]

/-- Observing a tree does not change its value. An observer is told of every visit, of the visits
below a node right before that of the node, and of the root in the end. A second observer is told of
each visit right after the first. If the tree has no watches for these observers, they are told of
nothing else, so the log of both is the log of the first with every entry doubled. -/
theorem log_of_observers {a b : Observer} {t ta : Node}
    (h : ((Pipeline.ofBuiltins [.observe a]).apply t).outcome.1 = .ok ta) :
    ∃ tab, ((Pipeline.ofBuiltins [.observe a, .observe b]).apply t).outcome.1 = .ok tab ∧
      ∀ act,
        (ta.eval act = t.eval act ∧ tab.eval act = t.eval act) ∧
        ((reportsTo [a] (ta.trace act).log).getLast? = some ⟨a, t.id, t.eval act⟩ ∧
          (reportsTo [a] (tab.trace act).log).getLast? = some ⟨a, t.id, t.eval act⟩) ∧
        ((ta.trace act).log = (t.visits act).flatMap (Visit.reports [a]) ∧
          (tab.trace act).log = (t.visits act).flatMap (Visit.reports [a, b])) ∧
        (∀ v ∈ t.visits act, v.node.visitsBelow v.act ++ [v] <:+: t.visits act) ∧
        ((∀ m ∈ t.preorder, ∀ o ∈ m.ownObservers, o ∉ [a, b]) →
          reportsTo [a] (ta.trace act).log =
              (t.visits act).map (fun v => ⟨a, v.node.id, v.value⟩) ∧
            reportsTo [a, b] (tab.trace act).log =
              (reportsTo [a] (ta.trace act).log).flatMap fun o =>
                [⟨a, o.id, o.value⟩, ⟨b, o.id, o.value⟩]) := by
  -- what the one observer is put around, the two are put around as well
  have hbalanced := (exists_apply_observe_iff [a] t).1 ⟨ta, h⟩
  obtain ⟨tab, hab⟩ := (exists_apply_observe_iff [a, b] t).2 hbalanced
  have hone : Observed [a] t ta := observed_of_apply h
  have htwo : Observed [a, b] t tab := observed_of_apply hab
  have heval : ∀ {n : Node} {act : Activation} {log : List Observation},
      n.trace act = ⟨t.eval act, log⟩ → n.eval act = t.eval act := by
    intro n act log hn
    rw [trace_eq] at hn
    exact congrArg Logged.value hn
  refine ⟨tab, hab, fun act => ?_⟩
  refine ⟨⟨heval (hone.trace_eq act), heval (htwo.trace_eq act)⟩, ?_, ?_, ?_, ?_⟩
  · rw [hone.trace_eq, htwo.trace_eq]
    exact ⟨getLast?_reportsTo (by simp) t act, getLast?_reportsTo (by simp) t act⟩
  · rw [hone.trace_eq, htwo.trace_eq]
    exact ⟨rfl, rfl⟩
  · exact fun v hv => isInfix_visits hv
  · intro hfresh
    have hsolo : reportsTo [a] (ta.trace act).log =
        (t.visits act).map fun v => ⟨a, v.node.id, v.value⟩ := by
      have hsingle : ∀ m ∈ t.preorder, ∀ o ∈ m.ownObservers, o ∉ [a] := fun m hm o ho hmem =>
        hfresh m hm o ho (List.mem_cons.2 (.inl (List.mem_singleton.1 hmem)))
      rw [hone.trace_eq, reportsTo_flatMap_reports hsingle, List.map_eq_flatMap]
      rfl
    refine ⟨hsolo, ?_⟩
    rw [hsolo, htwo.trace_eq, reportsTo_flatMap_reports hfresh, List.flatMap_map]
    rfl

/-- A list literal with an element that has no value, so that the rest of it is not computed. -/
def abandonedList : Node :=
  list ⟨1⟩ [const ⟨2⟩ (.int 1), ident ⟨3⟩ "x", const ⟨4⟩ (.int 2)]

theorem log_of_observers_abandonedList :
    ∃ tab, ((Pipeline.ofBuiltins [.observe (.values "a"), .observe (.values "b")]).apply
        abandonedList).outcome.1 = .ok tab ∧
      reportsTo [.values "a", .values "b"] (tab.trace .empty).log =
        [⟨.values "a", ⟨2⟩, .int 1⟩, ⟨.values "b", ⟨2⟩, .int 1⟩,
          ⟨.values "a", ⟨3⟩, .fail (.noSuchAttribute "x")⟩,
          ⟨.values "b", ⟨3⟩, .fail (.noSuchAttribute "x")⟩,
          ⟨.values "a", ⟨1⟩, .fail (.noSuchAttribute "x")⟩,
          ⟨.values "b", ⟨1⟩, .fail (.noSuchAttribute "x")⟩] := by
  obtain ⟨tab, hab, hlogs⟩ := log_of_observers (a := .values "a") (b := .values "b")
    (t := abandonedList) rfl
  obtain ⟨-, -, -, -, hfresh⟩ := hlogs .empty
  exact ⟨tab, hab, (hfresh (by decide)).2.trans rfl⟩

/-- A watch that reports to the first observer does so only once, with two observers as with one. -/
theorem log_not_doubled_of_ownWatch :
    let a : Observer := .values "a"
    let b : Observer := .values "b"
    let t := watch a (const ⟨1⟩ .null)
    ∃ ta tab, ((Pipeline.ofBuiltins [.observe a]).apply t).outcome.1 = .ok ta ∧
      ((Pipeline.ofBuiltins [.observe a, .observe b]).apply t).outcome.1 = .ok tab ∧
      reportsTo [a, b] (tab.trace .empty).log ≠
        (reportsTo [a] (ta.trace .empty).log).flatMap fun o =>
          [⟨a, o.id, o.value⟩, ⟨b, o.id, o.value⟩] := by
  refine ⟨_, _, rfl, rfl, fun h => ?_⟩
  have hlength := congrArg List.length h
  exact absurd hlength (by decide)

end Node

end TreeEval
