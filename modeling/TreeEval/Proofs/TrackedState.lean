import TreeEval.Proofs.Fusion
import TreeEval.Proofs.PoolRun
import TreeEval.Proofs.Sightings

/-!
# The state of a program in use

The tracker keeps one value of each node, and forgets all of them at a reset. `latest?` reads off a
sequence of records what is kept of it. The tracker is told of every visit at least once, and not of
anything else in between, so what it keeps is what the visits themselves would leave:
`latest?_records_watchedThroughout`. `Session.Reflects` says that the state of a program in use is
that of the visits since the last reset; every step preserves it, and so does every sequence of
steps.
-/

namespace TreeEval

/-! ## The latest of some records -/

/-- The value of the last record of a node. -/
def latest? (records : List (NodeId × Value)) (id : NodeId) : Option Value :=
  records.reverse.lookup id

/-- A later record hides the earlier ones. -/
theorem latest?_append (records records' : List (NodeId × Value)) (id : NodeId) :
    latest? (records ++ records') id = (latest? records' id).or (latest? records id) := by
  rw [latest?, List.reverse_append, List.lookup_append]
  rfl

theorem mem_of_latest?_eq_some {records : List (NodeId × Value)} {id : NodeId} {value : Value}
    (h : latest? records id = some value) : (id, value) ∈ records := by
  obtain ⟨before, after, hrecords, -⟩ := List.lookup_eq_some_iff.1 h
  exact List.mem_reverse.1 (hrecords ▸ List.mem_append_right _ List.mem_cons_self)

theorem latest?_isSome_iff {records : List (NodeId × Value)} {id : NodeId} :
    (latest? records id).isSome = true ↔ ∃ r ∈ records, r.1 = id := by
  simp only [latest?, List.lookup_isSome_iff, List.mem_reverse, beq_iff_eq]
  exact exists_congr fun r => and_congr_right fun _ => eq_comm

theorem latest?_replicate (n : Nat) (r : NodeId × Value) (id : NodeId) :
    latest? (List.replicate n r) id =
      if n = 0 then none else if r.1 = id then some r.2 else none := by
  rw [latest?, List.reverse_replicate, List.lookup_replicate]
  simp only [beq_iff_eq, @eq_comm _ id]

theorem latest?_singleton (r : NodeId × Value) (id : NodeId) :
    latest? [r] id = if r.1 = id then some r.2 else none :=
  latest?_replicate 1 r id

theorem latest?_concat (records : List (NodeId × Value)) (r : NodeId × Value) :
    latest? (records ++ [r]) r.1 = some r.2 := by
  rw [latest?_append, latest?_singleton, if_pos rfl, Option.some_or]

/-- To record something again and again is to record it once. -/
theorem latest?_eq_of_forall_eq {records : List (NodeId × Value)} {r : NodeId × Value}
    (hmem : r ∈ records) (h : ∀ r' ∈ records, r' = r) (id : NodeId) :
    latest? records id = latest? [r] id := by
  have hlength : records.length ≠ 0 := fun h0 =>
    List.ne_nil_of_mem hmem (List.length_eq_zero_iff.1 h0)
  rw [List.eq_replicate_of_mem h, latest?_replicate, if_neg hlength, latest?_singleton]

theorem latest?_flatMap {α : Type} {f : α → List (NodeId × Value)} {g : α → NodeId × Value}
    {as : List α} (h : ∀ a ∈ as, g a ∈ f a ∧ ∀ r ∈ f a, r = g a) (id : NodeId) :
    latest? (as.flatMap f) id = latest? (as.map g) id := by
  induction as with
  | nil => rfl
  | cons a as ih =>
    obtain ⟨⟨hmem, hsame⟩, hrest⟩ := List.forall_mem_cons.1 h
    rw [List.flatMap_cons, List.map_cons, ← List.singleton_append, latest?_append, latest?_append,
      ih hrest, latest?_eq_of_forall_eq hmem hsame]

/-- The node of a visit and its value. -/
def Visit.record (v : Visit) : NodeId × Value := (v.node.id, v.value)

/-- The same of what shows of a visit. -/
def Sighting.record (s : Sighting) : NodeId × Value := (s.id, s.value)

/-! ## What the tracker is told -/

/-- The record that a report leads to, if the tracker is told. -/
def Observation.record? (o : Observation) : Option (NodeId × Value) :=
  match o.observer with
  | .tracker => some (o.id, o.value)
  | _ => none

/-- What the tracker is told by some reports. -/
def records (log : List Observation) : List (NodeId × Value) := log.filterMap Observation.record?

theorem records_flatMap {α : Type} (f : α → List Observation) (as : List α) :
    records (as.flatMap f) = as.flatMap fun a => records (f a) :=
  List.filterMap_flatMap

/-- After some reports, a node has the value that the tracker has been told last. -/
theorem EvalState.value?_foldl_absorb (log : List Observation) (s : EvalState) (id : NodeId) :
    (log.foldl absorb s).value? id = (latest? (records log) id).or (s.value? id) := by
  induction log generalizing s with
  | nil => rfl
  | cons o log ih =>
    rw [List.foldl_cons, ih]
    obtain ⟨observer, oid, value⟩ := o
    cases observer with
    | tracker =>
      have hrecords : records (⟨.tracker, oid, value⟩ :: log) = [(oid, value)] ++ records log := rfl
      rw [hrecords, latest?_append, latest?_singleton, Option.or_assoc]
      congr 1
      show (s.record oid value).value? id = _
      rw [value?_record]
      split <;> rfl
    | _ => rfl

/-- Tracked or not, a visit to a node is reported to the tracker of a tree that is tracked, with the
node and its value, and perhaps more than once. -/
theorem Sighting.records_reports (s : Sighting) :
    s.record ∈ records (s.reports [.tracker]) ∧
      ∀ r ∈ records (s.reports [.tracker]), r = s.record := by
  constructor
  · exact List.mem_filterMap.2 ⟨⟨.tracker, s.id, s.value⟩,
      List.mem_map.2 ⟨.tracker, by simp, rfl⟩, rfl⟩
  · intro r hr
    obtain ⟨o, ho, hrecord⟩ := List.mem_filterMap.1 hr
    obtain ⟨observer, _, rfl⟩ := List.mem_map.1 ho
    cases observer with
    | tracker => exact (Option.some_inj.1 hrecord).symm
    | _ => cases hrecord

namespace Node

/-- The tracker of a tree that is tracked is told last of a node what the node was evaluated to
last. -/
theorem latest?_records_watchedThroughout (t : Node) (act : Activation) (id : NodeId) :
    latest? (records ((t.watchedThroughout [.tracker]).trace act).log) id =
      latest? (((t.watchedThroughout [.tracker]).visits act).map Visit.record) id := by
  have hvisits : ((t.watchedThroughout [.tracker]).visits act).map Visit.record =
      (t.sightings act).flatMap fun s => (s.withWatches [.tracker]).map Sighting.record := by
    rw [← List.map_flatMap, ← sightings_watchedThroughout, sightings, List.map_map]
    rfl
  have htwice : ∀ s ∈ t.sightings act, s.record ∈ (s.withWatches [.tracker]).map Sighting.record ∧
      ∀ r ∈ (s.withWatches [.tracker]).map Sighting.record, r = s.record := by
    intro s _
    simp [Sighting.withWatches, Sighting.record]
  rw [hvisits, log_watchedThroughout, records_flatMap, latest?_flatMap htwice,
    latest?_flatMap fun s _ => s.records_reports]

end Node

/-! ## Sessions -/

/-- What observers are told by an evaluation. -/
def Evaluation.log (e : Evaluation) : List Observation := e.reports.toList.map Report.toObservation

namespace Session

/-- An evaluation has the value of the tree, and makes its reports, whatever the pool. -/
theorem eval_eq (s : Session) (act : Activation) :
    (s.eval act).1.value = s.program.root.eval act ∧
      (s.eval act).1.log = (s.program.root.trace act).log := by
  obtain ⟨hvalue, -, hreports⟩ := (Node.observed_self s.program.root).run act ⟨s.pool, #[]⟩
  refine ⟨hvalue, ?_⟩
  show List.map _ ((s.program.root.run act).run ⟨s.pool, #[]⟩).2.reports.toList = _
  rw [hreports, Node.trace_eq, ← Node.map_toVisit_placedVisits, List.nil_append, List.map_flatMap,
    List.flatMap_map]
  refine List.flatMap_congr fun v _ => ?_
  rw [List.map_map, ← PlacedVisit.map_toObservation_reports]
  rfl

theorem state_eval (s : Session) (act : Activation) :
    (s.eval act).2.state = (s.eval act).1.log.foldl EvalState.absorb s.state := by
  rw [Evaluation.log, List.foldl_map, Array.foldl_toList]
  rfl

/-- What a program knows after its first evaluation is what has been recorded of it. -/
theorem value?_eval_ofProgram (p : Program) (act : Activation) (id : NodeId) :
    ((ofProgram p).eval act).2.state.value? id = latest? (records (p.root.trace act).log) id := by
  rw [state_eval, EvalState.value?_foldl_absorb, ((ofProgram p).eval_eq act).2]
  exact (congrArg _ (EvalState.value?_empty id)).trans Option.or_none

/-- What can be done with a program. -/
inductive Step where
  /-- To evaluate it. -/
  | eval (act : Activation)
  /-- To forget what the tracker has been told. -/
  | reset

/-- The program after one step. -/
def step (s : Session) : Step → Session
  | .eval act => (s.eval act).2
  | .reset => s.reset

/-- The program after some steps. -/
def run (s : Session) (steps : List Step) : Session := steps.foldl step s

end Session

/-- The visits that count after a step, if some counted before: a reset makes them count no more. -/
def Node.visitsAfter (root : Node) (seen : List Visit) : Session.Step → List Visit
  | .eval act => seen ++ root.visits act
  | .reset => []

/-- The visits to nodes of a tree since the last reset, in the order in which they end. -/
def Node.visitsSince (root : Node) (steps : List Session.Step) : List Visit :=
  steps.foldl root.visitsAfter []

namespace Session

/-- The tree is tracked, and the state is what the latest visits have left. -/
structure Reflects (s : Session) (t : Node) (seen : List Visit) : Prop where
  root_eq : s.program.root = t.watchedThroughout [.tracker]
  value?_eq : ∀ id, s.state.value? id = latest? (seen.map Visit.record) id

theorem Reflects.step {s : Session} {t : Node} {seen : List Visit} (h : s.Reflects t seen)
    (todo : Step) : (s.step todo).Reflects t (s.program.root.visitsAfter seen todo) where
  root_eq := by cases todo <;> exact h.root_eq
  value?_eq id := by
    cases todo with
    | reset => exact EvalState.value?_empty id
    | eval act =>
      show (s.eval act).2.state.value? id = _
      rw [state_eval, EvalState.value?_foldl_absorb, (s.eval_eq act).2, Node.visitsAfter,
        List.map_append, latest?_append, h.value?_eq, h.root_eq,
        Node.latest?_records_watchedThroughout]

theorem Reflects.run {s : Session} {t : Node} {seen : List Visit} (h : s.Reflects t seen)
    (steps : List Step) :
    (s.run steps).Reflects t (steps.foldl s.program.root.visitsAfter seen) := by
  induction steps generalizing s seen with
  | nil => exact h
  | cons todo steps ih =>
    have hroot : (s.step todo).program = s.program := by cases todo <;> rfl
    have hrest := ih (h.step todo)
    rwa [hroot] at hrest

end Session

/-! ## Planning with the tracker -/

/-- The rewrites that options ask for. -/
def EvalOptions.rewrites (options : EvalOptions) : List Builtin :=
  ({ options with trackState := false } : EvalOptions).builtins false

theorem EvalOptions.isObserver_of_mem_rewrites {options : EvalOptions} :
    ∀ d ∈ options.rewrites, d.isObserver = false := by
  obtain ⟨_ | _, _ | _, track⟩ := options <;> exact of_decide_eq_true rfl

/-- With the tracker, a program is what is planned without, tracked. -/
theorem Program.plan_tracking_eq_ok_iff {options : EvalOptions} (h : options.trackState = true)
    {t : Node} {p : Program} :
    (plan options t).outcome.1 = .ok p ↔
      ∃ t₁, t.transformM (Builtin.visit options.rewrites) = .ok t₁ ∧
        (∀ m ∈ t₁.preorder, m.Balanced) ∧ ⟨t₁.watchedThroughout [.tracker], true⟩ = p := by
  have hobserve : ∀ {t₁ root : Node}, t₁.transformM (Builtin.visit [.observe .tracker]) = .ok root ↔
      (∀ m ∈ t₁.preorder, m.Balanced) ∧ t₁.watchedThroughout [.tracker] = root :=
    Builtin.transformM_visit_eq_ok_iff (Builtin.foldlM_observe [.tracker])
  have hbuiltins : options.builtins options.trackState = options.rewrites ++ [.observe .tracker] := by
    have htracking := options.builtins_tracking
    rw [← h] at htracking
    exact htracking
  rw [plan_eq_ok_iff, hbuiltins, Node.transformM_visit_append options.isObserver_of_mem_rewrites, h]
  simp only [hobserve]
  constructor
  · rintro ⟨⟨t₁, ht₁, hbal, hroot⟩, hstate⟩
    exact ⟨t₁, ht₁, hbal, by rw [hroot, ← hstate]⟩
  · rintro ⟨t₁, ht₁, hbal, rfl⟩
    exact ⟨⟨t₁, ht₁, hbal, rfl⟩, rfl⟩

/-- Whatever has been done with a program that is tracked, the state has for every node the value
that the node was evaluated to last since the last reset, and nothing for the other nodes. The nodes
with a value are listed once each, in ascending order. After an evaluation the root of the tree has
the value of the evaluation, also if other nodes of the tree stand for the same expression. -/
theorem Session.state_run {options : EvalOptions} (htrack : options.trackState = true) {t : Node}
    {p : Program} (hp : (Program.plan options t).outcome.1 = .ok p) (steps : List Session.Step) :
    let s := (Session.ofProgram p).run steps
    (∀ id, s.state.value? id = latest? ((p.root.visitsSince steps).map Visit.record) id) ∧
      (s.state.ids.Pairwise (· < ·) ∧
        (∀ id, id ∈ s.state.ids ↔ ∃ v ∈ p.root.visitsSince steps, v.node.id = id) ∧
          s.state.size = s.state.ids.length) ∧
      ∀ act, (s.eval act).2.state.value? p.root.id = some (s.eval act).1.value := by
  intro s
  obtain ⟨t₁, -, -, rfl⟩ := (Program.plan_tracking_eq_ok_iff htrack).1 hp
  have hstart : (Session.ofProgram ⟨t₁.watchedThroughout [.tracker], true⟩).Reflects t₁ [] :=
    ⟨rfl, EvalState.value?_empty⟩
  have hreflects := hstart.run steps
  refine ⟨hreflects.value?_eq, ⟨s.state.pairwise_ids, fun id => ?_, s.state.length_ids.symm⟩,
    fun act => ?_⟩
  · rw [EvalState.mem_ids, hreflects.value?_eq, latest?_isSome_iff]
    simp only [List.mem_map, exists_exists_and_eq_and]
    rfl
  · -- the last visit of an evaluation is that to the root
    have hroot : s.program.root = t₁.watchedThroughout [.tracker] := hreflects.root_eq
    refine ((hreflects.step (.eval act)).value?_eq _).trans ?_
    rw [Node.visitsAfter, Node.visits_eq_concat, ← List.append_assoc, List.map_append,
      List.map_singleton, (s.eval_eq act).1, hroot]
    exact latest?_concat _ (Visit.record ⟨t₁.watchedThroughout [.tracker], act⟩)

/-- Some nodes of the tree stand for the same expression. The first evaluation is forgotten, and the
last one leaves out a branch whose value from the evaluation before is kept. -/
theorem Session.state_run_skippedBranch :
    let t : Node := .conditional ⟨1⟩ .shortCircuit (.ident ⟨2⟩ "c") (.ident ⟨3⟩ "x")
      (.logical ⟨4⟩ .shortCircuit .or (.ident ⟨2⟩ "c") (.const ⟨1⟩ .null))
    let act (c : Bool) (x : Int64) : Activation := .bound ⟨[("c", .bool c), ("x", .int x)]⟩
    let steps : List Session.Step :=
      [.eval (act true 5), .reset, .eval (act true 6), .eval (act false 7)]
    ∃ p, (Program.plan ⟨true, false, true⟩ t).outcome.1 = .ok p ∧
      let s := (Session.ofProgram p).run steps
      s.state.value? ⟨3⟩ = some (.int 6) ∧ s.state.value? ⟨2⟩ = some (.bool false) ∧
        s.state.value? ⟨5⟩ = none ∧ (⟨5⟩ ∉ s.state.ids ∧ ⟨3⟩ ∈ s.state.ids) ∧
          (s.eval (act true 8)).2.state.value? ⟨1⟩ = some (.int 8) := by
  intro t act steps
  have hplan : (Program.plan ⟨true, false, true⟩ t).outcome.1 = .ok _ := rfl
  obtain ⟨hvalue, -, hlast⟩ := Session.state_run rfl hplan steps
  have habsent : _ = none := hvalue ⟨5⟩
  have hpresent : _ = some (Value.int 6) := hvalue ⟨3⟩
  refine ⟨_, hplan, hpresent, hvalue ⟨2⟩, habsent, ⟨?_, ?_⟩, hlast _⟩
  · rw [EvalState.mem_ids, habsent]
    exact Bool.false_ne_true
  · rw [EvalState.mem_ids, hpresent]
    rfl

end TreeEval
