import TreeEval.Plan.Pipeline
import TreeEval.Proofs.Shape

/-!
# What planning returns

A planning action records events, and nothing that the built-in decorators do depends on them. So a
pipeline of built-in decorators has an outcome that can be computed without events: `Builtin.visit`
says what becomes of one node, and `apply_ofBuiltins` that a pipeline does that at every node, from
the leaves up. `Does` says what such an action records besides: of a node, `Builtin.visitEvents`.
-/

namespace TreeEval

namespace Plan

variable {α β : Type}

/-- The action has this outcome, whatever has been recorded before it. -/
def Gives (x : Plan α) (y : Except PlanError α) : Prop := ∀ events, (x.run.run events).1 = y

theorem Gives.outcome {x : Plan α} {y : Except PlanError α} (h : x.Gives y) : x.outcome.1 = y :=
  h #[]

theorem gives_pure (a : α) : (pure a : Plan α).Gives (.ok a) := fun _ => rfl

theorem gives_throw (e : PlanError) : (throw e : Plan α).Gives (.error e) := fun _ => rfl

theorem gives_note (event : PlanEvent) : (note event).Gives (.ok ()) := fun _ => rfl

theorem Gives.bind {x : Plan α} {y : Except PlanError α} {f : α → Plan β}
    {g : α → Except PlanError β} (hx : x.Gives y) (hf : ∀ a, (f a).Gives (g a)) :
    (x >>= f).Gives (y >>= g) := by
  intro events
  have hy := hx events
  rw [ExceptT.run_bind, StateT.run_bind]
  cases hrun : x.run.run events with
  | mk result events' =>
    rw [hrun] at hy
    subst hy
    cases result with
    | error e => rfl
    | ok a => exact hf a events'

/-- Recording an event first makes no difference. -/
theorem Gives.note_bind {x : Plan α} {y : Except PlanError α} (event : PlanEvent)
    (h : x.Gives y) : (note event >>= fun _ => x).Gives y :=
  (gives_note event).bind fun _ => h

/-- The action has this outcome and records these events, whatever has been recorded before it. -/
def Does (x : Plan α) (y : Except PlanError α) (log : List PlanEvent) : Prop :=
  ∀ events, (x.run.run events).1 = y ∧ (x.run.run events).2.toList = events.toList ++ log

theorem Does.gives {x : Plan α} {y : Except PlanError α} {log : List PlanEvent}
    (h : x.Does y log) : x.Gives y := fun events => (h events).1

theorem Does.outcome {x : Plan α} {y : Except PlanError α} {log : List PlanEvent}
    (h : x.Does y log) : x.outcome = (y, log) := by
  obtain ⟨hresult, hevents⟩ := h #[]
  exact Prod.ext hresult hevents

theorem does_pure (a : α) : (pure a : Plan α).Does (.ok a) [] := fun events =>
  ⟨rfl, (List.append_nil events.toList).symm⟩

theorem does_throw (e : PlanError) : (throw e : Plan α).Does (.error e) [] := fun events =>
  ⟨rfl, (List.append_nil events.toList).symm⟩

theorem Does.note_bind {x : Plan α} {y : Except PlanError α} {log : List PlanEvent}
    (h : x.Does y log) (event : PlanEvent) :
    (note event >>= fun _ => x).Does y (event :: log) := by
  intro events
  obtain ⟨hresult, hevents⟩ := h (events.push event)
  rw [Array.toList_push, List.append_assoc] at hevents
  exact ⟨hresult, hevents⟩

/-- What is recorded after something that has had this outcome. -/
def onSuccess (logs : α → List PlanEvent) : Except PlanError α → List PlanEvent
  | .ok a => logs a
  | .error _ => []

/-- A second action records its events after those of the first, if the first succeeds. -/
theorem Does.bind {x : Plan α} {y : Except PlanError α} {log : List PlanEvent} {f : α → Plan β}
    {g : α → Except PlanError β} {logs : α → List PlanEvent} (hx : x.Does y log)
    (hf : ∀ a, (f a).Does (g a) (logs a)) :
    (x >>= f).Does (y >>= g) (log ++ onSuccess logs y) := by
  intro events
  obtain ⟨hresult, hevents⟩ := hx events
  rw [ExceptT.run_bind, StateT.run_bind, ← List.append_assoc, ← hevents]
  cases hrun : x.run.run events with
  | mk result events' =>
    rw [hrun] at hresult
    subst hresult
    cases result with
    | error e => exact ⟨rfl, (List.append_nil _).symm⟩
    | ok a => exact hf a events'

/-- Recording a failure and failing again makes no difference. -/
theorem Gives.tryCatch {x : Plan α} {y : Except PlanError α} {event : PlanError → PlanEvent}
    (h : x.Gives y) :
    (tryCatch x fun e => note (event e) >>= fun _ => throw e).Gives y := by
  intro events
  have hy := h events
  -- failing again after the failure has been recorded leaves the same outcome
  show ((ExceptT.tryCatch x _).run.run events).1 = y
  rw [ExceptT.tryCatch, ExceptT.run_mk, StateT.run_bind]
  cases hrun : StateT.run x events with
  | mk result events' =>
    have hresult : result = y := by rw [← hy, ExceptT.run, hrun]
    subst hresult
    cases result <;> rfl

theorem gives_inOrder {f : α → Plan β} {g : α → Except PlanError β} {as : List α}
    (h : ∀ a ∈ as, (f a).Gives (g a)) : (inOrder (as.map f)).Gives (inOrder (as.map g)) := by
  induction as with
  | nil => exact gives_pure []
  | cons a as ih =>
    have hrest := ih fun a' ha' => h a' (List.mem_cons_of_mem _ ha')
    exact (h a List.mem_cons_self).bind fun _ => hrest.bind fun _ => gives_pure _

theorem gives_inTurns {f : α → Plan β} {g : α → Except PlanError β} {as bs : List α}
    (ha : ∀ a ∈ as, (f a).Gives (g a)) (hb : ∀ b ∈ bs, (f b).Gives (g b)) :
    (inTurns (as.map f) (bs.map f)).Gives (inTurns (as.map g) (bs.map g)) := by
  induction as generalizing bs with
  | nil => exact (gives_inOrder hb).bind fun _ => gives_pure _
  | cons a as ih =>
    cases bs with
    | nil => exact (gives_inOrder ha).bind fun _ => gives_pure _
    | cons b bs =>
      have hrest := ih (fun a' ha' => ha a' (List.mem_cons_of_mem _ ha'))
        (fun b' hb' => hb b' (List.mem_cons_of_mem _ hb'))
      exact (ha a List.mem_cons_self).bind fun _ => (hb b List.mem_cons_self).bind fun _ =>
        hrest.bind fun _ => gives_pure _

theorem gives_mapChildren {f : Node → Plan Node} {g : Node → Except PlanError Node} {n : Node}
    (h : ∀ c ∈ n.parts, (f c).Gives (g c)) : (n.mapChildren f).Gives (n.mapChildren g) := by
  cases n with
  | const id value => exact gives_pure _
  | ident id name => exact gives_pure _
  | binary id op lhs rhs =>
    exact (h lhs (by simp [Node.parts])).bind fun _ =>
      (h rhs (by simp [Node.parts])).bind fun _ => gives_pure _
  | logical id mode connective lhs rhs =>
    exact (h lhs (by simp [Node.parts])).bind fun _ =>
      (h rhs (by simp [Node.parts])).bind fun _ => gives_pure _
  | conditional id mode cond truthy falsy =>
    exact (h cond (by simp [Node.parts])).bind fun _ =>
      (h truthy (by simp [Node.parts])).bind fun _ =>
        (h falsy (by simp [Node.parts])).bind fun _ => gives_pure _
  | list id elems => exact (gives_inOrder h).bind fun _ => gives_pure _
  | map id keys vals =>
    exact (gives_inTurns (fun k hk => h k (List.mem_append_left _ hk))
      (fun v hv => h v (List.mem_append_right _ hv))).bind fun _ => gives_pure _
  | fold id mode accuVar iterVar range init cond step result =>
    exact (h range (by simp [Node.parts])).bind fun _ =>
      (h init (by simp [Node.parts])).bind fun _ =>
        (h cond (by simp [Node.parts])).bind fun _ =>
          (h step (by simp [Node.parts])).bind fun _ =>
            (h result (by simp [Node.parts])).bind fun _ => gives_pure _
  | watch observer inner => exact (h inner (by simp [Node.parts])).bind fun _ => gives_pure _
  | setMembership id elemType elems lhs rhs =>
    exact (h lhs (by simp [Node.parts])).bind fun _ =>
      (h rhs (by simp [Node.parts])).bind fun _ => gives_pure _

/-- If visiting a node does not depend on the events, neither does a pass over a tree. -/
theorem gives_transformM {visit : Node → Plan Node} {visit' : Node → Except PlanError Node}
    (h : ∀ n, (visit n).Gives (visit' n)) (t : Node) :
    (t.transformM visit).Gives (t.transformM visit') := by
  induction t using Node.parts_induction with
  | step n ih =>
    rw [Node.transformM_eq_mapChildren_bind, Node.transformM_eq_mapChildren_bind]
    exact (gives_mapChildren ih).bind h

end Plan

/-! ## The built-in decorators -/

/-- What a short-circuit node becomes when it is made exhaustive. -/
def Node.madeExhaustive : Node → Node
  | .logical id .shortCircuit connective lhs rhs => .logical id .exhaustive connective lhs rhs
  | .conditional id .shortCircuit cond truthy falsy =>
    .conditional id .exhaustive cond truthy falsy
  | .fold id .shortCircuit accuVar iterVar range init cond step result =>
    .fold id .exhaustive accuVar iterVar range init cond step result
  | n => n

/-- Whether nodes of a kind stop when their value is settled. -/
def NodeKind.isShortCircuit : NodeKind → Bool
  | logical .shortCircuit _ | conditional .shortCircuit | fold .shortCircuit => true
  | _ => false

/-- What is recorded of a node that is made exhaustive. -/
def Node.exhaustiveEvents (n : Node) : List PlanEvent :=
  if n.kind.isShortCircuit then [.madeExhaustive n.id n.kind] else []

/-- Whether the event says that something is computed ahead. -/
def PlanEvent.isFolding : PlanEvent → Bool
  | listFolded _ _ | mapFolded _ _ | emptyMembership _ | membershipHashed _ _ _ => true
  | _ => false

namespace Builtin

open Plan

/-- What a built-in decorator puts in the place of a node. -/
def rewrite (b : Builtin) (n : Node) : Except PlanError Node := (b.decorator n).outcome.1

theorem does_makeExhaustive (n : Node) :
    (Decorator.makeExhaustive n).Does (.ok n.madeExhaustive) n.exhaustiveEvents := by
  cases n with
  | logical id mode connective lhs rhs =>
    cases mode with
    | shortCircuit => exact (does_pure _).note_bind _
    | exhaustive => exact does_pure _
  | conditional id mode cond truthy falsy =>
    cases mode with
    | shortCircuit => exact (does_pure _).note_bind _
    | exhaustive => exact does_pure _
  | fold id mode accuVar iterVar range init cond step result =>
    cases mode with
    | shortCircuit => exact (does_pure _).note_bind _
    | exhaustive => exact does_pure _
  | _ => exact does_pure _

/-- The outcome of computing something ahead, and what is recorded of it: nothing, or that it has
been done. -/
inductive Folding : Except PlanError Node → List PlanEvent → Prop
  | silent (y : Except PlanError Node) : Folding y []
  | recorded (n : Node) {event : PlanEvent} (h : event.isFolding = true) : Folding (.ok n) [event]

/-- Computing a node ahead does not ask what has been recorded. -/
theorem exists_does_computeAhead (n : Node) :
    ∃ y log, Folding y log ∧ (Decorator.computeAhead n).Does y log := by
  unfold Decorator.computeAhead
  split
  · unfold Plan.constList
    split
    · exact ⟨_, _, .silent _, does_pure _⟩
    · exact ⟨_, _, .recorded _ rfl, (does_pure _).note_bind _⟩
  · unfold Plan.constMap
    split
    · exact ⟨_, _, .recorded _ rfl, (does_pure _).note_bind _⟩
    · exact ⟨_, _, .silent _, does_pure _⟩
  · unfold Plan.hashMembership
    split
    · exact ⟨_, _, .silent _, does_pure _⟩
    · exact ⟨_, _, .silent _, does_pure _⟩
    · exact ⟨_, _, .silent _, does_pure _⟩
    · exact ⟨_, _, .recorded _ rfl, (does_pure _).note_bind _⟩
    · split
      · exact ⟨_, _, .silent _, does_pure _⟩
      · exact ⟨_, _, .recorded _ rfl, (does_pure _).note_bind _⟩
    · exact ⟨_, _, .silent _, does_throw _⟩
  · exact ⟨_, _, .silent _, does_pure _⟩

/-- What a built-in decorator records of a node. -/
def events (b : Builtin) (n : Node) : List PlanEvent := (b.decorator n).outcome.2

theorem does_decorator (b : Builtin) (n : Node) :
    (b.decorator n).Does (b.rewrite n) (b.events n) := by
  have hdoes : ∃ y log, (b.decorator n).Does y log := by
    cases b with
    | makeExhaustive => exact ⟨_, _, does_makeExhaustive n⟩
    | computeAhead =>
      obtain ⟨y, log, -, h⟩ := exists_does_computeAhead n
      exact ⟨y, log, h⟩
    | observe observer => exact ⟨_, _, does_pure _⟩
  obtain ⟨y, log, h⟩ := hdoes
  rw [rewrite, events, h.outcome]
  exact h

theorem gives_decorator (b : Builtin) (n : Node) : (b.decorator n).Gives (b.rewrite n) :=
  (does_decorator b n).gives

/-- What a pipeline of built-in decorators makes of a node whose children are finished. -/
def visit (bs : List Builtin) (n : Node) : Except PlanError Node := do
  (checkArity n).outcome.1
  bs.foldlM (fun n b => b.rewrite n) n

theorem does_checkArity (n : Node) : (checkArity n).Does (checkArity n).outcome.1 [] := by
  unfold checkArity
  split
  · split
    · exact does_pure _
    · exact does_throw _
  · exact does_pure _

theorem checkArity_eq_ok_iff {n : Node} : (checkArity n).outcome.1 = .ok () ↔ n.Balanced := by
  cases n with
  | map id keys vals =>
    rw [Node.Balanced]
    by_cases hlen : keys.length = vals.length
    · have hgives : (checkArity (.map id keys vals)).Gives (.ok ()) := by
        rw [checkArity, if_pos hlen]
        exact gives_pure _
      rw [hgives.outcome]
      exact ⟨fun _ => hlen, fun _ => rfl⟩
    · have hgives : (checkArity (.map id keys vals)).Gives
          (.error (.mapArity id keys.length vals.length)) := by
        rw [checkArity, if_neg hlen]
        exact gives_throw _
      rw [hgives.outcome]
      exact iff_of_false (by simp) hlen
  | _ => exact ⟨fun _ => trivial, fun _ => rfl⟩

/-- A node gets through a pipeline if it is not malformed and every decorator accepts it. -/
theorem visit_eq_ok_iff {bs : List Builtin} {n t' : Node} :
    visit bs n = .ok t' ↔ n.Balanced ∧ bs.foldlM (fun n b => b.rewrite n) n = .ok t' := by
  rw [visit, bind_eq_ok_iff]
  constructor
  · rintro ⟨_, hcheck, hfold⟩
    exact ⟨checkArity_eq_ok_iff.1 hcheck, hfold⟩
  · rintro ⟨hbal, hfold⟩
    exact ⟨(), checkArity_eq_ok_iff.2 hbal, hfold⟩

/-- A pass accepts only trees without malformed maps. -/
theorem balanced_of_transformM {bs : List Builtin} {t t' : Node}
    (h : t.transformM (visit bs) = .ok t') : ∀ m ∈ t.preorder, m.Balanced := by
  induction t using Node.parts_induction generalizing t' with
  | step n ih =>
    obtain ⟨n', hn, hv⟩ := Node.transformM_eq_ok_iff.1 h
    have hbal : n.Balanced := hn.balanced_iff.2 (visit_eq_ok_iff.1 hv).1
    refine Node.forall_mem_preorder.2 ⟨hbal, fun c hc => ?_⟩
    have hc := (Node.mem_children_iff hbal).1 hc
    obtain ⟨c', hcc'⟩ := hn.exists_of_mem_parts hc
    exact ih c hc hcc'

/-- If no decorator refuses a node, a pass accepts the trees without malformed maps, and does the
same to each of their nodes. -/
theorem transformM_visit_eq_ok_iff {bs : List Builtin} {g : Node → Node}
    (h : ∀ n, bs.foldlM (fun n b => b.rewrite n) n = .ok (g n)) {t t' : Node} :
    t.transformM (visit bs) = .ok t' ↔
      (∀ m ∈ t.preorder, m.Balanced) ∧ t.transformM (m := Id) g = t' := by
  have hvisit : ∀ {n u}, visit bs n = .ok u ↔ n.Balanced ∧ g n = u := by
    intro n u
    rw [visit_eq_ok_iff, h, Except.ok.injEq]
  constructor
  · intro h
    refine ⟨balanced_of_transformM h, ?_⟩
    refine Node.transformM_induction (R := fun n t' => n.transformM (m := Id) g = t') ?_ h
    intro n n' t' hn hv
    obtain ⟨-, rfl⟩ := hvisit.1 hv
    rw [Node.transformM_eq_mapChildren_bind (m := Id)]
    exact congrArg g hn.mapChildren_eq
  · rintro ⟨hbal, rfl⟩
    induction t using Node.parts_induction with
    | step n ih =>
      obtain ⟨hroot, hbelow⟩ := Node.forall_mem_preorder.1 hbal
      have hn : Node.Alike (fun c c' => c.transformM (visit bs) = .ok c') n
          (n.mapChildren (m := Id) (Node.transformM (m := Id) g)) :=
        .of_mapChildren fun c hc => ih c hc (hbelow c ((Node.mem_children_iff hroot).2 hc))
      rw [Node.transformM_eq_mapChildren_bind (m := Id), Node.transformM_eq_ok_iff]
      exact ⟨_, hn, hvisit.2 ⟨hn.balanced_iff.1 hroot, rfl⟩⟩

theorem visit_singleton_eq_ok_iff {b : Builtin} {n t' : Node} :
    visit [b] n = .ok t' ↔ n.Balanced ∧ b.rewrite n = .ok t' := by
  simp only [visit_eq_ok_iff, List.foldlM_cons, List.foldlM_nil, bind_pure]

/-- What decorators record of a node, each of what those before it have put in its place. -/
def eventsAll : List Builtin → Node → List PlanEvent
  | [], _ => []
  | b :: bs, n => b.events n ++ onSuccess (eventsAll bs) (b.rewrite n)

theorem does_foldlM (bs : List Builtin) (n : Node) :
    ((bs.map Builtin.decorator).foldlM (fun n decorate => decorate n) n : Plan Node).Does
      (bs.foldlM (fun n b => b.rewrite n) n) (eventsAll bs n) := by
  induction bs generalizing n with
  | nil => exact does_pure n
  | cons b bs ih =>
    rw [List.map_cons, List.foldlM_cons, List.foldlM_cons, eventsAll]
    exact (does_decorator b n).bind ih

/-- What a pipeline of built-in decorators records of a node: nothing of a malformed map. -/
def visitEvents (bs : List Builtin) (n : Node) : List PlanEvent :=
  onSuccess (fun _ => eventsAll bs n) (checkArity n).outcome.1

theorem does_visit (bs : List Builtin) (n : Node) :
    ((Pipeline.ofBuiltins bs).visit n).Does (visit bs n) (visitEvents bs n) :=
  (does_checkArity n).bind fun _ => does_foldlM bs n

theorem gives_visit (bs : List Builtin) (n : Node) :
    ((Pipeline.ofBuiltins bs).visit n).Gives (visit bs n) := (does_visit bs n).gives

/-- The outcome of a pipeline of built-in decorators is that of a pass without events. -/
theorem gives_apply (bs : List Builtin) (t : Node) :
    ((Pipeline.ofBuiltins bs).apply t).Gives (t.transformM (visit bs)) :=
  (gives_transformM (gives_visit bs) t).tryCatch.note_bind _

theorem apply_ofBuiltins (bs : List Builtin) (t : Node) :
    ((Pipeline.ofBuiltins bs).apply t).outcome.1 = t.transformM (visit bs) :=
  (gives_apply bs t).outcome

@[simp] theorem rewrite_makeExhaustive (n : Node) :
    makeExhaustive.rewrite n = .ok n.madeExhaustive := (does_makeExhaustive n).gives.outcome

@[simp] theorem rewrite_observe (observer : Observer) (n : Node) :
    (observe observer).rewrite n = .ok (.watch observer n) := rfl

end Builtin

end TreeEval
