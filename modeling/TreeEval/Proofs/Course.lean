import TreeEval.Proofs.FirstDefect
import TreeEval.Proofs.PlannedSets

/-!
# The course of a pass

What a pass records is what it records at the nodes that it comes to, in the order in which it comes
to them. A failure ends the record: what has been recorded before it stays, and nothing is added.

`Takes` says of a planning action which steps it consists of. The steps of a sequence of actions are
those of the actions, so the steps of a pass are one for every node, `takes_transformM`. What is
known of the result of an action is of use to the one that follows it: a visit is told that the parts
of its node have been through the pass.
-/

namespace TreeEval

namespace Plan

/-- A part of planning, seen from outside. -/
structure Step where
  /-- What it records. -/
  events : List PlanEvent
  /-- The error that it ends with, if it fails. -/
  failure : Option PlanError

/-- What is recorded by steps in their order, up to the first one that fails. -/
def recorded : List Step → List PlanEvent
  | [] => []
  | s :: steps => s.events ++ if s.failure.isNone then recorded steps else []

theorem recorded_singleton (s : Step) : recorded [s] = s.events := by
  rw [recorded, recorded, ite_self, List.append_nil]

/-- Steps after others are taken if none of those fails. -/
theorem recorded_append (steps steps' : List Step) :
    recorded (steps ++ steps') =
      recorded steps ++ if (steps.findSome? Step.failure).isNone then recorded steps' else [] := by
  induction steps with
  | nil => rfl
  | cons s steps ih =>
    rw [List.cons_append, recorded, recorded, ih, findSome?_cons_eq_or, List.append_assoc]
    cases s.failure with
    | none => rfl
    | some e => rfl

/-- If no step fails, they record what each of them does. -/
theorem recorded_of_findSome?_eq_none {steps : List Step}
    (h : steps.findSome? Step.failure = none) : recorded steps = steps.flatMap Step.events := by
  induction steps with
  | nil => rfl
  | cons s steps ih =>
    rw [findSome?_cons_eq_or, Option.or_eq_none_iff] at h
    obtain ⟨hs, hrest⟩ := h
    rw [recorded, hs, ih hrest]
    rfl

/-- The first step that fails is the last one to record anything. -/
theorem recorded_of_first {before after : List Step} {s : Step} {e : PlanError}
    (hbefore : before.findSome? Step.failure = none) (hs : s.failure = some e) :
    recorded (before ++ s :: after) = before.flatMap Step.events ++ s.events := by
  rw [recorded_append, hbefore, recorded_of_findSome?_eq_none hbefore, recorded, hs]
  exact congrArg _ (List.append_nil s.events)

/-- The action consists of these steps, whatever has been recorded before it. -/
def Takes {α : Type} (x : Plan α) (steps : List Step) : Prop :=
  ∀ events, failure? (x.run.run events).1 = steps.findSome? Step.failure ∧
    (x.run.run events).2.toList = events.toList ++ recorded steps

variable {α β : Type}

theorem Does.takes {x : Plan α} {y : Except PlanError α} {log : List PlanEvent}
    (h : x.Does y log) : x.Takes [⟨log, failure? y⟩] := by
  intro events
  obtain ⟨hresult, hevents⟩ := h events
  rw [hresult, hevents, List.findSome?_singleton, recorded_singleton]
  exact ⟨rfl, rfl⟩

theorem takes_pure (a : α) : (pure a : Plan α).Takes [] := fun events =>
  ⟨rfl, (List.append_nil events.toList).symm⟩

/-- A sequence of two actions consists of the steps of both. -/
theorem Takes.bind {x : Plan α} {f : α → Plan β} {steps steps' : List Step} (hx : x.Takes steps)
    (hf : ∀ a, Returns x a → (f a).Takes steps') : (x >>= f).Takes (steps ++ steps') := by
  intro events
  obtain ⟨hresult, hevents⟩ := hx events
  have hreturns : ∀ a, (x.run.run events).1 = .ok a → Returns x a := fun a ha => ⟨events, ha⟩
  rw [ExceptT.run_bind, StateT.run_bind, List.findSome?_append, recorded_append, ← hresult,
    ← List.append_assoc, ← hevents]
  cases hrun : x.run.run events with
  | mk result events' =>
    cases result with
    -- the second action is not run, and its steps are not taken
    | error e => exact ⟨rfl, (List.append_nil _).symm⟩
    | ok a => exact hf a (hreturns a (congrArg Prod.fst hrun)) events'

theorem takes_discard_iff {x : Plan α} {steps : List Step} :
    (discard x).Takes steps ↔ x.Takes steps := by
  refine forall_congr' fun events => ?_
  rw [discard_eq_bind, ExceptT.run_bind, StateT.run_bind]
  cases x.run.run events with
  | mk result events' => cases result <;> rfl

theorem takes_forM {f : α → Plan Unit} {g : α → List Step} {as : List α}
    (h : ∀ a ∈ as, (f a).Takes (g a)) : (as.forM f).Takes (as.flatMap g) := by
  induction as with
  | nil => exact takes_pure ()
  | cons a as ih =>
    have hrest := ih fun a' ha' => h a' (List.mem_cons_of_mem _ ha')
    exact (h a List.mem_cons_self).bind fun _ _ => hrest

theorem takes_mapChildren {f : Node → Plan Node} {g : Node → List Step} {n : Node}
    (h : ∀ c ∈ n.parts, (f c).Takes (g c)) : (n.mapChildren f).Takes (n.passOrder.flatMap g) := by
  rw [← takes_discard_iff, Node.discard_mapChildren]
  exact takes_forM fun c hc => takes_discard_iff.2 (h c (Node.mem_passOrder.1 hc))

/-- If every visit of a node whose parts have been through the pass is one step, which can be told
from the node before, then a pass takes a step for every node. -/
theorem takes_transformM {visit : Node → Plan Node} {g : Node → Step}
    (h : ∀ {n n'}, Node.Alike (fun c c' => Returns (c.transformM visit) c') n n' →
      (visit n').Takes [g n]) (t : Node) :
    (t.transformM visit).Takes (t.postorder.map g) := by
  induction t using Node.parts_induction with
  | step n ih =>
    -- the steps of the parts in their order, and then the one of the node
    rw [Node.transformM_eq_mapChildren_bind, Node.postorder_eq_concat, List.map_append,
      List.map_flatMap]
    exact (takes_mapChildren ih).bind fun n' hn' => h (Node.alike_of_mapChildren (.run _ _) hn')

/-! ## From steps to an outcome -/

/-- An action records what its steps do. -/
theorem Takes.does {x : Plan α} {y : Except PlanError α} {steps : List Step} (h : x.Takes steps)
    (hy : x.Gives y) : x.Does y (recorded steps) := fun events => ⟨hy events, (h events).2⟩

/-- A failure that is recorded is recorded last. -/
theorem Does.tryCatch {x : Plan α} {y : Except PlanError α} {log : List PlanEvent}
    (h : x.Does y log) (event : PlanError → PlanEvent) :
    (tryCatch x fun e => note (event e) >>= fun _ => throw e).Does y
      (log ++ ((failure? y).map event).toList) := by
  intro events
  obtain ⟨hresult, hevents⟩ := h events
  show ((ExceptT.tryCatch x _).run.run events).1 = y ∧
    ((ExceptT.tryCatch x _).run.run events).2.toList = _
  rw [ExceptT.tryCatch, ExceptT.run_mk, StateT.run_bind, ← List.append_assoc, ← hevents, ← hresult,
    ExceptT.run]
  cases StateT.run x events with
  | mk result events' =>
    cases result with
    | error e => exact ⟨rfl, Array.toList_push⟩
    | ok a => exact ⟨rfl, (List.append_nil _).symm⟩

end Plan

end TreeEval
