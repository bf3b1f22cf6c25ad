import TreeEval.Eval.Machine
import TreeEval.Proofs.Placement

/-!
# What watches report

With watches around all its nodes a tree reports every visit of its evaluation, on whichever host it
is evaluated. A host is taken as what can be said of its computations, a `Host.Description`: what
they return, which reports they make, and how many scratch slots are in use at each report, counted
from those in use at the beginning. `Observed` says of a tree that it reports all visits of another
one, and `observed_watchedBy` carries that from the children of a node to the node.
-/

namespace TreeEval

/-! ## Reports of visits -/

/-- Whom a node reports to by itself: a watch has one observer, all other nodes have none. -/
def Node.ownObservers : Node → List Observer
  | .watch observer _ => [observer]
  | _ => []

/-- Nodes of one shape report to the same observer, if to any. -/
theorem Node.Alike.ownObservers_eq {R : Node → Node → Prop} {n n' : Node} (h : Alike R n n') :
    n'.ownObservers = n.ownObservers := by
  cases h <;> rfl

/-- The report with some more slots in use. -/
def Report.above (slots : Nat) (r : Report) : Report := { r with inUse := slots + r.inUse }

@[simp] theorem Report.above_zero : Report.above 0 = id := by
  funext r
  rw [above, Nat.zero_add]
  rfl

/-- A computation that begins with some more slots in use. -/
def Logged.above {α : Type} (slots : Nat) (x : Logged Report α) : Logged Report α :=
  x.relabel (Report.above slots)

namespace PlacedVisit

/-- The reports of a visit if all nodes are observed by `os`: first that of the node itself, if it
is a watch, and then one to each observer. In use are the slots of the loops around the visit. -/
def reports (os : List Observer) (v : PlacedVisit) : List Report :=
  (v.node.ownObservers ++ os).map fun o => ⟨⟨o, v.node.id, v.value⟩, v.slots⟩

/-- In a part of a loop, a visit is reported with the slots of that loop on top. -/
theorem flatMap_reports_within (os : List Observer) (part : LoopPart) (vs : List PlacedVisit) :
    (vs.map (.within part)).flatMap (reports os) =
      (vs.flatMap (reports os)).map (.above part.slots) := by
  rw [List.flatMap_map, List.map_flatMap]
  refine List.flatMap_congr fun v _ => ?_
  rw [reports, reports, slots_within, List.map_map]
  rfl

end PlacedVisit

/-! ## Hosts -/

/-- What can be said of the computations on a host. -/
structure Host.Description (m : Type → Type) [Monad m] [Host m] extends
    MonadRel m (Logged Report) where
  rel_report (observer : Observer) (id : NodeId) (value : Value) :
    Rel (Host.report observer id value : m Unit) ⟨(), [⟨⟨observer, id, value⟩, 0⟩]⟩
  /-- A loop has one slot while its accumulator is started, and two in its turns and its result. -/
  rel_fold {mode : Mode} {accuVar iterVar : String} {items : List Value} {init : m Value}
    (cond step : Scratch.Slot → Scratch.Slot → m Value) (result : Scratch.Slot → m Value)
    {init' : Logged Report Value} {cond' step' : Value → Value → Logged Report Value}
    {result' : Value → Logged Report Value} (hi : Rel init init')
    (hc : ∀ accu item,
      Rel (cond ⟨accuVar, some accu⟩ ⟨iterVar, some item⟩) (cond' accu item))
    (hs : ∀ accu item,
      Rel (step ⟨accuVar, some accu⟩ ⟨iterVar, some item⟩) (step' accu item))
    (hres : ∀ last, Rel (result ⟨accuVar, some last⟩) (result' last)) :
    Rel
      (do
        let accu ← Host.checkout accuVar
        let start ← init
        let iter ← Host.checkout iterVar
        let (accu, iter) ← mode.iterate cond step items (accu.set start) iter
        let value ← result accu
        Host.release iter
        Host.release accu
        pure value)
      (do
        let start ← init'.above 1
        let last ← mode.loop (fun accu item => (cond' accu item).above 2)
          (fun accu item => (step' accu item).above 2) items start
        (result' last).above 2)

theorem Host.Description.congr {m : Type → Type} [Monad m] [Host m] (d : Host.Description m)
    {α : Type} {x : m α} {y y' : Logged Report α} (h : d.Rel x y) (hy : y = y') : d.Rel x y' :=
  hy ▸ h

namespace Node

/-! ## One node -/

variable {os : List Observer}

/-- The value of a tree under an activation, and the reports of all its visits if its nodes are
observed by `os`. -/
def told (os : List Observer) (n : Node) (act : Activation) : Logged Report Value :=
  ⟨n.eval act, (n.placedVisits act).flatMap (PlacedVisit.reports os)⟩

/-- The node has the value of another one, and reports all visits of that one, on every host. -/
structure Observed (os : List Observer) (n n' : Node) : Prop where
  id_eq : n'.id = n.id
  rel : ∀ {m : Type → Type} [Monad m] [Host m] (d : Host.Description m) (act : Activation),
    d.Rel (n'.evalM act) (n.told os act)

section

variable {m : Type → Type} [Monad m] [Host m] (d : Host.Description m)

theorem forall₂_rel_of_observed {ns ns' : List Node} (h : List.Forall₂ (Observed os) ns ns')
    (act : Activation) :
    List.Forall₂ d.Rel (evalEachM ns' act)
      ((placeEach ns act).map (Logged.expand (PlacedVisit.reports os))) := by
  induction h with
  | nil => exact .nil
  | cons hn _ ih => exact .cons (hn.rel d act) ih

/-- A loop whose parts tell of their visits tells of them turn by turn. -/
theorem told_fold (os : List Observer) (id : NodeId) (mode : Mode) (accuVar iterVar : String)
    (range init cond step result : Node) (act : Activation) :
    (do
      let range ← range.told os act
      match range.items? with
      | none => pure (range.orFail (.notIterable range.type.name))
      | some items =>
        let start ← (init.told os act).above 1
        let last ← mode.loop
          (fun accu item => (cond.told os (act.inLoop accuVar iterVar accu item)).above 2)
          (fun accu item => (step.told os (act.inLoop accuVar iterVar accu item)).above 2)
          items start
        (result.told os (.frame accuVar (some last) act)).above 2) =
      (⟨(fold id mode accuVar iterVar range init cond step result).eval act,
        ((fold id mode accuVar iterVar range init cond step result).placedVisits
          act).dropLast.flatMap (PlacedVisit.reports os)⟩ : Logged Report Value) := by
  rw [placedVisits, List.dropLast_concat]
  cases hitems : (range.eval act).items? with
  | none =>
    rw [eval_fold, hitems]
    ext : 1
    · simp [told, hitems]
    · simp [told, hitems, PlacedVisit.flatMap_reports_within, LoopPart.slots]
  | some items =>
    rw [eval_fold_of_items hitems, lastAccu, turns, hitems]
    -- the turns depend on values only, and these are the values of the loop without observers
    simp only [told, Logged.above, Logged.relabel, Mode.loop_eq_turns]
    ext : 1
    · simp [hitems]
    · simp only [hitems, Logged.log_bind, Option.getD_some, Option.isNone_some, Bool.false_eq_true,
        if_false, List.flatMap_append, List.flatMap_assoc, List.append_assoc,
        PlacedVisit.flatMap_reports_within, LoopPart.slots, Report.above_zero, List.map_id]
      congr 4
      funext turn
      rw [apply_ite (List.flatMap (PlacedVisit.reports os)), List.flatMap_nil,
        PlacedVisit.flatMap_reports_within]
      rfl

/-- If the branches of a ternary are told, so is the one that the condition selects. -/
theorem rel_branch {x y : m Value} {x' y' : Logged Report Value} (hx : d.Rel x x')
    (hy : d.Rel y y') (c : Value) :
    d.Rel
      (match c.branch with
      | .truthy => x
      | .falsy => y
      | .neither value => pure value)
      (match c.branch with
      | .truthy => x'
      | .falsy => y'
      | .neither value => pure value) := by
  cases c.branch with
  | truthy => exact hx
  | falsy => exact hy
  | neither value => exact d.rel_pure value

/-- A node whose children report all their visits reports all visits below it, and after them its
own, if it is a watch. -/
theorem rel_of_alike {n n' : Node} (h : Alike (Observed os) n n') (act : Activation) :
    d.Rel (n'.evalM act)
      ⟨n.eval act, (n.placedVisits act).dropLast.flatMap (PlacedVisit.reports os) ++
        PlacedVisit.reports [] ⟨⟨n, act⟩, []⟩⟩ := by
  cases h with
  | const id value => exact d.rel_pure value
  | ident id name => exact d.rel_pure _
  | @binary lhs lhs' rhs rhs' id op hl hr =>
    refine d.congr (d.rel_bind (hl.rel d act) fun l => d.rel_bind (hr.rel d act) fun r =>
      d.rel_pure _) ?_
    ext : 1
    · rfl
    · simp [told, placedVisits, PlacedVisit.reports, ownObservers]
  | @logical lhs lhs' rhs rhs' id mode connective hl hr =>
    cases mode with
    | exhaustive =>
      refine d.congr (d.rel_bind (hl.rel d act) fun l => d.rel_bind (hr.rel d act) fun r =>
        d.rel_pure _) ?_
      ext : 1
      · rfl
      · simp [told, placedVisits, PlacedVisit.reports, ownObservers]
    | shortCircuit =>
      have hrest : ∀ l : Value, d.Rel
          (if l.asBool? = some connective.absorbing then pure l
          else rhs'.evalM act >>= fun r => pure (connective.combine l r))
          (if l.asBool? = some connective.absorbing then pure l
          else rhs.told os act >>= fun r => pure (connective.combine l r)) := by
        intro l
        split
        · exact d.rel_pure l
        · exact d.rel_bind (hr.rel d act) fun r => d.rel_pure _
      refine d.congr (d.rel_bind (hl.rel d act) hrest) ?_
      rw [eval_logical]
      by_cases hla : (lhs.eval act).asBool? = some connective.absorbing
      · rw [Connective.combine_eq_lhs hla]
        ext : 1 <;> simp [told, placedVisits, PlacedVisit.reports, ownObservers, hla]
      · ext : 1 <;> simp [told, placedVisits, PlacedVisit.reports, ownObservers, hla]
  | @conditional cond cond' truthy truthy' falsy falsy' id mode hc ht hf =>
    cases mode with
    | exhaustive =>
      refine d.congr (d.rel_bind (hc.rel d act) fun c => d.rel_bind (ht.rel d act) fun t =>
        d.rel_bind (hf.rel d act) fun f => d.rel_pure _) ?_
      ext : 1
      · rfl
      · simp [told, placedVisits, PlacedVisit.reports, ownObservers]
    | shortCircuit =>
      refine d.congr (d.rel_bind (hc.rel d act)
        (rel_branch d (ht.rel d act) (hf.rel d act))) ?_
      rw [eval_conditional, Value.choose]
      cases hb : (cond.eval act).branch <;> ext : 1 <;>
        simp [told, placedVisits, PlacedVisit.reports, ownObservers, hb]
  | @list elems elems' id h =>
    refine d.congr (Literal.rel_list d.toMonadRel (forall₂_rel_of_observed d h act)) ?_
    -- the reports of the elements stand for their visits, so the expansion can be done at the end
    refine (Literal.app_list (Logged.expansion (PlacedVisit.reports os)) _).symm.trans ?_
    refine Logged.ext (value_list_placeEach id elems act) ?_
    rw [placedVisits, List.dropLast_concat]
    exact (List.append_nil _).symm
  | @map keys keys' vals vals' id hk hv =>
    refine d.congr (Literal.rel_map d.toMonadRel (forall₂_rel_of_observed d hk act)
      (forall₂_rel_of_observed d hv act)) ?_
    refine (Literal.app_map (Logged.expansion (PlacedVisit.reports os)) _ _).symm.trans ?_
    refine Logged.ext (value_map_placeEach id keys vals act) ?_
    rw [placedVisits, List.dropLast_concat]
    exact (List.append_nil _).symm
  | @fold range range' init init' cond cond' step step' result result' id mode accuVar iterVar hr hi
      hc hs hres =>
    have hrest : ∀ value : Value, d.Rel
        (match value.items? with
        | none => pure (value.orFail (.notIterable value.type.name))
        | some items => do
          let accu ← Host.checkout accuVar
          let start ← init'.evalM act
          let iter ← Host.checkout iterVar
          let (accu, iter) ← mode.iterate
            (fun accu iter => cond'.evalM (iter.scope (accu.scope act)))
            (fun accu iter => step'.evalM (iter.scope (accu.scope act)))
            items (accu.set start) iter
          let value ← result'.evalM (accu.scope act)
          Host.release iter
          Host.release accu
          pure value)
        (match value.items? with
        | none => pure (value.orFail (.notIterable value.type.name))
        | some items => do
          let start ← (init.told os act).above 1
          let last ← mode.loop
            (fun accu item => (cond.told os (act.inLoop accuVar iterVar accu item)).above 2)
            (fun accu item => (step.told os (act.inLoop accuVar iterVar accu item)).above 2)
            items start
          (result.told os (.frame accuVar (some last) act)).above 2) := by
      intro value
      cases value.items? with
      | none => exact d.rel_pure _
      | some items =>
        exact d.rel_fold (fun accu iter => cond'.evalM (iter.scope (accu.scope act)))
          (fun accu iter => step'.evalM (iter.scope (accu.scope act)))
          (fun accu => result'.evalM (accu.scope act)) (hi.rel d act)
          (fun accu item => hc.rel d (act.inLoop accuVar iterVar accu item))
          (fun accu item => hs.rel d (act.inLoop accuVar iterVar accu item))
          (fun last => hres.rel d (.frame accuVar (some last) act))
    refine d.congr (d.rel_bind (hr.rel d act) hrest)
      ((told_fold os id mode accuVar iterVar range init cond step result act).trans ?_)
    exact Logged.ext rfl (List.append_nil _).symm
  | @watch inner inner' observer h =>
    refine d.congr (d.rel_bind (h.rel d act) fun v => d.rel_bind (d.rel_report observer inner'.id v)
      fun _ => d.rel_pure v) ?_
    rw [h.id_eq, placedVisits, List.dropLast_concat]
    rfl
  | @setMembership lhs lhs' rhs rhs' id elemType elems hl hr =>
    refine d.congr (d.rel_bind (hl.rel d act) fun v => d.rel_pure _) ?_
    ext : 1
    · rfl
    · simp [told, placedVisits, PlacedVisit.reports, ownObservers]

/-- The node inside watches, one for each observer. -/
def watchedBy (os : List Observer) (n : Node) : Node := os.foldl (fun n o => watch o n) n

theorem id_watchedBy (os : List Observer) (n : Node) : (n.watchedBy os).id = n.id := by
  induction os generalizing n with
  | nil => rfl
  | cons o os ih => exact ih (watch o n)

/-- A node inside watches makes its own reports and then those of the watches, from inside out. -/
theorem rel_watchedBy {n : Node} {act : Activation} {x : Logged Report Value}
    (h : d.Rel (n.evalM act) x) (os : List Observer) :
    d.Rel ((n.watchedBy os).evalM act)
      ⟨x.value, x.log ++ os.map fun o => ⟨⟨o, n.id, x.value⟩, 0⟩⟩ := by
  induction os generalizing n x with
  | nil => exact d.congr h (Logged.ext rfl (List.append_nil _).symm)
  | cons o os ih =>
    have hwatch : d.Rel ((watch o n).evalM act) ⟨x.value, x.log ++ [⟨⟨o, n.id, x.value⟩, 0⟩]⟩ :=
      d.rel_bind h fun v => d.rel_bind (d.rel_report o n.id v) fun _ => d.rel_pure v
    refine d.congr (ih hwatch) (Logged.ext rfl ?_)
    rw [List.append_assoc]
    rfl

end

/-- One step: with watches around it, a node whose children report all their visits reports all of
its own. -/
theorem observed_watchedBy {n n' : Node} (h : Alike (Observed os) n n') :
    Observed os n (n'.watchedBy os) where
  id_eq := (id_watchedBy os n').trans (h.id_eq fun _ _ hc => hc.id_eq)
  rel d act := by
    have hid : n'.id = n.id := h.id_eq fun _ _ hc => hc.id_eq
    have hreports : PlacedVisit.reports os ⟨⟨n, act⟩, []⟩ =
        PlacedVisit.reports [] ⟨⟨n, act⟩, []⟩ ++ os.map fun o => ⟨⟨o, n.id, n.eval act⟩, 0⟩ := by
      rw [PlacedVisit.reports, PlacedVisit.reports, List.append_nil, List.map_append]
      rfl
    refine d.congr (rel_watchedBy d (rel_of_alike d h act) os) (Logged.ext rfl ?_)
    rw [told, placedVisits_eq_concat, List.dropLast_concat, List.flatMap_append,
      List.flatMap_singleton, hreports, List.append_assoc, hid]

/-! ## Whole trees -/

/-- The tree with watches around every node, one for each observer. -/
def watchedThroughout (os : List Observer) (t : Node) : Node :=
  t.transformM (m := Id) (watchedBy os)

theorem watchedThroughout_eq (os : List Observer) (t : Node) :
    t.watchedThroughout os =
      watchedBy os (t.mapChildren (m := Id) (watchedThroughout os)) :=
  transformM_eq_mapChildren_bind (m := Id) (watchedBy os) t

/-- With watches around every node, a tree reports all visits of the tree without. -/
theorem observed_watchedThroughout (os : List Observer) (t : Node) :
    Observed os t (t.watchedThroughout os) := by
  induction t using parts_induction with
  | step n ih =>
    rw [watchedThroughout_eq]
    exact observed_watchedBy (.of_mapChildren ih)

/-- Without further watches, a tree reports what its own watches see. -/
theorem observed_self (t : Node) : Observed [] t t := by
  induction t using parts_induction with
  | step n ih => exact observed_watchedBy (.of_parts ih)

end Node

end TreeEval
