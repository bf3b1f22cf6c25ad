import Mathlib.Data.List.Flatten
import TreeEval.Proofs.Congruence
import TreeEval.Proofs.Observation

/-!
# What shows of a visit

Of a visit to a node, observers learn which node it is and what its value is. `Node.sightings` is
what shows of an evaluation in this way, and what the observers of all nodes are told can be read off
it, by `log_watchedThroughout`. So two trees can be compared by their sightings even though their
nodes differ. `sightings_watchedThroughout` compares a tree with the same tree inside watches, and
`ShowsMore` is the relation between a tree and one that visits more, to the same value.
-/

namespace TreeEval

/-- What shows of a visit. -/
structure Sighting where
  /-- Whom the node reports to by itself. -/
  observers : List Observer
  /-- Which node it is. -/
  id : NodeId
  /-- Its value. -/
  value : Value

/-- What shows of the visit. -/
def Visit.sighting (v : Visit) : Sighting := ⟨v.node.ownObservers, v.node.id, v.value⟩

namespace Sighting

/-- The reports of a visit if all nodes are observed by `os`. -/
def reports (os : List Observer) (s : Sighting) : List Observation :=
  (s.observers ++ os).map fun o => ⟨o, s.id, s.value⟩

/-- The visit, and then those to the watches around the node, one for each observer. -/
def withWatches (os : List Observer) (s : Sighting) : List Sighting :=
  s :: os.map fun o => ⟨[o], s.id, s.value⟩

end Sighting

namespace Node

/-- What shows of an evaluation, in the order in which the visits end. -/
def sightings (n : Node) (act : Activation) : List Sighting := (n.visits act).map Visit.sighting

theorem sightings_eq_concat (n : Node) (act : Activation) :
    n.sightings act =
      (n.visitsBelow act).map Visit.sighting ++ [⟨n.ownObservers, n.id, n.eval act⟩] := by
  rw [sightings, visits_eq_concat, List.map_append]
  rfl

/-! ## Reports -/

/-- With watches around every node, a tree reports all its visits. -/
theorem log_watchedThroughout (os : List Observer) (n : Node) (act : Activation) :
    ((n.watchedThroughout os).trace act).log =
      (n.sightings act).flatMap (Sighting.reports os) := by
  rw [(observed_watchedThroughout os n).trace_eq, sightings, List.flatMap_map]
  rfl

/-! ## Trees inside watches -/

@[simp] theorem eval_watchedBy (os : List Observer) (n : Node) : (n.watchedBy os).eval = n.eval := by
  induction os generalizing n with
  | nil => rfl
  | cons o os ih => exact ih (watch o n)

/-- The watches around a node are visited after it, from inside out. -/
theorem sightings_watchedBy (os : List Observer) (n : Node) (act : Activation) :
    (n.watchedBy os).sightings act =
      n.sightings act ++ os.map fun o => ⟨[o], n.id, n.eval act⟩ := by
  induction os generalizing n with
  | nil => exact (List.append_nil _).symm
  | cons o os ih =>
    have hwatch : (watch o n).sightings act = n.sightings act ++ [⟨[o], n.id, n.eval act⟩] := by
      rw [sightings, visits, List.map_append]
      rfl
    show ((watch o n).watchedBy os).sightings act = _
    rw [ih, hwatch, List.append_assoc]
    rfl

/-- Visits of a tree related to those of the same tree inside watches. -/
def watching (os : List Observer) : MonadRel (Logged Visit) (Logged Visit) :=
  (Logged.expansion fun v : Visit => v.sighting.withWatches os).equalizer
    (Logged.relabeling Visit.sighting)

/-- One step: if the children of a node are related to those inside watches, so is the node. -/
theorem watching_watchedBy {os : List Observer} {n n' : Node}
    (hid : n'.id = n.id)
    (h : Alike (fun c c' => ∀ act, (watching os).Rel (c.visited act) (c'.visited act)) n n')
    (act : Activation) :
    (watching os).Rel (n.visited act) ((n'.watchedBy os).visited act) := by
  have hbelow := rel_visitedBelow (watching os) h act
  have heval : n.eval act = n'.eval act := congrArg Logged.value hbelow
  have hlog : (n.visitsBelow act).flatMap (fun v => v.sighting.withWatches os) =
      (n'.visitsBelow act).map Visit.sighting := congrArg Logged.log hbelow
  refine Logged.ext (heval.trans (congrFun (eval_watchedBy os n') act).symm) ?_
  show (n.visits act).flatMap (fun v => v.sighting.withWatches os) =
    (n'.watchedBy os).sightings act
  rw [sightings_watchedBy, sightings_eq_concat, visits_eq_concat, List.flatMap_append,
    List.flatMap_singleton, hlog, h.ownObservers_eq, hid, ← heval, List.append_assoc]
  rfl

/-- A tree inside watches is visited as the tree is, and each visit to a node is followed by those
to the watches around it. -/
theorem sightings_watchedThroughout (os : List Observer) (t : Node) (act : Activation) :
    (t.watchedThroughout os).sightings act =
      (t.sightings act).flatMap (Sighting.withWatches os) := by
  have hvisited : ∀ act, (watching os).Rel (t.visited act)
      ((t.watchedThroughout os).visited act) := by
    induction t using parts_induction with
    | step n ih =>
      rw [watchedThroughout_eq]
      have hobserved : Alike (Observed os) n (n.mapChildren (m := Id) (watchedThroughout os)) :=
        .of_mapChildren fun c _ => observed_watchedThroughout os c
      exact watching_watchedBy (hobserved.id_eq fun _ _ hc => hc.id_eq) (.of_mapChildren ih)
  have hlog := congrArg Logged.log (hvisited act)
  exact hlog.symm.trans (List.flatMap_map ..).symm

/-! ## Trees that show more -/

/-- Visits, all of them good, against others of which more may show: the values are the same, and
what shows of the first visits shows of the second ones in the same order. -/
def within (good : Visit → Prop) : MonadRel (Logged Visit) (Logged Visit) where
  Rel x y := (∀ v ∈ x.log, good v) →
    x.value = y.value ∧ (x.log.map Visit.sighting).Sublist (y.log.map Visit.sighting)
  rel_pure _ _ := ⟨rfl, List.nil_sublist _⟩
  rel_bind := by
    intro α β x y f g hxy hfg hgood
    obtain ⟨hx, hf⟩ := List.forall_mem_append.1 hgood
    obtain ⟨hvalue, hlog⟩ := hxy hx
    obtain ⟨hvalue', hlog'⟩ := hfg x.value hf
    rw [hvalue] at hvalue' hlog'
    refine ⟨by rwa [Logged.value_bind, Logged.value_bind, hvalue], ?_⟩
    rw [Logged.log_bind, Logged.log_bind, List.map_append, List.map_append, hvalue]
    exact hlog.append hlog'

/-- The second tree has the value of the first one and shows at least as much, under every
activation under which all visits to the first one are good. -/
structure ShowsMore (good : Visit → Prop) (n n' : Node) : Prop where
  id_eq : n'.id = n.id
  rel : ∀ act, (within good).Rel (n.visited act) (n'.visited act)

namespace ShowsMore

variable {good : Visit → Prop} {n n' : Node}

theorem eval_eq (h : ShowsMore good n n') {act : Activation} (hgood : ∀ v ∈ n.visits act, good v) :
    n'.eval act = n.eval act := (h.rel act hgood).1.symm

theorem sublist (h : ShowsMore good n n') {act : Activation}
    (hgood : ∀ v ∈ n.visits act, good v) : (n.sightings act).Sublist (n'.sightings act) :=
  (h.rel act hgood).2

theorem refl (n : Node) : ShowsMore good n n := ⟨rfl, fun _ _ => ⟨rfl, List.Sublist.refl _⟩⟩

theorem trans {n'' : Node} (h : ShowsMore good n n') (h' : ShowsMore (fun _ => True) n' n'') :
    ShowsMore good n n'' where
  id_eq := h'.id_eq.trans h.id_eq
  rel act := by
    intro hgood
    obtain ⟨hvalue, hlog⟩ := h.rel act hgood
    obtain ⟨hvalue', hlog'⟩ := h'.rel act fun _ _ => trivial
    exact ⟨hvalue.trans hvalue', hlog.trans hlog'⟩

/-- Nodes that are the same to observers may be compared by what shows of the visits below them. -/
theorem of_below (hid : n'.id = n.id) (hobservers : n'.ownObservers = n.ownObservers)
    (h : ∀ act, good ⟨n, act⟩ → (within good).Rel (n.visitedBelow act) (n'.visitedBelow act)) :
    ShowsMore good n n' where
  id_eq := hid
  rel act := by
    intro hgood
    have hsplit : (∀ v ∈ n.visitsBelow act, good v) ∧ good ⟨n, act⟩ := by
      rw [visited, visits_eq_concat, List.forall_mem_append] at hgood
      exact ⟨hgood.1, hgood.2 _ List.mem_cons_self⟩
    obtain ⟨hvalue, hlog⟩ := h act hsplit.2 hsplit.1
    have hvalue : n.eval act = n'.eval act := hvalue
    refine ⟨hvalue, ?_⟩
    show (n.sightings act).Sublist (n'.sightings act)
    rw [sightings_eq_concat, sightings_eq_concat, hid, hobservers, hvalue]
    exact hlog.append (List.Sublist.refl _)

/-- One step: nodes of one shape show more if their children do. -/
theorem of_alike (h : Alike (ShowsMore good) n n') : ShowsMore good n n' :=
  of_below (h.id_eq fun _ _ hc => hc.id_eq) h.ownObservers_eq fun act _ =>
    rel_visitedBelow (within good) (h.imp_of_mem fun _ _ _ hc => hc.rel) act

end ShowsMore

end Node

end TreeEval
