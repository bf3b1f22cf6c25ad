import Mathlib.Algebra.GroupWithZero.Nat
import TreeEval.Proofs.Visits

/-!
# Visits and the loops around them

A visit takes place inside some loops, in one part of each: their items are being computed, or the
start of their accumulator, or one of their turns or their result. `Node.placedVisits` lists the
visits of an evaluation as `Node.visits` does, each with the parts of loops that it lies in. From
these follows how many scratch slots are in use around it.
-/

namespace TreeEval

/-- The parts of a loop. -/
inductive LoopPart where
  | range
  | init
  | cond
  | step
  | result

/-- How many slots a loop has while a part of it is evaluated. It takes the one of the accumulator
when the items are known, and the one of the item when the accumulator has been started. -/
def LoopPart.slots : LoopPart → Nat
  | range => 0
  | init => 1
  | cond | step | result => 2

/-- A visit, and the parts of loops around it. -/
structure PlacedVisit extends Visit where
  /-- The part of the outermost loop first. -/
  inside : List LoopPart

namespace PlacedVisit

/-- The same visit as one in a part of a further loop. -/
def within (part : LoopPart) (v : PlacedVisit) : PlacedVisit :=
  { v with inside := part :: v.inside }

/-- How many slots the loops around the visit have. -/
def slots (v : PlacedVisit) : Nat := (v.inside.map LoopPart.slots).sum

theorem slots_within (part : LoopPart) (v : PlacedVisit) :
    (v.within part).slots = part.slots + v.slots := List.sum_cons

end PlacedVisit

namespace Node

mutual

/-- The visits of an evaluation with the loops around them, in the order in which they end. -/
def placedVisits : Node → Activation → List PlacedVisit
  | n@(const _ _), act => [⟨⟨n, act⟩, []⟩]
  | n@(ident _ _), act => [⟨⟨n, act⟩, []⟩]
  | n@(binary _ _ lhs rhs), act => lhs.placedVisits act ++ rhs.placedVisits act ++ [⟨⟨n, act⟩, []⟩]
  | n@(logical _ .shortCircuit connective lhs rhs), act =>
    lhs.placedVisits act ++
      (if (lhs.eval act).asBool? = some connective.absorbing then [] else rhs.placedVisits act) ++
      [⟨⟨n, act⟩, []⟩]
  | n@(logical _ .exhaustive _ lhs rhs), act =>
    lhs.placedVisits act ++ rhs.placedVisits act ++ [⟨⟨n, act⟩, []⟩]
  | n@(conditional _ .shortCircuit cond truthy falsy), act =>
    cond.placedVisits act ++
      (match (cond.eval act).branch with
        | .truthy => truthy.placedVisits act
        | .falsy => falsy.placedVisits act
        | .neither _ => []) ++
      [⟨⟨n, act⟩, []⟩]
  | n@(conditional _ .exhaustive cond truthy falsy), act =>
    cond.placedVisits act ++ truthy.placedVisits act ++ falsy.placedVisits act ++
      [⟨⟨n, act⟩, []⟩]
  | n@(list _ elems), act => (Literal.list (placeEach elems act)).log ++ [⟨⟨n, act⟩, []⟩]
  | n@(map _ keys vals), act =>
    (Literal.map (placeEach keys act) (placeEach vals act)).log ++ [⟨⟨n, act⟩, []⟩]
  | n@(fold _ mode accuVar iterVar range init cond step result), act =>
    (range.placedVisits act).map (.within .range) ++
      (if (range.eval act).items?.isNone then []
      else
        (init.placedVisits act).map (.within .init) ++
          (n.turns act).flatMap (fun turn =>
            let inside := act.inLoop accuVar iterVar turn.1 turn.2
            (cond.placedVisits inside).map (.within .cond) ++
              if mode.stopsAt (cond.eval inside) then []
              else (step.placedVisits inside).map (.within .step)) ++
          (result.placedVisits (.frame accuVar (some (n.lastAccu act)) act)).map
            (.within .result)) ++
      [⟨⟨n, act⟩, []⟩]
  | n@(watch _ inner), act => inner.placedVisits act ++ [⟨⟨n, act⟩, []⟩]
  | n@(setMembership _ _ _ lhs _), act => lhs.placedVisits act ++ [⟨⟨n, act⟩, []⟩]

/-- The values of some nodes, each with the placed visits that lead to it. -/
def placeEach : List Node → Activation → List (Logged PlacedVisit Value)
  | [], _ => []
  | n :: ns, act => ⟨n.eval act, n.placedVisits act⟩ :: placeEach ns act

end

theorem placeEach_eq_map (ns : List Node) (act : Activation) :
    placeEach ns act = ns.map fun n => ⟨n.eval act, n.placedVisits act⟩ := by
  induction ns with
  | nil => rfl
  | cons n ns ih => rw [placeEach, ih, List.map_cons]

theorem map_relabel_placeEach {ns : List Node}
    (h : ∀ n ∈ ns, ∀ act, (n.placedVisits act).map PlacedVisit.toVisit = n.visits act)
    (act : Activation) :
    (placeEach ns act).map (Logged.relabel PlacedVisit.toVisit) = visitEach ns act := by
  rw [placeEach_eq_map, visitEach_eq_map, List.map_map]
  refine List.map_congr_left fun n hn => ?_
  exact Logged.ext rfl (h n hn act)

theorem value_list_placeEach (id : NodeId) (elems : List Node) (act : Activation) :
    (Literal.list (placeEach elems act)).value = (list id elems).eval act := by
  rw [placeEach_eq_map]
  exact value_list_notes _ id elems act

theorem value_map_placeEach (id : NodeId) (keys vals : List Node) (act : Activation) :
    (Literal.map (placeEach keys act) (placeEach vals act)).value =
      (map id keys vals).eval act := by
  rw [placeEach_eq_map, placeEach_eq_map]
  exact value_map_notes _ id keys vals act

/-- The visit to a node is the last one of its evaluation, and is outside of all its loops. -/
theorem placedVisits_eq_concat (n : Node) (act : Activation) :
    n.placedVisits act = (n.placedVisits act).dropLast ++ [⟨⟨n, act⟩, []⟩] := by
  cases n with
  | const id value => rfl
  | ident id name => rfl
  | logical id mode connective lhs rhs =>
    cases mode <;> rw [placedVisits, List.dropLast_concat]
  | conditional id mode cond truthy falsy =>
    cases mode <;> rw [placedVisits, List.dropLast_concat]
  | _ => rw [placedVisits, List.dropLast_concat]

/-- Without the loops around them, these are the visits of the evaluation. -/
theorem map_toVisit_placedVisits (n : Node) (act : Activation) :
    (n.placedVisits act).map PlacedVisit.toVisit = n.visits act := by
  have hwithin : ∀ (part : LoopPart) (vs : List PlacedVisit),
      (vs.map (PlacedVisit.within part)).map PlacedVisit.toVisit = vs.map PlacedVisit.toVisit := by
    intro part vs
    rw [List.map_map]
    rfl
  induction n generalizing act with
  | const id value => rfl
  | ident id name => rfl
  | binary id op lhs rhs hl hr => simp [placedVisits, visits, hl, hr]
  | logical id mode connective lhs rhs hl hr =>
    cases mode with
    | shortCircuit => simp [placedVisits, visits, hl, hr, apply_ite (List.map _)]
    | exhaustive => simp [placedVisits, visits, hl, hr]
  | conditional id mode cond truthy falsy hc ht hf =>
    cases mode with
    | shortCircuit =>
      rw [placedVisits, visits]
      cases (cond.eval act).branch <;> simp [hc, ht, hf]
    | exhaustive => simp [placedVisits, visits, hc, ht, hf]
  | list id elems ih =>
    rw [placedVisits, visits, List.map_append, ← map_relabel_placeEach ih]
    congr 1
    exact congrArg Logged.log (Literal.app_list (Logged.relabeling PlacedVisit.toVisit) _)
  | map id keys vals hk hv =>
    rw [placedVisits, visits, List.map_append, ← map_relabel_placeEach hk,
      ← map_relabel_placeEach hv]
    congr 1
    exact congrArg Logged.log (Literal.app_map (Logged.relabeling PlacedVisit.toVisit) _ _)
  | fold id mode accuVar iterVar range init cond step result hr hi hc hs hres =>
    rw [placedVisits, visits]
    simp only [List.map_append, hwithin, hr, apply_ite (List.map PlacedVisit.toVisit), hi, hres,
      List.map_flatMap, hc, hs, List.map_nil, List.map_cons]
  | watch observer inner ih => simp [placedVisits, visits, ih]
  | setMembership id elemType elems lhs rhs hl hr => simp [placedVisits, visits, hl]

end Node

end TreeEval
