import TreeEval.Proofs.Fusion

/-!
# What the nodes of a tree stand for

A node has an identifier that says which expression it stands for, so that reports and unknowns
speak of expressions and not of the nodes that planning has put in their place. `Node.sourceIds`
lists the identifiers of a tree from the root down; watches are left out, since a watch stands for
what it wraps.

Built-in decorators never make up an identifier. A rewritten node stands for what the node stood for
before, and its tree names a part of what was named, each as often as before at most, and in the
same order. `tracesBack_of_rewrite` says so of one decorator at one node, `TracesBack.of_alike`
carries it from the children of a node to the node, and `sourceIds_apply` is the result on
pipelines.
-/

namespace TreeEval

open Builtin

namespace Node

variable {n n' t' : Node}

/-! ## Identifiers from the root down -/

/-- What the nodes of a tree stand for, as often as there are nodes that stand for it. A watch does
not count, because it stands for what it wraps. -/
def sourceIds (t : Node) : List NodeId := (t.preorder.filter fun m => m.kind ≠ .watch).map id

/-- The identifier that a node adds to those of its children, if it adds one. -/
def ownSourceIds (n : Node) : List NodeId := if n.kind = .watch then [] else [n.id]

theorem sourceIds_eq_append (n : Node) :
    n.sourceIds = n.ownSourceIds ++ n.children.flatMap sourceIds := by
  have hchildren : ((n.children.flatMap preorder).filter fun m => m.kind ≠ .watch).map id =
      n.children.flatMap sourceIds := by
    rw [List.filter_flatMap, List.map_flatMap]
    rfl
  rw [sourceIds, preorder_eq_cons, ownSourceIds, List.filter_cons]
  by_cases h : n.kind = .watch
  · rw [if_neg (by simp [h]), if_pos h, hchildren, List.nil_append]
  · rw [if_pos (decide_eq_true h), if_neg h, List.map_cons, hchildren, List.singleton_append]

/-! ## Tracing back -/

/-- A tree has come from another one: it stands for the same, and what its nodes stand for are some
of the things that the nodes of the other stand for, in their order. -/
structure TracesBack (t t' : Node) : Prop where
  id_eq : t'.id = t.id
  sublist : t'.sourceIds.Sublist t.sourceIds

theorem TracesBack.refl (t : Node) : TracesBack t t := ⟨rfl, List.Sublist.refl _⟩

theorem TracesBack.trans (h : TracesBack n n') (h' : TracesBack n' t') : TracesBack n t' :=
  ⟨h'.id_eq.trans h.id_eq, h'.sublist.trans h.sublist⟩

theorem flatMap_sourceIds_sublist {cs cs' : List Node} (h : List.Forall₂ TracesBack cs cs') :
    (cs'.flatMap sourceIds).Sublist (cs.flatMap sourceIds) := by
  induction h with
  | nil => exact List.Sublist.refl _
  | cons hc _ ih =>
    rw [List.flatMap_cons, List.flatMap_cons]
    exact hc.sublist.append ih

/-- One step of a pass: a node put together from children that trace back does so itself. -/
theorem TracesBack.of_alike (h : Alike TracesBack n n') : TracesBack n n' := by
  have hid : n'.id = n.id := h.id_eq fun _ _ hc => hc.id_eq
  refine ⟨hid, ?_⟩
  rw [sourceIds_eq_append, sourceIds_eq_append, ownSourceIds, ownSourceIds, h.kind_eq, hid]
  exact (List.Sublist.refl _).append (flatMap_sourceIds_sublist h.forall₂_children)

/-- A node of another kind with the same children stands for the same. -/
theorem TracesBack.of_children_eq (hid : n'.id = n.id) (hkind : n.kind ≠ .watch)
    (hkind' : n'.kind ≠ .watch) (hchildren : n'.children = n.children) : TracesBack n n' := by
  refine ⟨hid, ?_⟩
  rw [sourceIds_eq_append, sourceIds_eq_append, ownSourceIds, ownSourceIds, if_neg hkind,
    if_neg hkind', hid, hchildren]

/-- A constant in the place of a node stands for the node, and nothing stands for what was below. -/
theorem tracesBack_const {id : NodeId} {value : Value} (hid : n.id = id) (hkind : n.kind ≠ .watch) :
    TracesBack n (const id value) := by
  refine ⟨hid.symm, ?_⟩
  rw [sourceIds_eq_append n, ownSourceIds, if_neg hkind, hid]
  exact List.sublist_append_left [id] _

theorem tracesBack_of_computedAhead (h : ComputedAhead n t') : TracesBack n t' := by
  cases h with
  | unchanged => exact .refl n
  | list id h => exact tracesBack_const rfl nofun
  | map id hk hv => exact tracesBack_const rfl nofun
  | emptyMembership id h => exact tracesBack_const rfl nofun
  | membership id h hs => exact .of_children_eq rfl nofun nofun rfl

theorem tracesBack_madeExhaustive (n : Node) : TracesBack n n.madeExhaustive := by
  cases n with
  | logical id mode connective lhs rhs =>
    cases mode <;> exact .of_children_eq rfl nofun nofun rfl
  | conditional id mode cond truthy falsy =>
    cases mode <;> exact .of_children_eq rfl nofun nofun rfl
  | fold id mode accuVar iterVar range init cond step result =>
    cases mode <;> exact .of_children_eq rfl nofun nofun rfl
  | _ => exact .refl _

/-- A watch around a node adds nothing. -/
theorem tracesBack_watch (o : Observer) (n : Node) : TracesBack n (watch o n) := by
  have hids : (watch o n).sourceIds = n.sourceIds := by
    rw [sourceIds_eq_append (watch o n)]
    exact List.append_nil _
  exact ⟨rfl, hids ▸ List.Sublist.refl _⟩

/-- What a built-in decorator puts in the place of a node traces back to the node. -/
theorem tracesBack_of_rewrite {b : Builtin} (h : b.rewrite n = .ok t') : TracesBack n t' := by
  cases b with
  | makeExhaustive =>
    rw [rewrite_makeExhaustive] at h
    cases h
    exact tracesBack_madeExhaustive n
  | computeAhead => exact tracesBack_of_computedAhead (computedAhead_of_rewrite h)
  | observe o =>
    cases h
    exact tracesBack_watch o n

theorem tracesBack_of_rewriteAll {bs : List Builtin} (h : rewriteAll bs n = .ok t') :
    TracesBack n t' := by
  induction bs generalizing n with
  | nil =>
    cases h
    exact .refl _
  | cons b bs ih =>
    rw [rewriteAll_cons] at h
    obtain ⟨m, hm, hrest⟩ := bind_eq_ok_iff.1 h
    exact (tracesBack_of_rewrite hm).trans (ih hrest)

/-- A pipeline of built-in decorators, in any order, returns a tree that stands for the same as the
tree it was given. Leaving out watches, what the nodes of the new tree stand for are some of the
things that the nodes of the old one stand for, from the root down and in the same order. -/
theorem sourceIds_apply {bs : List Builtin} {t t' : Node}
    (h : ((Pipeline.ofBuiltins bs).apply t).outcome.1 = .ok t') :
    t'.id = t.id ∧ t'.sourceIds.Sublist t.sourceIds := by
  rw [apply_ofBuiltins] at h
  have htraces : TracesBack t t' := by
    refine transformM_induction (fun {n n' t'} hn hv => ?_) h
    obtain ⟨-, (hrewrite : rewriteAll bs n' = .ok t')⟩ := visit_eq_ok_iff.1 hv
    exact (TracesBack.of_alike hn).trans (tracesBack_of_rewriteAll hrewrite)
  exact ⟨htraces.id_eq, htraces.sublist⟩

/-- The elements of the folded list are no longer spoken of. The operand that the look-up does
without still is, and watches, old and new, make no difference. -/
theorem sourceIds_apply_watchedMembership :
    let elems : List Node := [const ⟨5⟩ (.int 1), const ⟨6⟩ (.int 2)]
    let t : Node := watch (.values "own") (logical ⟨1⟩ .shortCircuit .or
      (binary ⟨2⟩ .inList (ident ⟨3⟩ "x") (list ⟨4⟩ elems)) (ident ⟨7⟩ "y"))
    let bs : List Builtin := [computeAhead, makeExhaustive, .observe .tracker, computeAhead]
    ∃ t', ((Pipeline.ofBuiltins bs).apply t).outcome.1 = .ok t' ∧
      (t'.id = t.id ∧ t'.sourceIds.Sublist t.sourceIds) ∧
        t.sourceIds = [⟨1⟩, ⟨2⟩, ⟨3⟩, ⟨4⟩, ⟨5⟩, ⟨6⟩, ⟨7⟩] ∧
          t'.sourceIds = [⟨1⟩, ⟨2⟩, ⟨3⟩, ⟨4⟩, ⟨7⟩] := by
  intro elems t bs
  have h : ((Pipeline.ofBuiltins bs).apply t).outcome.1 = .ok _ := rfl
  exact ⟨_, h, sourceIds_apply h, by decide, by decide⟩

end Node

end TreeEval
