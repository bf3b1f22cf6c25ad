import TreeEval.Eval.Machine
import TreeEval.Node.Induction
import TreeEval.Proofs.Loop

/-!
# Free names

A loop gives a meaning of its own to its two variables: to both in its condition and its step, and
to the accumulator alone in its result. A name that no loop around it captures is free, and means
what the activation says.

`Node.freeIdents` lists the free names of a tree together with the nodes that ask for them.
`evalM_congr` says that an evaluation depends on nothing else in its activation: whatever the host
is, it takes the same steps wherever the free names mean the same.
-/

namespace TreeEval

namespace Node

/-! ## Names that no loop captures -/

mutual

/-- The free names of a tree, each with the identifier of the node that asks for it, from left to
right. -/
def freeIdents : Node → List (NodeId × String)
  | const _ _ => []
  | ident id name => [(id, name)]
  | binary _ _ lhs rhs | logical _ _ _ lhs rhs | setMembership _ _ _ lhs rhs =>
    lhs.freeIdents ++ rhs.freeIdents
  | conditional _ _ cond truthy falsy => cond.freeIdents ++ truthy.freeIdents ++ falsy.freeIdents
  | list _ elems => freeIdentsEach elems
  | map _ keys vals => freeIdentsEach keys ++ freeIdentsEach vals
  | fold _ _ accuVar iterVar range init cond step result =>
    range.freeIdents ++ init.freeIdents ++
      (cond.freeIdents ++ step.freeIdents).filter (fun x => x.2 ≠ accuVar ∧ x.2 ≠ iterVar) ++
      result.freeIdents.filter (fun x => x.2 ≠ accuVar)
  | watch _ inner => inner.freeIdents

/-- The free names of some trees. -/
def freeIdentsEach : List Node → List (NodeId × String)
  | [] => []
  | n :: ns => n.freeIdents ++ freeIdentsEach ns

end

/-- The free names of a tree. -/
def freeNames (n : Node) : List String := n.freeIdents.map Prod.snd

theorem freeIdentsEach_eq_flatMap (ns : List Node) : freeIdentsEach ns = ns.flatMap freeIdents := by
  induction ns with
  | nil => rfl
  | cons n ns ih => rw [freeIdentsEach, ih, List.flatMap_cons]

/-! ## Scopes -/

/-- In the two activations, the free names of a tree mean related values. -/
def FreeRel (R : Value → Value → Prop) (n : Node) (a b : Activation) : Prop :=
  ∀ x ∈ n.freeIdents, R (a.lookup x.1 x.2) (b.lookup x.1 x.2)

end Node

section

variable {R : Value → Value → Prop} {a b : Activation}

/-- A variable is put in front of both activations. What they say of its name no longer matters. -/
theorem Activation.rel_lookup_frame {own name : String} {id : NodeId} {v w : Value} (hvw : R v w)
    (h : name ≠ own → R (a.lookup id name) (b.lookup id name)) :
    R ((frame own (some v) a).lookup id name) ((frame own (some w) b).lookup id name) := by
  rw [lookup_frame, lookup_frame]
  split
  · exact hvw
  next hne => exact h (Ne.symm hne)

namespace Node

theorem freeRel_list_iff {id : NodeId} {elems : List Node} :
    (list id elems).FreeRel R a b ↔ ∀ n ∈ elems, n.FreeRel R a b := by
  rw [FreeRel, freeIdents, freeIdentsEach_eq_flatMap, List.forall_mem_flatMap]
  rfl

theorem freeRel_map_iff {id : NodeId} {keys vals : List Node} :
    (map id keys vals).FreeRel R a b ↔
      (∀ n ∈ keys, n.FreeRel R a b) ∧ ∀ n ∈ vals, n.FreeRel R a b := by
  rw [FreeRel, freeIdents, freeIdentsEach_eq_flatMap, freeIdentsEach_eq_flatMap,
    List.forall_mem_append, List.forall_mem_flatMap, List.forall_mem_flatMap]
  rfl

/-- The free names of a loop and its variables are all that is free in its parts. -/
theorem FreeRel.parts_of_fold {id : NodeId} {mode : Mode} {accuVar iterVar : String}
    {range init cond step result : Node}
    (h : (fold id mode accuVar iterVar range init cond step result).FreeRel R a b) :
    range.FreeRel R a b ∧ init.FreeRel R a b ∧
      (∀ {accu accu' item item' : Value}, R accu accu' → R item item' →
        cond.FreeRel R (a.inLoop accuVar iterVar accu item)
            (b.inLoop accuVar iterVar accu' item') ∧
          step.FreeRel R (a.inLoop accuVar iterVar accu item)
            (b.inLoop accuVar iterVar accu' item')) ∧
      ∀ {last last' : Value}, R last last' →
        result.FreeRel R (.frame accuVar (some last) a) (.frame accuVar (some last') b) := by
  simp only [FreeRel, freeIdents, List.forall_mem_append, List.mem_filter, decide_eq_true_eq,
    and_imp] at h
  obtain ⟨⟨⟨hrange, hinit⟩, hcond, hstep⟩, hresult⟩ := h
  refine ⟨hrange, hinit, fun haccu hitem => ⟨fun x hx => ?_, fun x hx => ?_⟩, fun hlast x hx => ?_⟩
  · exact Activation.rel_lookup_frame hitem fun hi => Activation.rel_lookup_frame haccu fun ha =>
      hcond x hx ha hi
  · exact Activation.rel_lookup_frame hitem fun hi => Activation.rel_lookup_frame haccu fun ha =>
      hstep x hx ha hi
  · exact Activation.rel_lookup_frame hlast fun ha => hresult x hx ha

end Node

end

/-! ## Hosts -/

section

variable {m : Type → Type} [Monad m]

/-- A host that hands out slots under the names they are asked for. Whatever else a slot may be,
nothing is read from it before it is set. -/
class Host.KeepsNames (m : Type → Type) [Monad m] [Host m] : Prop where
  checkout_bind_congr {α : Type} {name : String} {f g : Scratch.Slot → m α}
    (h : ∀ value, f ⟨name, value⟩ = g ⟨name, value⟩) :
    Host.checkout name >>= f = Host.checkout name >>= g

instance [LawfulMonad m] [Host m] [Host.Slotless m] : Host.KeepsNames m where
  checkout_bind_congr h := by
    rw [Host.Slotless.checkout_eq, pure_bind, pure_bind]
    exact h none

instance : Host.KeepsNames (StateM Machine) where
  checkout_bind_congr {α name f g} h := by
    funext machine
    have hslot : (machine.pool.checkout name).1 = ⟨name, none⟩ := Scratch.Pool.fst_checkout _ _
    show f (machine.pool.checkout name).1 _ = g (machine.pool.checkout name).1 _
    rw [hslot, h none]

/-- Loops go through the same turns if their conditions and steps do the same in every turn. -/
theorem Mode.iterate_bind_congr [LawfulMonad m] {α : Type} (mode : Mode)
    {accuVar iterVar : String} {cond cond' step step' : Scratch.Slot → Scratch.Slot → m Value}
    (hcond : ∀ accu item, cond ⟨accuVar, some accu⟩ ⟨iterVar, some item⟩ =
      cond' ⟨accuVar, some accu⟩ ⟨iterVar, some item⟩)
    (hstep : ∀ accu item, step ⟨accuVar, some accu⟩ ⟨iterVar, some item⟩ =
      step' ⟨accuVar, some accu⟩ ⟨iterVar, some item⟩)
    {f g : Scratch.Slot × Scratch.Slot → m α}
    (hfg : ∀ last iter, f (⟨accuVar, some last⟩, iter) = g (⟨accuVar, some last⟩, iter))
    (items : List Value) (accu : Value) (old : Option Value) :
    mode.iterate cond step items ⟨accuVar, some accu⟩ ⟨iterVar, old⟩ >>= f =
      mode.iterate cond' step' items ⟨accuVar, some accu⟩ ⟨iterVar, old⟩ >>= g := by
  induction items generalizing accu old with
  | nil =>
    rw [Mode.iterate, Mode.iterate, pure_bind, pure_bind]
    exact hfg accu _
  | cons item rest ih =>
    simp only [Mode.iterate, Scratch.Slot.set, bind_assoc, hcond]
    congr 1
    funext go
    split
    · rw [pure_bind, pure_bind]
      exact hfg accu _
    · simp only [bind_assoc, hstep]
      congr 1
      funext next
      exact ih next _

namespace Node

/-- An evaluation is the same, with all its effects, in two activations in which the free names
mean the same. -/
theorem evalM_congr [LawfulMonad m] [Host m] [Host.KeepsNames m] {n : Node} {a b : Activation}
    (h : n.FreeRel Eq a b) : n.evalM a = (n.evalM b : m Value) := by
  induction n generalizing a b with
  | const id value => rfl
  | ident id name => rw [evalM, evalM, h (id, name) List.mem_cons_self]
  | binary id op lhs rhs ihl ihr =>
    rw [FreeRel, freeIdents, List.forall_mem_append] at h
    rw [evalM, evalM, ihl h.1, ihr h.2]
  | logical id mode connective lhs rhs ihl ihr =>
    rw [FreeRel, freeIdents, List.forall_mem_append] at h
    cases mode <;> rw [evalM, evalM, ihl h.1, ihr h.2]
  | conditional id mode cond truthy falsy ihc iht ihf =>
    rw [FreeRel, freeIdents, List.forall_mem_append, List.forall_mem_append] at h
    cases mode <;> rw [evalM, evalM, ihc h.1.1, iht h.1.2, ihf h.2]
  | list id elems ih =>
    rw [freeRel_list_iff] at h
    rw [evalM, evalM, evalEachM_eq_map, evalEachM_eq_map,
      List.map_congr_left fun n hn => ih n hn (h n hn)]
  | map id keys vals ihk ihv =>
    obtain ⟨hkeys, hvals⟩ := freeRel_map_iff.1 h
    simp only [evalM, evalEachM_eq_map]
    rw [List.map_congr_left fun n hn => ihk n hn (hkeys n hn),
      List.map_congr_left fun n hn => ihv n hn (hvals n hn)]
  | fold id mode accuVar iterVar range init cond step result ihrange ihinit ihcond ihstep
      ihresult =>
    obtain ⟨hrange, hinit, hbody, hresult⟩ := h.parts_of_fold
    rw [evalM, evalM, ihrange hrange]
    congr 1
    funext value
    cases value.items? with
    | none => rfl
    | some items =>
      refine Host.KeepsNames.checkout_bind_congr fun old => ?_
      rw [ihinit hinit]
      congr 1
      funext start
      refine Host.KeepsNames.checkout_bind_congr fun old' => ?_
      -- both variables are set before anything is evaluated in their scope
      refine mode.iterate_bind_congr (fun accu item => ihcond (hbody rfl rfl).1)
        (fun accu item => ihstep (hbody rfl rfl).2) (fun last iter => ?_) items start old'
      exact congrArg (· >>= _) (ihresult (hresult rfl))
  | watch observer inner ih => rw [evalM, evalM, ih h]
  | setMembership id elemType elems lhs rhs ihl ihr =>
    rw [FreeRel, freeIdents, List.forall_mem_append] at h
    rw [evalM, evalM, ihl h.1]

end Node

end

/-! ## Activations that agree -/

/-- Two activations agree on a name if they bind it to the same value, or if neither binds it and
both or none withhold it. -/
def Activation.AgreesWith (a b : Activation) (name : String) : Prop :=
  (∃ value, a.resolve? name = some value ∧ b.resolve? name = some value) ∨
    (a.resolve? name = none ∧ b.resolve? name = none ∧ a.isWithheld name = b.isWithheld name)

theorem Activation.AgreesWith.lookup_eq {a b : Activation} {name : String}
    (h : a.AgreesWith b name) (id : NodeId) : a.lookup id name = b.lookup id name := by
  rw [lookup, lookup]
  rcases h with ⟨value, ha, hb⟩ | ⟨ha, hb, hw⟩
  · rw [ha, hb]
  · rw [ha, hb, hw]

namespace Node

/-- Activations that agree on the free names of a tree cannot be told apart by evaluating it: it has
the same value, makes the same reports, and does the same to any pool of scratch slots. -/
theorem eval_eq_of_agreesWith {t : Node} {a b : Activation}
    (h : ∀ name ∈ t.freeNames, a.AgreesWith b name) :
    t.eval a = t.eval b ∧ t.trace a = t.trace b ∧ t.run a = t.run b := by
  have hfree : t.FreeRel Eq a b := fun x hx =>
    (h x.2 (List.mem_map_of_mem hx)).lookup_eq x.1
  exact ⟨evalM_congr (m := Id) hfree, evalM_congr hfree, evalM_congr hfree⟩

/-- A loop in the step of a loop. The inner one has one name for both of its variables, which is the
name of the outer item. -/
def shadowingLoop : Node :=
  fold ⟨1⟩ .shortCircuit "sum" "x" (list ⟨2⟩ [const ⟨3⟩ (.int 1), ident ⟨4⟩ "y"])
    (const ⟨5⟩ (.int 0)) (binary ⟨6⟩ .less (ident ⟨7⟩ "x") (ident ⟨8⟩ "limit"))
    (fold ⟨9⟩ .exhaustive "x" "x" (list ⟨10⟩ [binary ⟨11⟩ .add (ident ⟨12⟩ "x") (ident ⟨13⟩ "sum")])
      (ident ⟨14⟩ "x") (const ⟨15⟩ (.bool true))
      (watch (.values "o") (binary ⟨16⟩ .add (ident ⟨17⟩ "x") (ident ⟨18⟩ "x"))) (ident ⟨19⟩ "x"))
    (ident ⟨20⟩ "sum")

theorem eval_eq_of_agreesWith_shadowingLoop :
    let a : Activation := .bound ⟨[("limit", .int 9), ("y", .int 3)]⟩
    let b : Activation := .layered (.withheld ⟨[("limit", .int 9)]⟩ ["x", "sum"])
      (.bound ⟨[("y", .int 3), ("sum", .str "none")]⟩)
    (∀ name ∈ shadowingLoop.freeNames, a.AgreesWith b name) ∧
      shadowingLoop.eval a = shadowingLoop.eval b ∧ shadowingLoop.eval a = .int 10 := by
  intro a b
  have hnames : shadowingLoop.freeNames = ["y", "limit"] := rfl
  have h : ∀ name ∈ shadowingLoop.freeNames, a.AgreesWith b name := by
    rw [hnames]
    simp only [List.forall_mem_cons]
    exact ⟨.inl ⟨_, rfl, rfl⟩, .inl ⟨_, rfl, rfl⟩, fun _ h => nomatch h⟩
  exact ⟨h, (eval_eq_of_agreesWith h).1, rfl⟩

end Node

end TreeEval
