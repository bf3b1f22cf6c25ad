import TreeEval.Proofs.FreeNames

/-!
# Layers

An activation is a stack of layers, the nearest first, however it has been put together. A layer
binds names and withholds names. What a name means is decided by the first layer that mentions it,
and the layers behind that one do not matter.

`Activation.resolve?` and `Activation.isWithheld` ask the layers in different ways: the first one
stops at the first mention, the second looks at all layers. `lookup_eq_firstMention` says that
together they find the first mention, and nothing else.
-/

namespace TreeEval

/-- A part of an activation that stands by itself. -/
structure Layer where
  /-- What the layer binds. -/
  bindings : Bindings
  /-- The names that the layer withholds. -/
  withheld : List String

/-- What a layer says of a name that it mentions. -/
inductive Mention where
  /-- The name has this value. -/
  | bound (value : Value)
  /-- The name is withheld. -/
  | withheld

/-- What a layer says of a name, if it mentions the name. A name that is both bound and withheld
counts as withheld. -/
def Layer.mention? (layer : Layer) (name : String) : Option Mention :=
  if layer.withheld.contains name then some .withheld
  else (layer.bindings.find? name).map .bound

/-- What a name means to the expression `id` after all layers have been asked. -/
def Mention.meaning (id : NodeId) (name : String) : Option Mention → Value
  | some (.bound value) => value
  | some .withheld => .unknown (.singleton id)
  | none => .fail (.noSuchAttribute name)

namespace Activation

/-- The layer of a variable. Without a value it mentions nothing. -/
def frameLayer (name : String) (value : Option Value) : Layer :=
  ⟨⟨(value.map fun v => (name, v)).toList⟩, []⟩

/-- The layers of an activation, the nearest first. -/
def layers : Activation → List Layer
  | empty => [⟨.empty, []⟩]
  | bound bindings => [⟨bindings, []⟩]
  | withheld bindings names => [⟨bindings, names⟩]
  | layered parent child => child.layers ++ parent.layers
  | frame name value parent => frameLayer name value :: parent.layers

theorem mention?_frameLayer (own : String) (value : Option Value) (name : String) :
    (frameLayer own value).mention? name = if own = name then value.map .bound else none := by
  cases value with
  | none => exact (ite_self _).symm
  | some value =>
    by_cases hown : own = name
    · simp [frameLayer, Layer.mention?, Bindings.find?, hown]
    · have hne : (name == own) = false := beq_eq_false_iff_ne.2 (Ne.symm hown)
      simp [frameLayer, Layer.mention?, Bindings.find?, List.lookup_cons, hown, hne]

/-- What the nearest layer that mentions a name says of it. -/
def firstMention? (act : Activation) (name : String) : Option Mention :=
  act.layers.findSome? (·.mention? name)

theorem isWithheld_eq_any_layers (act : Activation) (name : String) :
    act.isWithheld name = act.layers.any (·.withheld.contains name) := by
  induction act with
  | empty => rfl
  | bound bindings => rfl
  | withheld bindings names => simp [isWithheld, layers]
  | layered parent child ihp ihc => rw [isWithheld, layers, List.any_append, ihp, ihc]
  | frame own value parent ih => rw [isWithheld, layers, List.any_cons, ih]; rfl

/-- A name that no layer mentions is withheld by none. -/
theorem isWithheld_of_firstMention?_eq_none {act : Activation} {name : String}
    (h : act.firstMention? name = none) : act.isWithheld name = false := by
  rw [firstMention?, List.findSome?_eq_none_iff] at h
  rw [isWithheld_eq_any_layers, List.any_eq_false]
  intro layer hlayer hw
  have hmention := h layer hlayer
  rw [Layer.mention?, if_pos hw] at hmention
  cases hmention

theorem isWithheld_of_firstMention?_eq_withheld {act : Activation} {name : String}
    (h : act.firstMention? name = some .withheld) : act.isWithheld name = true := by
  obtain ⟨layer, hlayer, hmention⟩ := List.exists_of_findSome?_eq_some h
  rw [isWithheld_eq_any_layers, List.any_eq_true]
  refine ⟨layer, hlayer, ?_⟩
  rw [Layer.mention?] at hmention
  split at hmention
  · assumption
  · cases hb : layer.bindings.find? name <;> simp [hb] at hmention

/-- A name is resolved if the nearest layer that mentions it binds it. -/
theorem resolve?_eq_firstMention (act : Activation) (name : String) :
    act.resolve? name = match act.firstMention? name with
      | some (.bound value) => some value
      | _ => none := by
  induction act with
  | empty => rfl
  | bound bindings =>
    simp only [resolve?, firstMention?, layers, List.findSome?_singleton, Layer.mention?]
    cases bindings.find? name <;> rfl
  | withheld bindings names =>
    simp only [resolve?, firstMention?, layers, List.findSome?_singleton, Layer.mention?]
    split
    · rfl
    · cases bindings.find? name <;> rfl
  | layered parent child ihp ihc =>
    have hfirst : (layered parent child).firstMention? name =
        (child.firstMention? name).or (parent.firstMention? name) := List.findSome?_append
    rw [resolve?, hfirst, ihc, ihp]
    -- the child hides the parent, also if it withholds the name
    cases hc : child.firstMention? name with
    | none => rw [isWithheld_of_firstMention?_eq_none hc]; rfl
    | some mention =>
      cases mention with
      | bound value => rfl
      | withheld => rw [isWithheld_of_firstMention?_eq_withheld hc]; rfl
  | frame own value parent ih =>
    have hfirst : (frame own value parent).firstMention? name =
        (if own = name then value.map .bound else none).or (parent.firstMention? name) := by
      rw [firstMention?, layers, List.findSome?_cons, mention?_frameLayer]
      cases hown : (if own = name then value.map .bound else none : Option Mention) <;> rfl
    rw [hfirst]
    cases value with
    | none => rw [resolve?, ih, Option.map_none, ite_self, Option.none_or]
    | some value =>
      rw [resolve?, ih]
      by_cases hown : own = name
      · rw [if_pos hown, if_pos hown]; rfl
      · rw [if_neg hown, if_neg hown]; rfl

/-- The nearest layer that mentions a name decides what the name means. -/
theorem lookup_eq_firstMention (act : Activation) (id : NodeId) (name : String) :
    act.lookup id name = Mention.meaning id name (act.firstMention? name) := by
  rw [lookup, resolve?_eq_firstMention]
  cases h : act.firstMention? name with
  | none => rw [isWithheld_of_firstMention?_eq_none h]; rfl
  | some mention =>
    cases mention with
    | bound value => rfl
    | withheld => rw [isWithheld_of_firstMention?_eq_withheld h]; rfl

/-- What all bindings of all layers have in common is true of every value that a name has. -/
theorem forall_of_resolve? {P : Value → Prop} {act : Activation}
    (h : ∀ layer ∈ act.layers, ∀ entry ∈ layer.bindings.entries, P entry.2) (name : String)
    (value : Value) (hvalue : act.resolve? name = some value) : P value := by
  rw [resolve?_eq_firstMention] at hvalue
  split at hvalue
  next value' hfirst =>
    cases hvalue
    obtain ⟨layer, hlayer, hmention⟩ := List.exists_of_findSome?_eq_some hfirst
    rw [Layer.mention?] at hmention
    split at hmention
    · cases hmention
    · obtain ⟨_, hfind, hbound⟩ := Option.map_eq_some_iff.1 hmention
      cases hbound
      obtain ⟨before, after, hentries, _⟩ := List.lookup_eq_some_iff.1 hfind
      exact h layer hlayer (name, value) (by simp [hentries])
  · cases hvalue

/-- No evaluation tells the activations apart: under both, every tree has the same value, makes the
same reports, and does the same to any pool of scratch slots. -/
def Indistinguishable (a b : Activation) : Prop :=
  ∀ t : Node, t.eval a = t.eval b ∧ t.trace a = t.trace b ∧ t.run a = t.run b

theorem indistinguishable_of_layers_eq {a b : Activation} (h : a.layers = b.layers) :
    a.Indistinguishable b := by
  intro t
  have hfree : t.FreeRel Eq a b := fun x _ => by
    rw [lookup_eq_firstMention, lookup_eq_firstMention, firstMention?, firstMention?, h]
  exact ⟨Node.evalM_congr (m := Id) hfree, Node.evalM_congr hfree, Node.evalM_congr hfree⟩

/-- A name means what the nearest layer that mentions it says. So it cannot be observed how the
layers of an activation are grouped, neither at the top nor anywhere inside. -/
theorem eval_ident_eq_meaning (act : Activation) :
    (∀ (id : NodeId) (name : String),
      (Node.ident id name).eval act = Mention.meaning id name (act.firstMention? name)) ∧
      (∀ a b c : Activation,
        Indistinguishable (layered c (layered b a)) (layered (layered c b) a)) ∧
      ∀ act' : Activation, act.layers = act'.layers → act.Indistinguishable act' :=
  ⟨fun id name => act.lookup_eq_firstMention id name,
    fun a b c => indistinguishable_of_layers_eq
      (List.append_assoc a.layers b.layers c.layers),
    fun _ h => indistinguishable_of_layers_eq h⟩

/-- The nearest layer to mention `x` withholds it, although it binds it as well. In front of it
stands a variable of that name without a value, and behind it a layer that binds the name. -/
theorem eval_ident_eq_meaning_regrouped :
    let front : Activation := .frame "x" none (.withheld ⟨[("x", .int 2)]⟩ ["x"])
    let middle : Activation := .bound ⟨[("x", .int 1), ("y", .int 3)]⟩
    let back : Activation := .withheld .empty ["y"]
    let act : Activation := .layered .empty (.layered back (.layered middle front))
    let act' : Activation := .layered .empty (.layered (.layered back middle) front)
    (Node.ident ⟨1⟩ "x").eval act = .unknown (.singleton ⟨1⟩) ∧
      (Node.ident ⟨2⟩ "y").eval act = .int 3 ∧ act.layers = act'.layers ∧
        act.Indistinguishable act' := by
  intro front middle back act act'
  have h := eval_ident_eq_meaning act
  exact ⟨h.1 ⟨1⟩ "x", h.1 ⟨2⟩ "y", rfl, h.2.2 act' rfl⟩

end Activation

end TreeEval
