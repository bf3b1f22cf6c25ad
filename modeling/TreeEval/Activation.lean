import TreeEval.Value.Basic

/-!
# Activations

An activation says what the names of an expression mean while it is evaluated. A name is bound to a
value, withheld, or not mentioned at all. Activations are layered: a nearer layer hides what it
mentions from the layers behind it, be it bound or withheld there.

`Activation.lookup` is the meaning of a name as the evaluator sees it. It is put together from two
questions, `resolve?` and `isWithheld`, of which the second looks at all layers alike.
-/

namespace TreeEval

/-- Names bound to values, each name once. -/
structure Bindings where
  /-- The bound names and their values. -/
  entries : List (String × Value)

namespace Bindings

/-- No bindings. -/
def empty : Bindings := ⟨[]⟩

/-- The value of a name. -/
def find? (b : Bindings) (name : String) : Option Value := b.entries.lookup name

/-- The bindings with a name bound anew. -/
def bind (b : Bindings) (name : String) (value : Value) : Bindings :=
  if b.entries.any (·.1 = name) then
    ⟨b.entries.map fun entry => if entry.1 = name then (name, value) else entry⟩
  else ⟨b.entries ++ [(name, value)]⟩

/-- The bindings in a list, of which the last for a name counts. -/
def ofList (entries : List (String × Value)) : Bindings :=
  entries.foldl (fun b (name, value) => b.bind name value) empty

/-- The number of bound names. -/
def size (b : Bindings) : Nat := b.entries.length

/-- Whether no name is bound. -/
def isEmpty (b : Bindings) : Bool := b.entries.isEmpty

end Bindings

/-- The meaning of the names of an expression. -/
inductive Activation where
  /-- Mentions no name. -/
  | empty
  /-- Binds names. -/
  | bound (bindings : Bindings)
  /-- Binds names and withholds others; a name that is both counts as withheld. -/
  | withheld (bindings : Bindings) (names : List String)
  /-- Puts one activation in front of another. -/
  | layered (parent child : Activation)
  /-- Puts one name in front of an activation. Without a value it mentions nothing. -/
  | frame (name : String) (value : Option Value) (parent : Activation)

namespace Activation

instance : Inhabited Activation := ⟨empty⟩

/-- The activation right behind the nearest layer. -/
def parent? : Activation → Option Activation
  | layered parent _ => some parent
  | frame _ _ parent => some parent
  | _ => none

/-- How many layers lie one behind the other. -/
def ancestors : Activation → Nat
  | layered parent _ => parent.ancestors + 1
  | frame _ _ parent => parent.ancestors + 1
  | _ => 0

/-- Whether some layer withholds a name, though a nearer one may bind it. -/
def isWithheld (name : String) : Activation → Bool
  | empty | bound _ => false
  | withheld _ names => names.contains name
  | layered parent child => child.isWithheld name || parent.isWithheld name
  | frame _ _ parent => parent.isWithheld name

/-- The value of a name, if the nearest layer that mentions the name binds it. -/
def resolve? (name : String) : Activation → Option Value
  | empty => none
  | bound bindings => bindings.find? name
  | withheld bindings names => if names.contains name then none else bindings.find? name
  | layered parent child =>
    match child.resolve? name with
    | some value => some value
    | none => if child.isWithheld name then none else parent.resolve? name
  | frame own value parent =>
    match value with
    | some value => if own = name then some value else parent.resolve? name
    | none => parent.resolve? name

/-- What a name evaluates to for the expression `id`: its value, an unknown that says who asked, or
an error that says what is missing. -/
def lookup (act : Activation) (id : NodeId) (name : String) : Value :=
  match act.resolve? name with
  | some value => value
  | none =>
    if act.isWithheld name then .unknown (.singleton id) else .fail (.noSuchAttribute name)

theorem lookup_frame (own : String) (value : Value) (act : Activation) (id : NodeId)
    (name : String) :
    (frame own (some value) act).lookup id name =
      if own = name then value else act.lookup id name := by
  by_cases h : own = name
  · rw [if_pos h, lookup, resolve?, if_pos h]
  · rw [if_neg h, lookup, resolve?, if_neg h]
    rfl

end Activation

end TreeEval
