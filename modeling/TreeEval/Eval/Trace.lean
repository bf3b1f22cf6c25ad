import TreeEval.Eval.Basic

/-!
# The reports of a tree

Evaluation as a function from activations to a value and the reports that watches made on the way to
it, in order. Every loop variable gets a slot of its own.
-/

namespace TreeEval

/-- A result and what was noted down while it was computed. -/
structure Logged (ω α : Type) where
  /-- The result. -/
  value : α
  /-- The notes, the first one first. -/
  log : List ω

namespace Logged

variable {ω α β : Type}

instance : Monad (Logged ω) where
  pure a := ⟨a, []⟩
  bind x f := ⟨(f x.value).value, x.log ++ (f x.value).log⟩

@[simp] theorem value_pure (a : α) : (pure a : Logged ω α).value = a := rfl

@[simp] theorem log_pure (a : α) : (pure a : Logged ω α).log = [] := rfl

@[simp] theorem value_bind (x : Logged ω α) (f : α → Logged ω β) :
    (x >>= f).value = (f x.value).value := rfl

@[simp] theorem log_bind (x : Logged ω α) (f : α → Logged ω β) :
    (x >>= f).log = x.log ++ (f x.value).log := rfl

@[ext] theorem ext {x y : Logged ω α} (hv : x.value = y.value) (hl : x.log = y.log) : x = y := by
  cases x; cases y; cases hv; cases hl; rfl

instance : LawfulMonad (Logged ω) := LawfulMonad.mk' (Logged ω)
  (fun x => by ext <;> simp [Functor.map])
  (fun _ _ => by ext <;> simp)
  (fun _ _ _ => by ext <;> simp)

@[simp] theorem value_map (f : α → β) (x : Logged ω α) : (f <$> x).value = f x.value := rfl

@[simp] theorem log_map (f : α → β) (x : Logged ω α) : (f <$> x).log = x.log := by
  rw [map_eq_pure_bind, log_bind]
  exact List.append_nil _

/-- A computation goes on from its own value only. -/
theorem bind_congr {x : Logged ω α} {f g : α → Logged ω β} (h : f x.value = g x.value) :
    x >>= f = x >>= g := by
  ext : 1 <;> simp [h]

end Logged

/-- What an observer is told: the value of a node. -/
structure Observation where
  /-- Who is told. -/
  observer : Observer
  /-- The node. -/
  id : NodeId
  /-- Its value. -/
  value : Value

/-- A result and the reports made while it was computed. -/
abbrev Traced : Type → Type := Logged Observation

/-- The host that keeps the reports. -/
instance : Host Traced where
  checkout name := pure ⟨name, none⟩
  release _ := pure ()
  report observer id value := ⟨(), [⟨observer, id, value⟩]⟩

/-- The value of a tree under an activation, and the reports of its watches. -/
def Node.trace (n : Node) (act : Activation) : Traced Value := n.evalM act

end TreeEval
