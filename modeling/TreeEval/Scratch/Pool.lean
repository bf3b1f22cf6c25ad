import TreeEval.Activation

/-!
# Scratch slots

A loop keeps its variables in scratch slots. Slots are recycled: a released slot waits in the pool
and the last one to come back is the first to be handed out again. The pool keeps at most a fixed
number of them and forgets the rest.
-/

namespace TreeEval.Scratch

/-- A place for one variable. -/
structure Slot where
  /-- The name of the variable. -/
  name : String
  /-- Its value, if one has been set. -/
  value : Option Value

namespace Slot

instance : Inhabited Slot := ⟨"", none⟩

/-- The slot with a value set. -/
def set (s : Slot) (value : Value) : Slot := { s with value := some value }

/-- An activation in which the variable comes first. -/
def scope (s : Slot) (parent : Activation) : Activation := .frame s.name s.value parent

end Slot

/-- The slots that wait to be used again, and the count of those in use. -/
structure Pool where
  /-- The slots that wait, the last released first. -/
  free : List Slot
  /-- How many slots may wait at most. -/
  maxRetained : Nat
  /-- How many slots are in use. -/
  outstanding : Nat

namespace Pool

/-- The pool of which no slot has been used yet. -/
def ofCapacity (maxRetained : Nat) : Pool := ⟨[], maxRetained, 0⟩

/-- The pool that keeps as many slots as the loops of a deep expression need. -/
def new : Pool := ofCapacity 64

instance : Inhabited Pool := ⟨new⟩

/-- The number of slots that wait. -/
def retained (pool : Pool) : Nat := pool.free.length

/-- Hands out a slot for a variable. Whatever a recycled slot held is gone. -/
def checkout (pool : Pool) (name : String) : Slot × Pool :=
  let pool := { pool with outstanding := pool.outstanding + 1 }
  match pool.free with
  | [] => (⟨name, none⟩, pool)
  | slot :: rest =>
    ({ slot with name, value := none }, { pool with free := rest })

/-- Takes a slot back, and keeps it if there is room. -/
def release (pool : Pool) (slot : Slot) : Pool :=
  let pool := { pool with outstanding := pool.outstanding - 1 }
  if pool.retained < pool.maxRetained then
    { pool with free := { slot with value := none } :: pool.free }
  else pool

/-- A slot that is handed out is as good as new. -/
@[simp] theorem fst_checkout (pool : Pool) (name : String) :
    (pool.checkout name).1 = ⟨name, none⟩ := by
  rw [checkout]
  cases pool.free <;> rfl

@[simp] theorem free_checkout (pool : Pool) (name : String) :
    (pool.checkout name).2.free = pool.free.tail := by
  rw [checkout]
  cases pool.free <;> rfl

@[simp] theorem maxRetained_checkout (pool : Pool) (name : String) :
    (pool.checkout name).2.maxRetained = pool.maxRetained := by
  rw [checkout]
  cases pool.free <;> rfl

@[simp] theorem outstanding_checkout (pool : Pool) (name : String) :
    (pool.checkout name).2.outstanding = pool.outstanding + 1 := by
  rw [checkout]
  cases pool.free <;> rfl

@[simp] theorem free_release (pool : Pool) (slot : Slot) :
    (pool.release slot).free =
      if pool.retained < pool.maxRetained then ⟨slot.name, none⟩ :: pool.free else pool.free := by
  rw [release]
  exact apply_ite free _ _ _

@[simp] theorem maxRetained_release (pool : Pool) (slot : Slot) :
    (pool.release slot).maxRetained = pool.maxRetained := by
  rw [release]
  split <;> rfl

@[simp] theorem outstanding_release (pool : Pool) (slot : Slot) :
    (pool.release slot).outstanding = pool.outstanding - 1 := by
  rw [release]
  split <;> rfl

/-- The pool as a developer reads it. -/
def inspect (pool : Pool) : String :=
  Text.record "ActivationPool"
    [("retained", toString pool.retained), ("max_retained", toString pool.maxRetained),
      ("outstanding", toString pool.outstanding)]

end Pool

end TreeEval.Scratch
