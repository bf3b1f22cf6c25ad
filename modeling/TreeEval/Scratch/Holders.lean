import TreeEval.Scratch.Pool

/-!
# Holders of scratch slots

The life of a pool as its users see it: every slot that is handed out has one holder, holders are
numbered as they come, and a holder sets its own slot until it gives it back. Holders may come and
go in any order.
-/

namespace TreeEval.Scratch

/-- A pool together with everyone who has taken a slot from it. -/
structure Holders where
  /-- The pool. -/
  pool : Pool
  /-- The slot of each holder, in the order in which they came; none once it is given back. -/
  held : Array (Option Slot)

/-- What can happen between a pool and its holders. -/
inductive Step where
  /-- A new holder takes a slot for a variable. -/
  | checkout (name : String)
  /-- A holder sets the value of its slot. -/
  | set (holder : Nat) (value : Value)
  /-- A holder gives its slot back. -/
  | release (holder : Nat)

namespace Holders

/-- A pool without holders. -/
def ofPool (pool : Pool) : Holders := ⟨pool, #[]⟩

/-- The slot that a holder has. -/
def slot? (h : Holders) (holder : Nat) : Option Slot := (h.held[holder]?).join

/-- The number of holders that still have their slot. -/
def live (h : Holders) : Nat := h.held.toList.countP Option.isSome

/-- What a step leads to. A step of someone who has no slot changes nothing. -/
def step (h : Holders) : Step → Holders
  | .checkout name =>
    let (slot, pool) := h.pool.checkout name
    ⟨pool, h.held.push (some slot)⟩
  | .set holder value =>
    match h.slot? holder with
    | some slot => { h with held := h.held.setIfInBounds holder (some (slot.set value)) }
    | none => h
  | .release holder =>
    match h.slot? holder with
    | some slot => ⟨h.pool.release slot, h.held.setIfInBounds holder none⟩
    | none => h

/-- What a sequence of steps leads to. -/
def run (h : Holders) (steps : List Step) : Holders := steps.foldl step h

end Holders

end TreeEval.Scratch
