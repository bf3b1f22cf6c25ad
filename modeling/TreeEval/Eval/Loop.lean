import TreeEval.Eval.Host

/-!
# Loops

The iterations of a loop over items that are computed already. The accumulator and the item live in
scratch slots. A short-circuit loop ends before the first step whose condition is false; an
exhaustive one computes the condition and goes on whatever it is.
-/

namespace TreeEval

/-- Whether a condition ends a loop. -/
def Mode.stopsAt (mode : Mode) (cond : Value) : Bool :=
  match mode with
  | .shortCircuit => cond.asBool? = some false
  | .exhaustive => false

theorem Mode.stopsAt_eq_false {mode : Mode} {go : Value} (h : go ≠ .bool false) :
    mode.stopsAt go = false := by
  cases mode with
  | exhaustive => rfl
  | shortCircuit =>
    rw [Mode.stopsAt, decide_eq_false_iff_not, Value.asBool?_eq_some]
    exact h

/-- Runs the iterations, and returns the slots of the accumulator and of the item as they are when
the loop ends. -/
@[specialize]
def Mode.iterate {m : Type → Type} [Monad m] (mode : Mode)
    (cond step : Scratch.Slot → Scratch.Slot → m Value) :
    List Value → Scratch.Slot → Scratch.Slot → m (Scratch.Slot × Scratch.Slot)
  | [], accu, iter => pure (accu, iter)
  | item :: rest, accu, iter => do
    let iter := iter.set item
    let go ← cond accu iter
    if mode.stopsAt go then pure (accu, iter)
    else
      let next ← step accu iter
      mode.iterate cond step rest (accu.set next) iter

end TreeEval
