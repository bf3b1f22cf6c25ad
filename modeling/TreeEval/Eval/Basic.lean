import TreeEval.Eval.Literal
import TreeEval.Eval.Logic
import TreeEval.Eval.Loop
import TreeEval.Operator
import TreeEval.Value.KeySet

/-!
# Evaluation

`Node.evalM` says how a tree is evaluated against an activation, on any host. It fixes what is
visited and in which order, what each node makes of the values of its children, and when scratch
slots are taken and given back. The modules beside this one read it on three hosts: as a function to
values, as a function to values and reports, and as a run over a pool of scratch slots.
-/

namespace TreeEval.Node

variable {m : Type → Type} [Monad m] [Host m]

mutual

/-- Evaluates a tree. -/
@[specialize]
def evalM : Node → Activation → m Value
  | const _ value, _ => pure value
  | ident id name, act => pure (act.lookup id name)
  | binary _ op lhs rhs, act => do
    let lhs ← lhs.evalM act
    let rhs ← rhs.evalM act
    pure (if lhs.isSentinel then lhs else if rhs.isSentinel then rhs else op.apply lhs rhs)
  | logical _ .shortCircuit connective lhs rhs, act => do
    let lhs ← lhs.evalM act
    if lhs.asBool? = some connective.absorbing then pure lhs
    else
      let rhs ← rhs.evalM act
      pure (connective.combine lhs rhs)
  | logical _ .exhaustive connective lhs rhs, act => do
    let lhs ← lhs.evalM act
    let rhs ← rhs.evalM act
    pure (connective.combine lhs rhs)
  | conditional _ .shortCircuit cond truthy falsy, act => do
    let cond ← cond.evalM act
    match cond.branch with
    | .truthy => truthy.evalM act
    | .falsy => falsy.evalM act
    | .neither value => pure value
  | conditional _ .exhaustive cond truthy falsy, act => do
    let cond ← cond.evalM act
    let truthy ← truthy.evalM act
    let falsy ← falsy.evalM act
    pure (cond.choose truthy falsy)
  | list _ elems, act => Literal.list (evalEachM elems act)
  | map _ keys vals, act => Literal.map (evalEachM keys act) (evalEachM vals act)
  | fold _ mode accuVar iterVar range init cond step result, act => do
    let range ← range.evalM act
    match range.items? with
    | none => pure (range.orFail (.notIterable range.type.name))
    | some items =>
      let accu ← Host.checkout accuVar
      let start ← init.evalM act
      let iter ← Host.checkout iterVar
      let (accu, iter) ← mode.iterate
        (fun accu iter => cond.evalM (iter.scope (accu.scope act)))
        (fun accu iter => step.evalM (iter.scope (accu.scope act)))
        items (accu.set start) iter
      let value ← result.evalM (accu.scope act)
      Host.release iter
      Host.release accu
      pure value
  | watch observer inner, act => do
    let value ← inner.evalM act
    Host.report observer inner.id value
    pure value
  | setMembership _ _ elems lhs _, act => do
    let value ← lhs.evalM act
    pure (value.isElemOf elems)

/-- The evaluations of some trees, not yet run. -/
@[specialize]
def evalEachM : List Node → Activation → List (m Value)
  | [], _ => []
  | n :: ns, act => n.evalM act :: evalEachM ns act

end

theorem evalEachM_eq_map (ns : List Node) (act : Activation) :
    evalEachM (m := m) ns act = ns.map fun n => n.evalM act := by
  induction ns with
  | nil => rfl
  | cons n ns ih => simp [evalEachM, ih]

end TreeEval.Node
