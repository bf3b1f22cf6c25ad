import TreeEval.Node.Transform
import TreeEval.Plan.Decorator
import TreeEval.Plan.Folding

/-!
# Pipelines

A pipeline is an ordered list of decorators. It goes through a tree from the leaves up. At each node
it first refuses a malformed map, and then runs the decorators in order, each on what the one before
it returned. The first failure ends the pass.
-/

namespace TreeEval

/-- The decorators that belong to the library. -/
inductive Builtin where
  /-- Makes short-circuit nodes exhaustive. -/
  | makeExhaustive
  /-- Computes ahead what is constant. -/
  | computeAhead
  /-- Puts a watch around every node. -/
  | observe (observer : Observer)
deriving DecidableEq

/-- The decorator itself. -/
def Builtin.decorator : Builtin → Decorator
  | makeExhaustive => Decorator.makeExhaustive
  | computeAhead => Decorator.computeAhead
  | observe observer => Decorator.observe observer

/-- Refuses a map literal with more keys than values or the other way round. -/
def Plan.checkArity : Node → Plan Unit
  | .map id keys vals =>
    if keys.length = vals.length then pure () else throw (.mapArity id keys.length vals.length)
  | _ => pure ()

/-- Decorators in the order in which they run. -/
structure Pipeline where
  /-- The decorators. -/
  decorators : List Decorator

namespace Pipeline

/-- The pipeline of built-in decorators. -/
def ofBuiltins (builtins : List Builtin) : Pipeline := ⟨builtins.map Builtin.decorator⟩

/-- The number of decorators. -/
def size (p : Pipeline) : Nat := p.decorators.length

/-- Whether there are no decorators. -/
def isEmpty (p : Pipeline) : Bool := p.decorators.isEmpty

/-- The pipeline as a developer reads it, which is only its size. -/
def inspect (p : Pipeline) : String := Text.record "Pipeline" [("decorators", toString p.size)]

/-- Runs the decorators on one node, whose children are finished. -/
def visit (p : Pipeline) (n : Node) : Plan Node := do
  Plan.checkArity n
  p.decorators.foldlM (fun n decorate => decorate n) n

/-- Runs the decorators on every node of a tree. -/
def transform (p : Pipeline) (tree : Node) : Plan Node := tree.transformM p.visit

/-- Runs the decorators on every node of a tree, and records the pass and its failure. -/
def apply (p : Pipeline) (tree : Node) : Plan Node := do
  Plan.note (.applying p.size)
  tryCatch (p.transform tree) fun error => do
    Plan.note (.failed error)
    throw error

end Pipeline

/-! ## Pipelines of options -/

/-- The built-in decorators that options select. Exhaustive nodes come first, so that everything
later sees them; constants are folded before they are watched; and the tracker, which needs a state
to keep values in, sees what really runs. -/
def EvalOptions.builtins (options : EvalOptions) (hasState : Bool) : List Builtin :=
  (if options.exhaustive then [.makeExhaustive] else []) ++
    (if options.optimize then [.computeAhead] else []) ++
      (if options.trackState && hasState then [.observe .tracker] else [])

/-- The pipeline that options select. -/
def EvalOptions.pipeline (options : EvalOptions) (hasState : Bool) : Pipeline :=
  .ofBuiltins (options.builtins hasState)

end TreeEval
