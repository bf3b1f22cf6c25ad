import TreeEval.Eval.Machine
import TreeEval.EvalState
import TreeEval.Plan.Pipeline

/-!
# Programs

A program is a tree that has been planned once and can be evaluated any number of times. A session
is the life of a program: it keeps the pool of scratch slots and the state that the tracker fills.
-/

namespace TreeEval

/-- A planned tree. -/
structure Program where
  /-- The tree. -/
  root : Node
  /-- Whether the program keeps a state of its own. -/
  hasState : Bool

namespace Program

/-- Plans a tree with the built-in decorators that options select. -/
def plan (options : EvalOptions) (tree : Node) : Plan Program := do
  Plan.note (.planning options tree.size)
  let root ← (options.pipeline options.trackState).apply tree
  Plan.note (.planned root.size)
  pure ⟨root, options.trackState⟩

/-- Plans a tree with the decorators of a caller. -/
def planWith (pipeline : Pipeline) (tree : Node) : Plan Program := do
  let root ← pipeline.apply tree
  pure ⟨root, false⟩

end Program

/-- A program in use. -/
structure Session where
  /-- The program. -/
  program : Program
  /-- The scratch slots that runs share. -/
  pool : Scratch.Pool
  /-- What the tracker has been told. -/
  state : EvalState

/-- What an evaluation gives: a value, and what watches reported on the way to it. -/
structure Evaluation where
  /-- The value. -/
  value : Value
  /-- The reports, the first one first. -/
  reports : Array Report

namespace Session

/-- A program that has not been used yet. -/
def ofProgram (program : Program) : Session := ⟨program, .new, .empty⟩

/-- Evaluates the program once. -/
def eval (s : Session) (act : Activation) : Evaluation × Session :=
  let (value, machine) := (s.program.root.run act).run ⟨s.pool, #[]⟩
  let state := machine.reports.foldl (fun state r => state.absorb r.toObservation) s.state
  (⟨value, machine.reports⟩, { s with pool := machine.pool, state })

/-- Evaluates the program against some activations, in their order. -/
def evalBatch (s : Session) : List Activation → List Value × Session
  | [] => ([], s)
  | act :: acts =>
    let (evaluation, s) := s.eval act
    let (values, s) := s.evalBatch acts
    (evaluation.value :: values, s)

/-- Forgets what the tracker has been told. -/
def reset (s : Session) : Session := { s with state := .empty }

end Session

end TreeEval
