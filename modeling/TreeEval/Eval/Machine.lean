import TreeEval.Eval.Trace

/-!
# Running a tree

Evaluation over a pool of scratch slots, which is how programs run. The pool outlives a run: a run
finds slots that earlier loops have used, and leaves its own behind. Every report is kept together
with the number of slots that were in use at that moment.
-/

namespace TreeEval

/-- A report and the number of scratch slots in use when it was made. -/
structure Report extends Observation where
  /-- How many slots were in use. -/
  inUse : Nat

/-- What a run works with. -/
structure Machine where
  /-- The scratch slots. -/
  pool : Scratch.Pool
  /-- The reports made so far, the first one first. -/
  reports : Array Report

namespace Machine

/-- A machine whose pool has not been used yet. -/
def new : Machine := ⟨.new, #[]⟩

instance : Inhabited Machine := ⟨new⟩

/-- The host that recycles slots. -/
instance : Host (StateM Machine) where
  checkout name := fun machine =>
    let (slot, pool) := machine.pool.checkout name
    (slot, { machine with pool })
  release slot := fun machine => ((), { machine with pool := machine.pool.release slot })
  report observer id value := fun machine =>
    ((), { machine with
      reports := machine.reports.push ⟨⟨observer, id, value⟩, machine.pool.outstanding⟩ })

end Machine

/-- Runs a tree against an activation. -/
def Node.run (n : Node) (act : Activation) : StateM Machine Value := n.evalM act

end TreeEval
