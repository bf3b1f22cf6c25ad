import TreeEval.Eval.Pure
import TreeEval.Node.Induction
import TreeEval.Node.Postorder
import TreeEval.Node.Text
import TreeEval.Plan.Log
import TreeEval.Program
import TreeEval.Proofs.Accumulators
import TreeEval.Proofs.Bracketing
import TreeEval.Proofs.Comparisons
import TreeEval.Proofs.ComputeAhead
import TreeEval.Proofs.Congruence
import TreeEval.Proofs.Course
import TreeEval.Proofs.EqualityOrder
import TreeEval.Proofs.ExactIntegers
import TreeEval.Proofs.Exhaustive
import TreeEval.Proofs.ExhaustiveLog
import TreeEval.Proofs.FirstDefect
import TreeEval.Proofs.FreeNames
import TreeEval.Proofs.Fusion
import TreeEval.Proofs.Insertions
import TreeEval.Proofs.KeyEquality
import TreeEval.Proofs.Layers
import TreeEval.Proofs.MapEntries
import TreeEval.Proofs.MapLiteral
import TreeEval.Proofs.Membership
import TreeEval.Proofs.Observation
import TreeEval.Proofs.OptimizedLog
import TreeEval.Proofs.Origin
import TreeEval.Proofs.PartialInput
import TreeEval.Proofs.PlannedSets
import TreeEval.Proofs.PoolHistory
import TreeEval.Proofs.PoolRun
import TreeEval.Proofs.Rebuilding
import TreeEval.Proofs.RewriteHistory
import TreeEval.Proofs.Scanning
import TreeEval.Proofs.Sentinels
import TreeEval.Proofs.SetContents
import TreeEval.Proofs.Sightings
import TreeEval.Proofs.SourceIds
import TreeEval.Proofs.StructuralEquality
import TreeEval.Proofs.TrackedState
import TreeEval.Proofs.UnknownSets
import TreeEval.Scratch.Holders
import TreeEval.Value.Induction
import TreeEval.Value.Traits
