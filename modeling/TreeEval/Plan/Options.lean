import TreeEval.Text.Inspect

/-!
# Planning options

What planning does to a tree besides checking it. The steps always run in the same order, so options
have no order of their own.
-/

namespace TreeEval

/-- The options of planning. -/
structure EvalOptions where
  /-- Fold literals of constants, and turn membership tests against constant lists into look-ups. -/
  optimize : Bool
  /-- Visit all operands of connectives and ternaries, and all items of loops. -/
  exhaustive : Bool
  /-- Keep the latest value of every node. -/
  trackState : Bool
deriving DecidableEq

namespace EvalOptions

/-- No options. -/
def none : EvalOptions := ⟨false, false, false⟩

/-- The options with one more, given by its name. -/
def withNamed? (options : EvalOptions) : String → Option EvalOptions
  | "OPTIMIZE" => some { options with optimize := true }
  | "EXHAUSTIVE_EVAL" => some { options with exhaustive := true }
  | "TRACK_STATE" => some { options with trackState := true }
  | _ => Option.none

/-- The names of the options that are set. -/
def names (options : EvalOptions) : List String :=
  (if options.optimize then ["OPTIMIZE"] else []) ++
    (if options.exhaustive then ["EXHAUSTIVE_EVAL"] else []) ++
      (if options.trackState then ["TRACK_STATE"] else [])

/-- The options as one word with a bit for each. -/
def bits (options : EvalOptions) : Nat :=
  options.optimize.toNat + 2 * options.exhaustive.toNat + 4 * options.trackState.toNat

/-- The options as a developer reads them. -/
def inspect (options : EvalOptions) : String :=
  Text.applied "EvalOptions" <|
    if options.names.isEmpty then "0x0" else " | ".intercalate options.names

/-- The word determines the options. -/
theorem bits_injective {a b : EvalOptions} (h : a.bits = b.bits) : a = b := by
  revert h
  obtain ⟨_ | _, _ | _, _ | _⟩ := a <;> obtain ⟨_ | _, _ | _, _ | _⟩ := b <;> decide

end EvalOptions

end TreeEval
