import TreeEval.Plan.Event

/-!
# The log of planning

How the events of planning are written to a log. Entering a phase opens a span; everything else is a
line of its own. Changes to single nodes are logged at the finest level, except that of a membership
test. What decorators take note of for themselves is not logged.
-/

namespace TreeEval

/-- How much detail a line of the log belongs to. -/
inductive LogLevel where
  | trace
  | debug
deriving DecidableEq

/-- The name of a level. -/
def LogLevel.name : LogLevel → String
  | trace => "TRACE"
  | debug => "DEBUG"

/-- An entry of a log. -/
structure LogLine where
  /-- Whether it opens a span. -/
  isSpan : Bool
  /-- The level. -/
  level : LogLevel
  /-- The name of the span, or the message. -/
  title : String
  /-- Named texts, in order. -/
  fields : List (String × String)

namespace PlanEvent

/-- The entry that an event leaves in the log. -/
def logLine? : PlanEvent → Option LogLine
  | planning options nodes =>
    some ⟨true, .debug, "new", [("options", options.inspect), ("nodes", toString nodes)]⟩
  | applying decorators => some ⟨true, .debug, "apply", [("decorators", toString decorators)]⟩
  | madeExhaustive id kind =>
    some ⟨false, .trace, "disabled short circuit", [("id", id.text), ("kind", kind.name)]⟩
  | listFolded id size =>
    some ⟨false, .trace, "folded constant list", [("id", id.text), ("len", toString size)]⟩
  | mapFolded id size =>
    some ⟨false, .trace, "folded constant map", [("id", id.text), ("len", toString size)]⟩
  | emptyMembership id =>
    some ⟨false, .trace, "membership in empty list is false", [("id", id.text)]⟩
  | membershipHashed id elemType size =>
    some ⟨false, .debug, "planned set membership",
      [("id", id.text), ("arg_type", elemType.name), ("len", toString size)]⟩
  | failed error => some ⟨false, .debug, "decoration failed", [("err", error.message)]⟩
  | planned nodes => some ⟨false, .debug, "program planned", [("nodes", toString nodes)]⟩
  | visited _ _ _ => none

end PlanEvent

end TreeEval
