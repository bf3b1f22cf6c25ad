import TreeEval.Node.Basic

/-!
# Connectives and ternaries

What the logical constructs make of values that have been computed. The rules are the same in both
modes: the mode only decides what is computed.
-/

namespace TreeEval

namespace Connective

/-- The value of a connective. The absorbing operand settles it from either side, even against an
error or an unknown. Otherwise an unknown wins over an error, and the left side over the right. -/
def combine (c : Connective) (lhs rhs : Value) : Value :=
  if lhs.asBool? = some c.absorbing ∨ rhs.asBool? = some c.absorbing then .bool c.absorbing
  else if lhs.asBool?.isSome ∧ rhs.asBool?.isSome then .bool !c.absorbing
  else if lhs.isUnknown then lhs
  else if rhs.isUnknown then rhs
  else lhs.orFail .noSuchOverload

variable {c : Connective} {lhs rhs : Value}

theorem combine_of_lhs (h : lhs.asBool? = some c.absorbing) (rhs : Value) :
    c.combine lhs rhs = .bool c.absorbing := if_pos (.inl h)

theorem combine_of_rhs (h : rhs.asBool? = some c.absorbing) (lhs : Value) :
    c.combine lhs rhs = .bool c.absorbing := if_pos (.inr h)

/-- An operand that settles a connective is its value. -/
theorem combine_eq_lhs (h : lhs.asBool? = some c.absorbing) (rhs : Value) :
    c.combine lhs rhs = lhs := by
  rw [combine_of_lhs h, Value.asBool?_eq_some.1 h]

/-- An unknown on the left wins, unless the right operand settles the connective. -/
theorem combine_of_isUnknown_lhs (hl : lhs.isUnknown = true)
    (hr : rhs.asBool? ≠ some c.absorbing) : c.combine lhs rhs = lhs := by
  have hbool : lhs.asBool? = none := Value.asBool?_of_isUnknown hl
  unfold combine
  simp [hbool, hr, hl]

theorem combine_of_isUnknown_rhs (hl : lhs.asBool? ≠ some c.absorbing)
    (hknown : lhs.isUnknown = false) (hr : rhs.isUnknown = true) : c.combine lhs rhs = rhs := by
  have hbool : rhs.asBool? = none := Value.asBool?_of_isUnknown hr
  unfold combine
  simp [hbool, hl, hknown, hr]

/-- An unknown operand makes a connective unknown, unless the other operand settles it. -/
theorem isUnknown_combine (hl : lhs.asBool? ≠ some c.absorbing)
    (hr : rhs.asBool? ≠ some c.absorbing) (h : lhs.isUnknown = true ∨ rhs.isUnknown = true) :
    (c.combine lhs rhs).isUnknown = true := by
  by_cases hlu : lhs.isUnknown = true
  · rw [combine_of_isUnknown_lhs hlu hr]
    exact hlu
  · have hru : rhs.isUnknown = true := h.resolve_left hlu
    rw [combine_of_isUnknown_rhs hl (by simpa using hlu) hru]
    exact hru

/-- Two operands that neither settle a connective nor are unknown have to be truth values. -/
theorem combine_of_undecided (hl : lhs.asBool? ≠ some c.absorbing)
    (hlu : lhs.isUnknown = false) (hr : rhs.asBool? ≠ some c.absorbing)
    (hru : rhs.isUnknown = false) :
    c.combine lhs rhs =
      if lhs.asBool?.isSome ∧ rhs.asBool?.isSome then .bool !c.absorbing
      else lhs.orFail .noSuchOverload := by
  unfold combine
  simp [hl, hlu, hr, hru]

end Connective

/-- Which branch of a ternary a condition selects. -/
inductive Branch where
  | truthy
  | falsy
  /-- Neither: the condition is no truth value, and this is the value of the ternary. -/
  | neither (value : Value)

/-- The branch that a condition selects. -/
def Value.branch : Value → Branch
  | .bool true => .truthy
  | .bool false => .falsy
  | other => .neither (other.orFail .noSuchOverload)

/-- The value of a ternary whose branches have both been computed. -/
def Value.choose (cond truthy falsy : Value) : Value :=
  match cond.branch with
  | .truthy => truthy
  | .falsy => falsy
  | .neither value => value

theorem Value.choose_of_isUnknown {cond : Value} (h : cond.isUnknown = true)
    (truthy falsy : Value) : cond.choose truthy falsy = cond := by
  cases cond with
  | unknown ids => rfl
  | _ => cases h

end TreeEval
