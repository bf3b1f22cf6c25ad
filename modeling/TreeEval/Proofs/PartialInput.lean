import TreeEval.Proofs.Approximation

/-!
# Partial input

A tree may be evaluated before all of its input is known. What comes out is unknown or final:
completing the input does not change a value or an error that has come out already. A connective may
be settled by one operand while the other is unknown, and so an accumulator may be unknown in one
run, defined in the other, and the loop still end with the same value in both. What the runs must
agree on is how often a short-circuit loop goes round, so its condition must not be unknown.
-/

namespace TreeEval

/-- The second activation completes the first one: it binds what the first one binds, and says
nothing of names that the first one neither binds nor withholds. Of withheld names it may say
anything. -/
structure Activation.CompletedBy (p f : Activation) : Prop where
  resolve_eq : ∀ name value, p.resolve? name = some value → f.resolve? name = some value
  missing : ∀ name, p.resolve? name = none → p.isWithheld name = false →
    f.resolve? name = none ∧ f.isWithheld name = false

/-- What a name means stays the same, unless it is unknown. -/
theorem Activation.CompletedBy.approx {p f : Activation} (h : p.CompletedBy f) :
    p.Approx true f := by
  intro id name
  rw [lookup, lookup]
  cases hp : p.resolve? name with
  | some value =>
    rw [h.resolve_eq name value hp]
    exact .refl _
  | none =>
    -- an unbound name is either withheld, and then unknown, or missing in both
    by_cases hw : p.isWithheld name = true
    · exact .inl ⟨rfl, by simp [hw, Value.isUnknown]⟩
    · have hf := h.missing name hp (by simpa using hw)
      rw [hf.1, hf.2]
      simp only [hw]
      exact .refl _

namespace Node

/-- The value of a tree under partial input is unknown, or it is the value under every completion of
the input. -/
theorem eval_completed {p f : Activation} (h : p.CompletedBy f) {t : Node}
    (hconds : ∀ v ∈ t.visits p, ∀ c ∈ v.node.loopConds v.act, c.isUnknown = false) :
    (t.eval p).isUnknown = true ∨ t.eval p = t.eval f := by
  -- the tree is the same in both runs, so every node has the shape of its counterpart
  have happrox : t.Approx true (Decided true) t := by
    clear hconds
    induction t using parts_induction with
    | step n ih => exact approx_of_alike (fun _ hv => hv) (.of_parts ih)
  exact (happrox p f h.approx fun v hv _ => hconds v hv).imp_left And.right

/-- A loop whose accumulator is unknown after its first turn if `y` is, and true after its second
turn whatever `y` is. -/
def settledLoop : Node :=
  fold ⟨1⟩ .shortCircuit "found" "x" (const ⟨2⟩ (.list [.int 1, .int 2])) (const ⟨3⟩ (.bool false))
    (const ⟨4⟩ (.bool true))
    (logical ⟨5⟩ .shortCircuit .or (ident ⟨6⟩ "found")
      (logical ⟨7⟩ .exhaustive .or (binary ⟨8⟩ .equals (ident ⟨9⟩ "x") (ident ⟨10⟩ "y"))
        (binary ⟨11⟩ .equals (ident ⟨12⟩ "x") (ident ⟨13⟩ "z"))))
    (ident ⟨14⟩ "found")

theorem eval_completed_settledLoop :
    let p : Activation := .withheld ⟨[("z", .int 2)]⟩ ["y"]
    let f : Activation := .bound ⟨[("z", .int 2), ("y", .str "one")]⟩
    p.CompletedBy f ∧ settledLoop.eval p = settledLoop.eval f ∧
      settledLoop.eval p = .bool true := by
  intro p f
  have h : p.CompletedBy f := by
    constructor
    · intro name value hname
      by_cases hz : name = "z"
      · subst hz
        exact hname
      · have hz : (name == "z") = false := beq_eq_false_iff_ne.2 hz
        simp [p, Activation.resolve?, Bindings.find?, List.lookup_cons, hz] at hname
    · intro name hname hw
      have hy : (name == "y") = false := by simpa [p, Activation.isWithheld] using hw
      have hz : (name == "z") = false := by
        rw [beq_eq_false_iff_ne]
        rintro rfl
        cases hname
      simp [f, Activation.resolve?, Activation.isWithheld, Bindings.find?, List.lookup_cons, hy, hz]
  exact ⟨h, (eval_completed h (by decide)).resolve_left (by decide), rfl⟩

end Node

end TreeEval
