import TreeEval.Proofs.ComputeAhead

/-!
# Membership in a constant list

A membership test against a constant list has three outcomes when it is computed ahead: it becomes
false, or a look-up, or it stays what it is. `eval_membershipAhead_iff` says that the new node has
the value of the test, for every list and under every activation, with one exception: in the empty
list there is nothing to compare with, so the test is false without a look at its left side, which
may be a sentinel.
-/

namespace TreeEval

open Builtin

namespace Node

/-- A test against a constant list is never refused. -/
theorem exists_rewrite_membership (id : NodeId) (lhs : Node) {rhs : Node} {ys : List Value}
    (h : rhs.constant? = some (.list ys)) :
    ∃ t', computeAhead.rewrite (binary id .inList lhs rhs) = .ok t' := by
  show ∃ t', (Plan.hashMembership id lhs rhs).outcome.1 = .ok t'
  unfold Plan.hashMembership
  rw [h]
  cases ys with
  | nil => exact ⟨_, rfl⟩
  | cons y ys =>
    dsimp only
    split
    · exact ⟨_, rfl⟩
    · exact ⟨_, rfl⟩

theorem rewrite_membership_emptyList (id : NodeId) (lhs : Node) {rhs : Node}
    (h : rhs.constant? = some (.list [])) :
    computeAhead.rewrite (binary id .inList lhs rhs) = .ok (const id (.bool false)) := by
  show (Plan.hashMembership id lhs rhs).outcome.1 = .ok (const id (.bool false))
  unfold Plan.hashMembership
  rw [h]
  rfl

/-- The test itself is false in the empty list, unless its left side is a sentinel. -/
theorem eval_membership_emptyList (id : NodeId) (lhs : Node) {rhs : Node}
    (h : rhs.constant? = some (.list [])) (act : Activation) :
    (binary id .inList lhs rhs).eval act =
      if (lhs.eval act).isSentinel then lhs.eval act else .bool false := by
  rw [eval_binary, eval_of_constant? h]
  rfl

/-- What becomes of a membership test against a constant list has the value of the test, except that
it is false in the empty list also where the left side of the test is a sentinel. -/
theorem eval_membershipAhead_iff (id : NodeId) (lhs : Node) {rhs : Node} {ys : List Value}
    (h : rhs.constant? = some (.list ys)) :
    ∃ t', computeAhead.rewrite (binary id .inList lhs rhs) = .ok t' ∧
      (ys = [] → t' = const id (.bool false)) ∧
      ∀ act, t'.eval act = (binary id .inList lhs rhs).eval act ↔
        ys ≠ [] ∨ (lhs.eval act).isSentinel = false := by
  by_cases hys : ys = []
  · subst hys
    refine ⟨_, rewrite_membership_emptyList id lhs h, fun _ => rfl, fun act => ?_⟩
    rw [eval_const, eval_membership_emptyList id lhs h]
    -- a sentinel is not false, and false is what is left otherwise
    cases hl : (lhs.eval act).isSentinel with
    | true =>
      have hne : Value.bool false ≠ lhs.eval act := fun heq => by
        simp [← heq, Value.isSentinel] at hl
      simpa using hne
    | false => simp
  · obtain ⟨t', ht'⟩ := exists_rewrite_membership id lhs h
    have hkept : t'.eval = (binary id .inList lhs rhs).eval := by
      refine eval_of_computedAhead (computedAhead_of_rewrite ht') fun id' lhs' rhs' heq hnil => ?_
      cases heq
      exact hys (Value.list.inj (Option.some_inj.1 (h.symm.trans hnil)))
    exact ⟨t', ht', fun hnil => absurd hnil hys, fun act => by simp [hkept, hys]⟩

/-- A number in a watched list of the two zeros and a NaN, which stays a test because of the NaN, and
a name that is withheld in a list of texts, which becomes a look-up that hands the unknown on. -/
theorem eval_membershipAhead_iff_zerosAndTexts :
    let zeros : List Value :=
      [.double ⟨0⟩, .double ⟨0x8000000000000000⟩, .double ⟨0x7FF8000000000000⟩]
    let texts : List Value := [.str "a", .str "b", .str "a"]
    let watched := watch .tracker (const ⟨3⟩ (.list zeros))
    let act : Activation := .withheld ⟨[("x", .double ⟨0x8000000000000000⟩)]⟩ ["y"]
    (watched.constant? = some (.list zeros) ∧
      ∃ t', computeAhead.rewrite (binary ⟨1⟩ .inList (ident ⟨2⟩ "x") watched) = .ok t' ∧
        t'.eval act = .bool true) ∧
    ((const ⟨4⟩ (.list texts)).constant? = some (.list texts) ∧
      ∃ t', computeAhead.rewrite
        (binary ⟨1⟩ .inList (ident ⟨5⟩ "y") (const ⟨4⟩ (.list texts))) = .ok t' ∧
        t'.eval act = .unknown (.singleton ⟨5⟩)) := by
  intro zeros texts watched act
  have hzeros : watched.constant? = some (.list zeros) := rfl
  have htexts : (const ⟨4⟩ (.list texts)).constant? = some (.list texts) := rfl
  refine ⟨⟨hzeros, ?_⟩, htexts, ?_⟩
  · obtain ⟨t', ht', -, hiff⟩ := eval_membershipAhead_iff ⟨1⟩ (ident ⟨2⟩ "x") hzeros
    exact ⟨t', ht', ((hiff act).2 (.inl (by decide))).trans rfl⟩
  · obtain ⟨t', ht', -, hiff⟩ := eval_membershipAhead_iff ⟨1⟩ (ident ⟨5⟩ "y") htexts
    exact ⟨t', ht', ((hiff act).2 (.inl (by decide))).trans rfl⟩

/-- A name without a meaning is an error before it is looked for in the empty list, and no longer
when the test has been computed ahead. -/
theorem eval_membershipAhead_ne_of_emptyList :
    let test := binary ⟨1⟩ .inList (ident ⟨2⟩ "x") (const ⟨3⟩ (.list []))
    computeAhead.rewrite test = .ok (const ⟨1⟩ (.bool false)) ∧
      test.eval .empty = .fail (.noSuchAttribute "x") ∧
      (const ⟨1⟩ (.bool false)).eval .empty ≠ test.eval .empty :=
  ⟨rfl, rfl, nofun⟩

end Node

end TreeEval
