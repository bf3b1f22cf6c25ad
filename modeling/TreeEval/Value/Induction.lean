import TreeEval.Value.Basic

/-!
# Induction on values

To prove something of every value it is enough to prove it of every list whose elements have it, of
every map whose values have it, and of everything that has no parts.
-/

namespace TreeEval.Value

/-- Induction on values, with one motive for all of them. -/
@[elab_as_elim, induction_eliminator]
theorem ind {motive : Value → Prop}
    (null : motive .null)
    (bool : ∀ b, motive (.bool b))
    (int : ∀ n, motive (.int n))
    (uint : ∀ n, motive (.uint n))
    (double : ∀ d, motive (.double d))
    (str : ∀ s, motive (.str s))
    (bytes : ∀ b, motive (.bytes b))
    (list : ∀ elems, (∀ v ∈ elems, motive v) → motive (.list elems))
    (map : ∀ m : OrderedMap Key Value, (∀ e ∈ m.toList, motive e.2) → motive (.map m))
    (error : ∀ e, motive (.error e))
    (unknown : ∀ ids, motive (.unknown ids))
    (v : Value) : motive v :=
  @Value.rec motive (fun vs => ∀ v ∈ vs, motive v) (fun m => ∀ e ∈ m.toList, motive e.2)
    (fun entries => ∀ e ∈ entries.toList, motive e.2) (fun entries => ∀ e ∈ entries, motive e.2)
    (fun e => motive e.2)
    null bool int uint double str bytes list map error unknown
    (fun _ h => nomatch h)
    (fun _ _ ihHead ihTail v h => by
      rcases List.mem_cons.1 h with rfl | h
      · exact ihHead
      · exact ihTail v h)
    (fun _ _ ih => ih)
    (fun _ ih => ih)
    (fun _ h => nomatch h)
    (fun _ _ ihHead ihTail e h => by
      rcases List.mem_cons.1 h with rfl | h
      · exact ihHead
      · exact ihTail e h)
    (fun _ _ ih => ih)
    v

end TreeEval.Value
