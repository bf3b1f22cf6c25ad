import TreeEval.Eval.Pure

/-!
# Chains of a connective

Operands of one connective can be put together in many ways: every link joins two parts, and each
link has a mode of its own. The value of the whole depends on none of this. It is the value of the
row of operands, which `Connective.ofRow` reads off the row, because to combine the values of two
rows is to take the value of one row after the other: `Connective.combine_ofRow`.
-/

namespace TreeEval

namespace Connective

variable {c : Connective} {v w : Value} {vs ws ls rs : List Value}

/-! ## Rows of values -/

/-- The value of a row of operands. An operand that settles the connective comes first, then the
leftmost unknown. A single operand is its own value. Otherwise all have to be truth values, and if
they are not, an error in the first place explains it better than a fresh one. -/
def ofRow (c : Connective) (vs : List Value) : Value :=
  if vs.any fun v => v.asBool? = some c.absorbing then .bool c.absorbing
  else
    match vs.find? Value.isUnknown with
    | some u => u
    | none =>
      match vs with
      | [] => .bool !c.absorbing
      | [v] => v
      | v :: _ =>
        if vs.all fun v => v.asBool? = some !c.absorbing then .bool !c.absorbing
        else if v.isError then v
        else .fail .noSuchOverload

/-- No operand settles the connective, and none is unknown. -/
structure Undecided (c : Connective) (vs : List Value) : Prop where
  asBool?_ne : ∀ v ∈ vs, v.asBool? ≠ some c.absorbing
  isUnknown_eq : ∀ v ∈ vs, v.isUnknown = false

theorem ofRow_of_settled (h : ∃ v ∈ vs, v.asBool? = some c.absorbing) :
    c.ofRow vs = .bool c.absorbing := by
  unfold ofRow
  rw [if_pos (by simpa using h)]

theorem ofRow_of_find? (h : ∀ v ∈ vs, v.asBool? ≠ some c.absorbing) {u : Value}
    (hu : vs.find? Value.isUnknown = some u) : c.ofRow vs = u := by
  unfold ofRow
  rw [if_neg (by simpa using h), hu]

theorem ofRow_singleton (c : Connective) (v : Value) : c.ofRow [v] = v := by
  by_cases hv : v.asBool? = some c.absorbing
  · rw [ofRow_of_settled ⟨v, List.mem_singleton_self v, hv⟩, Value.asBool?_eq_some.1 hv]
  · unfold ofRow
    by_cases hu : v.isUnknown = true <;> simp [hv, hu]

/-- In a row of two or more, the operands have to be truth values. -/
theorem ofRow_of_undecided (hvs : vs ≠ []) (h : c.Undecided (v :: vs)) :
    c.ofRow (v :: vs) =
      if ∀ x ∈ v :: vs, x.asBool?.isSome then .bool !c.absorbing
      else v.orFail .noSuchOverload := by
  obtain ⟨w, ws, rfl⟩ := List.exists_cons_of_ne_nil hvs
  have hnone : (v :: w :: ws).find? Value.isUnknown = none :=
    List.find?_eq_none.2 fun x hx => by simp [h.isUnknown_eq x hx]
  have hother : (v :: w :: ws).all (fun x => x.asBool? = some !c.absorbing) = true ↔
      ∀ x ∈ v :: w :: ws, x.asBool?.isSome = true := by
    rw [List.all_eq_true]
    refine forall₂_congr fun x hx => ?_
    have hne := h.asBool?_ne x hx
    cases hb : x.asBool? with
    | none => simp
    | some b =>
      rw [hb] at hne
      simpa [Bool.eq_not] using hne
  unfold ofRow
  rw [if_neg (by simpa using h.asBool?_ne), hnone,
    Value.orFail_of_isUnknown_eq_false (h.isUnknown_eq v List.mem_cons_self)]
  simp only [hother]

namespace Undecided

theorem append (hl : c.Undecided ls) (hr : c.Undecided rs) : c.Undecided (ls ++ rs) where
  asBool?_ne := List.forall_mem_append.2 ⟨hl.asBool?_ne, hr.asBool?_ne⟩
  isUnknown_eq := List.forall_mem_append.2 ⟨hl.isUnknown_eq, hr.isUnknown_eq⟩

/-- What a link makes of the value of an undecided row: whether it settles the connective, whether
it is unknown, whether it is a truth value, and how it explains a failure. -/
theorem ofRow_spec (h : c.Undecided (v :: vs)) :
    (c.ofRow (v :: vs)).asBool? ≠ some c.absorbing ∧
      (c.ofRow (v :: vs)).isUnknown = false ∧
      ((c.ofRow (v :: vs)).asBool?.isSome = true ↔ ∀ x ∈ v :: vs, x.asBool?.isSome = true) ∧
      (c.ofRow (v :: vs)).orFail .noSuchOverload = v.orFail .noSuchOverload := by
  have hv : v.asBool? ≠ some c.absorbing := h.asBool?_ne v List.mem_cons_self
  have hu : v.isUnknown = false := h.isUnknown_eq v List.mem_cons_self
  by_cases hvs : vs = []
  · rw [hvs, ofRow_singleton]
    exact ⟨hv, hu, by simp, rfl⟩
  · rw [ofRow_of_undecided hvs h]
    by_cases hall : ∀ x ∈ v :: vs, x.asBool?.isSome = true
    · have hbool : v.asBool?.isSome = true := hall v List.mem_cons_self
      have hfail : v.orFail .noSuchOverload = .fail .noSuchOverload := by
        obtain ⟨b, hb⟩ := Option.isSome_iff_exists.1 hbool
        rw [Value.asBool?_eq_some.1 hb]
        rfl
      rw [if_pos hall, hfail]
      exact ⟨by simp [Value.asBool?], rfl, iff_of_true rfl hall, rfl⟩
    · rw [if_neg hall, Value.asBool?_orFail, Value.isUnknown_orFail, Value.orFail_orFail]
      exact ⟨(Option.some_ne_none _).symm, hu, iff_of_false Bool.false_ne_true hall, rfl⟩

/-- A link between two undecided rows asks for truth values in both, and explains a failure by the
first value of the left one. -/
theorem combine_ofRow (hl : c.Undecided (v :: vs)) (hr : c.Undecided (w :: ws)) :
    c.combine (c.ofRow (v :: vs)) (c.ofRow (w :: ws)) = c.ofRow (v :: vs ++ w :: ws) := by
  obtain ⟨hne, hunknown, hbool, hfail⟩ := hl.ofRow_spec
  obtain ⟨hne', hunknown', hbool', -⟩ := hr.ofRow_spec
  have hlong : vs ++ w :: ws ≠ [] := by simp
  rw [combine_of_undecided hne hunknown hne' hunknown', hfail, List.cons_append,
    ofRow_of_undecided hlong (hl.append hr)]
  simp only [hbool, hbool', ← List.cons_append, List.forall_mem_append]

end Undecided

theorem asBool?_ofRow_ne (hvs : vs ≠ []) (h : ∀ v ∈ vs, v.asBool? ≠ some c.absorbing) :
    (c.ofRow vs).asBool? ≠ some c.absorbing := by
  cases hu : vs.find? Value.isUnknown with
  | some u =>
    have hunknown : u.isUnknown = true := List.find?_some hu
    rw [ofRow_of_find? h hu, Value.asBool?_of_isUnknown hunknown]
    exact nofun
  | none =>
    obtain ⟨v, vs, rfl⟩ := List.exists_cons_of_ne_nil hvs
    have hundecided : c.Undecided (v :: vs) := ⟨h, by simpa using hu⟩
    exact hundecided.ofRow_spec.1

/-- A link takes the values of two rows to the value of one row after the other. -/
theorem combine_ofRow (hl : ls ≠ []) (hr : rs ≠ []) :
    c.combine (c.ofRow ls) (c.ofRow rs) = c.ofRow (ls ++ rs) := by
  -- an operand that settles the connective does so from either side
  by_cases hsl : ∃ v ∈ ls, v.asBool? = some c.absorbing
  · have hs : ∃ v ∈ ls ++ rs, v.asBool? = some c.absorbing := by
      obtain ⟨v, hv, hsettles⟩ := hsl
      exact ⟨v, List.mem_append_left rs hv, hsettles⟩
    rw [ofRow_of_settled hsl, ofRow_of_settled hs]
    exact combine_of_lhs rfl _
  by_cases hsr : ∃ v ∈ rs, v.asBool? = some c.absorbing
  · have hs : ∃ v ∈ ls ++ rs, v.asBool? = some c.absorbing := by
      obtain ⟨v, hv, hsettles⟩ := hsr
      exact ⟨v, List.mem_append_right ls hv, hsettles⟩
    rw [ofRow_of_settled hsr, ofRow_of_settled hs]
    exact combine_of_rhs rfl _
  have hnl : ∀ v ∈ ls, v.asBool? ≠ some c.absorbing := by simpa using hsl
  have hnr : ∀ v ∈ rs, v.asBool? ≠ some c.absorbing := by simpa using hsr
  have hn : ∀ v ∈ ls ++ rs, v.asBool? ≠ some c.absorbing := List.forall_mem_append.2 ⟨hnl, hnr⟩
  have hfind : (ls ++ rs).find? Value.isUnknown =
      (ls.find? Value.isUnknown).or (rs.find? Value.isUnknown) := List.find?_append
  -- the leftmost unknown is that of the left row, if there is one
  cases hul : ls.find? Value.isUnknown with
  | some u =>
    rw [hul, Option.some_or] at hfind
    rw [ofRow_of_find? hnl hul, ofRow_of_find? hn hfind]
    exact combine_of_isUnknown_lhs (List.find?_some hul) (asBool?_ofRow_ne hr hnr)
  | none =>
    rw [hul, Option.none_or] at hfind
    have hundecided : c.Undecided ls := ⟨hnl, by simpa using hul⟩
    obtain ⟨v, vs, rfl⟩ := List.exists_cons_of_ne_nil hl
    obtain ⟨hne, hunknown, -, -⟩ := hundecided.ofRow_spec
    cases hur : rs.find? Value.isUnknown with
    | some u =>
      rw [hur] at hfind
      rw [ofRow_of_find? hnr hur, ofRow_of_find? hn hfind]
      exact combine_of_isUnknown_rhs hne hunknown (List.find?_some hur)
    | none =>
      have hundecided' : c.Undecided rs := ⟨hnr, by simpa using hur⟩
      obtain ⟨w, ws, rfl⟩ := List.exists_cons_of_ne_nil hr
      exact hundecided.combine_ofRow hundecided'

end Connective

/-! ## Bracketings -/

/-- The operands of a chain and how its links join them. Each link has an identifier and a mode of
its own. -/
inductive Bracketing where
  | operand (n : Node)
  | link (id : NodeId) (mode : Mode) (left right : Bracketing)

namespace Bracketing

/-- The tree that evaluates a chain whose links are all of one connective. -/
def toNode (c : Connective) : Bracketing → Node
  | operand n => n
  | link id mode left right => .logical id mode c (left.toNode c) (right.toNode c)

/-- The operands in the order in which they are written. -/
def operands : Bracketing → List Node
  | operand n => [n]
  | link _ _ left right => left.operands ++ right.operands

theorem operands_ne_nil (b : Bracketing) : b.operands ≠ [] := by
  induction b with
  | operand n => exact List.cons_ne_nil n []
  | link id mode left right ihl ihr =>
    intro h
    exact ihl (List.append_eq_nil_iff.1 h).1

/-- The value of a chain is the value of the row of its operands, however its links are put and
whatever their modes are. -/
theorem eval_toNode (c : Connective) (b : Bracketing) (act : Activation) :
    (b.toNode c).eval act = c.ofRow (b.operands.map fun n => n.eval act) := by
  induction b with
  | operand n => exact (Connective.ofRow_singleton c (n.eval act)).symm
  | link id mode left right ihl ihr =>
    have hl : left.operands.map (fun n => n.eval act) ≠ [] := by
      simpa using left.operands_ne_nil
    have hr : right.operands.map (fun n => n.eval act) ≠ [] := by
      simpa using right.operands_ne_nil
    show (Node.logical id mode c (left.toNode c) (right.toNode c)).eval act =
      c.ofRow ((left.operands ++ right.operands).map fun n => n.eval act)
    rw [Node.eval_logical, ihl, ihr, List.map_append, Connective.combine_ofRow hl hr]

end Bracketing

end TreeEval
