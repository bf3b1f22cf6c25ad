import TreeEval.Eval.Logic
import TreeEval.Proofs.Sentinels

/-!
# Scanning a list

The scan of a list has three answers: there is a match, or all comparisons miss, or some comparison
fails. A match wins over failures on either side of it, and failures win over misses, as they do in a
disjunction. So neither the order of the elements matters nor how often each is there, and to scan
one list after the other is the disjunction of the two scans.

All of this follows from two facts, `scan_eq_true_iff` and `scan_eq_false_iff`: a verdict is known
once it is known when it is true and when it is false (`Value.IsVerdict.ext`).
-/

namespace TreeEval

namespace Value

variable {v w : Value}

theorem fail_ne_bool {cause : EvalError.Cause} (b : Bool) : fail cause ≠ bool b := by
  intro h
  cases h

theorem IsVerdict.ext (hv : v.IsVerdict) (hw : w.IsVerdict)
    (htrue : v = bool true ↔ w = bool true) (hfalse : v = bool false ↔ w = bool false) : v = w := by
  rcases hv with ⟨b, rfl⟩ | rfl
  · cases b with
    | true => exact (htrue.1 rfl).symm
    | false => exact (hfalse.1 rfl).symm
  · rcases hw with ⟨b, rfl⟩ | rfl
    · cases b with
      | true => exact htrue.2 rfl
      | false => exact hfalse.2 rfl
    · rfl

theorem IsVerdict.eq_fail (hv : v.IsVerdict) (h : v.isError = true) : v = fail .noSuchOverload := by
  rcases hv with ⟨b, rfl⟩ | rfl
  · cases h
  · rfl

theorem IsVerdict.eq_false (hv : v.IsVerdict) (htrue : v ≠ bool true) (h : v.isError = false) :
    v = bool false := by
  rcases hv with ⟨b, rfl⟩ | rfl
  · cases b with
    | true => exact absurd rfl htrue
    | false => rfl
  · cases h

/-- In a disjunction of verdicts, what is true wins over a failure, and a failure over what is
false. -/
theorem IsVerdict.combine_or (hv : v.IsVerdict) (hw : w.IsVerdict) :
    Connective.or.combine v w =
      if v.asBool? = some true ∨ w.asBool? = some true then bool true
      else if v.asBool? = some false ∧ w.asBool? = some false then bool false
      else fail .noSuchOverload := by
  rcases hv with ⟨_ | _, rfl⟩ | rfl <;> rcases hw with ⟨_ | _, rfl⟩ | rfl <;> rfl

theorem IsVerdict.or (hv : v.IsVerdict) (hw : w.IsVerdict) :
    (Connective.or.combine v w).IsVerdict := by
  rw [hv.combine_or hw]
  split
  · exact isVerdict_bool true
  · split
    · exact isVerdict_bool false
    · exact .inr rfl

theorem IsVerdict.or_eq_true_iff (hv : v.IsVerdict) (hw : w.IsVerdict) :
    Connective.or.combine v w = bool true ↔ v = bool true ∨ w = bool true := by
  rw [hv.combine_or hw]
  split
  · next h =>
    rw [asBool?_eq_some, asBool?_eq_some] at h
    exact iff_of_true rfl h
  · next h =>
    rw [asBool?_eq_some, asBool?_eq_some] at h
    exact iff_of_false (by split <;> exact nofun) h

theorem IsVerdict.or_eq_false_iff (hv : v.IsVerdict) (hw : w.IsVerdict) :
    Connective.or.combine v w = bool false ↔ v = bool false ∧ w = bool false := by
  rw [hv.combine_or hw]
  split
  · next h =>
    rw [asBool?_eq_some, asBool?_eq_some] at h
    refine iff_of_false nofun ?_
    rintro ⟨rfl, rfl⟩
    exact h.elim nofun nofun
  · split
    · next h =>
      rw [asBool?_eq_some, asBool?_eq_some] at h
      exact iff_of_true rfl h
    · next h =>
      rw [asBool?_eq_some, asBool?_eq_some] at h
      exact iff_of_false nofun h

end Value

namespace Operator

open Value

variable {x : Value} {as bs : List Value}

theorem scan_eq_true_iff {ys : List Value} :
    scan x ys = .bool true ↔ ∃ y ∈ ys, x.equal y = .bool true := by
  induction ys with
  | nil => simp [scan]
  | cons y ys ih =>
    simp only [scan, List.mem_cons, exists_eq_or_imp]
    split
    · next hy => simp [hy]
    · next hy => simp [hy, ih]
    · next hnt hnf =>
      -- a failure hides the misses that follow it, but no match
      have hy : x.equal y ≠ .bool true := hnt
      split
      · next hrest => simp [hy, ih.1 hrest]
      · next hrest =>
        have hnone : ¬ ∃ z ∈ ys, x.equal z = .bool true := fun h => hrest (ih.2 h)
        exact iff_of_false (fail_ne_bool true) fun h => h.elim hy hnone

theorem scan_eq_false_iff {ys : List Value} :
    scan x ys = .bool false ↔ ∀ y ∈ ys, x.equal y = .bool false := by
  induction ys with
  | nil => simp [scan]
  | cons y ys ih =>
    rw [scan, List.forall_mem_cons]
    split
    · next hy => simp [hy]
    · next hy => simp [hy, ih]
    · next hnt hnf =>
      have hy : x.equal y ≠ .bool false := hnf
      split
      · exact iff_of_false (by simp) fun h => hy h.1
      · exact iff_of_false (fail_ne_bool false) fun h => hy h.1

/-- A scan only asks which elements there are. -/
theorem scan_eq_of_mem_iff (h : ∀ y, y ∈ as ↔ y ∈ bs) : scan x as = scan x bs := by
  refine (isVerdict_scan x as).ext (isVerdict_scan x bs) ?_ ?_
  · simp only [scan_eq_true_iff, h]
  · simp only [scan_eq_false_iff, h]

theorem scan_append :
    scan x (as ++ bs) = Connective.or.combine (scan x as) (scan x bs) := by
  have ha := isVerdict_scan x as
  have hb := isVerdict_scan x bs
  refine (isVerdict_scan x (as ++ bs)).ext (ha.or hb) ?_ ?_
  · rw [ha.or_eq_true_iff hb, scan_eq_true_iff, scan_eq_true_iff, scan_eq_true_iff]
    simp only [List.mem_append, or_and_right, exists_or]
  · rw [ha.or_eq_false_iff hb, scan_eq_false_iff, scan_eq_false_iff, scan_eq_false_iff]
    exact List.forall_mem_append

/-- The first of some answers that is an error; if none is, there is no match. -/
def firstFailure (answers : List Value) : Value := (answers.find? Value.isError).getD (.bool false)

theorem firstFailure_cases (answers : List Value) :
    (∃ e ∈ answers, e.isError = true ∧ firstFailure answers = e) ∨
      (∀ v ∈ answers, v.isError = false) ∧ firstFailure answers = .bool false := by
  unfold firstFailure
  cases hfind : answers.find? Value.isError with
  | some e => exact .inl ⟨e, List.mem_of_find?_eq_some hfind, List.find?_some hfind, rfl⟩
  | none => exact .inr ⟨by simpa using hfind, rfl⟩

/-- Without a match, the scan of plain values hands on the first comparison that has failed. -/
theorem scan_eq_firstFailure (hx : x.isPlain = true) (h : ∀ y ∈ as, y.isPlain = true)
    (hmiss : ∀ y ∈ as, x.equal y ≠ .bool true) : scan x as = firstFailure (as.map x.equal) := by
  have hequal : ∀ y ∈ as, (x.equal y).IsVerdict := fun y hy => isVerdict_equal hx (h y hy)
  have htrue : scan x as ≠ .bool true := by
    intro htrue
    obtain ⟨y, hy, hmatch⟩ := scan_eq_true_iff.1 htrue
    exact hmiss y hy hmatch
  rcases firstFailure_cases (as.map x.equal) with ⟨e, he, herror, hfirst⟩ | ⟨hnone, hfirst⟩
  · -- comparisons of plain values fail in one way only, and then so does the scan
    obtain ⟨y, hy, rfl⟩ := List.mem_map.1 he
    have hfail : x.equal y = fail .noSuchOverload := (hequal y hy).eq_fail herror
    have hfalse : scan x as ≠ .bool false := by
      intro hfalse
      rw [scan_eq_false_iff.1 hfalse y hy] at hfail
      cases hfail
    rw [hfirst, hfail]
    exact (isVerdict_scan x as).resolve_left fun ⟨b, hb⟩ => by cases b <;> contradiction
  · rw [hfirst, scan_eq_false_iff]
    intro y hy
    exact (hequal y hy).eq_false (hmiss y hy) (hnone _ (List.mem_map_of_mem hy))

end Operator

namespace Overload

open Operator

/-- Membership in one list after another is membership in one of the two, as a disjunction has it.
So it does not matter in which order the elements of a list come nor how often each does. Among plain
values a match decides, then the first comparison that has failed, and otherwise the value is no
element. -/
theorem inList_append (x : Value) (as bs : List Value) :
    inList.apply x (.list (as ++ bs)) =
        Connective.or.combine (inList.apply x (.list as)) (inList.apply x (.list bs)) ∧
      ((∀ y, y ∈ as ↔ y ∈ bs) → inList.apply x (.list as) = inList.apply x (.list bs)) ∧
        (x.isPlain = true → (∀ y ∈ as, y.isPlain = true) →
          ((∃ y ∈ as, x.equal y = .bool true) → inList.apply x (.list as) = .bool true) ∧
            ((∀ y ∈ as, x.equal y ≠ .bool true) →
              inList.apply x (.list as) = firstFailure (as.map x.equal))) :=
  ⟨scan_append, scan_eq_of_mem_iff, fun hx has =>
    ⟨scan_eq_true_iff.2, scan_eq_firstFailure hx has⟩⟩

/-- A text among numbers: a match wins over it, and without a match it is the first comparison that
has failed. Another order and repetitions change nothing. -/
theorem inList_append_textAmongNumbers :
    let x : Value := .int 2
    let as : List Value := [.str "a", .int 1, .int 2]
    let bs : List Value := [.int 2, .int 1, .str "a", .int 2]
    let rest : List Value := [.str "a", .int 1]
    (∀ y, y ∈ as ↔ y ∈ bs) ∧ x.isPlain = true ∧ (∀ y ∈ rest, y.isPlain = true) ∧
      (∃ y ∈ as, x.equal y = .bool true) ∧ (∀ y ∈ rest, x.equal y ≠ .bool true) ∧
        inList.apply x (.list as) = .bool true ∧ inList.apply x (.list bs) = .bool true ∧
          inList.apply x (.list rest) = .fail .noSuchOverload := by
  intro x as bs rest
  have hmem : ∀ y, y ∈ as ↔ y ∈ bs := by
    intro y
    simp only [as, bs, List.mem_cons, List.not_mem_nil, or_false]
    grind
  have hrest : ∀ y ∈ rest, y.isPlain = true := by simp [rest, Value.isPlain]
  have has : ∀ y ∈ as, y.isPlain = true := by simp [as, Value.isPlain]
  have hmatch : ∃ y ∈ as, x.equal y = .bool true := ⟨.int 2, by simp [as], rfl⟩
  have hmiss : ∀ y ∈ rest, x.equal y ≠ .bool true := by
    intro y hy
    simp only [rest, List.mem_cons, List.not_mem_nil, or_false] at hy
    rcases hy with rfl | rfl
    · exact Value.fail_ne_bool true
    · intro hfalse
      cases hfalse
  obtain ⟨-, hsame, hfound⟩ := inList_append x as bs
  obtain ⟨-, -, hnone⟩ := inList_append x rest []
  have htrue := (hfound rfl has).1 hmatch
  exact ⟨hmem, rfl, hrest, hmatch, hmiss, htrue, (hsame hmem).symm.trans htrue,
    (hnone rfl hrest).2 hmiss⟩

end Overload

end TreeEval
