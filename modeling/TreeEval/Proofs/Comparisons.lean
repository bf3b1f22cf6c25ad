import TreeEval.Operator

/-!
# One order behind all comparisons

Values are compared by two functions that know nothing of each other: one tells equal values from
others, the other one orders them. On truth values, integers, texts and bytes the two are faces of
one total order. A `Scale` is such an order with what has to be checked of it; `exists_scale` says
that the values of each of these types lie on one, and all that is said of the operators follows from
that. Doubles have none, because of the NaNs: `Operator.compare?_swap`, which holds of all values,
is all that is said of them.

Texts and bytes are ordered as in a dictionary of bytes, which `Precedes` describes.
-/

namespace TreeEval

open Std

/-! ## The order of bytes -/

/-- One row of bytes comes before another in a dictionary: it is a proper beginning of the other, or
it has the smaller byte in the first place where the two differ. -/
inductive Precedes : List UInt8 → List UInt8 → Prop
  | beginning (s : List UInt8) (x : UInt8) (rest : List UInt8) : Precedes s (s ++ x :: rest)
  | smaller (front s t : List UInt8) {x y : UInt8} (h : x < y) :
      Precedes (front ++ x :: s) (front ++ y :: t)

namespace Precedes

variable {s t : List UInt8}

theorem cons (x : UInt8) (h : Precedes s t) : Precedes (x :: s) (x :: t) := by
  cases h with
  | beginning s y rest => exact .beginning (x :: s) y rest
  | smaller front s t h => exact .smaller (x :: front) s t h

theorem of_lt (h : s < t) : Precedes s t := by
  -- along the first row, up to its end or the first place where the rows differ
  induction s generalizing t with
  | nil =>
    cases t with
    | nil => exact absurd h (List.not_lt_nil [])
    | cons y t => exact .beginning [] y t
  | cons x s ih =>
    cases t with
    | nil => exact absurd h (List.not_lt_nil (x :: s))
    | cons y t =>
      rcases List.cons_lt_cons_iff.1 h with hxy | ⟨rfl, hst⟩
      · exact .smaller [] s t hxy
      · exact (ih hst).cons x

theorem lt (h : Precedes s t) : s < t := by
  have hfront : ∀ {u v : List UInt8} (front : List UInt8), u < v → front ++ u < front ++ v := by
    intro u v front huv
    induction front with
    | nil => exact huv
    | cons z front ih => exact List.cons_lt_cons_iff.2 (.inr ⟨rfl, ih⟩)
  cases h with
  | beginning s x rest =>
    have hnil : ([] : List UInt8) < x :: rest := List.nil_lt_cons x rest
    simpa using hfront s hnil
  | smaller front s t hxy => exact hfront front (List.cons_lt_cons_iff.2 (.inl hxy))

theorem iff_lt : Precedes s t ↔ s < t := ⟨lt, of_lt⟩

end Precedes

namespace Operator

/-- How two rows of bytes compare. -/
def compareBytes (s t : List UInt8) : Ordering := compareOfLessAndEq s t

theorem compareBytes_eq_lt_iff {s t : List UInt8} : compareBytes s t = .lt ↔ Precedes s t := by
  rw [Precedes.iff_lt]
  exact compareOfLessAndEq_eq_lt

instance : TransCmp compareBytes := by
  refine TransOrd.compareOfLessAndEq_of_lt_trans_of_lt_iff List.lt_trans fun s t => ?_
  constructor
  · intro h
    refine ⟨List.lt_asymm h, ?_⟩
    rintro rfl
    exact List.lt_irrefl s h
  · rintro ⟨hnot, hne⟩
    rcases Std.lt_trichotomy s t with h | h | h
    · exact h
    · exact absurd h hne
    · exact absurd h hnot

instance : LawfulEqCmp compareBytes where
  eq_of_compare {s t} h := by
    unfold compareBytes compareOfLessAndEq at h
    split at h
    · cases h
    · split at h
      · assumption
      · cases h

theorem textBytes_inj {s t : String} : textBytes s = textBytes t ↔ s = t := by
  refine ⟨fun h => ?_, congrArg textBytes⟩
  have hbytes : s.toByteArray = t.toByteArray := by
    apply ByteArray.ext
    exact Array.toList_inj.1 h
  exact String.toByteArray_inj.1 hbytes

/-- How two texts compare. -/
def compareTexts (s t : String) : Ordering := compareBytes (textBytes s) (textBytes t)

instance : TransCmp compareTexts where
  eq_swap {s t} := (OrientedCmp.eq_swap : compareBytes (textBytes s) (textBytes t) = _)
  isLE_trans {s t _} :=
    (TransCmp.isLE_trans : (compareBytes (textBytes s) (textBytes t)).isLE → _)

instance : LawfulEqCmp compareTexts where
  eq_of_compare h := textBytes_inj.1 (LawfulEqCmp.eq_of_compare h)

/-! ## Scales -/

/-- What is made of the members of a total order is compared by that order, and is equal where the
order finds no difference. -/
structure Scale where
  /-- What is ordered. -/
  Place : Type
  /-- The value that is made of it. -/
  value : Place → Value
  /-- The order. -/
  cmp : Place → Place → Ordering
  trans : TransCmp cmp
  compare?_value : ∀ x y, compare? (value x) (value y) = some (some (cmp x y))
  equal_value : ∀ x y, (value x).equal (value y) = .bool (cmp x y == .eq)

/-- An order that finds a difference wherever there is one makes a scale. -/
def Scale.ofLawful {α : Type} [BEq α] [LawfulBEq α] (value : α → Value) (cmp : α → α → Ordering)
    [hcmp : TransCmp cmp] [LawfulEqCmp cmp]
    (hcompare : ∀ x y, compare? (value x) (value y) = some (some (cmp x y)))
    (hequal : ∀ x y, (value x).equal (value y) = .bool (x == y)) : Scale where
  Place := α
  value := value
  cmp := cmp
  trans := hcmp
  compare?_value := hcompare
  equal_value x y := by
    have hsame : (x == y) = (cmp x y == .eq) := by
      rw [Bool.eq_iff_iff, beq_iff_eq, beq_iff_eq, LawfulEqCmp.compare_eq_iff_eq]
    rw [hequal, hsame]

end Operator

/-- The types whose values lie on a scale. -/
def ValueType.isTotallyOrdered : ValueType → Bool
  | bool | int | uint | string | bytes => true
  | _ => false

namespace Operator

variable {a b c : Value}

/-- All values of a totally ordered type lie on one scale. -/
theorem exists_scale (h : a.type.isTotallyOrdered = true) :
    ∃ s : Scale, ∀ v : Value, v.type = a.type → ∃ x, v = s.value x := by
  cases a with
  | bool x =>
    refine ⟨.ofLawful .bool compare (fun _ _ => rfl) (fun _ _ => rfl), fun v hv => ?_⟩
    cases v with
    | bool y => exact ⟨y, rfl⟩
    | _ => cases hv
  | int n =>
    refine ⟨.ofLawful .int compare (fun _ _ => rfl) (fun _ _ => rfl), fun v hv => ?_⟩
    cases v with
    | int m => exact ⟨m, rfl⟩
    | _ => cases hv
  | uint n =>
    refine ⟨.ofLawful .uint compare (fun _ _ => rfl) (fun _ _ => rfl), fun v hv => ?_⟩
    cases v with
    | uint m => exact ⟨m, rfl⟩
    | _ => cases hv
  | str s =>
    refine ⟨.ofLawful .str compareTexts (fun _ _ => rfl) (fun _ _ => rfl), fun v hv => ?_⟩
    cases v with
    | str t => exact ⟨t, rfl⟩
    | _ => cases hv
  | bytes s =>
    refine ⟨.ofLawful .bytes compareBytes (fun _ _ => rfl) (fun _ _ => rfl), fun v hv => ?_⟩
    cases v with
    | bytes t => exact ⟨t, rfl⟩
    | _ => cases hv
  | _ => cases h

/-- Only values of one type are compared. -/
theorem type_eq_of_compare? {r : Option Ordering} (h : compare? a b = some r) :
    b.type = a.type := by
  cases a with
  | bool x =>
    cases b with
    | bool y => rfl
    | _ => cases h
  | int m =>
    cases b with
    | int n => rfl
    | _ => cases h
  | uint m =>
    cases b with
    | uint n => rfl
    | _ => cases h
  | double d =>
    cases b with
    | double e => rfl
    | _ => cases h
  | str s =>
    cases b with
    | str t => rfl
    | _ => cases h
  | bytes s =>
    cases b with
    | bytes t => rfl
    | _ => cases h
  | _ => cases h

/-- The operands of a comparison may be swapped, whatever they are. -/
theorem compare?_swap (a b : Value) :
    compare? b a = (compare? a b).map (Option.map Ordering.swap) := by
  cases a with
  | bool x =>
    cases b with
    | bool y => exact congrArg (fun o => some (some o)) OrientedCmp.eq_swap
    | _ => rfl
  | int m =>
    cases b with
    | int n => exact congrArg (fun o => some (some o)) OrientedCmp.eq_swap
    | _ => rfl
  | uint m =>
    cases b with
    | uint n => exact congrArg (fun o => some (some o)) OrientedCmp.eq_swap
    | _ => rfl
  | str s =>
    cases b with
    | str t =>
      exact congrArg (fun o => some (some o)) (OrientedCmp.eq_swap : compareTexts t s = _)
    | _ => rfl
  | bytes s =>
    cases b with
    | bytes t =>
      exact congrArg (fun o => some (some o)) (OrientedCmp.eq_swap : compareBytes t s = _)
    | _ => rfl
  | double d =>
    cases b with
    | double e =>
      show some (e.compare? d) = some ((d.compare? e).map Ordering.swap)
      unfold Double.compare?
      rw [Bool.or_comm]
      split
      · rfl
      · exact congrArg (fun o => some (some o)) OrientedCmp.eq_swap
    | _ => rfl
  | _ => cases b <;> rfl

theorem ordered_eq_true_iff {wanted : Ordering} :
    ordered wanted a b = .bool true ↔ compare? a b = some (some wanted) := by
  unfold ordered
  cases compare? a b with
  | none => simp [Value.fail]
  | some found => simp

/-- Looking for an order is looking for the opposite order of the swapped operands. -/
theorem ordered_swap (wanted : Ordering) (a b : Value) :
    ordered wanted.swap a b = ordered wanted b a := by
  unfold ordered
  rw [compare?_swap a b]
  cases compare? a b with
  | none => rfl
  | some found =>
    cases found with
    | none => cases wanted <;> rfl
    | some o => cases o <;> cases wanted <;> rfl

end Operator

namespace Overload

open Operator

variable {a b c : Value}

theorem less_eq_true_iff : less.apply a b = .bool true ↔ compare? a b = some (some .lt) :=
  ordered_eq_true_iff

theorem less_bytes_iff {s t : List UInt8} :
    less.apply (.bytes s) (.bytes t) = .bool true ↔ Precedes s t := by
  rw [less_eq_true_iff, ← compareBytes_eq_lt_iff]
  show some (some (compareBytes s t)) = some (some .lt) ↔ _
  rw [Option.some_inj, Option.some_inj]

theorem less_str_iff {s t : String} :
    less.apply (.str s) (.str t) = .bool true ↔ Precedes (textBytes s) (textBytes t) :=
  less_bytes_iff

/-- Of two values of one totally ordered type, one comes first, or they are equal. -/
theorem exists_ordering (h : a.type.isTotallyOrdered = true) (hb : b.type = a.type) :
    ∃ o : Ordering, less.apply a b = .bool (o == .lt) ∧ equals.apply a b = .bool (o == .eq) ∧
      greater.apply a b = .bool (o == .gt) ∧ notEquals.apply a b = .bool (o != .eq) := by
  obtain ⟨scale, hscale⟩ := exists_scale h
  obtain ⟨x, hx⟩ := hscale a rfl
  obtain ⟨y, hy⟩ := hscale b hb
  -- the order of the two places answers all four questions
  have hordered : ∀ wanted, ordered wanted a b = .bool (scale.cmp x y == wanted) := by
    intro wanted
    rw [hx, hy, ordered, scale.compare?_value]
    rfl
  have hequal : a.equal b = .bool (scale.cmp x y == .eq) := by
    rw [hx, hy, scale.equal_value]
  have hnegate : (a.equal b).negate = .bool (scale.cmp x y != .eq) := by
    rw [hequal]
    rfl
  exact ⟨scale.cmp x y, hordered .lt, hequal, hordered .gt, hnegate⟩

theorem less_trans (h : a.type.isTotallyOrdered = true) (hab : less.apply a b = .bool true)
    (hbc : less.apply b c = .bool true) : less.apply a c = .bool true := by
  rw [less_eq_true_iff] at hab hbc ⊢
  -- values that are compared are of one type, so all three lie on the scale of the first
  have hb : b.type = a.type := type_eq_of_compare? hab
  have hc : c.type = a.type := (type_eq_of_compare? hbc).trans hb
  obtain ⟨scale, hscale⟩ := exists_scale h
  obtain ⟨x, rfl⟩ := hscale a rfl
  obtain ⟨y, rfl⟩ := hscale b hb
  obtain ⟨z, rfl⟩ := hscale c hc
  rw [scale.compare?_value, Option.some_inj, Option.some_inj] at hab hbc
  have htrans : TransCmp scale.cmp := scale.trans
  have hac : scale.cmp x z = .lt := TransCmp.lt_trans hab hbc
  rw [scale.compare?_value, hac]

/-- The comparison operators see one order. Any two values may be swapped if the operator is turned
round. Of two values of one totally ordered type, exactly one comes first or they are equal; being
unequal is not being equal; and coming first is transitive. Texts and bytes are ordered as in a
dictionary of bytes. -/
theorem comparisons_consistent (a b c : Value) :
    greater.apply a b = less.apply b a ∧
      (a.type.isTotallyOrdered = true →
        (b.type = a.type → ∃ o : Ordering,
          less.apply a b = .bool (o == .lt) ∧ equals.apply a b = .bool (o == .eq) ∧
            greater.apply a b = .bool (o == .gt) ∧ notEquals.apply a b = .bool (o != .eq)) ∧
          (less.apply a b = .bool true → less.apply b c = .bool true →
            less.apply a c = .bool true)) ∧
        (∀ s t, less.apply (.bytes s) (.bytes t) = .bool true ↔ Precedes s t) ∧
          ∀ s t, less.apply (.str s) (.str t) = .bool true ↔
            Precedes (textBytes s) (textBytes t) :=
  ⟨ordered_swap .lt a b, fun h => ⟨exists_ordering h, less_trans h⟩, fun _ _ => less_bytes_iff,
    fun _ _ => less_str_iff⟩

/-- A text comes before those that it begins, and ASCII before all other characters. -/
theorem comparisons_consistent_texts :
    let a : Value := .str "a"
    let b : Value := .str "ab"
    let c : Value := .str "é"
    a.type.isTotallyOrdered = true ∧ less.apply a b = .bool true ∧ less.apply b c = .bool true ∧
      less.apply a c = .bool true ∧ greater.apply b a = .bool true := by
  intro a b c
  have hab : less.apply a b = .bool true := rfl
  have hbc : less.apply b c = .bool true := rfl
  obtain ⟨-, horder, -⟩ := comparisons_consistent a b c
  obtain ⟨hswap, -⟩ := comparisons_consistent b a c
  exact ⟨rfl, hab, hbc, (horder rfl).2 hab hbc, hswap.trans hab⟩

end Overload

end TreeEval
