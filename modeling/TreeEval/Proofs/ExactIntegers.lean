import Mathlib.Algebra.BigOperators.Group.List.Basic
import Mathlib.Algebra.Ring.Int.Defs
import TreeEval.Node.Postorder
import TreeEval.Proofs.Accumulators

/-!
# Exact integers

Integer arithmetic is exact or an error, and an error is handed on by everything it is an operand
of. So a calculation never gives a number that is not its exact value, and if it fails, it fails for
the first of its subexpressions whose exact value is out of range: `eval_calculation`. In a loop
that adds up its items every turn is an operand of the next, so the first overflow is the value of
the loop, even if later items would bring the sum back into the range: `eval_summingLoop`.

Both hold of signed and of unsigned integers, and are proved for both at once. All that is used of
the two kinds is that the result of an operator on two numbers is the exact one if it fits, and
otherwise its overflow: `Represents.onOperands` and `Represents.onOperands_overflow`.
-/

namespace TreeEval

/-! ## Operands -/

/-- What a binary node makes of the values of its operands. -/
def Overload.onOperands (op : Overload) (a b : Value) : Value :=
  if a.isSentinel then a else if b.isSentinel then b else op.apply a b

namespace Overload

variable (op : Overload) {a b : Value}

theorem onOperands_of_isSentinel (ha : a.isSentinel = true) : op.onOperands a b = a := if_pos ha

theorem onOperands_of_isSentinel_right (ha : a.isSentinel = false) (hb : b.isSentinel = true) :
    op.onOperands a b = b := by
  rw [onOperands, ha, if_neg Bool.false_ne_true, if_pos hb]

theorem onOperands_of_not_isSentinel (ha : a.isSentinel = false) (hb : b.isSentinel = false) :
    op.onOperands a b = op.apply a b := by
  rw [onOperands, ha, hb, if_neg Bool.false_ne_true, if_neg Bool.false_ne_true]

end Overload

/-- The operator of a tree that an arithmetic operator is on numbers. -/
def Operator.Arithmetic.overload : Arithmetic → Overload
  | addition => .add
  | subtraction => .subtract
  | multiplication => .multiply

/-! ## Integers of 64 bits -/

/-- Whether integers have a sign. -/
inductive IntegerKind where
  | signed
  | unsigned

namespace IntegerKind

/-- The least integer of a kind. -/
def least : IntegerKind → Int
  | signed => -9223372036854775808
  | unsigned => 0

/-- The greatest integer of a kind. -/
def greatest : IntegerKind → Int
  | signed => 9223372036854775807
  | unsigned => 18446744073709551615

/-- Whether an integer is one of a kind. -/
def Fits (k : IntegerKind) (n : Int) : Prop := k.least ≤ n ∧ n ≤ k.greatest

instance (k : IntegerKind) (n : Int) : Decidable (k.Fits n) :=
  inferInstanceAs (Decidable (k.least ≤ n ∧ n ≤ k.greatest))

/-- The numbers of a kind. -/
def Carrier : IntegerKind → Type
  | signed => Int64
  | unsigned => UInt64

namespace Carrier

/-- The integer that a number is. -/
def toInt : {k : IntegerKind} → k.Carrier → Int
  | signed, n => Int64.toInt n
  | unsigned, n => UInt64.toNat n

/-- A number as a value. -/
def value : {k : IntegerKind} → k.Carrier → Value
  | signed, n => .int n
  | unsigned, n => .uint n

theorem fits {k : IntegerKind} (n : k.Carrier) : k.Fits n.toInt := by
  cases k with
  | signed =>
    have hleast : -2 ^ 63 ≤ n.toInt := Int64.le_toInt n
    have hgreatest : n.toInt < 2 ^ 63 := Int64.toInt_lt n
    constructor
    · exact hleast
    · show n.toInt ≤ 9223372036854775807
      omega
  | unsigned =>
    have hgreatest : UInt64.toNat n < 2 ^ 64 := UInt64.toNat_lt n
    constructor
    · exact Int.natCast_nonneg _
    · show (UInt64.toNat n : Int) ≤ 18446744073709551615
      omega

theorem isSentinel_value {k : IntegerKind} (n : k.Carrier) : n.value.isSentinel = false := by
  cases k <;> rfl

end Carrier

/-- The value is the number of the kind that is the integer. -/
def Represents (k : IntegerKind) (v : Value) (n : Int) : Prop :=
  ∃ c : k.Carrier, c.toInt = n ∧ v = c.value

variable {k : IntegerKind} {a b : Value} {m n : Int}

theorem represents_value (c : k.Carrier) : k.Represents c.value c.toInt := ⟨c, rfl, rfl⟩

theorem Represents.isSentinel_eq_false (h : k.Represents a n) : a.isSentinel = false := by
  obtain ⟨c, -, rfl⟩ := h
  exact c.isSentinel_value

/-! ## Operators on numbers -/

/-- The number of a kind that an exact result is, if it fits. -/
def fit? : (k : IntegerKind) → Int → Option k.Carrier
  | signed => Operator.fitInt?
  | unsigned => Operator.fitUint?

theorem fit?_of_fits (h : k.Fits n) : ∃ c : k.Carrier, c.toInt = n ∧ k.fit? n = some c := by
  obtain ⟨hleast, hgreatest⟩ := h
  cases k with
  | signed =>
    have hlt : n < 2 ^ 63 := Int.lt_of_le_sub_one hgreatest
    exact ⟨Int64.ofInt n, Int64.toInt_ofInt_of_le hleast hlt, if_pos ⟨hleast, hgreatest⟩⟩
  | unsigned =>
    have hlt : n < UInt64.size := Int.lt_of_le_sub_one hgreatest
    have hnat : (UInt64.ofNat n.toNat).toNat = n.toNat := by
      rw [UInt64.toNat_ofNat', Nat.mod_eq_of_lt ((Int.toNat_lt hleast).2 hlt)]
    refine ⟨UInt64.ofNat n.toNat, ?_, if_pos ⟨hleast, hlt⟩⟩
    show ((UInt64.ofNat n.toNat).toNat : Int) = n
    rw [hnat, Int.toNat_of_nonneg hleast]

theorem fit?_of_not_fits (h : ¬k.Fits n) : k.fit? n = none := by
  cases k with
  | signed => exact if_neg h
  | unsigned => exact if_neg fun hfits => h ⟨hfits.1, Int.le_sub_one_of_lt hfits.2⟩

/-- An operator on two numbers of a kind fits the exact result into the kind. -/
theorem apply_value (op : Operator.Arithmetic) (c d : k.Carrier) {r : Option k.Carrier}
    (h : k.fit? (op.exact c.toInt d.toInt) = r) :
    op.overload.apply c.value d.value = (r.map Carrier.value).getD op.overflow := by
  cases k with
  | signed =>
    have hfit : Operator.fitInt? (op.exact (Int64.toInt c) (Int64.toInt d)) = r := h
    have hop : op.overload.apply (.int c) (.int d) = op.onInt c d := by cases op <;> rfl
    show op.overload.apply (.int c) (.int d) = _
    rw [hop]
    unfold Operator.Arithmetic.onInt
    rw [hfit]
    cases r <;> rfl
  | unsigned =>
    have hfit : Operator.fitUint? (op.exact (UInt64.toNat c) (UInt64.toNat d)) = r := h
    have hop : op.overload.apply (.uint c) (.uint d) = op.onUint c d := by cases op <;> rfl
    show op.overload.apply (.uint c) (.uint d) = _
    rw [hop]
    unfold Operator.Arithmetic.onUint
    rw [hfit]
    cases r <;> rfl

theorem Represents.onOperands (op : Operator.Arithmetic) (ha : k.Represents a m)
    (hb : k.Represents b n) (hfits : k.Fits (op.exact m n)) :
    k.Represents (op.overload.onOperands a b) (op.exact m n) := by
  rw [Overload.onOperands_of_not_isSentinel _ ha.isSentinel_eq_false hb.isSentinel_eq_false]
  obtain ⟨c, rfl, rfl⟩ := ha
  obtain ⟨d, rfl, rfl⟩ := hb
  obtain ⟨e, he, hfit⟩ := fit?_of_fits hfits
  exact ⟨e, he, apply_value op c d hfit⟩

theorem Represents.onOperands_overflow (op : Operator.Arithmetic) (ha : k.Represents a m)
    (hb : k.Represents b n) (hfits : ¬k.Fits (op.exact m n)) :
    op.overload.onOperands a b = op.overflow := by
  rw [Overload.onOperands_of_not_isSentinel _ ha.isSentinel_eq_false hb.isSentinel_eq_false]
  obtain ⟨c, rfl, rfl⟩ := ha
  obtain ⟨d, rfl, rfl⟩ := hb
  exact apply_value op c d (fit?_of_not_fits hfits)

end IntegerKind

/-! ## Calculations -/

/-- A calculation with numbers of one kind. -/
inductive Calculation (k : IntegerKind) where
  | number (id : NodeId) (c : k.Carrier)
  | operation (id : NodeId) (op : Operator.Arithmetic) (lhs rhs : Calculation k)

namespace Calculation

open IntegerKind

variable {k : IntegerKind}

/-- A calculation as a tree. -/
def toNode : Calculation k → Node
  | number id c => .const id c.value
  | operation id op lhs rhs => .binary id op.overload lhs.toNode rhs.toNode

/-- What a calculation is in the integers, which have no bounds. -/
def exact : Calculation k → Int
  | number _ c => c.toInt
  | operation _ op lhs rhs => op.exact lhs.exact rhs.exact

/-- The subexpressions of a calculation, itself among them, each after those it is made of. -/
def postorder : Calculation k → List (Calculation k)
  | c@(number _ _) => [c]
  | c@(operation _ _ lhs rhs) => lhs.postorder ++ rhs.postorder ++ [c]

/-- The first subexpression whose exact value is no number of the kind. -/
def firstMisfit (c : Calculation k) : Option (Calculation k) :=
  c.postorder.find? fun e => ¬k.Fits e.exact

/-- A pass over the tree of a calculation comes to the subexpressions in their order. -/
theorem postorder_toNode (c : Calculation k) : c.toNode.postorder = c.postorder.map toNode := by
  induction c with
  | number id c => rfl
  | operation id op lhs rhs ihl ihr =>
    rw [toNode, Node.postorder, ihl, ihr, postorder, List.map_append, List.map_append]
    rfl

theorem firstMisfit_number (id : NodeId) (c : k.Carrier) :
    (number id c).firstMisfit = none := by
  have hfits : k.Fits (number id c).exact := c.fits
  simp [firstMisfit, postorder, hfits]

/-- Misfits are looked for on the left, then on the right, and then at the operation itself. -/
theorem firstMisfit_operation (id : NodeId) (op : Operator.Arithmetic) (lhs rhs : Calculation k) :
    (operation id op lhs rhs).firstMisfit =
      (lhs.firstMisfit.or rhs.firstMisfit).or
        (if k.Fits (op.exact lhs.exact rhs.exact) then none
        else some (operation id op lhs rhs)) := by
  rw [firstMisfit, postorder, List.find?_append, List.find?_append]
  congr 1
  by_cases hfits : k.Fits (op.exact lhs.exact rhs.exact)
  · simp [exact, hfits]
  · simp [exact, hfits]

/-- What a calculation evaluates to, by its first misfit and its exact value. -/
inductive Outcome : Option (Calculation k) → Int → Value → Prop
  | exact {n : Int} {v : Value} (h : k.Represents v n) : Outcome none n v
  | overflow (id : NodeId) (op : Operator.Arithmetic) (lhs rhs : Calculation k) (n : Int) :
    Outcome (some (operation id op lhs rhs)) n op.overflow

/-- An operation comes to an end as its operands do, or for its own result. -/
theorem Outcome.operation {ml mr : Option (Calculation k)} {m n : Int} {a b : Value}
    (id : NodeId) (op : Operator.Arithmetic) (lhs rhs : Calculation k) (hl : Outcome ml m a)
    (hr : Outcome mr n b) :
    Outcome ((ml.or mr).or
        (if k.Fits (op.exact m n) then none else some (.operation id op lhs rhs)))
      (op.exact m n) (op.overload.onOperands a b) := by
  cases hl with
  | overflow =>
    rw [Overload.onOperands_of_isSentinel _ rfl]
    exact .overflow ..
  | exact ha =>
    cases hr with
    | overflow =>
      rw [Overload.onOperands_of_isSentinel_right _ ha.isSentinel_eq_false rfl]
      exact .overflow ..
    | exact hb =>
      by_cases hfits : k.Fits (op.exact m n)
      · rw [if_pos hfits]
        exact .exact (ha.onOperands op hb hfits)
      · rw [if_neg hfits, ha.onOperands_overflow op hb hfits]
        exact .overflow ..

theorem outcome_eval (c : Calculation k) (act : Activation) :
    Outcome c.firstMisfit c.exact (c.toNode.eval act) := by
  induction c with
  | number id c =>
    rw [firstMisfit_number]
    exact .exact (represents_value c)
  | operation id op lhs rhs ihl ihr =>
    rw [firstMisfit_operation, toNode, Node.eval_binary]
    exact ihl.operation id op lhs rhs ihr

/-- A calculation is exact, if the exact values of all its subexpressions are numbers of the kind.
Otherwise it is the overflow of the first of them that is not, in the order in which a pass comes
to the nodes of its tree, and that one is an operation. -/
theorem eval_calculation (c : Calculation k) (act : Activation) :
    c.toNode.postorder = c.postorder.map toNode ∧
      match c.postorder.find? fun e => ¬k.Fits e.exact with
      | none => k.Represents (c.toNode.eval act) c.exact
      | some e => ∃ id op lhs rhs, e = operation id op lhs rhs ∧
          c.toNode.eval act = .fail (.integerOverflow op.name) := by
  refine ⟨c.postorder_toNode, ?_⟩
  have houtcome : Outcome c.firstMisfit c.exact (c.toNode.eval act) := c.outcome_eval act
  rw [← firstMisfit]
  generalize c.firstMisfit = misfit at houtcome ⊢
  generalize c.toNode.eval act = v at houtcome ⊢
  cases houtcome with
  | exact h => exact h
  | overflow id op lhs rhs => exact ⟨id, op, lhs, rhs, rfl, rfl⟩

/-- Two minus three is no unsigned number, although adding one to it would be. -/
example :
    let number (n : UInt64) : Calculation .unsigned := .number ⟨1⟩ n
    let difference := .operation ⟨2⟩ .subtraction (number 2) (number 3)
    (Calculation.operation ⟨3⟩ .addition difference (number 1)).toNode.eval .empty =
      .fail (.integerOverflow "subtraction") :=
  rfl

end Calculation

/-! ## Sums -/

namespace IntegerKind

variable {k : IntegerKind} {s : k.Carrier} {xs : List k.Carrier} {rest : List Value} {i j : Nat}

/-- What a loop adds to the accumulator in a turn. -/
abbrev plus : Value → Value → Value := Overload.add.onOperands

/-- The sum of a number and the first `j` of others. -/
def sumAfter (s : k.Carrier) (xs : List k.Carrier) (j : Nat) : Int :=
  s.toInt + ((xs.take j).map Carrier.toInt).sum

theorem sumAfter_zero : sumAfter s xs 0 = s.toInt := Int.add_zero _

theorem sumAfter_succ (hj : j < xs.length) :
    sumAfter s xs (j + 1) = sumAfter s xs j + xs[j].toInt := by
  rw [sumAfter, sumAfter, List.take_add_one, List.getElem?_eq_getElem hj, List.map_append,
    List.sum_append, ← Int.add_assoc]
  simp

/-- Behind the end of the list there is nothing to add. -/
theorem sumAfter_min : sumAfter s xs (min j xs.length) = sumAfter s xs j := by
  rw [sumAfter, sumAfter, ← List.take_eq_take_min]

theorem getElem?_values (hj : j < xs.length) :
    (xs.map Carrier.value ++ rest)[j]? = some xs[j].value := by
  rw [List.getElem?_append_left (by rwa [List.length_map]), List.getElem?_map,
    List.getElem?_eq_getElem hj]
  rfl

/-- As long as no sum is too great or too small, the accumulator is the sum. -/
theorem represents_accuAfter (rest : List Value) (hj : j ≤ xs.length)
    (hfits : ∀ i ≤ j, k.Fits (sumAfter s xs i)) :
    k.Represents (accuAfter plus s.value (xs.map Carrier.value ++ rest) j) (sumAfter s xs j) := by
  induction j with
  | zero =>
    rw [sumAfter_zero]
    exact represents_value s
  | succ j ih =>
    have hlt : j < xs.length := hj
    have haccu := ih (Nat.le_of_lt hlt) fun i hi => hfits i (Nat.le_succ_of_le hi)
    have hnext := hfits (j + 1) (Nat.le_refl _)
    rw [sumAfter_succ hlt] at hnext ⊢
    rw [accuAfter, getElem?_values hlt]
    exact haccu.onOperands .addition (represents_value xs[j]) hnext

/-- A sentinel in the accumulator stays there. -/
theorem accuAfter_of_isSentinel {start : Value} {items : List Value}
    (h : (accuAfter plus start items i).isSentinel = true) (hij : i ≤ j) :
    accuAfter plus start items j = accuAfter plus start items i := by
  induction hij with
  | refl => rfl
  | @step j hij ih =>
    rw [accuAfter, ih]
    cases items[j]? with
    | none => rfl
    | some item => exact Overload.onOperands_of_isSentinel _ h

/-- Once a sum does not fit, the accumulator is an overflow. -/
theorem accuAfter_overflow (rest : List Value) (hj : j ≤ xs.length) (hij : i ≤ j)
    (hmisfit : ¬k.Fits (sumAfter s xs i)) :
    accuAfter plus s.value (xs.map Carrier.value ++ rest) j =
      Operator.Arithmetic.addition.overflow := by
  induction j generalizing i with
  | zero =>
    have hi : i = 0 := Nat.le_zero.1 hij
    rw [hi, sumAfter_zero] at hmisfit
    exact absurd s.fits hmisfit
  | succ j ih =>
    have hlt : j < xs.length := hj
    by_cases hall : ∀ i ≤ j, k.Fits (sumAfter s xs i)
    · -- all sums before the last one fit, so it is the last addition that fails
      have haccu := represents_accuAfter rest (Nat.le_of_lt hlt) hall
      have hi : i = j + 1 := by
        by_contra hne
        exact hmisfit (hall i (by omega))
      rw [hi, sumAfter_succ hlt] at hmisfit
      rw [accuAfter, getElem?_values hlt]
      exact haccu.onOperands_overflow .addition (represents_value xs[j]) hmisfit
    · -- the accumulator is an overflow already
      simp only [not_forall] at hall
      obtain ⟨i', hi', hmisfit'⟩ := hall
      have haccu := ih (Nat.le_of_lt hlt) hi' hmisfit'
      rw [accuAfter_of_isSentinel (haccu ▸ rfl) (Nat.le_succ j), haccu]

end IntegerKind

namespace Node

/-- With a condition that is always true, both modes of a loop go through all items. -/
theorem eval_fold_of_true (id condId : NodeId) (mode : Mode) (accuVar iterVar : String)
    (range init step result : Node) (act : Activation) {items : List Value}
    (hitems : (range.eval act).items? = some items) :
    (fold id mode accuVar iterVar range init (const condId (.bool true)) step result).eval act =
      result.eval (.frame accuVar (some (accuAfter (step.evalInLoop accuVar iterVar act)
        (init.eval act) items items.length)) act) := by
  cases mode with
  | exhaustive => exact eval_fold_exhaustive id accuVar iterVar range init _ step result act hitems
  | shortCircuit =>
    refine eval_fold_shortCircuit id accuVar iterVar range init result act hitems
      ⟨Nat.le_refl _, fun j hj item hitem => nofun, fun item hitem => ?_⟩
    rw [List.getElem?_eq_none (Nat.le_refl _)] at hitem
    cases hitem

open IntegerKind

/-- A loop that adds its items to a number gives their exact sum, in either mode, if the sums up to
each of them fit into the range of the kind. As soon as one of them does not, it gives the overflow
of the addition, and neither the items that follow nor what they would add up to matters. -/
theorem eval_summingLoop {k : IntegerKind} (s : k.Carrier) (xs : List k.Carrier)
    (rest : List Value) {accuVar iterVar : String} (hvars : accuVar ≠ iterVar) (range : Node)
    (act : Activation) (hitems : (range.eval act).items? = some (xs.map Carrier.value ++ rest))
    (mode : Mode) (id initId condId stepId accuId iterId resultId : NodeId) :
    let loop := fold id mode accuVar iterVar range (const initId s.value)
      (const condId (.bool true)) (binary stepId .add (ident accuId accuVar) (ident iterId iterVar))
      (ident resultId accuVar)
    ((∀ j, k.Fits (sumAfter s xs j)) → rest = [] →
      k.Represents (loop.eval act) (s.toInt + (xs.map Carrier.toInt).sum)) ∧
    ((¬∀ j, k.Fits (sumAfter s xs j)) →
      loop.eval act = .fail (.integerOverflow "addition")) := by
  intro loop
  have hstep : (binary stepId .add (ident accuId accuVar) (ident iterId iterVar)).evalInLoop
      accuVar iterVar act = plus := by
    funext accu item
    rw [evalInLoop, eval_binary, eval_ident, eval_ident, Activation.lookup_inLoop,
      Activation.lookup_inLoop, if_pos rfl, if_neg hvars.symm, if_pos rfl]
    rfl
  have hloop : loop.eval act = accuAfter plus s.value (xs.map Carrier.value ++ rest)
      (xs.map Carrier.value ++ rest).length := by
    show (fold ..).eval act = _
    rw [eval_fold_of_true id condId mode accuVar iterVar _ _ _ _ act hitems, hstep, eval_ident,
      Activation.lookup_frame, if_pos rfl]
    rfl
  rw [hloop, List.length_append, List.length_map]
  constructor
  · intro hfits hrest
    have hsum : s.toInt + (xs.map Carrier.toInt).sum = sumAfter s xs xs.length := by
      rw [sumAfter, List.take_length]
    rw [hsum, hrest]
    exact represents_accuAfter [] (Nat.le_refl _) fun i _ => hfits i
  · intro hmisfit
    obtain ⟨j, hj⟩ := not_forall.1 hmisfit
    rw [← sumAfter_min] at hj
    have haccu := accuAfter_overflow rest (Nat.le_refl xs.length) (Nat.min_le_right _ _) hj
    rw [accuAfter_of_isSentinel (haccu ▸ rfl) (Nat.le_add_right _ _), haccu]
    rfl

/-- One more than the greatest number is an overflow, although five would be taken away again, and
whatever the text after that is. Two and three are added to one. -/
theorem eval_summingLoop_backInRange :
    let loop (mode : Mode) (items : List Value) :=
      fold ⟨1⟩ mode "total" "x" (const ⟨2⟩ (.list items)) (const ⟨3⟩ (.int 1))
        (const ⟨4⟩ (.bool true)) (binary ⟨5⟩ .add (ident ⟨6⟩ "total") (ident ⟨7⟩ "x"))
        (ident ⟨8⟩ "total")
    "total" ≠ "x" ∧ ∀ mode,
      (loop mode [.int 9223372036854775807, .int (-5), .str "x"]).eval .empty =
        .fail (.integerOverflow "addition") ∧
      (loop mode [.int 2, .int 3]).eval .empty = .int 6 := by
  intro loop
  have hvars : "total" ≠ "x" := by decide
  let one : signed.Carrier := (1 : Int64)
  let backInRange : List signed.Carrier := [(9223372036854775807 : Int64), (-5 : Int64)]
  let small : List signed.Carrier := [(2 : Int64), (3 : Int64)]
  refine ⟨hvars, fun mode => ⟨?_, ?_⟩⟩
  · have hmisfit : ¬signed.Fits (sumAfter one backInRange 1) := by decide
    exact (eval_summingLoop one backInRange [.str "x"] hvars _ .empty rfl mode ⟨1⟩ ⟨3⟩ ⟨4⟩ ⟨5⟩ ⟨6⟩
      ⟨7⟩ ⟨8⟩).2 fun hfits => hmisfit (hfits 1)
  · have hfirst : ∀ i ≤ 2, signed.Fits (sumAfter one small i) := by decide
    have hfits : ∀ j, signed.Fits (sumAfter one small j) := fun j =>
      sumAfter_min (j := j) ▸ hfirst _ (Nat.min_le_right j 2)
    obtain ⟨c, hc, hvalue⟩ := (eval_summingLoop one small [] hvars
      (const ⟨2⟩ (.list [.int 2, .int 3])) .empty rfl mode ⟨1⟩ ⟨3⟩ ⟨4⟩ ⟨5⟩ ⟨6⟩ ⟨7⟩ ⟨8⟩).1 hfits rfl
    have hsix : c = (6 : Int64) := Int64.toInt_inj.1 hc
    rw [hsix] at hvalue
    exact hvalue

end Node

end TreeEval
