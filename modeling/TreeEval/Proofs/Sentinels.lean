import TreeEval.Eval.Literal
import TreeEval.Eval.Logic
import TreeEval.Operator
import TreeEval.Value.Induction
import TreeEval.Value.KeySet

/-!
# Sentinels and aggregates

A value is plain if no error and no unknown is found in it, at any depth. Operators work on plain
values, and what they make of them is plain again or an error of their own: a sentinel stands by
itself and never inside a list or a map.

`Value.PlainOr ok` holds of plain values and of the sentinels that `ok` permits. All that is asked
of `ok` is that it permits the errors of the operators. The lemmas of this module say that every
operation of the evaluator keeps within such values.
-/

namespace TreeEval

namespace Value

/-! ## Plain values -/

mutual

/-- Whether neither an error nor an unknown is found in the value, at any depth. -/
def isPlain : Value → Bool
  | error _ | unknown _ => false
  | list elems => arePlain elems
  | map ⟨⟨entries⟩, _⟩ => entriesArePlain entries
  | _ => true

/-- Whether all elements of a list are plain. -/
def arePlain : List Value → Bool
  | [] => true
  | x :: xs => isPlain x && arePlain xs

/-- Whether all values of a map are plain. -/
def entriesArePlain : List (Key × Value) → Bool
  | [] => true
  | (_, x) :: rest => isPlain x && entriesArePlain rest

end

theorem isPlain_list_iff {elems : List Value} :
    (list elems).isPlain = true ↔ ∀ v ∈ elems, v.isPlain = true := by
  rw [isPlain]
  induction elems with
  | nil => simp [arePlain]
  | cons x xs ih => simp [arePlain, ih]

theorem isPlain_map_iff {m : OrderedMap Key Value} :
    (map m).isPlain = true ↔ ∀ e ∈ m.toList, e.2.isPlain = true := by
  obtain ⟨⟨entries⟩, index⟩ := m
  rw [isPlain, OrderedMap.toList]
  induction entries with
  | nil => simp [entriesArePlain]
  | cons e rest ih =>
    simp only [entriesArePlain, Bool.and_eq_true, ih, List.forall_mem_cons]

theorem isPlain_ofKey (k : Key) : (ofKey k).isPlain = true := by
  cases k <;> rfl

theorem isSentinel_of_items?_eq_some {v : Value} {items : List Value} (h : v.items? = some items) :
    v.isSentinel = false := by
  cases v with
  | list elems => rfl
  | map m => rfl
  | _ => cases h

/-- A loop over a plain value goes over plain items. -/
theorem isPlain_of_mem_items? {v : Value} (h : v.isPlain = true) {items : List Value}
    (hitems : v.items? = some items) : ∀ item ∈ items, item.isPlain = true := by
  cases v with
  | list elems =>
    cases hitems
    exact isPlain_list_iff.1 h
  | map m =>
    cases hitems
    intro item hitem
    obtain ⟨k, _, rfl⟩ := List.mem_map.1 hitem
    exact isPlain_ofKey k
  | _ => cases hitems

/-! ## Comparisons of plain values -/

/-- A truth value, or the error of operands that do not fit. -/
def IsVerdict (v : Value) : Prop := (∃ b, v = bool b) ∨ v = fail .noSuchOverload

theorem isVerdict_bool (b : Bool) : (bool b).IsVerdict := .inl ⟨b, rfl⟩

theorem IsVerdict.negate {v : Value} (h : v.IsVerdict) : v.negate.IsVerdict := by
  rcases h with ⟨b, rfl⟩ | rfl
  · exact isVerdict_bool _
  · exact .inr rfl

/-- The first comparison that is not true decides, and is the verdict. -/
theorem IsVerdict.ifTrue {v rest : Value} (hv : v.IsVerdict) (hrest : rest.IsVerdict) :
    (match v with | bool true => rest | other => other).IsVerdict := by
  rcases hv with ⟨b, rfl⟩ | rfl
  · cases b with
    | false => exact isVerdict_bool false
    | true => exact hrest
  · exact .inr rfl

theorem isVerdict_equalElems {xs ys : List Value}
    (h : ∀ x ∈ xs, ∀ y ∈ ys, (x.equal y).IsVerdict) : (equalElems xs ys).IsVerdict := by
  induction xs generalizing ys with
  | nil => exact isVerdict_bool true
  | cons x xs ih =>
    cases ys with
    | nil => exact isVerdict_bool true
    | cons y ys =>
      rw [equalElems]
      refine (h x List.mem_cons_self y List.mem_cons_self).ifTrue (ih fun x hx y hy => ?_)
      exact h x (List.mem_cons_of_mem _ hx) y (List.mem_cons_of_mem _ hy)

theorem isVerdict_equalEntries {entries : List (Key × Value)} {m : OrderedMap Key Value}
    (h : ∀ e ∈ entries, ∀ e' ∈ m.toList, (e.2.equal e'.2).IsVerdict) :
    (equalEntries entries m).IsVerdict := by
  induction entries with
  | nil => exact isVerdict_bool true
  | cons e rest ih =>
    rw [equalEntries]
    cases hget : m.get? e.1 with
    | none => exact isVerdict_bool false
    | some y =>
      obtain ⟨e', he', rfl⟩ := OrderedMap.exists_mem_of_get?_eq_some hget
      exact (h e List.mem_cons_self e' he').ifTrue
        (ih fun e he => h e (List.mem_cons_of_mem _ he))

/-- Plain values are equal, or not, or cannot be compared. -/
theorem isVerdict_equal {a b : Value} (ha : a.isPlain = true) (hb : b.isPlain = true) :
    (a.equal b).IsVerdict := by
  induction a generalizing b with
  | list xs ih =>
    cases b with
    | list ys =>
      rw [isPlain_list_iff] at ha hb
      show IsVerdict (if xs.length = ys.length then equalElems xs ys else bool false)
      split
      · exact isVerdict_equalElems fun x hx y hy => ih x hx (ha x hx) (hb y hy)
      · exact isVerdict_bool false
    | _ => first | exact .inr rfl | cases hb
  | map m ih =>
    cases b with
    | map m' =>
      rw [isPlain_map_iff] at ha hb
      show IsVerdict (if m.toList.length = m'.size then equalEntries m.toList m' else bool false)
      split
      · exact isVerdict_equalEntries fun e he e' he' => ih e he (ha e he) (hb e' he')
      · exact isVerdict_bool false
    | _ => first | exact .inr rfl | cases hb
  | error e => cases ha
  | unknown ids => cases ha
  | _ => cases b <;> first | exact .inl ⟨_, rfl⟩ | exact .inr rfl | cases hb

end Value

namespace Operator

open Value

theorem isVerdict_ordered (wanted : Ordering) (a b : Value) :
    (ordered wanted a b).IsVerdict := by
  unfold ordered
  split
  · exact isVerdict_bool _
  · exact .inr rfl

theorem isVerdict_scan (x : Value) (elems : List Value) : (scan x elems).IsVerdict := by
  induction elems with
  | nil => exact isVerdict_bool false
  | cons y rest ih =>
    rw [scan]
    split
    · exact isVerdict_bool true
    · exact ih
    · split
      · exact isVerdict_bool true
      · exact .inr rfl

theorem isVerdict_inList (x v : Value) : (inList x v).IsVerdict := by
  cases v with
  | list elems => exact isVerdict_scan x elems
  | _ => exact .inr rfl

theorem isVerdict_inMap (x v : Value) : (inMap x v).IsVerdict := by
  cases v with
  | map m =>
    rw [inMap]
    split
    · exact isVerdict_bool _
    · exact .inr rfl
  | _ => exact .inr rfl

end Operator

namespace Value

/-! ## Plain values and permitted sentinels -/

/-- The value is plain, or it is a sentinel that is permitted. -/
def PlainOr (ok : Value → Prop) (v : Value) : Prop :=
  v.isPlain = true ∨ (v.isSentinel = true ∧ ok v)

/-- All errors that operations report of themselves are permitted. That a name is missing is not for
an operation to say. -/
def PermitsFailures (ok : Value → Prop) : Prop :=
  ∀ cause : EvalError.Cause, (∀ name, cause ≠ .noSuchAttribute name) → ok (fail cause)

variable {ok : Value → Prop} {v : Value}

theorem PlainOr.isPlain (h : v.PlainOr ok) (hv : ¬v.isSentinel = true) : v.isPlain = true :=
  h.resolve_right fun hs => hv hs.1

theorem plainOr_fail (hok : PermitsFailures ok) {cause : EvalError.Cause}
    (hcause : ∀ name, cause ≠ .noSuchAttribute name) : (fail cause).PlainOr ok :=
  .inr ⟨rfl, hok cause hcause⟩

theorem PlainOr.orFail (hok : PermitsFailures ok) (h : v.PlainOr ok) {cause : EvalError.Cause}
    (hcause : ∀ name, cause ≠ .noSuchAttribute name) : (v.orFail cause).PlainOr ok := by
  rw [Value.orFail]
  split
  · exact h
  · exact plainOr_fail hok hcause

theorem IsVerdict.plainOr (hok : PermitsFailures ok) (h : v.IsVerdict) : v.PlainOr ok := by
  rcases h with ⟨b, rfl⟩ | rfl
  · exact .inl rfl
  · exact plainOr_fail hok (by simp)

end Value

/-! ## Operators -/

section

open Value Operator

variable {ok : Value → Prop} (hok : PermitsFailures ok)

include hok

theorem Operator.Arithmetic.plainOr_apply (op : Arithmetic) (a b : Value) :
    (op.apply a b).PlainOr ok := by
  have hoverflow : op.overflow.PlainOr ok := plainOr_fail hok (by simp)
  unfold Arithmetic.apply
  split
  · rw [onInt]
    split
    · exact .inl rfl
    · exact hoverflow
  · rw [onUint]
    split
    · exact .inl rfl
    · exact hoverflow
  · exact .inl rfl
  · exact plainOr_fail hok (by simp)

/-- Joining plain lists gives a plain list. -/
theorem Operator.plainOr_add {a b : Value} (ha : a.isPlain = true) (hb : b.isPlain = true) :
    (add a b).PlainOr ok := by
  unfold add
  split
  · exact .inl rfl
  · exact .inl rfl
  · rw [isPlain_list_iff] at ha hb
    exact .inl (isPlain_list_iff.2 (List.forall_mem_append.2 ⟨ha, hb⟩))
  · exact Arithmetic.addition.plainOr_apply hok _ _

/-- No operator makes a sentinel out of plain values but an error of its own. -/
theorem Overload.plainOr_apply (op : Overload) {a b : Value} (ha : a.isPlain = true)
    (hb : b.isPlain = true) : (op.apply a b).PlainOr ok := by
  cases op with
  | add => exact plainOr_add hok ha hb
  | subtract => exact Arithmetic.subtraction.plainOr_apply hok a b
  | multiply => exact Arithmetic.multiplication.plainOr_apply hok a b
  | equals => exact (isVerdict_equal ha hb).plainOr hok
  | notEquals => exact (isVerdict_equal ha hb).negate.plainOr hok
  | less => exact (isVerdict_ordered .lt a b).plainOr hok
  | greater => exact (isVerdict_ordered .gt a b).plainOr hok
  | inList => exact (isVerdict_inList a b).plainOr hok
  | inMap => exact (isVerdict_inMap a b).plainOr hok

theorem Value.PlainOr.isElemOf {type : ValueType} (elems : KeySet type) {v : Value}
    (h : v.PlainOr ok) : (v.isElemOf elems).PlainOr ok := by
  rw [Value.isElemOf]
  split
  · exact .inl rfl
  · exact h.orFail hok (by simp)

/-! ## Connectives and ternaries -/

theorem Connective.plainOr_combine (c : Connective) {lhs rhs : Value} (hl : lhs.PlainOr ok)
    (hr : rhs.PlainOr ok) : (c.combine lhs rhs).PlainOr ok := by
  rw [combine]
  split
  · exact .inl rfl
  split
  · exact .inl rfl
  split
  · exact hl
  split
  · exact hr
  · exact hl.orFail hok (by simp)

theorem Value.plainOr_choose {cond truthy falsy : Value} (hc : cond.PlainOr ok)
    (ht : truthy.PlainOr ok) (hf : falsy.PlainOr ok) : (cond.choose truthy falsy).PlainOr ok := by
  cases cond with
  | bool b =>
    cases b with
    | false => exact hf
    | true => exact ht
  | _ => exact hc.orFail hok (by simp)

end

/-! ## Literals -/

namespace Literal

open Value

variable {ok : Value → Prop}

/-- The first sentinel among the elements takes the place of the list. -/
theorem plainOr_list {elems : List Value} (h : ∀ v ∈ elems, v.PlainOr ok) :
    (Literal.list (m := Id) elems : Value).PlainOr ok := by
  have hfrom : ∀ built : List Value, (∀ v ∈ built, v.isPlain = true) →
      (listFrom (m := Id) elems built : Value).PlainOr ok := by
    induction elems with
    | nil => exact fun built hbuilt => .inl (isPlain_list_iff.2 (by simpa using hbuilt))
    | cons v rest ih =>
      intro built hbuilt
      obtain ⟨hv, hrest⟩ := List.forall_mem_cons.1 h
      show Value.PlainOr ok (if v.isSentinel then v else listFrom (m := Id) rest (v :: built))
      split
      · exact hv
      next hs => exact ih hrest _ (List.forall_mem_cons.2 ⟨hv.isPlain hs, hbuilt⟩)
  exact hfrom [] (by simp)

theorem plainOr_of_addEntry_eq_error (hok : PermitsFailures ok) {built : OrderedMap Key Value}
    {key value failure : Value} (h : addEntry built key value = .error failure) :
    failure.PlainOr ok := by
  rw [addEntry] at h
  split at h
  · cases h
    exact plainOr_fail hok (by simp)
  · split at h
    · cases h
      exact plainOr_fail hok (by simp)
    · cases h

theorem isPlain_of_addEntry_eq_ok {built built' : OrderedMap Key Value} {key value : Value}
    (h : addEntry built key value = .ok built') (hbuilt : (Value.map built).isPlain = true)
    (hvalue : value.isPlain = true) : (Value.map built').isPlain = true := by
  rw [addEntry] at h
  split at h
  · cases h
  · split at h
    · cases h
    next hinsert =>
      cases h
      rw [isPlain_map_iff] at hbuilt ⊢
      rw [OrderedMap.toList_of_insert_eq_ok hinsert, List.forall_mem_append]
      exact ⟨hbuilt, by simpa using hvalue⟩

/-- The same for map literals, which may also fail because of their keys. -/
theorem plainOr_map (hok : PermitsFailures ok) {keys vals : List Value}
    (hk : ∀ v ∈ keys, v.PlainOr ok) (hv : ∀ v ∈ vals, v.PlainOr ok) :
    (Literal.map (m := Id) keys vals : Value).PlainOr ok := by
  have hfrom : ∀ built : OrderedMap Key Value, (Value.map built).isPlain = true →
      (mapFrom (m := Id) (keys.zip vals) built : Value).PlainOr ok := by
    induction keys generalizing vals with
    | nil => exact fun built hbuilt => .inl hbuilt
    | cons key keys ih =>
      cases vals with
      | nil => exact fun built hbuilt => .inl hbuilt
      | cons value vals =>
        intro built hbuilt
        obtain ⟨hkey, hkeys⟩ := List.forall_mem_cons.1 hk
        obtain ⟨hvalue, hvals⟩ := List.forall_mem_cons.1 hv
        rw [List.zip_cons_cons, mapFrom_cons]
        split
        · exact hkey
        split
        · exact hvalue
        next hs =>
        cases hentry : addEntry built key value with
        | error failure => exact plainOr_of_addEntry_eq_error hok hentry
        | ok built' =>
          exact ih hkeys hvals built' (isPlain_of_addEntry_eq_ok hentry hbuilt (hvalue.isPlain hs))
  unfold map
  split
  · exact hfrom _ rfl
  · exact plainOr_fail hok (by simp)

end Literal

end TreeEval
