import TreeEval.Proofs.KeyEquality
import TreeEval.Proofs.Membership
import TreeEval.Proofs.StructuralEquality

/-!
# What the set of a look-up holds

A test against a constant list becomes a look-up exactly if all elements of the list have keys and
their types have one name. The set of such a look-up has forgotten the list, in which elements may be
repeated, and doubles in two forms of zero. What is left of the list is what the equality of the
language sees of it: a value is found if it is equal to an element, and the set has as many members
as the list has elements that are equal to none before them (`KeySet.IsSetOf.size_eq`).
-/

namespace TreeEval

open Builtin

namespace Value

/-- The values that a value with a key is equal to are those with the same key. -/
theorem equal_eq_true_iff_toKey? {v w : Value} {k : Key} (hv : v.toKey? = some k) :
    v.equal w = bool true ↔ w.toKey? = some k := by
  constructor
  · intro h
    have hagree := (equal_eq_true_iff.1 h).2
    cases hagree with
    | atom => exact hv
    | @double x y hxy =>
      have hcanonical : x.canonical? = y.canonical? := (Double.equal_iff_canonical.1 hxy).2
      show y.canonical?.map Key.double = some k
      rw [← hcanonical]
      exact hv
    | list => cases hv
    | map => cases hv
  · intro hw
    exact (toKey?_eq_some_iff hw).1 hv

/-! ## First occurrences -/

/-- A list without the elements that are equal to an earlier one. -/
def firstOccurrences : List Value → List Value
  | [] => []
  | v :: vs => v :: (firstOccurrences vs).filter fun w => (v.equal w).asBool? ≠ some true

theorem firstOccurrences_sublist (vs : List Value) : (firstOccurrences vs).Sublist vs := by
  induction vs with
  | nil => exact .slnil
  | cons v vs ih => exact (List.filter_sublist.trans ih).cons_cons v

/-- Among values after one with a key, those that are left have another key. -/
theorem mem_firstOccurrences_cons {v w : Value} {vs : List Value} {k : Key}
    (hv : v.toKey? = some k) :
    w ∈ firstOccurrences (v :: vs) ↔ w = v ∨ w ∈ firstOccurrences vs ∧ w.toKey? ≠ some k := by
  rw [firstOccurrences, List.mem_cons, List.mem_filter, decide_eq_true_iff, ne_eq, asBool?_eq_some,
    equal_eq_true_iff_toKey? hv]

/-- No two of them have one key. -/
theorem nodup_firstOccurrences {vs : List Value} (h : ∀ v ∈ vs, ∃ k, v.toKey? = some k) :
    ((firstOccurrences vs).map toKey?).Nodup := by
  induction vs with
  | nil => exact List.nodup_nil
  | cons v vs ih =>
    obtain ⟨k, hv⟩ := h v List.mem_cons_self
    have hrest := ih fun w hw => h w (List.mem_cons_of_mem _ hw)
    rw [firstOccurrences, List.map_cons, List.nodup_cons]
    constructor
    · intro hmem
      obtain ⟨w, hw, hkey⟩ := List.mem_map.1 hmem
      have hne := of_decide_eq_true (List.mem_filter.1 hw).2
      have hequal : v.equal w = bool true := (equal_eq_true_iff_toKey? hv).2 (hkey.trans hv)
      exact hne (asBool?_eq_some.2 hequal)
    · exact hrest.sublist (List.filter_sublist.map toKey?)

/-- No key is lost. -/
theorem exists_firstOccurrence_iff {vs : List Value} (h : ∀ v ∈ vs, ∃ k, v.toKey? = some k)
    {k : Key} :
    (∃ v ∈ firstOccurrences vs, v.toKey? = some k) ↔ ∃ v ∈ vs, v.toKey? = some k := by
  constructor
  · rintro ⟨v, hv, hk⟩
    exact ⟨v, (firstOccurrences_sublist vs).subset hv, hk⟩
  · induction vs with
    | nil => exact id
    | cons v vs ih =>
      obtain ⟨k', hv⟩ := h v List.mem_cons_self
      have hhead : v ∈ firstOccurrences (v :: vs) := (mem_firstOccurrences_cons hv).2 (.inl rfl)
      rintro ⟨w, hw, hk⟩
      rcases List.mem_cons.1 hw with rfl | hw
      · exact ⟨w, hhead, hk⟩
      · obtain ⟨u, hu, hku⟩ := ih (fun z hz => h z (List.mem_cons_of_mem _ hz)) ⟨w, hw, hk⟩
        by_cases heq : u.toKey? = some k'
        · -- what is left out is replaced by the head, which has the same key
          exact ⟨v, hhead, hv.trans (heq.symm.trans hku)⟩
        · exact ⟨u, (mem_firstOccurrences_cons hv).2 (.inr ⟨hu, heq⟩), hku⟩

end Value

/-! ## Contents -/

namespace KeySet.IsSetOf

variable {type : ValueType} {s : KeySet type} {ys : List Value}

/-- A value is found if an element is equal to it. -/
theorem exists_contains_iff (h : s.IsSetOf ys) (v : Value) :
    (∃ k, v.toKey? = some k ∧ s.contains k = true) ↔ ∃ y ∈ ys, y.equal v = .bool true := by
  constructor
  · rintro ⟨k, hv, hk⟩
    obtain ⟨y, hy, hyk⟩ := (h.contains_iff k).1 hk
    exact ⟨y, hy, (Value.equal_eq_true_iff_toKey? hyk).2 hv⟩
  · rintro ⟨y, hy, hequal⟩
    obtain ⟨k, hyk⟩ := h.hasKey y hy
    have hv : v.toKey? = some k := (Value.equal_eq_true_iff_toKey? hyk).1 hequal
    exact ⟨k, hv, (h.contains_iff k).2 ⟨y, hy, hyk⟩⟩

/-- The set has a member for every element that is equal to none before it. -/
theorem size_eq (h : s.IsSetOf ys) : s.size = (Value.firstOccurrences ys).length := by
  -- the members and the keys of these elements are the same, and on both sides none is repeated
  have hmembers : (s.toList.map some).Nodup := by
    have hdistinct : s.toList.Nodup := Std.HashSet.distinct_toList.imp fun hab => by simpa using hab
    exact hdistinct.map (Option.some_injective Key)
  have hkeys := Value.nodup_firstOccurrences h.hasKey
  have hsame : ∀ k? : Option Key,
      k? ∈ s.toList.map some ↔ k? ∈ (Value.firstOccurrences ys).map Value.toKey? := by
    intro k?
    rw [List.mem_map, List.mem_map]
    cases k? with
    | none =>
      refine iff_of_false (by simp) ?_
      rintro ⟨v, hv, hnone⟩
      obtain ⟨k, hk⟩ := h.hasKey v ((Value.firstOccurrences_sublist ys).subset hv)
      rw [hk] at hnone
      cases hnone
    | some k =>
      rw [Value.exists_firstOccurrence_iff h.hasKey, ← h.contains_iff k]
      simp [toList, contains]
  have hperm := (List.perm_ext_iff_of_nodup hmembers hkeys).2 hsame
  have hlength := hperm.length_eq
  rw [List.length_map, List.length_map] at hlength
  rw [← hlength]
  exact Std.HashSet.length_toList.symm

end KeySet.IsSetOf

/-! ## Lists of keys -/

namespace Value

/-- The values have keys, and this is the name of the type of each of them. -/
def AreKeys (name : String) (ys : List Value) : Prop :=
  ∀ y ∈ ys, y.toKey?.isSome = true ∧ y.type.name = name

theorem exists_keys? {ys : List Value} (h : ∀ y ∈ ys, y.toKey?.isSome = true) :
    ∃ ks, keys? ys = some ks := by
  induction ys with
  | nil => exact ⟨[], rfl⟩
  | cons y ys ih =>
    obtain ⟨k, hk⟩ := Option.isSome_iff_exists.1 (h y List.mem_cons_self)
    obtain ⟨ks, hks⟩ := ih fun z hz => h z (List.mem_cons_of_mem _ hz)
    exact ⟨k :: ks, by rw [keys?, hk, hks]⟩

/-- A list with an element can be made a set if its elements are keys of one type. -/
theorem exists_keySet?_of_areKeys {name : String} {ys : List Value} (hys : ys ≠ [])
    (h : AreKeys name ys) : ∃ type s, keySet? ys = some ⟨type, s⟩ := by
  obtain ⟨ks, hks⟩ := exists_keys? fun y hy => (h y hy).1
  have hname : ∀ k ∈ ks, k.type.name = name := by
    intro k hk
    obtain ⟨y, hy, hyk⟩ := (mem_keys?_iff hks k).1 hk
    rw [← type_of_toKey? hyk]
    exact (h y hy).2
  cases ks with
  | nil =>
    obtain ⟨y, hy⟩ := List.exists_mem_of_ne_nil ys hys
    obtain ⟨k, hk, -⟩ := exists_mem_keys? hks hy
    cases hk
  | cons k ks =>
    have htype : ∀ k' ∈ ks, k'.type = k.type := fun k' hk' =>
      ValueType.name_injective
        ((hname k' (List.mem_cons_of_mem _ hk')).trans (hname k List.mem_cons_self).symm)
    unfold keySet?
    rw [hks]
    exact ⟨k.type, .ofKeys k ks htype, dif_pos htype⟩

/-- What has been made a set was a list of keys of its type. -/
theorem areKeys_of_isSetOf {type : ValueType} {s : KeySet type} {ys : List Value}
    (h : s.IsSetOf ys) : AreKeys type.name ys := by
  intro y hy
  obtain ⟨k, hk⟩ := h.hasKey y hy
  exact ⟨Option.isSome_iff_exists.2 ⟨k, hk⟩, congrArg ValueType.name (h.type_eq hy)⟩

theorem AreKeys.name_eq {name name' : String} {ys : List Value} (h : AreKeys name ys)
    (h' : AreKeys name' ys) (hys : ys ≠ []) : name = name' := by
  obtain ⟨y, hy⟩ := List.exists_mem_of_ne_nil ys hys
  exact (h y hy).2.symm.trans (h' y hy).2

end Value

namespace Node

/-- A test against a list with an element stays what it is if the list cannot be made a set. -/
theorem rewrite_membership_nonempty (id : NodeId) (lhs : Node) {rhs : Node} {ys : List Value}
    (h : rhs.constant? = some (.list ys)) (hys : ys ≠ []) :
    computeAhead.rewrite (binary id .inList lhs rhs) =
      .ok (match Value.keySet? ys with
        | none => binary id .inList lhs rhs
        | some ⟨type, elems⟩ => setMembership id type elems lhs rhs) := by
  show (Plan.hashMembership id lhs rhs).outcome.1 = _
  unfold Plan.hashMembership
  rw [h]
  cases ys with
  | nil => exact absurd rfl hys
  | cons y ys =>
    dsimp only
    cases Value.keySet? (y :: ys) with
    | none => rfl
    | some planned => rfl

/-- A test against a constant list with an element becomes a look-up exactly if all elements have
keys and their types have one name. Then the look-up has the type of that name, a value is found in
its set if an element of the list is equal to it, and the set has as many members as the list has
elements without those that are equal to an earlier one. Otherwise the test stays what it is. -/
theorem rewrite_membership_iff_areKeys (id : NodeId) (lhs : Node) {rhs : Node} {ys : List Value}
    (h : rhs.constant? = some (.list ys)) (hys : ys ≠ []) :
    ((∃ t', computeAhead.rewrite (binary id .inList lhs rhs) = .ok t' ∧ t'.kind = .setMembership) ↔
        ∃ name, Value.AreKeys name ys) ∧
      (∀ name, Value.AreKeys name ys → ∃ (type : ValueType) (elems : KeySet type),
        computeAhead.rewrite (binary id .inList lhs rhs) =
            .ok (setMembership id type elems lhs rhs) ∧
          type.name = name ∧
          (∀ v : Value, (∃ k, v.toKey? = some k ∧ elems.contains k = true) ↔
            ∃ y ∈ ys, y.equal v = .bool true) ∧
          elems.size = (Value.firstOccurrences ys).length) ∧
      ((¬ ∃ name, Value.AreKeys name ys) →
        computeAhead.rewrite (binary id .inList lhs rhs) = .ok (binary id .inList lhs rhs)) := by
  have hrewrite := rewrite_membership_nonempty id lhs h hys
  have hlookup : ∀ name, Value.AreKeys name ys → ∃ (type : ValueType) (elems : KeySet type),
      computeAhead.rewrite (binary id .inList lhs rhs) = .ok (setMembership id type elems lhs rhs) ∧
        type.name = name ∧ elems.IsSetOf ys := by
    intro name hname
    obtain ⟨type, elems, hset⟩ := Value.exists_keySet?_of_areKeys hys hname
    have hof : elems.IsSetOf ys := Value.isSetOf_of_keySet? hset
    rw [hset] at hrewrite
    exact ⟨type, elems, hrewrite, (Value.areKeys_of_isSetOf hof).name_eq hname hys, hof⟩
  have hunchanged : (¬ ∃ name, Value.AreKeys name ys) →
      computeAhead.rewrite (binary id .inList lhs rhs) = .ok (binary id .inList lhs rhs) := by
    intro hnone
    cases hset : Value.keySet? ys with
    | none => rw [hrewrite, hset]
    | some planned =>
      obtain ⟨type, elems⟩ := planned
      exact absurd ⟨_, Value.areKeys_of_isSetOf (Value.isSetOf_of_keySet? hset)⟩ hnone
  refine ⟨⟨?_, ?_⟩, fun name hname => ?_, hunchanged⟩
  · rintro ⟨t', ht', hkind⟩
    by_contra hnone
    rw [hunchanged hnone] at ht'
    cases ht'
    cases hkind
  · rintro ⟨name, hname⟩
    obtain ⟨type, elems, ht', -⟩ := hlookup name hname
    exact ⟨_, ht', rfl⟩
  · obtain ⟨type, elems, ht', htype, hof⟩ := hlookup name hname
    exact ⟨type, elems, ht', htype, hof.exists_contains_iff, hof.size_eq⟩

/-- Two forms of zero are one member of the set, and each is found. A NaN among the elements, or an
integer, leaves the test what it is. -/
theorem rewrite_membership_iff_areKeys_zeros :
    let zeros : List Value :=
      [.double ⟨0⟩, .double ⟨0x3FF0000000000000⟩, .double ⟨0x8000000000000000⟩, .double ⟨0⟩]
    let mixed : List Value := [.double ⟨0⟩, .int 0, .double ⟨0x7FF8000000000000⟩]
    let watched := watch .tracker (const ⟨3⟩ (.list zeros))
    let constant := const ⟨3⟩ (.list mixed)
    (watched.constant? = some (.list zeros) ∧ zeros ≠ [] ∧ ∃ elems : KeySet .double,
      computeAhead.rewrite (binary ⟨1⟩ .inList (ident ⟨2⟩ "x") watched) =
          .ok (setMembership ⟨1⟩ .double elems (ident ⟨2⟩ "x") watched) ∧
        (∃ k, (Value.double ⟨0x8000000000000000⟩).toKey? = some k ∧ elems.contains k = true) ∧
        elems.size = 2) ∧
    (constant.constant? = some (.list mixed) ∧ mixed ≠ [] ∧
      computeAhead.rewrite (binary ⟨1⟩ .inList (ident ⟨2⟩ "x") constant) =
        .ok (binary ⟨1⟩ .inList (ident ⟨2⟩ "x") constant)) := by
  intro zeros mixed watched constant
  have hzeros : Value.AreKeys "double" zeros := by
    intro y hy
    simp only [zeros, List.mem_cons, List.not_mem_nil, or_false] at hy
    rcases hy with rfl | rfl | rfl | rfl <;> exact ⟨rfl, rfl⟩
  have hmixed : ¬ ∃ name, Value.AreKeys name mixed := by
    rintro ⟨name, hname⟩
    have hnone := (hname (.double ⟨0x7FF8000000000000⟩) (by simp [mixed])).1
    cases hnone
  have hwatched : watched.constant? = some (.list zeros) := rfl
  have hconstant : constant.constant? = some (.list mixed) := rfl
  obtain ⟨-, hlookup, -⟩ :=
    rewrite_membership_iff_areKeys ⟨1⟩ (ident ⟨2⟩ "x") hwatched (List.cons_ne_nil _ _)
  obtain ⟨-, -, hunchanged⟩ :=
    rewrite_membership_iff_areKeys ⟨1⟩ (ident ⟨2⟩ "x") hconstant (List.cons_ne_nil _ _)
  obtain ⟨type, elems, ht', htype, hfound, hsize⟩ := hlookup "double" hzeros
  have hdouble : type = .double := ValueType.name_injective htype
  subst hdouble
  have hzero := (hfound (.double ⟨0x8000000000000000⟩)).2 ⟨.double ⟨0⟩, List.mem_cons_self, rfl⟩
  exact ⟨⟨hwatched, List.cons_ne_nil _ _, elems, ht', hzero, hsize⟩,
    hconstant, List.cons_ne_nil _ _, hunchanged hmixed⟩

end Node

end TreeEval
