import Mathlib.Data.List.Forall2
import Mathlib.Data.Option.Basic
import TreeEval.Operator
import TreeEval.Value.KeySet

/-!
# Looking up instead of comparing

A value is equal to a key, in the equality of the language, exactly when it has that key. So looking
a value up in the set of the elements of a list gives what comparing it with one element after the
other would give, a NaN and the two zeros included, and also for values that cannot be compared with
the elements or are no values at all.
-/

namespace TreeEval

/-! ## Doubles -/

namespace Double

/-- Two numbers other than zero that share a place in the order have the same bits. -/
theorem eq_of_rank_eq {a b : Double} (ha : a.isZero = false) (h : a.rank = b.rank) : a = b := by
  have hmag : a.magnitude ≠ 0 := by simpa [isZero] using ha
  have hbits : a.bits.toNat = b.bits.toNat := by
    have hla : a.bits.toNat < 2 ^ 64 := a.bits.toNat_lt
    have hlb : b.bits.toNat < 2 ^ 64 := b.bits.toNat_lt
    simp only [rank, isNegative, magnitude, decide_eq_true_eq] at h hmag
    unfold signBit at h hmag
    split at h <;> split at h <;> omega
  cases a
  cases b
  simpa [UInt64.toNat_inj] using hbits

theorem rank_eq_zero_iff {a : Double} : a.rank = 0 ↔ a.isZero = true := by
  simp only [rank, isZero, decide_eq_true_eq]
  split <;> omega

/-- The canonical form of a number is the number itself, except for the zeros. -/
theorem map_value_canonical? {a : Double} (h : a.isNaN = false) :
    a.canonical?.map Canonical.value = some (if a.isZero = true then zero else a) := by
  unfold canonical?
  rw [dif_neg (by simp [h])]
  split <;> rfl

/-- Two numbers are equal exactly when they have the same canonical form. -/
theorem equal_iff_canonical {a b : Double} :
    a.equal b = true ↔ a.isNaN = false ∧ a.canonical? = b.canonical? := by
  -- a NaN is equal to nothing, and it has no canonical form
  by_cases hna : a.isNaN = true
  · simp [equal, hna]
  by_cases hnb : b.isNaN = true
  · have hb : b.canonical? = none := canonical?_eq_none_iff.2 hnb
    have ha : a.canonical? ≠ none := fun h => hna (canonical?_eq_none_iff.1 h)
    simp [equal, hnb, hb, ha]
  rw [Bool.not_eq_true] at hna hnb
  have hequal : a.equal b = true ↔ a.rank = b.rank := by simp [equal, hna, hnb]
  have hcanonical : a.canonical? = b.canonical? ↔
      (if a.isZero = true then zero else a) = (if b.isZero = true then zero else b) := by
    have hinj : Function.Injective Canonical.value := by
      rintro ⟨x, hx⟩ ⟨y, hy⟩ rfl
      rfl
    rw [← (Option.map_injective hinj).eq_iff, map_value_canonical? hna, map_value_canonical? hnb,
      Option.some_inj]
  rw [hequal, hcanonical, hna]
  simp only [true_and]
  have hzero : zero.isZero = true := by decide
  -- the two zeros share a place in the order; all other numbers have one of their own
  by_cases hza : a.isZero = true
  · by_cases hzb : b.isZero = true
    · simp [hza, hzb, rank_eq_zero_iff.2 hza, rank_eq_zero_iff.2 hzb]
    · have hrank : a.rank ≠ b.rank := fun h =>
        hzb (rank_eq_zero_iff.1 (h ▸ rank_eq_zero_iff.2 hza))
      have hne : zero ≠ b := fun h => hzb (h ▸ hzero)
      simp [hza, hzb, hrank, hne]
  · rw [if_neg hza]
    constructor
    · intro h
      have hab : a = b := eq_of_rank_eq (by simpa using hza) h
      rw [← hab, if_neg hza]
    · intro h
      split at h
      · exact absurd (h ▸ hzero) hza
      · rw [h]

end Double

/-! ## Equality with a key -/

namespace Value

theorem type_of_toKey? {v : Value} {k : Key} (h : v.toKey? = some k) : v.type = k.type := by
  cases v with
  | double d =>
    obtain ⟨c, _, rfl⟩ := Option.map_eq_some_iff.1 h
    rfl
  | bool b => cases h; rfl
  | int n => cases h; rfl
  | uint n => cases h; rfl
  | str s => cases h; rfl
  | bytes b => cases h; rfl
  | _ => cases h

theorem isSentinel_of_toKey? {v : Value} {k : Key} (h : v.toKey? = some k) :
    v.isSentinel = false := by
  cases v with
  | error e => cases h
  | unknown ids => cases h
  | _ => rfl

/-- Comparing a value with one of its type that has a key is comparing keys. -/
theorem equal_of_toKey? {x y : Value} {k : Key} (hy : y.toKey? = some k) (ht : x.type = y.type) :
    x.equal y = .bool (decide (x.toKey? = some k)) := by
  cases y with
  | double e =>
    obtain ⟨c, hc, rfl⟩ := Option.map_eq_some_iff.1 hy
    cases x with
    | double d =>
      have hcanonical : d.equal e = true ↔ d.canonical? = some c := by
        rw [Double.equal_iff_canonical, hc]
        refine ⟨And.right, fun h => ⟨?_, h⟩⟩
        rw [← Bool.not_eq_true, ← Double.canonical?_eq_none_iff, h]
        simp
      rw [equal]
      simp [isSentinel, toKey?, ← hcanonical]
    | _ => simp [type] at ht
  | bool b =>
    cases hy
    cases x <;> simp_all [type, equal, isSentinel, toKey?, Bool.beq_eq_decide_eq]
  | int n =>
    cases hy
    cases x <;> simp_all [type, equal, isSentinel, toKey?, Bool.beq_eq_decide_eq]
  | uint n =>
    cases hy
    cases x <;> simp_all [type, equal, isSentinel, toKey?, Bool.beq_eq_decide_eq]
  | str s =>
    cases hy
    cases x <;> simp_all [type, equal, isSentinel, toKey?, Bool.beq_eq_decide_eq]
  | bytes b =>
    cases hy
    cases x <;> simp_all [type, equal, isSentinel, toKey?, Bool.beq_eq_decide_eq]
  | _ => cases hy

/-- Values of different types cannot be compared. -/
theorem equal_of_type_ne {x y : Value} (hx : x.isSentinel = false) (hy : y.isSentinel = false)
    (ht : x.type ≠ y.type) : x.equal y = fail .noSuchOverload := by
  rw [equal.eq_def, if_neg (by simp [hx]), if_neg (by simp [hy])]
  cases x <;> cases y <;> first | rfl | exact (ht rfl).elim

/-! ## Sets of keys -/

theorem keys?_eq_some_iff {ys : List Value} {ks : List Key} :
    keys? ys = some ks ↔ List.Forall₂ (fun y k => y.toKey? = some k) ys ks := by
  induction ys generalizing ks with
  | nil => simp [keys?, eq_comm]
  | cons y ys ih =>
    rw [keys?, List.forall₂_cons_left_iff]
    constructor
    · intro h
      split at h
      · next k ks' hk hks =>
        cases h
        exact ⟨k, ks', hk, ih.1 hks, rfl⟩
      · cases h
    · rintro ⟨k, ks', hk, hks, rfl⟩
      rw [hk, ih.2 hks]

theorem mem_keys?_iff {ys : List Value} {ks : List Key} (h : keys? ys = some ks) (k : Key) :
    k ∈ ks ↔ ∃ y ∈ ys, y.toKey? = some k := by
  have hys := keys?_eq_some_iff.1 h
  clear h
  induction hys with
  | nil => simp
  | cons hy _ ih =>
    simp only [List.mem_cons, exists_eq_or_imp, hy, Option.some_inj, ih]
    rw [eq_comm]

theorem exists_mem_keys? {ys : List Value} {ks : List Key} (h : keys? ys = some ks) {y : Value}
    (hy : y ∈ ys) : ∃ k ∈ ks, y.toKey? = some k := by
  have hys := keys?_eq_some_iff.1 h
  clear h
  induction hys with
  | nil => cases hy
  | @cons z k zs ks hz _ ih =>
    rcases List.mem_cons.1 hy with rfl | hy
    · exact ⟨k, List.mem_cons_self, hz⟩
    · obtain ⟨k', hk', hyk'⟩ := ih hy
      exact ⟨k', List.mem_cons_of_mem _ hk', hyk'⟩

end Value

/-- A set holds the keys of some values, all of which have one, and no other keys. -/
structure KeySet.IsSetOf {type : ValueType} (s : KeySet type) (ys : List Value) : Prop where
  hasKey : ∀ y ∈ ys, ∃ k, y.toKey? = some k
  contains_iff : ∀ k, s.contains k = true ↔ ∃ y ∈ ys, y.toKey? = some k

namespace KeySet.IsSetOf

variable {type : ValueType} {s : KeySet type} {ys : List Value}

theorem type_eq (h : s.IsSetOf ys) {y : Value} (hy : y ∈ ys) : y.type = type := by
  obtain ⟨k, hk⟩ := h.hasKey y hy
  have hmem : s.contains k = true := (h.contains_iff k).2 ⟨y, hy, hk⟩
  rw [Value.type_of_toKey? hk]
  exact s.type_of_mem k (Std.HashSet.mem_iff_contains.2 hmem)

theorem ne_nil (h : s.IsSetOf ys) : ys ≠ [] := by
  obtain ⟨k, hk⟩ := s.nonempty
  obtain ⟨y, hy, _⟩ := (h.contains_iff k).1 (Std.HashSet.mem_iff_contains.1 hk)
  exact List.ne_nil_of_mem hy

end KeySet.IsSetOf

/-- The set that is made of some values holds their keys. -/
theorem Value.isSetOf_of_keySet? {ys : List Value} {type : ValueType} {s : KeySet type}
    (h : keySet? ys = some ⟨type, s⟩) : s.IsSetOf ys := by
  unfold keySet? at h
  split at h
  · next k ks hkeys =>
    split at h
    · cases h
      refine ⟨fun y hy => ?_, fun k' => ?_⟩
      · obtain ⟨k', _, hk'⟩ := exists_mem_keys? hkeys hy
        exact ⟨k', hk'⟩
      · rw [KeySet.contains_ofKeys, decide_eq_true_eq]
        exact mem_keys?_iff hkeys k'
    · cases h
  · cases h

/-! ## Scanning a list -/

namespace Operator

open Value

/-- If all comparisons succeed, the scan says whether one says yes. -/
theorem scan_of_bool {x : Value} {p : Value → Bool} {ys : List Value}
    (h : ∀ y ∈ ys, x.equal y = .bool (p y)) : scan x ys = .bool (ys.any p) := by
  induction ys with
  | nil => rfl
  | cons y ys ih =>
    have hrest := ih fun z hz => h z (List.mem_cons_of_mem _ hz)
    rw [scan, h y List.mem_cons_self, List.any_cons]
    cases p y with
    | true => rfl
    | false => simpa using hrest

/-- If all comparisons fail, so does the scan, unless there is nothing to compare with. -/
theorem scan_of_fail {x : Value} {ys : List Value} (hys : ys ≠ [])
    (h : ∀ y ∈ ys, x.equal y = fail .noSuchOverload) : scan x ys = fail .noSuchOverload := by
  induction ys with
  | nil => exact absurd rfl hys
  | cons y ys ih =>
    rw [scan, h y List.mem_cons_self]
    cases ys with
    | nil => rfl
    | cons z zs =>
      rw [ih (List.cons_ne_nil z zs) fun w hw => h w (List.mem_cons_of_mem _ hw)]
      rfl

end Operator

namespace Value

/-- Looking a value up in the set of a list gives what scanning the list gives. -/
theorem isElemOf_eq_scan {x : Value} {ys : List Value} {type : ValueType} {s : KeySet type}
    (h : s.IsSetOf ys) (hx : x.isSentinel = false) : x.isElemOf s = Operator.scan x ys := by
  by_cases hxt : x.type = type
  · -- all comparisons succeed
    have hequal : ∀ y ∈ ys, x.equal y = .bool (decide (x.toKey? = y.toKey?)) := by
      intro y hy
      obtain ⟨k, hk⟩ := h.hasKey y hy
      rw [equal_of_toKey? hk (hxt.trans (h.type_eq hy).symm), hk]
    rw [isElemOf, if_pos hxt, Operator.scan_of_bool hequal]
    congr 1
    rw [Bool.eq_iff_iff, Option.any_eq_true, List.any_eq_true]
    constructor
    · rintro ⟨k, hk, hmem⟩
      obtain ⟨y, hy, hyk⟩ := (h.contains_iff k).1 hmem
      exact ⟨y, hy, by rw [decide_eq_true_eq, hk, hyk]⟩
    · rintro ⟨y, hy, heq⟩
      obtain ⟨k, hk⟩ := h.hasKey y hy
      exact ⟨k, (of_decide_eq_true heq).trans hk, (h.contains_iff k).2 ⟨y, hy, hk⟩⟩
  · -- all comparisons fail, and there is at least one
    have hequal : ∀ y ∈ ys, x.equal y = fail .noSuchOverload := by
      intro y hy
      obtain ⟨k, hk⟩ := h.hasKey y hy
      exact equal_of_type_ne hx (isSentinel_of_toKey? hk) (h.type_eq hy ▸ hxt)
    rw [isElemOf, if_neg hxt, Operator.scan_of_fail h.ne_nil hequal, orFail, if_neg (by simp [hx])]

end Value

end TreeEval
