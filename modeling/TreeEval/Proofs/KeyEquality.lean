import TreeEval.Proofs.KeyLookup

/-!
# Keys and equality

What can be looked up by hashing is found exactly where comparing would find it: two values have one
key exactly when they are equal, and the value that a key stands for cannot be told from the value
that the key was made of, neither by its type nor by comparing nor by its key. Only doubles make this
a matter of numbers. Comparing them goes by their places in the order, keys go by bits, and the two
agree because the zeros are the only numbers that share a place: `Double.equal_iff_bits`.
-/

namespace TreeEval

namespace Double

/-- Two numbers share a place in the order only if they are the same or both are zeros. -/
theorem rank_eq_iff {a b : Double} :
    a.rank = b.rank ↔ a.bits = b.bits ∨ a.isZero = true ∧ b.isZero = true := by
  constructor
  · intro h
    by_cases hz : a.isZero = true
    · have hb : b.rank = 0 := h ▸ rank_eq_zero_iff.2 hz
      exact .inr ⟨hz, rank_eq_zero_iff.1 hb⟩
    · have hab : a = b := eq_of_rank_eq (by simpa using hz) h
      exact .inl (congrArg bits hab)
  · rintro (h | ⟨ha, hb⟩)
    · have hab : a = b := by
        cases a
        cases b
        exact congrArg Double.mk h
      rw [hab]
    · rw [rank_eq_zero_iff.2 ha, rank_eq_zero_iff.2 hb]

/-- The equality of IEEE 754, said of bit patterns. -/
theorem equal_iff_bits {a b : Double} :
    a.equal b = true ↔
      a.isNaN = false ∧ b.isNaN = false ∧ (a.bits = b.bits ∨ a.isZero = true ∧ b.isZero = true) := by
  rw [← rank_eq_iff]
  simp [equal, and_assoc]

/-- The zero without a sign is the only one. -/
theorem eq_zero_of_isZero {d : Double} (hz : d.isZero = true) (hs : d.isNegative = false) :
    d = zero := by
  have hbits : d.bits.toNat = 0 := by
    have hmag : d.bits.toNat % signBit = 0 := of_decide_eq_true hz
    have hlt : ¬ signBit ≤ d.bits.toNat := of_decide_eq_false hs
    unfold signBit at hmag hlt
    omega
  have hzero : d.bits = 0 := UInt64.toNat_inj.1 hbits
  cases d
  exact congrArg Double.mk hzero

/-- A canonical double is its own canonical form. -/
theorem canonical?_value (d : Canonical) : d.value.canonical? = some d := by
  have hcanonical := d.isCanonical
  rw [isCanonical, Bool.and_eq_true, Bool.or_eq_true, Bool.not_eq_true', Bool.not_eq_true',
    Bool.not_eq_true'] at hcanonical
  obtain ⟨hn, hsign⟩ := hcanonical
  have hsame : (if d.value.isZero = true then zero else d.value) = d.value := by
    split
    · next hz =>
      have hs : d.value.isNegative = false := hsign.resolve_left (by simp [hz])
      exact (eq_zero_of_isZero hz hs).symm
    · rfl
  have hvalue := map_value_canonical? hn
  rw [hsame] at hvalue
  obtain ⟨c, hc, hcd⟩ := Option.map_eq_some_iff.1 hvalue
  rw [hc]
  cases c
  cases d
  cases hcd
  rfl

end Double

namespace Value

/-- A key is the key of the value that it stands for. -/
@[simp] theorem toKey?_ofKey (k : Key) : (ofKey k).toKey? = some k := by
  cases k with
  | double d =>
    show d.value.canonical?.map Key.double = _
    rw [Double.canonical?_value]
    rfl
  | _ => rfl

/-- The values with one key are those that are equal to one of them. -/
theorem toKey?_eq_some_iff {v w : Value} {k : Key} (hv : v.toKey? = some k) :
    w.toKey? = some k ↔ w.equal v = bool true := by
  by_cases ht : w.type = v.type
  · rw [equal_of_toKey? hv ht]
    simp
  · -- a value of another type has keys of another type, and the comparison fails or is not made
    have hkey : w.toKey? ≠ some k := by
      intro hw
      exact ht ((type_of_toKey? hw).trans (type_of_toKey? hv).symm)
    have hequal : w.equal v ≠ bool true := by
      by_cases hs : w.isSentinel = true
      · have hself : w.equal v = w := by rw [equal.eq_def, if_pos hs]
        rw [hself]
        rintro rfl
        cases hs
      · rw [equal_of_type_ne (by simpa using hs) (isSentinel_of_toKey? hv) ht]
        intro h
        cases h
    exact iff_of_false hkey hequal

/-- Keys agree with the equality of the language. Values without a key are those of other types and
the NaNs. Of a value with a key, the values that are equal to it are those with the same key, and
the value that the key stands for is one of them, is of the same type, and has that key. Equality of
doubles is that of IEEE 754. -/
theorem keys_agree_with_equal (v : Value) :
    (v.toKey? = none ↔ v.isPrimitive = false ∨ ∃ d, v = double d ∧ d.isNaN = true) ∧
      (∀ k, v.toKey? = some k →
        (∀ w : Value, w.toKey? = v.toKey? ↔ w.equal v = bool true) ∧
          (ofKey k).type = v.type ∧ (ofKey k).equal v = bool true ∧ (ofKey k).toKey? = some k) ∧
        ∀ d e : Double, (double d).equal (double e) = bool true ↔
          d.isNaN = false ∧ e.isNaN = false ∧
            (d.bits = e.bits ∨ d.isZero = true ∧ e.isZero = true) := by
  refine ⟨toKey?_eq_none_iff, fun k hv => ⟨fun w => ?_, ?_, ?_, toKey?_ofKey k⟩, fun d e => ?_⟩
  · rw [hv]
    exact toKey?_eq_some_iff hv
  · rw [type_ofKey, type_of_toKey? hv]
  · exact (toKey?_eq_some_iff hv).1 (toKey?_ofKey k)
  · rw [← Double.equal_iff_bits]
    simp [equal, isSentinel]

/-- The zero with a sign has the key of the zero without; the integer zero has another. -/
theorem keys_agree_with_equal_signedZero :
    let zero : Value := double ⟨0⟩
    let signed : Value := double ⟨0x8000000000000000⟩
    ∃ k, signed.toKey? = some k ∧ zero.toKey? = signed.toKey? ∧ (ofKey k).equal signed = bool true ∧
      (int 0).toKey? ≠ signed.toKey? ∧ (int 0).equal signed ≠ bool true := by
  intro zero signed
  obtain ⟨hsame, -, hequal, -⟩ := (keys_agree_with_equal signed).2.1 _ rfl
  exact ⟨_, rfl, (hsame zero).2 rfl, hequal, (hsame (int 0)).not.2 nofun, nofun⟩

end Value

end TreeEval
