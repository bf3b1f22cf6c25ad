import Std.Data.HashSet
import TreeEval.Value.Basic

/-!
# Lists as sets of keys

When all elements of a list are keys of one type, a test for membership in the list needs no scan:
the list can be turned into a set of keys once, and looking a value up in it gives the same answer
for every value of that type.
-/

namespace TreeEval

/-- Some keys of one type, at least one. -/
structure KeySet (type : ValueType) where
  /-- The keys. -/
  keys : Std.HashSet Key
  /-- They are all of the type. -/
  type_of_mem : ∀ k ∈ keys, k.type = type
  /-- There is one. -/
  nonempty : ∃ k, k ∈ keys

namespace KeySet

/-- The set of a key and others of its type. -/
def ofKeys (k : Key) (ks : List Key) (h : ∀ k' ∈ ks, k'.type = k.type) : KeySet k.type where
  keys := Std.HashSet.ofList (k :: ks)
  type_of_mem := by
    intro k' hk'
    have hmem : k' = k ∨ k' ∈ ks := by simpa [Std.HashSet.mem_ofList] using hk'
    rcases hmem with rfl | hks
    · rfl
    · exact h k' hks
  nonempty := ⟨k, by simp [Std.HashSet.mem_ofList]⟩

variable {type : ValueType}

/-- Whether a key is in the set. -/
def contains (s : KeySet type) (k : Key) : Bool := s.keys.contains k

/-- The number of keys. -/
def size (s : KeySet type) : Nat := s.keys.size

/-- Whether there are no keys, which is never the case. -/
def isEmpty (s : KeySet type) : Bool := s.keys.isEmpty

/-- The keys, in any order. -/
def toList (s : KeySet type) : List Key := s.keys.toList

theorem contains_ofKeys (k : Key) (ks : List Key) (h : ∀ k' ∈ ks, k'.type = k.type) (k' : Key) :
    (ofKeys k ks h).contains k' = decide (k' ∈ k :: ks) := by
  rw [contains, ofKeys, Std.HashSet.contains_ofList, List.contains_eq_mem]

/-- No sentinel has the type of a set of keys. -/
theorem type_ne_of_isSentinel (s : KeySet type) {v : Value} (h : v.isSentinel = true) :
    v.type ≠ type := by
  obtain ⟨k, hk⟩ := s.nonempty
  have hkey : k.type = type := s.type_of_mem k hk
  rw [← hkey]
  cases v with
  | error e => cases k <;> simp [Value.type, Key.type]
  | unknown ids => cases k <;> simp [Value.type, Key.type]
  | _ => cases h

end KeySet

namespace Value

/-- The keys of some values, if all of them have one. -/
def keys? : List Value → Option (List Key)
  | [] => some []
  | v :: vs =>
    match v.toKey?, keys? vs with
    | some k, some ks => some (k :: ks)
    | _, _ => none

/-- The set of some values, if there are any and they are keys of one type. -/
def keySet? (elems : List Value) : Option ((type : ValueType) × KeySet type) :=
  match keys? elems with
  | some (k :: ks) =>
    if h : ∀ k' ∈ ks, k'.type = k.type then some ⟨k.type, .ofKeys k ks h⟩ else none
  | _ => none

/-- Whether a value is in a set of keys of one type. A value of another type cannot be compared with
the elements. -/
def isElemOf {type : ValueType} (v : Value) (elems : KeySet type) : Value :=
  if v.type = type then .bool (v.toKey?.any elems.contains) else v.orFail .noSuchOverload

/-- A sentinel is handed on. -/
theorem isElemOf_of_isSentinel {type : ValueType} (elems : KeySet type) {v : Value}
    (h : v.isSentinel = true) : v.isElemOf elems = v := by
  rw [isElemOf, if_neg (elems.type_ne_of_isSentinel h), orFail, if_pos h]

end Value

end TreeEval
