import Mathlib.Data.List.Sort
import TreeEval.UnknownSet

/-!
# Sets of unknowns are canonical

A set of unknowns is an ascending array, and which identifiers it holds says all about it. Two facts
make it so. The halving search finds what is in the array, because the half that it leaves out has
only smaller or only greater entries (`search_eq_true_iff`). And an ascending list is determined by
its members. So the set of a list does not show how often the list names an identifier, or where.
-/

namespace TreeEval

namespace NodeId

theorem lt_iff_index {a b : NodeId} : a < b ↔ a.index < b.index := UInt32.lt_iff_toNat_lt

theorem index_inj {a b : NodeId} : a.index = b.index ↔ a = b := by
  constructor
  · intro h
    have hraw : a.raw = b.raw := UInt32.toNat_inj.1 h
    cases a
    cases b
    exact congrArg NodeId.mk hraw
  · exact congrArg index

instance : Std.Irrefl (α := NodeId) (· < ·) where
  irrefl a h := by
    rw [lt_iff_index] at h
    omega

instance : Std.Antisymm (α := NodeId) (· < ·) where
  antisymm a b h h' := by
    rw [lt_iff_index] at h h'
    omega

end NodeId

namespace UnknownSet

/-! ## Searching -/

/-- In an ascending array the entries are in the order of their positions. -/
theorem index_lt_iff {ids : Array NodeId} (h : ids.toList.Pairwise (· < ·)) {i j : Nat}
    {a b : NodeId} (hi : ids[i]? = some a) (hj : ids[j]? = some b) :
    a.index < b.index ↔ i < j := by
  have hmono : ∀ {i j : Nat} {a b : NodeId}, ids[i]? = some a → ids[j]? = some b → i < j →
      a.index < b.index := by
    intro i j a b hi hj hij
    rw [← Array.getElem?_toList] at hi hj
    obtain ⟨hi', rfl⟩ := List.getElem?_eq_some_iff.1 hi
    obtain ⟨hj', rfl⟩ := List.getElem?_eq_some_iff.1 hj
    exact NodeId.lt_iff_index.1 (List.pairwise_iff_getElem.1 h i j hi' hj' hij)
  refine ⟨fun hab => ?_, hmono hi hj⟩
  -- at the same or a later position there is the same entry or a greater one
  by_contra hij
  rcases Nat.lt_or_eq_of_le (Nat.le_of_not_lt hij) with hji | rfl
  · have hba := hmono hj hi hji
    omega
  · have heq : a = b := Option.some_inj.1 (hi.symm.trans hj)
    rw [heq] at hab
    omega

/-- The search finds an identifier in a range of an ascending array if it is there. -/
theorem search_eq_true_iff {ids : Array NodeId} (h : ids.toList.Pairwise (· < ·)) {id : NodeId}
    {lo hi : Nat} (hsize : hi ≤ ids.size) :
    search ids id lo hi = true ↔ ∃ i, lo ≤ i ∧ i < hi ∧ ids[i]? = some id := by
  fun_induction search ids id lo hi with
  | case1 lo hi hlt mid hnone =>
    -- the middle of a range is an entry of the array
    have hmid : ids.size ≤ mid := Array.getElem?_eq_none_iff.1 hnone
    omega
  | case2 lo hi hlt mid hfound =>
    have hmid : lo ≤ mid ∧ mid < hi := by omega
    exact iff_of_true rfl ⟨mid, hmid.1, hmid.2, hfound⟩
  | case3 lo hi hlt mid found hfound hne hless ih =>
    rw [ih hsize]
    -- up to the middle all entries are smaller
    have hright : ∀ i, ids[i]? = some id → mid < i := fun i hi =>
      (index_lt_iff h hfound hi).1 (NodeId.lt_iff_index.1 hless)
    constructor
    · rintro ⟨i, hlo, hhi, hi⟩
      exact ⟨i, by omega, hhi, hi⟩
    · rintro ⟨i, hlo, hhi, hi⟩
      exact ⟨i, hright i hi, hhi, hi⟩
  | case4 lo hi hlt mid found hfound hne hless ih =>
    rw [ih (by omega)]
    -- from the middle on all entries are greater
    have hgreat : id.index < found.index := by
      have hle : ¬ found.index < id.index := fun hlt => hless (NodeId.lt_iff_index.2 hlt)
      have hindex : found.index ≠ id.index := fun heq => hne (NodeId.index_inj.1 heq)
      omega
    have hleft : ∀ i, ids[i]? = some id → i < mid := fun i hi =>
      (index_lt_iff h hi hfound).1 hgreat
    constructor
    · rintro ⟨i, hlo, hhi, hi⟩
      exact ⟨i, hlo, by omega, hi⟩
    · rintro ⟨i, hlo, hhi, hi⟩
      exact ⟨i, hlo, hleft i hi, hi⟩
  | case5 lo hi hge =>
    refine iff_of_false (by simp) ?_
    rintro ⟨i, hlo, hhi, -⟩
    omega

/-- Membership is being an entry of the array. -/
theorem contains_iff (s : UnknownSet) (id : NodeId) : s.contains id = true ↔ id ∈ s.ids := by
  unfold contains
  rw [search_eq_true_iff s.ascending (Nat.le_refl _), Array.mem_iff_getElem?]
  constructor
  · rintro ⟨i, -, -, hi⟩
    exact ⟨i, hi⟩
  · rintro ⟨i, hi⟩
    have hlt : i < s.ids.size := (Array.getElem?_eq_some_iff.1 hi).1
    exact ⟨i, Nat.zero_le i, hlt, hi⟩

/-! ## Equality -/

/-- Sets with the same members are the same. -/
theorem eq_of_mem_iff {s t : UnknownSet} (h : ∀ id, id ∈ s.ids ↔ id ∈ t.ids) : s = t := by
  have hlist : s.ids.toList = t.ids.toList :=
    s.ascending.eq_of_mem_iff t.ascending fun id => by simpa using h id
  cases s
  cases t
  congr
  exact Array.toList_inj.1 hlist

theorem mem_ids_ofList {ids : List NodeId} {id : NodeId} : id ∈ (ofList ids).ids ↔ id ∈ ids := by
  show id ∈ (sorted ids).toArray ↔ id ∈ ids
  rw [List.mem_toArray, sorted, mem_dropRepeats, List.mem_mergeSort]

/-- The set of a list has the members of the list, in ascending order and each once. A search finds
these and nothing else, and the sets of two lists are equal exactly if the lists have the same
members. -/
theorem ofList_isCanonical (ids : List NodeId) :
    (ofList ids).ids.toList.Pairwise (· < ·) ∧ (∀ id, id ∈ (ofList ids).ids ↔ id ∈ ids) ∧
      (∀ id, (ofList ids).contains id = true ↔ id ∈ ids) ∧
        ∀ ids', ofList ids = ofList ids' ↔ ∀ id, id ∈ ids ↔ id ∈ ids' := by
  refine ⟨(ofList ids).ascending, fun _ => mem_ids_ofList, fun id => ?_, fun ids' => ?_⟩
  · rw [contains_iff, mem_ids_ofList]
  · constructor
    · intro h id
      have hids : id ∈ (ofList ids).ids ↔ id ∈ (ofList ids').ids := by rw [h]
      rwa [mem_ids_ofList, mem_ids_ofList] at hids
    · intro h
      refine eq_of_mem_iff fun id => ?_
      rw [mem_ids_ofList, mem_ids_ofList, h id]

/-- The reserved number comes last, and is a member like any other. -/
example : (ofList [.invalid, ⟨7⟩, ⟨0⟩, .invalid]).ids = #[⟨0⟩, ⟨7⟩, .invalid] := by cbv

end UnknownSet

end TreeEval
