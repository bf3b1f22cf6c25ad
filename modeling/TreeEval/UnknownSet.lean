import TreeEval.NodeId
import TreeEval.Text.Inspect

/-!
# Sets of unknowns

When a value cannot be computed because a name is withheld, the result says which expressions asked
for it. Such a set lists each identifier once, in ascending order, so equal sets are the same
array and membership is a binary search.
-/

namespace TreeEval

namespace UnknownSet

/-! ## Ascending lists -/

/-- Removes every element that equals the one after it. -/
def dropRepeats : List NodeId → List NodeId
  | a :: b :: rest => if a = b then dropRepeats (b :: rest) else a :: dropRepeats (b :: rest)
  | ids => ids

@[simp] theorem mem_dropRepeats {id : NodeId} {ids : List NodeId} :
    id ∈ dropRepeats ids ↔ id ∈ ids := by
  fun_induction dropRepeats ids with
  | case1 a rest ih => simp_all
  | case2 a b rest hne ih => simp_all
  | case3 => rfl

/-- In a list that never descends, equal elements are neighbours, so that without repeats it
ascends. -/
theorem pairwise_dropRepeats {ids : List NodeId} (h : ids.Pairwise (· ≤ ·)) :
    (dropRepeats ids).Pairwise (· < ·) := by
  fun_induction dropRepeats ids with
  | case1 a rest ih => exact ih h.of_cons
  | case2 a b rest hne ih =>
    rw [List.pairwise_cons] at h
    refine List.pairwise_cons.2 ⟨fun c hc => ?_, ih h.2⟩
    rw [mem_dropRepeats, List.mem_cons] at hc
    have hab : a < b := NodeId.lt_of_le_of_ne (h.1 b (by simp)) hne
    rcases hc with rfl | hc
    · exact hab
    · have hbc : b ≤ c := List.rel_of_pairwise_cons h.2 hc
      rcases Decidable.em (b = c) with rfl | hbc'
      · exact hab
      · exact NodeId.lt_trans hab (NodeId.lt_of_le_of_ne hbc hbc')
  | case3 ids hids =>
    match ids, hids with
    | [], _ => exact List.Pairwise.nil
    | [a], _ => exact List.pairwise_singleton ..
    | a :: b :: rest, hids => exact absurd rfl (hids a b rest)

end UnknownSet

/-- A finite set of identifiers. -/
structure UnknownSet where
  /-- The members, in ascending order and each once. -/
  ids : Array NodeId
  /-- The members ascend. -/
  ascending : ids.toList.Pairwise (· < ·)
deriving DecidableEq

namespace UnknownSet

/-! ## Sets -/

/-- The set with one member. -/
def singleton (id : NodeId) : UnknownSet := ⟨#[id], by simp⟩

/-- The members of a list in ascending order, each once. -/
def sorted (ids : List NodeId) : List NodeId :=
  dropRepeats (ids.mergeSort fun a b => decide (a ≤ b))

theorem pairwise_sorted (ids : List NodeId) : (sorted ids).Pairwise (· < ·) := by
  refine pairwise_dropRepeats ?_
  have h := @List.pairwise_mergeSort NodeId (fun a b => decide (a ≤ b))
    (fun a b c => by simpa using NodeId.le_trans)
    (fun a b => by simpa using NodeId.le_total a b) ids
  simpa using h

/-- The set of the members of a list. -/
def ofList (ids : List NodeId) : UnknownSet :=
  ⟨(sorted ids).toArray, by simpa using pairwise_sorted ids⟩

/-- The number of members. -/
def size (s : UnknownSet) : Nat := s.ids.size

/-- Whether there are no members. -/
def isEmpty (s : UnknownSet) : Bool := s.ids.isEmpty

/-- Looks for an identifier among the entries `lo` up to `hi` of an ascending array, halving the
range in each step. -/
def search (ids : Array NodeId) (id : NodeId) (lo hi : Nat) : Bool :=
  if lo < hi then
    let mid := (lo + hi) / 2
    match ids[mid]? with
    | none => false
    | some found =>
      if found = id then true
      else if found < id then search ids id (mid + 1) hi
      else search ids id lo mid
  else false
termination_by hi - lo

/-- Whether an identifier is a member. -/
def contains (s : UnknownSet) (id : NodeId) : Bool := search s.ids id 0 s.ids.size

/-- The members between braces. -/
def text (s : UnknownSet) : String := Text.braced (s.ids.toList.map NodeId.text)

/-- The set as a developer reads it. -/
def inspect (s : UnknownSet) : String :=
  Text.record "UnknownSet" [("ids", Text.bracketed (s.ids.toList.map NodeId.inspect))]

end UnknownSet

end TreeEval
