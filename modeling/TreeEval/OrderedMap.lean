import Std.Data.HashMap

/-!
# Maps in order of insertion

A map lists its entries in the order in which their keys were first inserted, and finds an entry by
its key through an index of positions. A key that is present is never overwritten: inserting it
again fails and says which key it was.
-/

namespace TreeEval

/-- Entries in order of insertion, and the position of each key among them. -/
structure OrderedMap (κ α : Type) [BEq κ] [Hashable κ] where
  /-- The entries, the oldest first. -/
  entries : Array (κ × α)
  /-- The position of each key. -/
  index : Std.HashMap κ Nat

namespace OrderedMap

variable {κ α : Type} [BEq κ] [Hashable κ]

/-- The map without entries, with room for some. -/
def emptyWithCapacity (capacity : Nat) : OrderedMap κ α :=
  ⟨Array.mkEmpty capacity, Std.HashMap.emptyWithCapacity capacity⟩

/-- The map without entries. -/
def empty : OrderedMap κ α := emptyWithCapacity 0

instance : Inhabited (OrderedMap κ α) := ⟨empty⟩

/-- The index leads to exactly the positions that hold a key. -/
def Coherent (m : OrderedMap κ α) : Prop :=
  ∀ (k : κ) (i : Nat), m.index[k]? = some i ↔ (m.entries[i]?).map Prod.fst = some k

theorem coherent_emptyWithCapacity [LawfulBEq κ] (capacity : Nat) :
    (emptyWithCapacity capacity : OrderedMap κ α).Coherent := by
  intro k i
  simp [emptyWithCapacity]

/-- The number of entries. -/
def size (m : OrderedMap κ α) : Nat := m.entries.size

/-- Whether there are no entries. -/
def isEmpty (m : OrderedMap κ α) : Bool := m.entries.isEmpty

/-- The entries as a list, the oldest first. -/
def toList (m : OrderedMap κ α) : List (κ × α) := m.entries.toList

/-- The keys, the oldest first. -/
def keys (m : OrderedMap κ α) : List κ := m.toList.map Prod.fst

/-- Whether a key has an entry. -/
def contains (m : OrderedMap κ α) (k : κ) : Bool := m.index.contains k

/-- The value of a key. -/
def get? (m : OrderedMap κ α) (k : κ) : Option α :=
  match m.index[k]? with
  | none => none
  | some i => (m.entries[i]?).map Prod.snd

/-- What a map holds under a key is the value of one of its entries. -/
theorem exists_mem_of_get?_eq_some {m : OrderedMap κ α} {k : κ} {v : α} (h : m.get? k = some v) :
    ∃ entry ∈ m.toList, entry.2 = v := by
  rw [get?] at h
  split at h
  · cases h
  · obtain ⟨entry, hentry, rfl⟩ := Option.map_eq_some_iff.1 h
    exact ⟨entry, Array.mem_toList_iff.2 (Array.mem_of_getElem? hentry), rfl⟩

/-- The map with one more entry at its end. A key that is present is refused and returned. -/
def insert (m : OrderedMap κ α) (k : κ) (v : α) : Except κ (OrderedMap κ α) :=
  if m.index.contains k then .error k
  else .ok ⟨m.entries.push (k, v), m.index.insert k m.entries.size⟩

/-- An insertion either is refused, or adds one entry at the end. -/
theorem toList_of_insert_eq_ok {m m' : OrderedMap κ α} {k : κ} {v : α}
    (h : m.insert k v = .ok m') : m'.toList = m.toList ++ [(k, v)] := by
  unfold insert at h
  split at h
  · cases h
  · cases h
    simp [toList]

/-- A new key goes behind all others, so the index stays coherent. -/
theorem Coherent.insert [LawfulBEq κ] {m m' : OrderedMap κ α} (hm : m.Coherent) {k : κ} {v : α}
    (h : m.insert k v = .ok m') : m'.Coherent := by
  unfold OrderedMap.insert at h
  split at h
  · cases h
  next hk =>
    cases h
    intro k' i
    have hnew : m.index[k]? = none := by simpa using hk
    have hold : ∀ j : Nat, (m.entries[j]?).map Prod.fst ≠ some k := fun j hj => by
      simp [(hm k j).2 hj] at hnew
    rw [Std.HashMap.getElem?_insert, Array.getElem?_push]
    by_cases hkk : k = k'
    · subst hkk
      by_cases hi : i = m.entries.size
      · simp [hi]
      · simpa [hi, Ne.symm hi] using hold i
    · by_cases hi : i = m.entries.size
      · subst hi
        have hout : m.index[k']? ≠ some m.entries.size := fun hh => by
          simpa using (hm k' _).1 hh
        simpa [hkk] using hout
      · simpa [hkk, hi] using hm k' i

/-- The map of a list of entries, in their order; of two entries with one key the first counts. -/
def ofList (entries : List (κ × α)) : OrderedMap κ α :=
  entries.foldl (fun m (k, v) => (m.insert k v).toOption.getD m) empty

end OrderedMap

end TreeEval
