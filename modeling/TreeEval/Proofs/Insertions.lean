import TreeEval.Proofs.MapEntries

/-!
# Histories of insertions

What can be said of a map after any sequence of insertions, some of which were refused. `Records` is
the invariant: it ties the index, the keys and the values of a map to the entries that were to be
inserted. One more insertion keeps it, whether it is accepted or refused, and the new map of any
capacity has it at the start.
-/

namespace TreeEval.OrderedMap

variable {κ α : Type} [BEq κ] [Hashable κ] {m : OrderedMap κ α} {k : κ}

/-! ## One insertion -/

/-- A position in the index is the position of an entry. -/
theorem Coherent.lt_size (hm : m.Coherent) {i : Nat} (h : m.index[k]? = some i) :
    i < m.entries.size := by
  have hentry : (m.entries[i]?).map Prod.fst = some k := (hm k i).1 h
  by_contra hout
  rw [Array.getElem?_eq_none (Nat.le_of_not_lt hout)] at hentry
  exact nomatch hentry

variable [LawfulBEq κ]

/-- An insertion is refused exactly if there is an entry with the key, and what it returns is that
key. -/
theorem Coherent.insert_eq_error_iff (hm : m.Coherent) {v : α} {taken : κ} :
    m.insert k v = .error taken ↔ k ∈ m.keys ∧ taken = k := by
  unfold OrderedMap.insert
  by_cases hk : k ∈ m.keys
  · rw [if_pos (hm.contains_index_iff.2 hk)]
    simp [hk, eq_comm]
  · rw [if_neg (fun h => hk (hm.contains_index_iff.1 h))]
    simp [hk]

/-- A refused insertion changes nothing. -/
theorem Coherent.insertNew_of_mem (hm : m.Coherent) (hk : k ∈ m.keys) (v : α) :
    m.insertNew (k, v) = m := by
  have hrefused : m.insert k v = .error k := hm.insert_eq_error_iff.2 ⟨hk, rfl⟩
  show (m.insert k v).toOption.getD m = m
  rw [hrefused]
  rfl

/-- What is found after an insertion is what was found before, and otherwise the new entry. -/
theorem Coherent.get?_insertNew (hm : m.Coherent) (new : κ) (v : α) (k : κ) :
    (m.insertNew (new, v)).get? k = (m.get? k).or ([(new, v)].lookup k) := by
  have hother : k ≠ new → [(new, v)].lookup k = none := by
    intro hne
    exact List.lookup_eq_none_iff.2 (by simpa using hne)
  by_cases hnew : new ∈ m.keys
  · rw [hm.insertNew_of_mem hnew]
    by_cases hsame : k = new
    · have hsome : m.get? k ≠ none := by
        intro hnone
        exact hm.get?_eq_none_iff.1 hnone (hsame ▸ hnew)
      rw [Option.or_of_isSome (Option.isSome_iff_ne_none.2 hsome)]
    · rw [hother hsame, Option.or_none]
  · have hfound : ∀ w, (m.insertNew (new, v)).get? k = some w ↔
        m.get? k = some w ∨ k = new ∧ w = v := by
      intro w
      rw [(hm.insertNew (new, v)).get?_eq_some_iff, hm.toList_insertNew hnew, List.mem_append,
        ← hm.get?_eq_some_iff, List.mem_singleton, Prod.mk.injEq]
    by_cases hsame : k = new
    · have hnone : m.get? k = none := hm.get?_eq_none_iff.2 (hsame ▸ hnew)
      have hv : (m.insertNew (new, v)).get? k = some v := (hfound v).2 (.inr ⟨hsame, rfl⟩)
      rw [hv, hnone, hsame, Option.none_or, List.lookup_cons_self]
    · rw [hother hsame, Option.or_none]
      ext w
      rw [hfound w]
      simp [hsame]

/-! ## What a map records -/

/-- The map lists each key where it was inserted first, with the value that it got then, and its
index leads there. -/
structure Records (m : OrderedMap κ α) (entries : List (κ × α)) : Prop where
  coherent : m.Coherent
  keys_eq : m.keys = (entries.map Prod.fst).eraseDups
  get?_eq : ∀ k, m.get? k = entries.lookup k

theorem records_emptyWithCapacity (capacity : Nat) :
    Records (emptyWithCapacity capacity : OrderedMap κ α) [] where
  coherent := coherent_emptyWithCapacity capacity
  keys_eq := rfl
  get?_eq := fun k => by simp [get?, emptyWithCapacity]

namespace Records

variable {entries : List (κ × α)}

theorem mem_keys_iff (hr : Records m entries) : k ∈ m.keys ↔ k ∈ entries.map Prod.fst := by
  rw [hr.keys_eq, List.mem_eraseDups]

/-- The keys that come after an insertion of a key are those before, and the key if it is new. -/
theorem keys_insertNew (hr : Records m entries) (entry : κ × α) :
    (m.insertNew entry).keys = ((entries ++ [entry]).map Prod.fst).eraseDups := by
  rw [List.map_append, List.map_singleton, List.eraseDups_append, ← hr.keys_eq]
  by_cases hk : entry.1 ∈ m.keys
  · have hold : [entry.1].removeAll (entries.map Prod.fst) = [] := by
      simp [List.cons_removeAll, hr.mem_keys_iff.1 hk]
    rw [hr.coherent.insertNew_of_mem hk, hold, List.eraseDups_nil, List.append_nil]
  · have hnew : [entry.1].removeAll (entries.map Prod.fst) = [entry.1] := by
      have hout : entry.1 ∉ entries.map Prod.fst := fun h => hk (hr.mem_keys_iff.2 h)
      simp [List.cons_removeAll, hout]
    rw [hr.coherent.keys_insertNew hk, hnew]
    rfl

/-- One insertion is recorded, be it accepted or refused. -/
theorem insertNew (hr : Records m entries) (entry : κ × α) :
    Records (m.insertNew entry) (entries ++ [entry]) where
  coherent := hr.coherent.insertNew entry
  keys_eq := hr.keys_insertNew entry
  get?_eq := fun k => by
    rw [hr.coherent.get?_insertNew entry.1 entry.2, hr.get?_eq, List.lookup_append]

theorem insertAll (hr : Records m entries) (more : List (κ × α)) :
    Records (m.insertAll more) (entries ++ more) := by
  induction more generalizing m entries with
  | nil =>
    rw [List.append_nil]
    exact hr
  | cons entry rest ih =>
    have hrest : Records ((m.insertNew entry).insertAll rest) (entries ++ [entry] ++ rest) :=
      ih (hr.insertNew entry)
    rw [List.append_assoc] at hrest
    exact hrest

end Records

/-- After any insertions into a new map, the index leads to exactly the positions that hold a key,
so that keys differ and no look-up goes past the entries. Whatever is inserted next is refused if
its key is there and only then, and then nothing changes. The keys are in the order of their first
insertion, and each has the value that it was first inserted with. -/
theorem insertAll_keepsFirst (capacity : Nat) (entries : List (κ × α)) :
    let m : OrderedMap κ α := (emptyWithCapacity capacity).insertAll entries
    (∀ (k : κ) (i : Nat), m.index[k]? = some i ↔ (m.entries[i]?).map Prod.fst = some k) ∧
      m.keys.Nodup ∧
      (∀ (k : κ) (i : Nat), m.index[k]? = some i → i < m.entries.size) ∧
      (∀ (k : κ) (v : α) (taken : κ), m.insert k v = .error taken ↔ k ∈ m.keys ∧ taken = k) ∧
      (∀ (k : κ) (v : α), k ∈ m.keys → m.insertNew (k, v) = m) ∧
      m.keys = (entries.map Prod.fst).eraseDups ∧
      ∀ k : κ, m.get? k = entries.lookup k := by
  intro m
  have hr : Records m entries := (records_emptyWithCapacity capacity).insertAll entries
  have hm : m.Coherent := hr.coherent
  refine ⟨hm, hm.nodup_keys, fun k i h => hm.lt_size h, ?_, ?_, hr.keys_eq, hr.get?_eq⟩
  · intro k v taken
    exact hm.insert_eq_error_iff
  · intro k v hk
    exact hm.insertNew_of_mem hk v

/-- Of three insertions the last is refused: a zero without a sign is another key than a zero with
one, but it is there already. -/
theorem insertAll_keepsFirst_zeros :
    let entries : List (Key × Value) :=
      [(.uint 0, .str "a"), (.int 0, .null), (.uint 0, .bool true)]
    let m : OrderedMap Key Value := (emptyWithCapacity 2).insertAll entries
    m.keys = [.uint 0, .int 0] ∧ m.get? (.uint 0) = some (.str "a") ∧
      m.get? (.bool false) = none ∧ m.insert (.int 0) (.int 7) = .error (.int 0) := by
  intro entries m
  obtain ⟨-, -, -, hrefused, -, hkeys, hget⟩ := insertAll_keepsFirst 2 entries
  have hlist : m.keys = [.uint 0, .int 0] := hkeys.trans (by decide)
  refine ⟨hlist, hget (.uint 0), hget (.bool false), (hrefused (.int 0) (.int 7) (.int 0)).2 ?_⟩
  exact ⟨hlist ▸ by decide, rfl⟩

end TreeEval.OrderedMap
