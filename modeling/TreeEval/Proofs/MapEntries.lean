import Mathlib.Data.List.Nodup
import Mathlib.Data.List.Perm.Subperm
import TreeEval.Proofs.Rows
import TreeEval.Value.Induction

/-!
# Maps as their entries

In a map whose index is coherent a key has at most one entry, and looking the key up finds that
entry. So what is found in a map depends on which entries there are, and not on their order.

A value is coherent if all maps in it are. Two values are rearrangements of each other if they are
the same but for the order in which the entries of the maps in them were inserted.
-/

namespace TreeEval

namespace OrderedMap

variable {κ α : Type} [BEq κ] [Hashable κ] {m m' : OrderedMap κ α} {k : κ} {v : α}

@[simp] theorem length_toList : m.toList.length = m.size := rfl

theorem length_keys : m.keys.length = m.size := List.length_map _

/-! ## Coherent maps -/

namespace Coherent

/-- What is found under a key is the value of the entry with the key. -/
theorem get?_eq_some_iff (hm : m.Coherent) : m.get? k = some v ↔ (k, v) ∈ m.toList := by
  rw [toList, Array.mem_toList_iff, Array.mem_iff_getElem?, get?]
  constructor
  · intro h
    split at h
    · cases h
    · next i hi =>
      have hkey := (hm k i).1 hi
      obtain ⟨entry, hentry, rfl⟩ := Option.map_eq_some_iff.1 h
      rw [hentry, Option.map_some, Option.some_inj] at hkey
      exact ⟨i, by rw [hentry, ← hkey]⟩
  · rintro ⟨i, hi⟩
    have hindex : m.index[k]? = some i := (hm k i).2 (by rw [hi]; rfl)
    rw [hindex]
    show (m.entries[i]?).map Prod.snd = some v
    rw [hi]
    rfl

theorem get?_eq_none_iff (hm : m.Coherent) : m.get? k = none ↔ k ∉ m.keys := by
  rw [keys, List.mem_map, Option.eq_none_iff_forall_ne_some]
  constructor
  · rintro h ⟨⟨k', v⟩, hmem, rfl⟩
    exact h v (hm.get?_eq_some_iff.2 hmem)
  · intro h v hv
    exact h ⟨(k, v), hm.get?_eq_some_iff.1 hv, rfl⟩

/-- No key has two entries. -/
theorem nodup_keys (hm : m.Coherent) : m.keys.Nodup := by
  rw [List.nodup_iff_getElem?_ne_getElem?]
  intro i j hij hj hsame
  -- the index knows one position of a key, so two positions with one key are the same
  have hkey : ∀ n : Nat, m.keys[n]? = (m.entries[n]?).map Prod.fst := fun n => by
    rw [keys, toList, List.getElem?_map, Array.getElem?_toList]
  obtain ⟨k, hk⟩ : ∃ k, m.keys[j]? = some k := ⟨m.keys[j], List.getElem?_eq_getElem hj⟩
  have hi := (hm k i).2 ((hkey i).symm.trans (hsame.trans hk))
  have hj' := (hm k j).2 ((hkey j).symm.trans hk)
  rw [hi, Option.some_inj] at hj'
  omega

/-- If a key of one of two maps of one size is missing in the other, then a key of the other is
missing in the one. -/
theorem exists_mem_keys (hm' : m'.Coherent) (hsize : m.size = m'.size) (hk : k ∈ m.keys)
    (hk' : k ∉ m'.keys) : ∃ k' ∈ m'.keys, k' ∉ m.keys := by
  by_contra hno
  have hsub : m'.keys ⊆ m.keys := fun k' hk' => by_contra fun h => hno ⟨k', hk', h⟩
  have hlength : m.keys.length = m'.keys.length := by rw [length_keys, length_keys, hsize]
  have hperm : m'.keys.Perm m.keys :=
    (hm'.nodup_keys.subperm hsub).perm_of_length_le (Nat.le_of_eq hlength)
  exact hk' (hperm.mem_iff.2 hk)

/-- The index knows the keys of the entries and no others. -/
theorem contains_index_iff [LawfulBEq κ] (hm : m.Coherent) :
    m.index.contains k = true ↔ k ∈ m.keys := by
  have hget : m.index.contains k = (m.index[k]?).isSome := Std.HashMap.contains_eq_isSome_getElem?
  rw [hget, Option.isSome_iff_exists, keys, List.mem_map]
  constructor
  · intro h
    obtain ⟨i, hi⟩ := h
    obtain ⟨entry, hentry, hkey⟩ := Option.map_eq_some_iff.1 ((hm k i).1 hi)
    exact ⟨entry, Array.mem_toList_iff.2 (Array.mem_of_getElem? hentry), hkey⟩
  · intro h
    obtain ⟨entry, hentry, hkey⟩ := h
    obtain ⟨i, hi⟩ := Array.mem_iff_getElem?.1 (Array.mem_toList_iff.1 hentry)
    exact ⟨i, (hm k i).2 (by rw [hi, Option.map_some, hkey])⟩

/-- A key that is not there can be inserted. -/
theorem exists_insert_eq_ok [LawfulBEq κ] (hm : m.Coherent) (hk : k ∉ m.keys) (v : α) :
    ∃ m', m.insert k v = .ok m' := by
  have hindex : ¬ m.index.contains k = true := fun h => hk (hm.contains_index_iff.1 h)
  exact ⟨_, by rw [OrderedMap.insert, if_neg hindex]⟩

end Coherent

/-! ## Maps of a list of entries -/

/-- The map with one more entry at its end, unless its key is there already. -/
def insertNew (m : OrderedMap κ α) (entry : κ × α) : OrderedMap κ α :=
  (m.insert entry.1 entry.2).toOption.getD m

/-- The map after the insertion of one entry after the other, of which those are refused whose key
is there already. -/
def insertAll (m : OrderedMap κ α) (entries : List (κ × α)) : OrderedMap κ α :=
  entries.foldl insertNew m

@[simp] theorem insertAll_nil (m : OrderedMap κ α) : m.insertAll [] = m := rfl

@[simp] theorem insertAll_cons (m : OrderedMap κ α) (entry : κ × α) (entries : List (κ × α)) :
    m.insertAll (entry :: entries) = (m.insertNew entry).insertAll entries := rfl

theorem ofList_eq_insertAll (entries : List (κ × α)) : ofList entries = empty.insertAll entries :=
  rfl

theorem mem_toList_insertNew {entry e : κ × α} (h : e ∈ (m.insertNew entry).toList) :
    e ∈ m.toList ∨ e = entry := by
  rw [insertNew] at h
  cases hinsert : m.insert entry.1 entry.2 with
  | error k => exact .inl (by rwa [hinsert] at h)
  | ok m' =>
    rw [hinsert] at h
    have he : e ∈ m.toList ++ [entry] := toList_of_insert_eq_ok hinsert ▸ h
    simpa using he

theorem mem_toList_insertAll {entries : List (κ × α)} {e : κ × α}
    (h : e ∈ (m.insertAll entries).toList) : e ∈ m.toList ∨ e ∈ entries := by
  induction entries generalizing m with
  | nil => exact .inl h
  | cons entry rest ih =>
    rcases ih h with he | he
    · rcases mem_toList_insertNew he with he | rfl
      · exact .inl he
      · exact .inr List.mem_cons_self
    · exact .inr (List.mem_cons_of_mem _ he)

/-- A map of a list of entries has no others. -/
theorem mem_of_mem_toList_ofList {entries : List (κ × α)} {e : κ × α}
    (h : e ∈ (ofList entries).toList) : e ∈ entries := by
  rw [ofList_eq_insertAll] at h
  exact (mem_toList_insertAll h).resolve_left List.not_mem_nil

section OfList

variable [LawfulBEq κ]

theorem Coherent.insertNew (hm : m.Coherent) (entry : κ × α) : (m.insertNew entry).Coherent := by
  rw [OrderedMap.insertNew]
  cases h : m.insert entry.1 entry.2 with
  | error e => exact hm
  | ok m' => exact hm.insert h

theorem Coherent.insertAll (hm : m.Coherent) (entries : List (κ × α)) :
    (m.insertAll entries).Coherent := by
  induction entries generalizing m with
  | nil => exact hm
  | cons entry rest ih => exact ih (hm.insertNew entry)

theorem Coherent.toList_insertNew (hm : m.Coherent) {entry : κ × α} (hk : entry.1 ∉ m.keys) :
    (m.insertNew entry).toList = m.toList ++ [entry] := by
  obtain ⟨m', h⟩ := hm.exists_insert_eq_ok hk entry.2
  rw [OrderedMap.insertNew, h]
  exact toList_of_insert_eq_ok h

theorem Coherent.keys_insertNew (hm : m.Coherent) {entry : κ × α} (hk : entry.1 ∉ m.keys) :
    (m.insertNew entry).keys = m.keys ++ [entry.1] := by
  rw [keys, hm.toList_insertNew hk, List.map_append]
  rfl

theorem coherent_ofList (entries : List (κ × α)) : (ofList entries).Coherent := by
  rw [ofList_eq_insertAll]
  exact (coherent_emptyWithCapacity 0).insertAll entries

/-- Entries whose keys are new and differ go behind all others, in their order. -/
theorem Coherent.toList_insertAll (hm : m.Coherent) {entries : List (κ × α)}
    (h : (m.keys ++ entries.map Prod.fst).Nodup) :
    (m.insertAll entries).toList = m.toList ++ entries := by
  induction entries generalizing m with
  | nil => exact (List.append_nil _).symm
  | cons entry rest ih =>
    have hnew : entry.1 ∉ m.keys := by
      rw [List.map_cons, List.nodup_append_comm, List.cons_append, List.nodup_cons] at h
      exact fun hk => h.1 (List.mem_append_right _ hk)
    have hrest : ((m.insertNew entry).keys ++ rest.map Prod.fst).Nodup := by
      rw [hm.keys_insertNew hnew, List.append_assoc]
      exact h
    rw [insertAll_cons, ih (hm.insertNew entry) hrest, hm.toList_insertNew hnew, List.append_assoc]
    rfl

/-- If no key occurs twice, the map has exactly the given entries. -/
theorem toList_ofList {entries : List (κ × α)} (h : (entries.map Prod.fst).Nodup) :
    (ofList entries).toList = entries := by
  rw [ofList_eq_insertAll]
  exact (coherent_emptyWithCapacity 0).toList_insertAll h

theorem size_ofList {entries : List (κ × α)} (h : (entries.map Prod.fst).Nodup) :
    (ofList entries).size = entries.length := by
  rw [← length_toList, toList_ofList h]

theorem get?_ofList_of_mem {entries : List (κ × α)} (h : (entries.map Prod.fst).Nodup)
    (hmem : (k, v) ∈ entries) : (ofList entries).get? k = some v := by
  rw [(coherent_ofList entries).get?_eq_some_iff, toList_ofList h]
  exact hmem

end OfList

end OrderedMap

namespace Value

/-! ## Coherent values -/

mutual

/-- All maps in the value are coherent, at any depth. -/
def Coherent : Value → Prop
  | list elems => AreCoherent elems
  | map ⟨⟨entries⟩, index⟩ =>
    OrderedMap.Coherent ⟨⟨entries⟩, index⟩ ∧ EntriesAreCoherent entries
  | _ => True

/-- All elements of a list are coherent. -/
def AreCoherent : List Value → Prop
  | [] => True
  | x :: xs => Coherent x ∧ AreCoherent xs

/-- All values of a map are coherent. -/
def EntriesAreCoherent : List (Key × Value) → Prop
  | [] => True
  | (_, x) :: rest => Coherent x ∧ EntriesAreCoherent rest

end

theorem coherent_list_iff {elems : List Value} :
    (list elems).Coherent ↔ ∀ v ∈ elems, v.Coherent := by
  rw [Coherent]
  induction elems with
  | nil => simp [AreCoherent]
  | cons x xs ih => simp [AreCoherent, ih]

theorem coherent_map_iff {m : OrderedMap Key Value} :
    (map m).Coherent ↔ m.Coherent ∧ ∀ e ∈ m.toList, e.2.Coherent := by
  obtain ⟨⟨entries⟩, index⟩ := m
  rw [Coherent]
  refine and_congr Iff.rfl ?_
  show EntriesAreCoherent entries ↔ ∀ e ∈ entries, e.2.Coherent
  induction entries with
  | nil => simp [EntriesAreCoherent]
  | cons e rest ih => simp only [EntriesAreCoherent, ih, List.forall_mem_cons]

theorem coherent_map_ofList {entries : List (Key × Value)} (h : ∀ e ∈ entries, e.2.Coherent) :
    (map (.ofList entries)).Coherent :=
  coherent_map_iff.2 ⟨OrderedMap.coherent_ofList entries,
    fun e he => h e (OrderedMap.mem_of_mem_toList_ofList he)⟩

/-! ## Rearrangements -/

/-- The second value is the first with the entries of the maps in it inserted in another order. -/
inductive Rearranged : Value → Value → Prop
  | refl (v : Value) : Rearranged v v
  | list {xs xs' : List Value} (h : List.Forall₂ Rearranged xs xs') :
      Rearranged (list xs) (list xs')
  | map {m m' : OrderedMap Key Value} {entries : List (Key × Value)} (hm' : m'.Coherent)
      (hperm : m.toList.Perm entries) (hkeys : entries.map Prod.fst = m'.keys)
      (hvals : List.Forall₂ Rearranged (entries.map Prod.snd) (m'.toList.map Prod.snd)) :
      Rearranged (map m) (map m')

theorem forall₂_entries {R : Value → Value → Prop} {es es' : List (Key × Value)}
    (hkeys : es.map Prod.fst = es'.map Prod.fst)
    (hvals : List.Forall₂ R (es.map Prod.snd) (es'.map Prod.snd)) :
    List.Forall₂ (fun e e' => e.1 = e'.1 ∧ R e.2 e'.2) es es' := by
  rw [← List.forall₂_eq_eq_eq, List.forall₂_map_left_iff, List.forall₂_map_right_iff] at hkeys
  rw [List.forall₂_map_left_iff, List.forall₂_map_right_iff] at hvals
  exact hkeys.mp (fun _ _ => And.intro) hvals

/-- Inserting entries in another order rearranges a map. -/
theorem rearranged_ofList {es es' : List (Key × Value)} (h : es.Perm es')
    (hnodup : (es.map Prod.fst).Nodup) : Rearranged (map (.ofList es)) (map (.ofList es')) := by
  have htoList := OrderedMap.toList_ofList hnodup
  have htoList' := OrderedMap.toList_ofList ((h.map Prod.fst).nodup_iff.1 hnodup)
  refine .map (OrderedMap.coherent_ofList es') (htoList ▸ h) (by rw [OrderedMap.keys, htoList']) ?_
  rw [htoList']
  exact List.forall₂_same.2 fun v _ => .refl v

namespace Rearranged

variable {a a' : Value}

/-- Induction on rearrangements, in which entries stand opposite each other with their keys. -/
theorem parts_induction {motive : Value → Value → Prop} (refl : ∀ v, motive v v)
    (list : ∀ {xs xs'}, List.Forall₂ motive xs xs' → motive (.list xs) (.list xs'))
    (map : ∀ {m m' : OrderedMap Key Value} {entries}, m'.Coherent → m.toList.Perm entries →
      List.Forall₂ (fun e e' => e.1 = e'.1 ∧ motive e.2 e'.2) entries m'.toList →
      motive (.map m) (.map m'))
    (h : Rearranged a a') : motive a a' := by
  induction a generalizing a' with
  | list xs ih =>
    cases h with
    | refl => exact refl _
    | list h => exact list (forall₂_imp_of_mem h fun x hx x' hr => ih x hx hr)
  | map m ih =>
    cases h with
    | refl => exact refl _
    | @map _ m' entries hm' hperm hkeys hvals =>
      refine map hm' hperm (forall₂_imp_of_mem (forall₂_entries hkeys hvals) fun e he e' hr => ?_)
      exact ⟨hr.1, ih e (hperm.mem_iff.2 he) hr.2⟩
  | _ => cases h; exact refl _

/-- What says of a list or a map that it holds of all parts is kept. -/
theorem preserves {P : Value → Prop} (hlist : ∀ {xs}, P (.list xs) ↔ ∀ v ∈ xs, P v)
    (hvals : ∀ {m}, P (.map m) → ∀ e ∈ m.toList, P e.2)
    (hmap : ∀ {m}, m.Coherent → (∀ e ∈ m.toList, P e.2) → P (.map m))
    (h : Rearranged a a') : P a → P a' := by
  refine parts_induction (motive := fun a a' => P a → P a') (fun v hv => hv) ?_ ?_ h
  · intro xs xs' h hxs
    rw [hlist] at hxs ⊢
    exact forall_mem_of_forall₂ (forall₂_imp_of_mem h fun x hx x' hr => hr (hxs x hx))
  · intro m m' entries hm' hperm hentries hm
    have hparts : List.Forall₂ (fun _ e' => P e'.2) entries m'.toList :=
      forall₂_imp_of_mem hentries fun e he e' hr => hr.2 (hvals hm e (hperm.mem_iff.2 he))
    exact hmap hm' (forall_mem_of_forall₂ hparts)

theorem size_eq {m m' : OrderedMap Key Value} (h : Rearranged (.map m) (.map m')) :
    m.size = m'.size := by
  cases h with
  | refl => rfl
  | map hm' hperm hkeys hvals =>
    exact hperm.length_eq.trans (forall₂_entries hkeys hvals).length_eq

theorem coherent (h : Rearranged a a') : a.Coherent → a'.Coherent :=
  h.preserves coherent_list_iff (fun hm => (coherent_map_iff.1 hm).2)
    (fun hm hparts => coherent_map_iff.2 ⟨hm, hparts⟩)

end Rearranged

end Value

end TreeEval
