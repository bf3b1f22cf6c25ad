import TreeEval.Eval.Pure
import TreeEval.Proofs.Insertions

/-!
# Map literals

A map literal either becomes the map of its entries, or it fails at the first of its entries that
has no place in the map. What is wrong with an entry can be told from its values and from the keys
of the entries before it: `Literal.failureAfter?` says so in the order in which it is found out.
`eval_map_of_balanced` says that this decides the value of the literal.
-/

namespace TreeEval

/-- The map has the entries of a literal in their order, each under the key of its key value. -/
structure OrderedMap.IsMapOf (m : OrderedMap Key Value) (entries : List (Value × Value)) :
    Prop where
  coherent : m.Coherent
  toList_eq : m.toList.map (fun e => (some e.1, e.2)) = entries.map fun e => (e.1.toKey?, e.2)

namespace OrderedMap.IsMapOf

variable {m m' : OrderedMap Key Value} {entries : List (Value × Value)} {key value : Value}
  {k : Key}

theorem emptyWithCapacity (capacity : Nat) : (OrderedMap.emptyWithCapacity capacity).IsMapOf [] :=
  ⟨coherent_emptyWithCapacity capacity, rfl⟩

theorem map_keys (hm : m.IsMapOf entries) : m.keys.map some = entries.map fun e => e.1.toKey? := by
  have hfst := congrArg (List.map Prod.fst) hm.toList_eq
  rw [List.map_map, List.map_map] at hfst
  rw [keys, List.map_map]
  exact hfst

/-- The keys that are taken are those of the entries. -/
theorem mem_keys_iff (hm : m.IsMapOf entries) :
    k ∈ m.keys ↔ ∃ e ∈ entries, e.1.toKey? = some k := by
  have hmem : some k ∈ m.keys.map some ↔ k ∈ m.keys := by simp
  rw [← hmem, hm.map_keys, List.mem_map]

theorem insert (hm : m.IsMapOf entries) (hkey : key.toKey? = some k)
    (hinsert : m.insert k value = .ok m') : m'.IsMapOf (entries ++ [(key, value)]) := by
  refine ⟨hm.coherent.insert hinsert, ?_⟩
  rw [toList_of_insert_eq_ok hinsert, List.map_append, List.map_append, hm.toList_eq]
  simp [hkey]

end OrderedMap.IsMapOf

namespace Literal

open OrderedMap

/-! ## What is wrong with an entry -/

/-- The value of a map literal that fails at an entry, after some earlier entries: a sentinel in
place of the key or else of the value, or the error of a key that cannot be one, or else the error
of a key that an earlier entry has. -/
def failureAfter? (earlier : List (Value × Value)) (key value : Value) : Option Value :=
  if key.isSentinel then some key
  else if value.isSentinel then some value
  else
    match key.toKey? with
    | none => some (.fail (.unsupportedKeyType key.type.name))
    | some k =>
      if ∃ e ∈ earlier, e.1.toKey? = some k then some (.fail (.duplicateMapKey k.text)) else none

/-- What is wrong with the entry at an index, if there is one and something is wrong with it. -/
def failureAt? (entries : List (Value × Value)) (i : Nat) : Option Value :=
  entries[i]?.bind fun e => failureAfter? (entries.take i) e.1 e.2

theorem failureAt?_append_cons (earlier : List (Value × Value)) (key value : Value)
    (rest : List (Value × Value)) :
    failureAt? (earlier ++ (key, value) :: rest) earlier.length =
      failureAfter? earlier key value := by
  unfold failureAt?
  rw [List.getElem?_append_right (Nat.le_refl _), Nat.sub_self, List.take_left]
  rfl

/-- The entries of a literal that becomes a map: no sentinels, and keys that differ. -/
structure IsProper (entries : List (Value × Value)) : Prop where
  isSentinel_eq : ∀ e ∈ entries, e.1.isSentinel = false ∧ e.2.isSentinel = false
  isPrimitive : ∀ e ∈ entries, e.1.isPrimitive = true
  isNaN_eq : ∀ e ∈ entries, ∀ d, e.1 = .double d → d.isNaN = false
  distinct : entries.Pairwise fun e e' => e.1.toKey? ≠ e'.1.toKey?

variable {built : OrderedMap Key Value} {earlier : List (Value × Value)} {key value : Value}

/-! ## One entry after the other -/

/-- An entry in which something is wrong ends the literal, and any other goes into the map. -/
theorem mapFrom_step (hbuilt : built.IsMapOf earlier) (key value : Value) :
    (∃ failure, failureAfter? earlier key value = some failure ∧
        ∀ rest, mapFrom (m := Id) ((key, value) :: rest) built = failure) ∨
      (failureAfter? earlier key value = none ∧
        ∃ built' : OrderedMap Key Value, built'.IsMapOf (earlier ++ [(key, value)]) ∧
          ∀ rest, mapFrom (m := Id) ((key, value) :: rest) built =
            mapFrom (m := Id) rest built') := by
  unfold failureAfter?
  simp only [mapFrom_cons]
  by_cases hkey : key.isSentinel = true
  · exact .inl ⟨key, by simp only [if_pos hkey], fun _ => by simp only [if_pos hkey]⟩
  by_cases hvalue : value.isSentinel = true
  · refine .inl ⟨value, ?_, fun _ => ?_⟩ <;> simp only [if_neg hkey, if_pos hvalue]
  simp only [if_neg hkey, if_neg hvalue, addEntry]
  cases hk : key.toKey? with
  | none => exact .inl ⟨_, rfl, fun _ => rfl⟩
  | some k =>
    dsimp only
    by_cases htaken : ∃ e ∈ earlier, e.1.toKey? = some k
    · have hrefused : built.insert k value = .error k :=
        hbuilt.coherent.insert_eq_error_iff.2 ⟨hbuilt.mem_keys_iff.2 htaken, rfl⟩
      rw [if_pos htaken, hrefused]
      exact .inl ⟨_, rfl, fun _ => rfl⟩
    · have hnew : k ∉ built.keys := fun hmem => htaken (hbuilt.mem_keys_iff.1 hmem)
      obtain ⟨built', hinsert⟩ := hbuilt.coherent.exists_insert_eq_ok hnew value
      rw [if_neg htaken, hinsert]
      exact .inr ⟨rfl, built', hbuilt.insert hk hinsert, fun _ => rfl⟩

/-- From there on, the literal becomes the map of all entries, or it fails at the first of the
remaining ones in which something is wrong. -/
theorem mapFrom_run (hbuilt : built.IsMapOf earlier) (rest : List (Value × Value)) :
    (∃ m : OrderedMap Key Value, mapFrom (m := Id) rest built = .map m ∧
        m.IsMapOf (earlier ++ rest) ∧
        ∀ i, earlier.length ≤ i → failureAt? (earlier ++ rest) i = none) ∨
      ∃ i, failureAt? (earlier ++ rest) i = some (mapFrom (m := Id) rest built) ∧
        ∀ j, earlier.length ≤ j → j < i → failureAt? (earlier ++ rest) j = none := by
  induction rest generalizing built earlier with
  | nil =>
    rw [List.append_nil]
    refine .inl ⟨built, rfl, hbuilt, fun i hi => ?_⟩
    unfold failureAt?
    rw [List.getElem?_eq_none hi]
    rfl
  | cons e rest ih =>
    obtain ⟨key, value⟩ := e
    have hhere := failureAt?_append_cons earlier key value rest
    rcases mapFrom_step hbuilt key value with ⟨failure, hfailure, hend⟩ |
      ⟨hplace, built', hbuilt', hon⟩
    · refine .inr ⟨earlier.length, ?_, fun j hj hlt => absurd hlt (Nat.not_lt.2 hj)⟩
      rw [hhere, hend, hfailure]
    -- the entry at hand is one of the earlier entries for the rest
    have hsplit : earlier ++ [(key, value)] ++ rest = earlier ++ (key, value) :: rest := by simp
    have hbetween : ∀ j, earlier.length ≤ j →
        failureAt? (earlier ++ (key, value) :: rest) j = none ∨
          (earlier ++ [(key, value)]).length ≤ j := by
      intro j hj
      by_cases heq : j = earlier.length
      · exact .inl (heq ▸ hhere.trans hplace)
      · right
        rw [List.length_append, List.length_singleton]
        omega
    have hrest := ih hbuilt'
    rw [hsplit] at hrest
    rw [hon]
    rcases hrest with ⟨m, hm, hmap, hall⟩ | ⟨i, hi, hbefore⟩
    · exact .inl ⟨m, hm, hmap, fun j hj => (hbetween j hj).elim id (hall j)⟩
    · exact .inr ⟨i, hi, fun j hj hlt => (hbetween j hj).elim id fun h => hbefore j h hlt⟩

/-! ## Proper literals -/

theorem IsProper.exists_key {entries : List (Value × Value)} (h : IsProper entries)
    {e : Value × Value} (he : e ∈ entries) : ∃ k, e.1.toKey? = some k := by
  rw [← Option.ne_none_iff_exists', Ne, Value.toKey?_eq_none_iff]
  rintro (hprimitive | ⟨d, hd, hnan⟩)
  · rw [h.isPrimitive e he] at hprimitive
    exact nomatch hprimitive
  · rw [h.isNaN_eq e he d hd] at hnan
    exact nomatch hnan

/-- Nothing is wrong with an entry if neither of its values is a sentinel and its key is new. -/
theorem failureAfter?_eq_none_iff :
    failureAfter? earlier key value = none ↔
      key.isSentinel = false ∧ value.isSentinel = false ∧
        ∃ k, key.toKey? = some k ∧ ∀ e ∈ earlier, e.1.toKey? ≠ some k := by
  unfold failureAfter?
  by_cases hkey : key.isSentinel = true
  · simp [hkey]
  by_cases hvalue : value.isSentinel = true
  · simp [hkey, hvalue]
  cases hk : key.toKey? with
  | none => simp [hkey, hvalue]
  | some k => simp [hkey, hvalue]

/-- In a proper literal, and only there, nothing is wrong with any entry. -/
theorem isProper_iff {entries : List (Value × Value)} :
    IsProper entries ↔ ∀ i, failureAt? entries i = none := by
  unfold failureAt?
  constructor
  · intro h i
    by_cases hi : i < entries.length
    · have hmem : entries[i] ∈ entries := List.getElem_mem hi
      obtain ⟨hkey, hvalue⟩ := h.isSentinel_eq _ hmem
      obtain ⟨k, hk⟩ := h.exists_key hmem
      rw [List.getElem?_eq_getElem hi]
      refine failureAfter?_eq_none_iff.2 ⟨hkey, hvalue, k, hk, fun e he => ?_⟩
      obtain ⟨j, hj, rfl⟩ := List.mem_take_iff_getElem.1 he
      have hdistinct := List.pairwise_iff_getElem.1 h.distinct j i (by omega) hi (by omega)
      rw [← hk]
      exact hdistinct
    · rw [List.getElem?_eq_none (Nat.le_of_not_lt hi)]
      rfl
  · intro h
    have hplace : ∀ i (hi : i < entries.length),
        failureAfter? (entries.take i) entries[i].1 entries[i].2 = none := by
      intro i hi
      have hnone := h i
      rw [List.getElem?_eq_getElem hi] at hnone
      exact hnone
    have hentry : ∀ e ∈ entries, e.1.isSentinel = false ∧ e.2.isSentinel = false ∧
        e.1.toKey? ≠ none := by
      intro e he
      obtain ⟨i, hi, rfl⟩ := List.getElem_of_mem he
      obtain ⟨hkey, hvalue, k, hk, -⟩ := failureAfter?_eq_none_iff.1 (hplace i hi)
      exact ⟨hkey, hvalue, by simp [hk]⟩
    refine ⟨fun e he => ?_, fun e he => ?_, fun e he d hd => ?_, ?_⟩
    · exact ⟨(hentry e he).1, (hentry e he).2.1⟩
    · by_contra hprimitive
      exact (hentry e he).2.2 (Value.toKey?_eq_none_iff.2 (.inl (by simpa using hprimitive)))
    · by_contra hnan
      exact (hentry e he).2.2
        (Value.toKey?_eq_none_iff.2 (.inr ⟨d, hd, by simpa using hnan⟩))
    · rw [List.pairwise_iff_getElem]
      intro i j hi hj hij
      obtain ⟨-, -, k, hk, hnew⟩ := failureAfter?_eq_none_iff.1 (hplace j hj)
      rw [hk]
      exact hnew _ (List.mem_take_iff_getElem.2 ⟨i, by omega, rfl⟩)

end Literal

namespace Node

open Literal

/-- A map literal with as many keys as values becomes the map of its entries if they are proper, and
otherwise fails as its first entry does in which something is wrong. -/
theorem eval_map_of_balanced (id : NodeId) {keys vals : List Node} (h : keys.length = vals.length)
    (act : Activation) :
    let entries := (keys.zip vals).map fun e => (e.1.eval act, e.2.eval act)
    (IsProper entries →
      ∃ m : OrderedMap Key Value, (map id keys vals).eval act = .map m ∧ m.IsMapOf entries) ∧
    (¬IsProper entries →
      ∃ i failure, failureAt? entries i = some failure ∧ (∀ j < i, failureAt? entries j = none) ∧
        (map id keys vals).eval act = failure) := by
  intro entries
  have hempty := OrderedMap.IsMapOf.emptyWithCapacity keys.length
  have hvalue : (map id keys vals).eval act =
      mapFrom (m := Id) entries (.emptyWithCapacity keys.length) := by
    rw [eval_map]
    unfold Literal.map
    rw [if_pos (by simpa using h), List.length_map, List.zip_map]
    rfl
  rw [isProper_iff, hvalue]
  rcases mapFrom_run hempty entries with ⟨m, hm, hmap, hall⟩ | ⟨i, hi, hbefore⟩
  · have hproper : ∀ i, failureAt? entries i = none := fun i => hall i (Nat.zero_le i)
    exact ⟨fun _ => ⟨m, hm, hmap⟩, fun hnot => absurd hproper hnot⟩
  · have himproper : ¬∀ i, failureAt? entries i = none := fun hall => by
      rw [List.nil_append, hall i] at hi
      exact nomatch hi
    exact ⟨fun hproper => absurd hproper himproper,
      fun _ => ⟨i, _, hi, fun j hj => hbefore j (Nat.zero_le j) hj, rfl⟩⟩

/-- The zero with a sign is the key of the zero without one. That it is there twice is found out
before the name in the last entry is missed. With a whole number in its place the literal becomes a
map. -/
theorem eval_map_of_balanced_signedZero :
    let act : Activation := .bound ⟨[("x", .str "a")]⟩
    let literal (key : Value) (last : Node) : List Node × List Node :=
      ([const ⟨2⟩ (.double .zero), const ⟨3⟩ (.int 0), const ⟨4⟩ key, last],
        [ident ⟨5⟩ "x", const ⟨6⟩ .null, ident ⟨7⟩ "x", const ⟨8⟩ (.bool true)])
    let twice := literal (.double ⟨0x8000000000000000⟩) (ident ⟨9⟩ "y")
    let once := literal (.uint 0) (const ⟨9⟩ (.str "y"))
    (twice.1.length = twice.2.length ∧
      (map ⟨1⟩ twice.1 twice.2).eval act = .fail (.duplicateMapKey "0.0")) ∧
    once.1.length = once.2.length ∧
      ∃ m : OrderedMap Key Value, (map ⟨1⟩ once.1 once.2).eval act = .map m ∧
        m.keys = [.double ⟨.zero, Double.isCanonical_zero⟩, .int 0, .uint 0, .str "y"] := by
  intro act literal twice once
  have htwice : twice.1.length = twice.2.length := rfl
  have honce : once.1.length = once.2.length := rfl
  obtain ⟨-, hfails⟩ := eval_map_of_balanced ⟨1⟩ htwice act
  obtain ⟨hbecomes, -⟩ := eval_map_of_balanced ⟨1⟩ honce act
  refine ⟨⟨htwice, ?_⟩, honce, ?_⟩
  · let entries := (twice.1.zip twice.2).map fun e => (e.1.eval act, e.2.eval act)
    have hfirst : failureAt? entries 0 = none := rfl
    have hsecond : failureAt? entries 1 = none := rfl
    have hthird : failureAt? entries 2 = some (.fail (.duplicateMapKey "0.0")) := rfl
    have hnot : ¬IsProper entries := fun hproper => by
      rw [isProper_iff.1 hproper 2] at hthird
      exact nomatch hthird
    obtain ⟨i, failure, hi, hbefore, hvalue⟩ := hfails hnot
    match i with
    | 0 => exact nomatch hfirst.symm.trans hi
    | 1 => exact nomatch hsecond.symm.trans hi
    | 2 => exact hvalue.trans (Option.some_inj.1 (hi.symm.trans hthird))
    | i + 3 => exact nomatch (hbefore 2 (by omega)).symm.trans hthird
  · let entries := (once.1.zip once.2).map fun e => (e.1.eval act, e.2.eval act)
    have hproper : IsProper entries := isProper_iff.2 fun i => by
      match i with
      | 0 | 1 | 2 | 3 | i + 4 => rfl
    obtain ⟨m, hvalue, hmap⟩ := hbecomes hproper
    have hkeys : m.keys.map some = entries.map fun e => e.1.toKey? := hmap.map_keys
    refine ⟨m, hvalue, List.map_injective_iff.2 (fun _ _ => Option.some.inj) ?_⟩
    rw [hkeys]
    rfl

end Node

end TreeEval
