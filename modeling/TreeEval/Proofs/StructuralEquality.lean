import TreeEval.Proofs.EqualityOrder

/-!
# Equality of structures

The two equalities of values take the same steps. Values without parts are compared as data, and
doubles as numbers; lists are compared place by place, and maps key by key. `Value.Agree R` is one
such step, with `R` in the place of the comparison of the parts, and both equalities say yes exactly
if the step does: `same_iff` and `equal_eq_true_iff`.

So everything is proved about one step first, and then by induction over the parts of a value. The
equality of structures is symmetric and transitive, and all that keeps it from being reflexive is a
NaN: `same_isPartialEquivalence`. The equality of the language says yes to the same pairs, unless
there is a sentinel in them: `equal_eq_true_iff_same`.

That the step is symmetric is a matter of counting. It asks for a counterpart for every entry of the
left map, and only because both maps have one size does every entry of the right map have one.
-/

namespace TreeEval

/-! ## Maps that agree -/

namespace OrderedMap

variable {κ α : Type} [BEq κ] [Hashable κ] {R S T : α → α → Prop} {m m' m'' : OrderedMap κ α}

/-- Two maps are of one size, and under every key of the first the second has a value that is
related to the one there. -/
structure Agree (R : α → α → Prop) (m m' : OrderedMap κ α) : Prop where
  size_eq : m.size = m'.size
  exists_get? : ∀ e ∈ m.toList, ∃ v, m'.get? e.1 = some v ∧ R e.2 v

namespace Agree

theorem imp_of_mem (h : Agree R m m') (hRS : ∀ e ∈ m.toList, ∀ v, R e.2 v → S e.2 v) :
    Agree S m m' where
  size_eq := h.size_eq
  exists_get? e he := by
    obtain ⟨v, hget, hv⟩ := h.exists_get? e he
    exact ⟨v, hget, hRS e he v hv⟩

/-- No key of the second map is missing in the first: otherwise a key of the first would be missing
in the second, because both have as many. -/
theorem exists_entry (h : Agree R m m') (hm : m.Coherent) (hm' : m'.Coherent) {e' : κ × α}
    (he' : e' ∈ m'.toList) : ∃ v, m.get? e'.1 = some v ∧ R v e'.2 := by
  have hkey : e'.1 ∈ m.keys := by
    by_contra hmissing
    obtain ⟨k, hk, hk'⟩ :=
      hm.exists_mem_keys h.size_eq.symm (List.mem_map_of_mem he') hmissing
    obtain ⟨e, he, rfl⟩ := List.mem_map.1 hk
    obtain ⟨v, hget, -⟩ := h.exists_get? e he
    have hnone : m'.get? e.1 = none := hm'.get?_eq_none_iff.2 hk'
    exact Option.some_ne_none v (hget.symm.trans hnone)
  obtain ⟨e, he, hsame⟩ := List.mem_map.1 hkey
  obtain ⟨v, hget, hv⟩ := h.exists_get? e he
  have hget' : m'.get? e.1 = some e'.2 := by
    rw [hsame]
    exact hm'.get?_eq_some_iff.2 he'
  have hv' : v = e'.2 := Option.some_inj.1 (hget.symm.trans hget')
  refine ⟨e.2, ?_, hv' ▸ hv⟩
  rw [← hsame]
  exact hm.get?_eq_some_iff.2 he

theorem symm (h : Agree R m m') (hm : m.Coherent) (hm' : m'.Coherent) :
    Agree (fun v' v => R v v') m' m where
  size_eq := h.size_eq.symm
  exists_get? _ he' := h.exists_entry hm hm' he'

theorem trans (h : Agree R m m') (h' : Agree S m' m'') (hm' : m'.Coherent)
    (hRST : ∀ u v w, R u v → S v w → T u w) : Agree T m m'' where
  size_eq := h.size_eq.trans h'.size_eq
  exists_get? e he := by
    obtain ⟨v, hget, hv⟩ := h.exists_get? e he
    obtain ⟨w, hget', hw⟩ := h'.exists_get? (e.1, v) (hm'.get?_eq_some_iff.1 hget)
    exact ⟨w, hget', hRST e.2 v w hv hw⟩

end Agree

/-- A map agrees with itself if every value in it does. -/
theorem agree_self_iff (hm : m.Coherent) : Agree R m m ↔ ∀ e ∈ m.toList, R e.2 e.2 := by
  constructor
  · intro h e he
    obtain ⟨v, hget, hv⟩ := h.exists_get? e he
    have hself : m.get? e.1 = some e.2 := hm.get?_eq_some_iff.2 he
    have hv' : v = e.2 := Option.some_inj.1 (hget.symm.trans hself)
    rwa [hv'] at hv
  · intro h
    exact ⟨rfl, fun e he => ⟨e.2, hm.get?_eq_some_iff.2 he, h e he⟩⟩

theorem agree_ofList [LawfulBEq κ] {es es' : List (κ × α)} (h : (es.map Prod.fst).Nodup)
    (h' : (es'.map Prod.fst).Nodup) (hlength : es.length = es'.length)
    (hR : ∀ e ∈ es, ∃ v, (e.1, v) ∈ es' ∧ R e.2 v) : Agree R (ofList es) (ofList es') where
  size_eq := by rw [size_ofList h, size_ofList h', hlength]
  exists_get? e he := by
    obtain ⟨v, hmem, hv⟩ := hR e (mem_of_mem_toList_ofList he)
    exact ⟨v, get?_ofList_of_mem h' hmem, hv⟩

end OrderedMap

namespace Value

/-! ## Parts of a value -/

/-- The elements of a list, and the values of a map. -/
def parts : Value → List Value
  | list elems => elems
  | map m => m.toList.map Prod.snd
  | _ => []

theorem mem_parts_map {m : OrderedMap Key Value} {x : Value} :
    x ∈ (map m).parts ↔ ∃ e ∈ m.toList, e.2 = x := List.mem_map

theorem mem_parts_ofList {entries : List (Key × Value)} (h : (entries.map Prod.fst).Nodup)
    {e : Key × Value} (he : e ∈ entries) : e.2 ∈ (map (.ofList entries)).parts := by
  rw [mem_parts_map, OrderedMap.toList_ofList h]
  exact ⟨e, he, rfl⟩

/-- Induction on values with one case: a property that passes from the parts of every value to the
value holds of all values. -/
theorem parts_induction {motive : Value → Prop}
    (step : ∀ v, (∀ x ∈ v.parts, motive x) → motive v) (v : Value) : motive v := by
  induction v with
  | list elems ih => exact step _ ih
  | map m ih => exact step _ (List.forall_mem_map.2 ih)
  | _ => exact step _ nofun

theorem Coherent.of_mem_parts {a x : Value} (ha : a.Coherent) (hx : x ∈ a.parts) :
    x.Coherent := by
  cases a with
  | list elems => exact coherent_list_iff.1 ha x hx
  | map m =>
    obtain ⟨e, he, rfl⟩ := mem_parts_map.1 hx
    exact (coherent_map_iff.1 ha).2 e he
  | _ => cases hx

/-- A value is plain if it is no sentinel and all its parts are plain. -/
theorem isPlain_iff_parts {a : Value} :
    a.isPlain = true ↔ a.isSentinel = false ∧ ∀ x ∈ a.parts, x.isPlain = true := by
  cases a with
  | list elems => simp [isPlain_list_iff, isSentinel, parts]
  | map m => simp only [isPlain_map_iff, isSentinel, parts, List.forall_mem_map, true_and]
  | _ => simp [isPlain, isSentinel, parts]

/-- The first value is the second one or stands in it, at any depth. -/
inductive Inside (v : Value) : Value → Prop
  | self : Inside v v
  | part {x a : Value} (hx : x ∈ a.parts) (h : Inside v x) : Inside v a

theorem inside_iff {v a : Value} : Inside v a ↔ v = a ∨ ∃ x ∈ a.parts, Inside v x := by
  constructor
  · intro h
    cases h with
    | self => exact .inl rfl
    | part hx h => exact .inr ⟨_, hx, h⟩
  · rintro (rfl | ⟨x, hx, h⟩)
    · exact .self
    · exact .part hx h

/-! ## One step of a comparison -/

/-- Values without parts of which each is equal to itself and to nothing else. -/
def isAtom : Value → Bool
  | double _ | list _ | map _ => false
  | _ => true

theorem parts_of_isAtom {v : Value} (h : v.isAtom = true) : v.parts = [] := by
  cases v with
  | list elems => cases h
  | map m => cases h
  | _ => rfl

/-- Two values agree at the top, and their parts are related: those of lists place by place, those
of maps key by key. -/
inductive Agree (R : Value → Value → Prop) : Value → Value → Prop
  | atom {v : Value} (h : v.isAtom = true) : Agree R v v
  | double {x y : Double} (h : x.equal y = true) : Agree R (double x) (double y)
  | list {xs ys : List Value} (h : List.Forall₂ R xs ys) : Agree R (list xs) (list ys)
  | map {m m' : OrderedMap Key Value} (h : OrderedMap.Agree R m m') : Agree R (map m) (map m')

end Value

theorem Double.equal_trans {x y z : Double} (h : x.equal y = true) (h' : y.equal z = true) :
    x.equal z = true := by
  simp only [Double.equal, Bool.and_eq_true, beq_iff_eq] at h h' ⊢
  exact ⟨⟨h.1.1, h'.1.2⟩, h.2.trans h'.2⟩

theorem Double.equal_self_iff {x : Double} : x.equal x = true ↔ x.isNaN = false := by
  simp [Double.equal]

namespace Value

namespace Agree

variable {R S : Value → Value → Prop} {a b c : Value}

/-- What is known of the parts of the left value may be used to weaken the relation. -/
theorem imp_of_mem (h : Agree R a b) (hRS : ∀ x ∈ a.parts, ∀ y, R x y → S x y) : Agree S a b := by
  cases h with
  | atom h => exact .atom h
  | double h => exact .double h
  | list h => exact .list (forall₂_imp_of_mem h hRS)
  | map h =>
    refine .map (h.imp_of_mem fun e he => ?_)
    exact hRS e.2 (List.mem_map_of_mem he)

theorem symm (h : Agree R a b) (ha : a.Coherent) (hb : b.Coherent) :
    Agree (fun y x => R x y) b a := by
  cases h with
  | atom h => exact .atom h
  | double h => exact .double (Double.equal_comm _ _ ▸ h)
  | list h => exact .list h.flip
  | map h => exact .map (h.symm (coherent_map_iff.1 ha).1 (coherent_map_iff.1 hb).1)

theorem trans {T : Value → Value → Prop} (h : Agree R a b) (h' : Agree S b c) (hb : b.Coherent)
    (hRST : ∀ x y z, R x y → S y z → T x z) : Agree T a c := by
  cases h with
  | atom h =>
    cases h' with
    | atom h' => exact .atom h
    | _ => cases h
  | double h =>
    cases h' with
    | atom h' => cases h'
    | double h' => exact .double (Double.equal_trans h h')
  | list h =>
    cases h' with
    | atom h' => cases h'
    | list h' => exact .list (forall₂_trans h h' hRST)
  | map h =>
    cases h' with
    | atom h' => cases h'
    | map h' => exact .map (h.trans h' (coherent_map_iff.1 hb).1 hRST)

end Agree

/-- A value agrees with itself if it is not a NaN and all its parts are related to themselves. -/
theorem agree_self_iff {R : Value → Value → Prop} {a : Value} (ha : a.Coherent) :
    Agree R a a ↔ (∀ d, a = double d → d.isNaN = false) ∧ ∀ x ∈ a.parts, R x x := by
  constructor
  · intro h
    cases h with
    | atom h =>
      constructor
      · rintro d rfl
        cases h
      · rw [parts_of_isAtom h]
        exact nofun
    | @double x _ h =>
      refine ⟨fun d hd => ?_, nofun⟩
      rw [← double.inj hd]
      exact Double.equal_self_iff.1 h
    | list h => exact ⟨nofun, List.forall₂_same.1 h⟩
    | map h =>
      refine ⟨nofun, List.forall_mem_map.2 ?_⟩
      exact (OrderedMap.agree_self_iff (coherent_map_iff.1 ha).1).1 h
  · rintro ⟨htop, hparts⟩
    cases a with
    | double d => exact .double (Double.equal_self_iff.2 (htop d rfl))
    | list xs => exact .list (List.forall₂_same.2 hparts)
    | map m =>
      refine .map ((OrderedMap.agree_self_iff (coherent_map_iff.1 ha).1).2 ?_)
      exact List.forall_mem_map.1 hparts
    | _ => exact .atom rfl

/-! ## Both equalities are one step and then themselves -/

theorem sameElems_iff {xs ys : List Value} :
    (xs.length == ys.length && sameElems xs ys) = true ↔
      List.Forall₂ (fun x y => x.same y = true) xs ys := by
  induction xs generalizing ys with
  | nil => cases ys <;> simp [sameElems]
  | cons x xs ih =>
    cases ys with
    | nil => simp
    | cons y ys =>
      rw [List.forall₂_cons, ← ih, sameElems]
      simp only [List.length_cons, Nat.add_right_cancel_iff, Bool.and_eq_true, beq_iff_eq]
      grind

theorem sameEntries_iff {entries : List (Key × Value)} {m : OrderedMap Key Value} :
    sameEntries entries m = true ↔
      ∀ e ∈ entries, ∃ v, m.get? e.1 = some v ∧ e.2.same v = true := by
  induction entries with
  | nil => simp [sameEntries]
  | cons e rest ih =>
    rw [sameEntries, List.forall_mem_cons, ← ih]
    cases m.get? e.1 <;> simp

/-- The equality of structures takes a step, and compares the parts likewise. -/
theorem same_iff {a b : Value} :
    a.same b = true ↔ Agree (fun x y => x.same y = true) a b := by
  constructor
  · intro h
    rw [same.eq_def] at h
    split at h
    · exact .atom rfl
    · exact eq_of_beq h ▸ .atom rfl
    · exact eq_of_beq h ▸ .atom rfl
    · exact eq_of_beq h ▸ .atom rfl
    · exact .double h
    · exact eq_of_beq h ▸ .atom rfl
    · exact eq_of_beq h ▸ .atom rfl
    · exact .list (sameElems_iff.1 h)
    · rw [Bool.and_eq_true, beq_iff_eq] at h
      exact .map ⟨h.1, sameEntries_iff.1 h.2⟩
    · exact eq_of_beq h ▸ .atom rfl
    · exact eq_of_beq h ▸ .atom rfl
    · cases h
  · intro h
    cases h with
    | atom h =>
      cases a with
      | double d => cases h
      | list elems => cases h
      | map m => cases h
      | _ => simp [same]
    | double h => exact h
    | list h => exact sameElems_iff.2 h
    | @map m m' h =>
      obtain ⟨⟨entries⟩, index⟩ := m
      rw [same, Bool.and_eq_true, beq_iff_eq]
      exact ⟨h.size_eq, sameEntries_iff.2 h.exists_get?⟩

/-- Looking on is the verdict only if there is nothing to report before. -/
theorem ifTrue_eq_true_iff {v rest : Value} :
    ifTrue v rest = bool true ↔ v = bool true ∧ rest = bool true := by
  unfold ifTrue
  split <;> simp_all

theorem equalElems_iff {xs ys : List Value} :
    (if xs.length = ys.length then equalElems xs ys else bool false) = bool true ↔
      List.Forall₂ (fun x y => x.equal y = bool true) xs ys := by
  induction xs generalizing ys with
  | nil => cases ys <;> simp [equalElems]
  | cons x xs ih =>
    cases ys with
    | nil => simp
    | cons y ys =>
      rw [List.forall₂_cons, ← ih, equalElems_cons]
      simp only [List.length_cons, Nat.add_right_cancel_iff]
      split
      · exact ifTrue_eq_true_iff
      · simp

theorem equalEntries_iff {entries : List (Key × Value)} {m : OrderedMap Key Value} :
    equalEntries entries m = bool true ↔
      ∀ e ∈ entries, ∃ v, m.get? e.1 = some v ∧ e.2.equal v = bool true := by
  induction entries with
  | nil => simp [equalEntries]
  | cons e rest ih =>
    rw [equalEntries_cons, ifTrue_eq_true_iff, List.forall_mem_cons, ih, equalAt]
    cases m.get? e.1 <;> simp

/-- The equality of the language takes the same step, but not from a sentinel. -/
theorem equal_eq_true_iff {a b : Value} :
    a.equal b = bool true ↔
      a.isSentinel = false ∧ Agree (fun x y => x.equal y = bool true) a b := by
  constructor
  · intro h
    rw [equal.eq_def] at h
    -- a sentinel is handed on, and is not true
    split at h
    next hs =>
      rw [h] at hs
      cases hs
    next hs =>
    split at h
    next hs' =>
      rw [h] at hs'
      cases hs'
    refine ⟨by simpa using hs, ?_⟩
    split at h
    · exact .atom rfl
    · exact eq_of_beq (bool.inj h) ▸ .atom rfl
    · exact eq_of_beq (bool.inj h) ▸ .atom rfl
    · exact eq_of_beq (bool.inj h) ▸ .atom rfl
    · exact .double (bool.inj h)
    · exact eq_of_beq (bool.inj h) ▸ .atom rfl
    · exact eq_of_beq (bool.inj h) ▸ .atom rfl
    · exact .list (equalElems_iff.1 h)
    · split at h
      next hsize => exact .map ⟨hsize, equalEntries_iff.1 h⟩
      · cases h
    · cases h
  · rintro ⟨hs, h⟩
    cases h with
    | atom h =>
      cases a with
      | double d => cases h
      | list elems => cases h
      | map m => cases h
      | error e => cases hs
      | unknown ids => cases hs
      | _ => simp [equal, isSentinel]
    | double h => exact congrArg bool h
    | list h =>
      rw [equal_list]
      exact equalElems_iff.2 h
    | map h =>
      rw [equal_map, if_pos h.size_eq]
      exact equalEntries_iff.2 h.exists_get?

/-! ## The equality of structures -/

variable {a a' b b' c : Value}

theorem same_symm (ha : a.Coherent) (hb : b.Coherent) (h : a.same b = true) :
    b.same a = true := by
  induction a using parts_induction generalizing b with
  | step a ih =>
    have hstep : Agree (fun x y => x ∈ a.parts ∧ x.same y = true) a b :=
      (same_iff.1 h).imp_of_mem fun x hx _ hxy => ⟨hx, hxy⟩
    have hback : Agree (fun y x => x ∈ a.parts ∧ x.same y = true) b a := hstep.symm ha hb
    exact same_iff.2 (hback.imp_of_mem fun y hy x hxy =>
      ih x hxy.1 (ha.of_mem_parts hxy.1) (hb.of_mem_parts hy) hxy.2)

theorem same_trans (hb : b.Coherent) (h : a.same b = true) (h' : b.same c = true) :
    a.same c = true := by
  induction a using parts_induction generalizing b c with
  | step a ih =>
    have hleft : Agree (fun x y => x ∈ a.parts ∧ x.same y = true) a b :=
      (same_iff.1 h).imp_of_mem fun x hx _ hxy => ⟨hx, hxy⟩
    have hright : Agree (fun y z => y.Coherent ∧ y.same z = true) b c :=
      (same_iff.1 h').imp_of_mem fun y hy _ hyz => ⟨hb.of_mem_parts hy, hyz⟩
    exact same_iff.2 (hleft.trans hright hb fun x y z hxy hyz => ih x hxy.1 hyz.1 hxy.2 hyz.2)

/-- A value is the same as itself unless there is a NaN in it. -/
theorem same_self_iff (ha : a.Coherent) :
    a.same a = true ↔ ∀ d, Inside (double d) a → d.isNaN = false := by
  induction a using parts_induction with
  | step a ih =>
    have hparts : (∀ x ∈ a.parts, x.same x = true) ↔
        ∀ x ∈ a.parts, ∀ d, Inside (double d) x → d.isNaN = false :=
      forall₂_congr fun x hx => ih x hx (ha.of_mem_parts hx)
    rw [same_iff, agree_self_iff ha, hparts]
    constructor
    · rintro ⟨htop, hbelow⟩ d hd
      rcases inside_iff.1 hd with h | ⟨x, hx, h⟩
      · exact htop d h.symm
      · exact hbelow x hx d h
    · intro h
      exact ⟨fun d hd => h d (hd ▸ .self), fun x hx d hd => h d (.part hx hd)⟩

/-! ## Rearranged operands -/

theorem sameElems_congr {xs xs' : List Value}
    (h : List.Forall₂ (fun x x' => ∀ y, x'.same y = x.same y) xs xs') (ys : List Value) :
    sameElems xs' ys = sameElems xs ys := by
  induction h generalizing ys with
  | nil => rfl
  | cons hx _ ih =>
    cases ys with
    | nil => rfl
    | cons y ys => rw [sameElems, sameElems, hx, ih]

theorem sameEntries_congr {es es' : List (Key × Value)} {m : OrderedMap Key Value}
    (h : List.Forall₂ (fun e e' => e.1 = e'.1 ∧ ∀ y, e'.2.same y = e.2.same y) es es') :
    sameEntries es' m = sameEntries es m := by
  induction h with
  | nil => rfl
  | @cons e e' _ _ he _ ih =>
    rw [sameEntries, sameEntries, ← he.1, ih]
    cases m.get? e.1 with
    | none => rfl
    | some y => exact congrArg (· && sameEntries _ m) (he.2 y)

theorem sameEntries_perm {es es' : List (Key × Value)} (h : es.Perm es')
    (m : OrderedMap Key Value) : sameEntries es m = sameEntries es' m := by
  rw [Bool.eq_iff_iff, sameEntries_iff, sameEntries_iff]
  simp only [h.mem_iff]

theorem same_map (m m' : OrderedMap Key Value) :
    (map m).same (map m') = (m.size == m'.size && sameEntries m.toList m') := by
  obtain ⟨⟨entries⟩, index⟩ := m
  rw [same]
  rfl

/-- How the maps in the left operand were built makes no difference. -/
theorem same_rearranged_left (h : Rearranged a a') (b : Value) : a'.same b = a.same b := by
  revert b
  refine h.parts_induction (motive := fun a a' => ∀ b, a'.same b = a.same b) (fun v b => rfl) ?_ ?_
  · intro xs xs' h b
    cases b with
    | list ys => rw [same, same, sameElems_congr h, h.length_eq]
    | _ => rfl
  · intro m m' entries hm' hperm hentries b
    cases b with
    | map other =>
      have hsize : m'.size = m.size := (hperm.length_eq.trans hentries.length_eq).symm
      rw [same_map, same_map, sameEntries_congr hentries, sameEntries_perm hperm, hsize]
    | _ => rfl

/-- Which operand is on the left makes no difference either. -/
theorem same_comm (ha : a.Coherent) (hb : b.Coherent) : a.same b = b.same a :=
  Bool.eq_iff_iff.2 ⟨same_symm ha hb, same_symm hb ha⟩

/-- How the maps in the operands were built makes no difference. -/
theorem same_rearranged (ha : a.Coherent) (hb : b.Coherent) (hra : Rearranged a a')
    (hrb : Rearranged b b') : a'.same b' = a.same b :=
  calc a'.same b'
    _ = a.same b' := same_rearranged_left hra b'
    _ = b'.same a := same_comm ha (hrb.coherent hb)
    _ = b.same a := same_rearranged_left hrb a
    _ = a.same b := same_comm hb ha

/-- The equality of structures is symmetric and transitive. A value is equal to a copy of it, even
to one whose maps were built in another order, exactly if there is no NaN in it; and so rearranging
the maps in two values does not change whether they are equal. -/
theorem same_isPartialEquivalence (ha : a.Coherent) (hb : b.Coherent) (c : Value) :
    (a.same b = true → b.same a = true) ∧
      (a.same b = true → b.same c = true → a.same c = true) ∧
      (∀ a', Rearranged a a' →
        (a.same a' = true ↔ ∀ d, Inside (double d) a → d.isNaN = false)) ∧
      ∀ a' b', Rearranged a a' → Rearranged b b' → a'.same b' = a.same b := by
  refine ⟨same_symm ha hb, same_trans hb, fun a' hra => ?_,
    fun a' b' hra hrb => same_rearranged ha hb hra hrb⟩
  have hcopy : a.same a' = a.same a := same_rearranged ha ha (.refl a) hra
  rw [hcopy]
  exact same_self_iff ha

/-- Two maps, built in different orders, with a number and a NaN in a map below a list. -/
theorem same_isPartialEquivalence_nestedMaps :
    let inner (d : Double) : Value := map (.ofList [(.str "k", .null), (.str "l", .double d)])
    let a (d : Double) : Value := map (.ofList [(.int 1, list [inner d]), (.int 2, .null)])
    let b (d : Double) : Value := map (.ofList [(.int 2, .null), (.int 1, list [inner d])])
    let zero : Double := ⟨0⟩
    let negativeZero : Double := ⟨0x8000000000000000⟩
    let nan : Double := ⟨0x7ff8000000000000⟩
    (∀ d, (a d).Coherent ∧ (b d).Coherent ∧ Rearranged (a d) (b d)) ∧
      (a zero).same (b negativeZero) = true ∧ (b negativeZero).same (a zero) = true ∧
      (a zero).same (a zero) = true ∧ (a nan).same (b nan) = false := by
  intro inner a b zero negativeZero nan
  have hinner : ∀ d, (inner d).Coherent := fun d => coherent_map_ofList (by simp [Coherent])
  have ha : ∀ d, (a d).Coherent := fun d =>
    coherent_map_ofList (by simp [Coherent, AreCoherent, hinner])
  have hb : ∀ d, (b d).Coherent := fun d =>
    coherent_map_ofList (by simp [Coherent, AreCoherent, hinner])
  have hab : ∀ d, Rearranged (a d) (b d) := fun d => rearranged_ofList (.swap _ _ _) (by simp)
  have hzero : zero.equal negativeZero = true := by
    show Double.equal ⟨0⟩ ⟨0x8000000000000000⟩ = true
    decide
  have hparts : (inner zero).same (inner negativeZero) = true := by
    refine same_iff.2 (.map (OrderedMap.agree_ofList (by simp) (by simp) rfl ?_))
    rw [List.forall_mem_cons, List.forall_mem_singleton]
    exact ⟨⟨null, by simp, same_iff.2 (.atom rfl)⟩,
      ⟨double negativeZero, by simp, same_iff.2 (.double hzero)⟩⟩
  have hsame : (a zero).same (b negativeZero) = true := by
    refine same_iff.2 (.map (OrderedMap.agree_ofList (by simp) (by simp) rfl ?_))
    rw [List.forall_mem_cons, List.forall_mem_singleton]
    exact ⟨⟨list [inner negativeZero], by simp, same_iff.2 (.list (.cons hparts .nil))⟩,
      ⟨null, by simp, same_iff.2 (.atom rfl)⟩⟩
  obtain ⟨hsymm, htrans, -, -⟩ :=
    same_isPartialEquivalence (ha zero) (hb negativeZero) (a zero)
  obtain ⟨-, -, hcopy, -⟩ := same_isPartialEquivalence (ha nan) (ha nan) (a nan)
  have hinside : Inside (double nan) (a nan) := by
    have hbelow : Inside (double nan) (inner nan) :=
      .part (mem_parts_ofList (by simp) (e := (.str "l", double nan)) (by simp)) .self
    have helem : Inside (double nan) (list [inner nan]) := .part (List.mem_singleton_self _) hbelow
    exact .part (mem_parts_ofList (by simp) (e := (.int 1, list [inner nan])) (by simp)) helem
  have hnan : ¬(a nan).same (b nan) = true := fun h =>
    Bool.noConfusion ((hcopy (b nan) (hab nan)).1 h nan hinside)
  exact ⟨fun d => ⟨ha d, hb d, hab d⟩, hsame, hsymm hsame, htrans hsame (hsymm hsame),
    Bool.eq_false_iff.2 hnan⟩

/-! ## The two equalities -/

/-- Asking for more of the left parts is asking for it besides. -/
theorem agree_and_iff {P : Value → Prop} {R : Value → Value → Prop} :
    Agree (fun x y => P x ∧ R x y) a b ↔ (∀ x ∈ a.parts, P x) ∧ Agree R a b := by
  constructor
  · intro h
    refine ⟨?_, h.imp_of_mem fun x hx y hxy => hxy.2⟩
    cases h with
    | atom h =>
      rw [parts_of_isAtom h]
      exact nofun
    | double h => exact nofun
    | list h => exact ((List.forall₂_and_left _ _).1 h).1
    | map h =>
      refine List.forall_mem_map.2 fun e he => ?_
      obtain ⟨v, _, hv⟩ := h.exists_get? e he
      exact hv.1
  · rintro ⟨hP, h⟩
    exact h.imp_of_mem fun x hx y hxy => ⟨hP x hx, hxy⟩

/-- The equality of the language says yes exactly to plain values of one structure. -/
theorem equal_eq_true_iff_same (a b : Value) :
    a.equal b = bool true ↔ a.same b = true ∧ a.isPlain = true := by
  induction a using parts_induction generalizing b with
  | step a ih =>
    have hparts : Agree (fun x y => x.equal y = bool true) a b ↔
        Agree (fun x y => x.isPlain = true ∧ x.same y = true) a b := by
      constructor
      · intro h
        exact h.imp_of_mem fun x hx y hxy => ((ih x hx y).1 hxy).symm
      · intro h
        exact h.imp_of_mem fun x hx y hxy => (ih x hx y).2 hxy.symm
    rw [equal_eq_true_iff, hparts, agree_and_iff, ← same_iff, isPlain_iff_parts, ← and_assoc]
    exact and_comm

end Value

end TreeEval
