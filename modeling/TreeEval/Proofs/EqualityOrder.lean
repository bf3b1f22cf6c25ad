import Mathlib.Data.Finset.Insert
import Mathlib.Data.Finset.Lattice.Lemmas
import TreeEval.Proofs.MapEntries
import TreeEval.Proofs.Sentinels
import TreeEval.Value.Equality

/-!
# Equality and the order of entries

Two plain values can be found unequal, and they can be found incomparable. The equality of the
language reports what it finds first. In lists there is one order to look in, but the entries of a
map are looked at in the order in which they were inserted into the left operand, so where both can
be found the answer hangs on which operand is on the left and on how its maps were built.

`findings` lists what is to be found, in whatever order the entries come. It does not change when
the operands are swapped (`findings_comm`) or rearranged (`findings_rearranged`); the answer is one
of the findings (`allows_equal`), and every finding is the answer for some rearrangement of the left
operand (`exists_rearranged`). Hence `equal_orderFree_iff`: whether values are equal never depends
on any order, and the answer as a whole does exactly if both can be found.
-/

namespace TreeEval

namespace Value

/-! ## Findings -/

/-- What there is to report of two values that are not equal. -/
inductive Finding where
  /-- They differ. -/
  | unequal
  /-- They cannot be compared. -/
  | incomparable
deriving DecidableEq

namespace Finding

/-- The report of a finding. -/
def verdict : Finding → Value
  | unequal => bool false
  | incomparable => fail .noSuchOverload

/-- What a verdict has found. -/
def ofVerdict : Value → Finset Finding
  | bool true => ∅
  | bool false => {unequal}
  | _ => {incomparable}

/-- What is found by looking somewhere, and elsewhere only if there is nothing. -/
def orElse (here elsewhere : Finset Finding) : Finset Finding :=
  if here = ∅ then elsewhere else here

end Finding

mutual

/-- What can be found when two values are compared, whatever the order of the entries of maps. -/
def findings (a b : Value) : Finset Finding :=
  match a, b with
  | list xs, list ys => if xs.length = ys.length then findingsElems xs ys else {.unequal}
  | map ⟨⟨entries⟩, _⟩, map other =>
    if entries.length = other.size then findingsEntries entries other else {.unequal}
  | a, b => Finding.ofVerdict (a.equal b)

/-- Compares lists of one length, element by element. -/
def findingsElems : List Value → List Value → Finset Finding
  | x :: xs, y :: ys => Finding.orElse (findings x y) (findingsElems xs ys)
  | _, _ => ∅

/-- Compares entries with those of a map under the same keys, in any order. -/
def findingsEntries : List (Key × Value) → OrderedMap Key Value → Finset Finding
  | [], _ => ∅
  | (k, x) :: rest, m =>
    (match m.get? k with
      | none => {.unequal}
      | some y => findings x y) ∪ findingsEntries rest m

end

/-- What can be found at one entry. -/
def findingsAt (e : Key × Value) (m : OrderedMap Key Value) : Finset Finding :=
  match m.get? e.1 with
  | none => {.unequal}
  | some y => findings e.2 y

theorem findings_list (xs ys : List Value) :
    findings (list xs) (list ys) =
      if xs.length = ys.length then findingsElems xs ys else {.unequal} := by
  rw [findings]

theorem findings_map (m m' : OrderedMap Key Value) :
    findings (map m) (map m') =
      if m.size = m'.size then findingsEntries m.toList m' else {.unequal} := by
  obtain ⟨⟨entries⟩, index⟩ := m
  rw [findings]
  rfl

theorem findingsEntries_cons (e : Key × Value) (rest : List (Key × Value))
    (m : OrderedMap Key Value) :
    findingsEntries (e :: rest) m = findingsAt e m ∪ findingsEntries rest m := by
  rw [findingsEntries]
  rfl

theorem mem_findingsEntries {f : Finding} {entries : List (Key × Value)}
    {m : OrderedMap Key Value} :
    f ∈ findingsEntries entries m ↔ ∃ e ∈ entries, f ∈ findingsAt e m := by
  induction entries with
  | nil => simp [findingsEntries]
  | cons e rest ih => simp [findingsEntries_cons, ih]

/-! ## The answer is one of the findings -/

/-- A verdict says that two values are equal if there is nothing to be found, and otherwise it
reports something that can be found. -/
def Allows (found : Finset Finding) (v : Value) : Prop :=
  (found = ∅ ∧ v = bool true) ∨ ∃ f ∈ found, v = f.verdict

theorem IsVerdict.allows {v : Value} (h : v.IsVerdict) : Allows (Finding.ofVerdict v) v := by
  rcases h with ⟨b, rfl⟩ | rfl
  · cases b with
    | false => exact .inr ⟨.unequal, Finset.mem_singleton_self _, rfl⟩
    | true => exact .inl ⟨rfl, rfl⟩
  · exact .inr ⟨.incomparable, Finset.mem_singleton_self _, rfl⟩

/-- The first of two verdicts, if it is not that the values are equal, and otherwise the second. -/
def ifTrue (v rest : Value) : Value :=
  match v with
  | bool true => rest
  | other => other

@[simp] theorem ifTrue_verdict (f : Finding) (rest : Value) :
    ifTrue f.verdict rest = f.verdict := by
  cases f <;> rfl

/-- The verdict on one entry. -/
def equalAt (e : Key × Value) (m : OrderedMap Key Value) : Value :=
  match m.get? e.1 with
  | none => bool false
  | some y => e.2.equal y

theorem equal_list (xs ys : List Value) :
    (list xs).equal (list ys) =
      if xs.length = ys.length then equalElems xs ys else bool false := by
  rw [equal]
  rfl

theorem equal_map (m m' : OrderedMap Key Value) :
    (map m).equal (map m') = if m.size = m'.size then equalEntries m.toList m' else bool false := by
  obtain ⟨⟨entries⟩, index⟩ := m
  rw [equal]
  rfl

theorem equalElems_cons (x y : Value) (xs ys : List Value) :
    equalElems (x :: xs) (y :: ys) = ifTrue (x.equal y) (equalElems xs ys) := by
  rw [equalElems]
  rfl

theorem equalEntries_cons (e : Key × Value) (rest : List (Key × Value))
    (m : OrderedMap Key Value) :
    equalEntries (e :: rest) m = ifTrue (equalAt e m) (equalEntries rest m) := by
  rw [equalEntries, equalAt]
  cases m.get? e.1 with
  | none => rfl
  | some y => rfl

/-- An entry that comes first and is not equal to its counterpart decides. -/
theorem equal_map_of_head {m m' : OrderedMap Key Value} {e : Key × Value}
    {rest : List (Key × Value)} {f : Finding} (hsize : m.size = m'.size)
    (htoList : m.toList = e :: rest) (hat : equalAt e m' = f.verdict) :
    (map m).equal (map m') = f.verdict := by
  rw [equal_map, if_pos hsize, htoList, equalEntries_cons, hat, ifTrue_verdict]

/-- Looking at one thing after the other. -/
theorem Allows.orElse {here elsewhere : Finset Finding} {v rest : Value} (hv : Allows here v)
    (hrest : Allows elsewhere rest) : Allows (Finding.orElse here elsewhere) (ifTrue v rest) := by
  rcases hv with ⟨rfl, rfl⟩ | ⟨f, hf, rfl⟩
  · exact hrest
  · rw [Finding.orElse, if_neg (Finset.ne_empty_of_mem hf)]
    exact .inr ⟨f, hf, ifTrue_verdict f rest⟩

/-- Looking at two things in one of the two orders. -/
theorem Allows.union {here elsewhere : Finset Finding} {v rest : Value} (hv : Allows here v)
    (hrest : Allows elsewhere rest) : Allows (here ∪ elsewhere) (ifTrue v rest) := by
  rcases hv with ⟨rfl, rfl⟩ | ⟨f, hf, rfl⟩
  · rw [Finset.empty_union]
    exact hrest
  · exact .inr ⟨f, Finset.mem_union_left _ hf, ifTrue_verdict f rest⟩

theorem allows_equalElems {xs ys : List Value}
    (h : ∀ x ∈ xs, ∀ y ∈ ys, Allows (findings x y) (x.equal y)) :
    Allows (findingsElems xs ys) (equalElems xs ys) := by
  induction xs generalizing ys with
  | nil => exact .inl ⟨rfl, rfl⟩
  | cons x xs ih =>
    cases ys with
    | nil => exact .inl ⟨rfl, rfl⟩
    | cons y ys =>
      rw [findingsElems, equalElems_cons]
      refine (h x List.mem_cons_self y List.mem_cons_self).orElse (ih fun x hx y hy => ?_)
      exact h x (List.mem_cons_of_mem _ hx) y (List.mem_cons_of_mem _ hy)

theorem allows_equalEntries {entries : List (Key × Value)} {m : OrderedMap Key Value}
    (h : ∀ e ∈ entries, ∀ e' ∈ m.toList, Allows (findings e.2 e'.2) (e.2.equal e'.2)) :
    Allows (findingsEntries entries m) (equalEntries entries m) := by
  induction entries with
  | nil => exact .inl ⟨rfl, rfl⟩
  | cons e rest ih =>
    rw [findingsEntries_cons, equalEntries_cons]
    have hrest := ih fun e he => h e (List.mem_cons_of_mem _ he)
    refine Allows.union ?_ hrest
    unfold findingsAt equalAt
    cases hget : m.get? e.1 with
    | none => exact (isVerdict_bool false).allows
    | some y =>
      obtain ⟨e', he', rfl⟩ := OrderedMap.exists_mem_of_get?_eq_some hget
      exact h e List.mem_cons_self e' he'

/-- The answer of a comparison is one of the findings. -/
theorem allows_equal {a b : Value} (ha : a.isPlain = true) (hb : b.isPlain = true) :
    Allows (findings a b) (a.equal b) := by
  -- except between two lists and between two maps, the verdict is all that is to be found
  have hverdict := isVerdict_equal ha hb
  induction a generalizing b with
  | list xs ih =>
    cases b with
    | list ys =>
      rw [isPlain_list_iff] at ha hb
      rw [findings_list, equal_list]
      split
      · exact allows_equalElems fun x hx y hy =>
          ih x hx (ha x hx) (hb y hy) (isVerdict_equal (ha x hx) (hb y hy))
      · exact (isVerdict_bool false).allows
    | _ => exact hverdict.allows
  | map m ih =>
    cases b with
    | map m' =>
      rw [isPlain_map_iff] at ha hb
      rw [findings_map, equal_map]
      split
      · exact allows_equalEntries fun e he e' he' =>
          ih e he (ha e he) (hb e' he') (isVerdict_equal (ha e he) (hb e' he'))
      · exact (isVerdict_bool false).allows
    | _ => exact hverdict.allows
  | _ => cases b <;> exact hverdict.allows

/-! ## Swapped operands -/

end Value

theorem Double.equal_comm (a b : Double) : a.equal b = b.equal a := by
  rw [Double.equal, Double.equal, Bool.and_comm (!a.isNaN), BEq.comm (a := a.rank)]

namespace Value

variable {a a' b b' : Value} {m m' : OrderedMap Key Value}

/-- What is found between two maps is found from either side: an entry without a counterpart on one
side comes with one on the other, because the maps have one size. -/
theorem findingsEntries_subset (hm : m.Coherent) (hm' : m'.Coherent) (hsize : m.size = m'.size)
    (hcomm : ∀ e ∈ m.toList, ∀ e' ∈ m'.toList, findings e.2 e'.2 = findings e'.2 e.2) :
    findingsEntries m.toList m' ⊆ findingsEntries m'.toList m := by
  intro f hf
  obtain ⟨e, he, hfound⟩ := mem_findingsEntries.1 hf
  rw [mem_findingsEntries]
  unfold findingsAt at hfound ⊢
  cases hget : m'.get? e.1 with
  | none =>
    -- the key is missing on the right, so a key of the right is missing on the left
    rw [hget] at hfound
    have hmissing : e.1 ∉ m'.keys := hm'.get?_eq_none_iff.1 hget
    obtain ⟨k', hk', hmissing'⟩ :=
      hm'.exists_mem_keys hsize (List.mem_map_of_mem he) hmissing
    obtain ⟨e', he', rfl⟩ := List.mem_map.1 hk'
    refine ⟨e', he', ?_⟩
    rw [hm.get?_eq_none_iff.2 hmissing']
    exact hfound
  | some y =>
    rw [hget] at hfound
    have he' : (e.1, y) ∈ m'.toList := hm'.get?_eq_some_iff.1 hget
    refine ⟨(e.1, y), he', ?_⟩
    rw [hm.get?_eq_some_iff.2 he]
    show f ∈ findings y e.2
    rw [← hcomm e he _ he']
    exact hfound

theorem findingsElems_comm {xs ys : List Value}
    (h : ∀ x ∈ xs, ∀ y ∈ ys, findings x y = findings y x) :
    findingsElems xs ys = findingsElems ys xs := by
  induction xs generalizing ys with
  | nil => cases ys <;> rfl
  | cons x xs ih =>
    cases ys with
    | nil => rfl
    | cons y ys =>
      rw [findingsElems, findingsElems, h x List.mem_cons_self y List.mem_cons_self,
        ih fun x hx y hy => h x (List.mem_cons_of_mem _ hx) y (List.mem_cons_of_mem _ hy)]

/-- Which operand is on the left makes no difference to what can be found. -/
theorem findings_comm (ha : a.Coherent) (hb : b.Coherent) : findings a b = findings b a := by
  induction a generalizing b with
  | list xs ih =>
    cases b with
    | list ys =>
      rw [coherent_list_iff] at ha hb
      rw [findings_list, findings_list,
        findingsElems_comm fun x hx y hy => ih x hx (ha x hx) (hb y hy)]
      simp only [eq_comm]
    | _ => rfl
  | map m ih =>
    cases b with
    | map m' =>
      rw [coherent_map_iff] at ha hb
      rw [findings_map, findings_map]
      by_cases hsize : m.size = m'.size
      · have hcomm : ∀ e ∈ m.toList, ∀ e' ∈ m'.toList, findings e.2 e'.2 = findings e'.2 e.2 :=
          fun e he e' he' => ih e he (ha.2 e he) (hb.2 e' he')
        rw [if_pos hsize, if_pos hsize.symm]
        exact Finset.Subset.antisymm (findingsEntries_subset ha.1 hb.1 hsize hcomm)
          (findingsEntries_subset hb.1 ha.1 hsize.symm fun e he e' he' => (hcomm e' he' e he).symm)
      · rw [if_neg hsize, if_neg (Ne.symm hsize)]
    | _ => rfl
  | _ =>
    -- values without parts have an equality of their own, which is symmetric
    cases b <;> first
      | rfl
      | exact congrArg (fun same => Finding.ofVerdict (.bool same)) BEq.comm
      | exact congrArg (fun same => Finding.ofVerdict (.bool same)) (Double.equal_comm _ _)

/-! ## Rearranged operands -/

theorem findingsElems_congr {xs xs' : List Value}
    (h : List.Forall₂ (fun x x' => ∀ y, findings x' y = findings x y) xs xs') (ys : List Value) :
    findingsElems xs' ys = findingsElems xs ys := by
  induction h generalizing ys with
  | nil => rfl
  | cons hx _ ih =>
    cases ys with
    | nil => rfl
    | cons y ys => rw [findingsElems, findingsElems, hx, ih]

theorem findingsEntries_congr {es es' : List (Key × Value)} {m : OrderedMap Key Value}
    (h : List.Forall₂ (fun e e' => e.1 = e'.1 ∧ ∀ y, findings e'.2 y = findings e.2 y) es es') :
    findingsEntries es' m = findingsEntries es m := by
  induction h with
  | nil => rfl
  | @cons e e' _ _ he _ ih =>
    have hat : findingsAt e' m = findingsAt e m := by
      rw [findingsAt, findingsAt, ← he.1]
      cases m.get? e.1 with
      | none => rfl
      | some y => exact he.2 y
    rw [findingsEntries_cons, findingsEntries_cons, hat, ih]

theorem findingsEntries_perm {es es' : List (Key × Value)} (h : es.Perm es')
    (m : OrderedMap Key Value) : findingsEntries es m = findingsEntries es' m := by
  ext f
  simp only [mem_findingsEntries, h.mem_iff]

/-- How the maps in the left operand were built makes no difference to what can be found. -/
theorem findings_rearranged_left (h : Rearranged a a') (b : Value) :
    findings a' b = findings a b := by
  revert b
  refine h.parts_induction (motive := fun a a' => ∀ b, findings a' b = findings a b)
    (fun v b => rfl) ?_ ?_
  · intro xs xs' h b
    cases b with
    | list ys => rw [findings_list, findings_list, findingsElems_congr h, h.length_eq]
    | _ => rfl
  · intro m m' entries hm' hperm hentries b
    cases b with
    | map other =>
      have hsize : m'.size = m.size := (hperm.length_eq.trans hentries.length_eq).symm
      rw [findings_map, findings_map, findingsEntries_congr hentries, findingsEntries_perm hperm,
        hsize]
    | _ => rfl

/-- How the maps in the operands were built makes no difference to what can be found. -/
theorem findings_rearranged (ha : a.Coherent) (hb : b.Coherent) (hra : Rearranged a a')
    (hrb : Rearranged b b') : findings a' b' = findings a b :=
  calc findings a' b'
    _ = findings a b' := findings_rearranged_left hra b'
    _ = findings b' a := findings_comm ha (hrb.coherent hb)
    _ = findings b a := findings_rearranged_left hrb a
    _ = findings a b := findings_comm hb ha

/-! ## Every finding is an answer -/

theorem IsVerdict.eq_verdict {v : Value} (h : v.IsVerdict) {f : Finding}
    (hf : f ∈ Finding.ofVerdict v) : v = f.verdict := by
  rcases h with ⟨b, rfl⟩ | rfl
  · cases b with
    | false => rw [Finset.mem_singleton.1 hf]; rfl
    | true => exact absurd hf (Finset.notMem_empty f)
  · rw [Finset.mem_singleton.1 hf]; rfl

theorem exists_rearranged_elems {f : Finding} {xs ys : List Value}
    (hequal : ∀ x ∈ xs, ∀ y ∈ ys, Allows (findings x y) (x.equal y))
    (h : ∀ x ∈ xs, ∀ y ∈ ys, f ∈ findings x y → ∃ x', Rearranged x x' ∧ x'.equal y = f.verdict)
    (hf : f ∈ findingsElems xs ys) :
    ∃ xs', List.Forall₂ Rearranged xs xs' ∧ equalElems xs' ys = f.verdict := by
  induction xs generalizing ys with
  | nil => exact absurd hf (Finset.notMem_empty f)
  | cons x xs ih =>
    cases ys with
    | nil => exact absurd hf (Finset.notMem_empty f)
    | cons y ys =>
      rw [findingsElems, Finding.orElse] at hf
      split at hf
      · next hnone =>
        -- the first elements are equal, so the answer comes from the others
        have htrue : x.equal y = bool true := by
          rcases hequal x List.mem_cons_self y List.mem_cons_self with ⟨_, htrue⟩ | ⟨g, hg, _⟩
          · exact htrue
          · exact absurd (hnone ▸ hg) (Finset.notMem_empty g)
        obtain ⟨xs', hxs', hanswer⟩ := ih
          (fun x hx y hy => hequal x (List.mem_cons_of_mem _ hx) y (List.mem_cons_of_mem _ hy))
          (fun x hx y hy => h x (List.mem_cons_of_mem _ hx) y (List.mem_cons_of_mem _ hy)) hf
        refine ⟨x :: xs', .cons (.refl x) hxs', ?_⟩
        rw [equalElems_cons, htrue]
        exact hanswer
      · obtain ⟨x', hx', hanswer⟩ := h x List.mem_cons_self y List.mem_cons_self hf
        refine ⟨x' :: xs, .cons hx' (List.forall₂_same.2 fun v _ => .refl v), ?_⟩
        rw [equalElems_cons, hanswer, ifTrue_verdict]

theorem exists_rearranged_at {f : Finding} {e : Key × Value} {m : OrderedMap Key Value}
    (h : ∀ e' ∈ m.toList, f ∈ findings e.2 e'.2 →
      ∃ x', Rearranged e.2 x' ∧ x'.equal e'.2 = f.verdict)
    (hf : f ∈ findingsAt e m) :
    ∃ x', Rearranged e.2 x' ∧ equalAt (e.1, x') m = f.verdict := by
  unfold findingsAt at hf
  simp only [equalAt]
  cases hget : m.get? e.1 with
  | none =>
    rw [hget] at hf
    exact ⟨e.2, .refl _, (isVerdict_bool false).eq_verdict hf⟩
  | some y =>
    rw [hget] at hf
    obtain ⟨e', he', rfl⟩ := OrderedMap.exists_mem_of_get?_eq_some hget
    exact h e' he' hf

/-- Whichever entry of a map shall be looked at first, the map can be built so. -/
theorem exists_rearranged_map (hm : m.Coherent) {e : Key × Value} (he : e ∈ m.toList) {x' : Value}
    (hx' : Rearranged e.2 x') :
    ∃ m' : OrderedMap Key Value, ∃ rest,
      m'.toList = (e.1, x') :: rest ∧ Rearranged (map m) (map m') := by
  -- the map of the same entries, that one taken to the front with its value rearranged
  obtain ⟨front, back, hsplit⟩ := List.append_of_mem he
  have hperm : m.toList.Perm (e :: (front ++ back)) := hsplit ▸ List.perm_middle
  have hnodup : (((e.1, x') :: (front ++ back)).map Prod.fst).Nodup :=
    (hperm.map Prod.fst).nodup_iff.1 hm.nodup_keys
  have htoList := OrderedMap.toList_ofList hnodup
  refine ⟨_, front ++ back, htoList,
    .map (OrderedMap.coherent_ofList _) hperm (by rw [OrderedMap.keys, htoList]; rfl) ?_⟩
  rw [htoList]
  exact .cons hx' (List.forall₂_same.2 fun v _ => .refl v)

/-- What can be found is the answer if the maps in the left operand are built in a certain order. -/
theorem exists_rearranged {f : Finding} (ha : a.isPlain = true) (hb : b.isPlain = true)
    (hcoherent : a.Coherent) (hf : f ∈ findings a b) :
    ∃ a', Rearranged a a' ∧ a'.equal b = f.verdict := by
  have hverdict := isVerdict_equal ha hb
  induction a generalizing b with
  | list xs ih =>
    cases b with
    | list ys =>
      rw [isPlain_list_iff] at ha hb
      rw [coherent_list_iff] at hcoherent
      rw [findings_list] at hf
      by_cases hlength : xs.length = ys.length
      · rw [if_pos hlength] at hf
        obtain ⟨xs', hxs', hanswer⟩ := exists_rearranged_elems
          (fun x hx y hy => allows_equal (ha x hx) (hb y hy))
          (fun x hx y hy hxy => ih x hx (ha x hx) (hb y hy) (hcoherent x hx) hxy
            (isVerdict_equal (ha x hx) (hb y hy))) hf
        refine ⟨list xs', .list hxs', ?_⟩
        rw [equal_list, if_pos (hxs'.length_eq ▸ hlength), hanswer]
      · rw [if_neg hlength] at hf
        refine ⟨list xs, .refl _, ?_⟩
        rw [equal_list, if_neg hlength, Finset.mem_singleton.1 hf]
        rfl
    | _ => exact ⟨list xs, .refl _, hverdict.eq_verdict hf⟩
  | map m ih =>
    cases b with
    | map other =>
      rw [isPlain_map_iff] at ha hb
      rw [coherent_map_iff] at hcoherent
      rw [findings_map] at hf
      by_cases hsize : m.size = other.size
      · rw [if_pos hsize] at hf
        obtain ⟨e, he, hat⟩ := mem_findingsEntries.1 hf
        obtain ⟨x', hx', hanswer⟩ := exists_rearranged_at
          (fun e' he' hee' => ih e he (ha e he) (hb e' he') (hcoherent.2 e he) hee'
            (isVerdict_equal (ha e he) (hb e' he'))) hat
        -- the entry at which there is something to be found comes first
        obtain ⟨m', rest, htoList, hr⟩ := exists_rearranged_map hcoherent.1 he hx'
        exact ⟨map m', hr, equal_map_of_head (hr.size_eq.symm.trans hsize) htoList hanswer⟩
      · rw [if_neg hsize] at hf
        refine ⟨map m, .refl _, ?_⟩
        rw [equal_map, if_neg hsize, Finset.mem_singleton.1 hf]
        rfl
    | _ => exact ⟨map m, .refl _, hverdict.eq_verdict hf⟩
  | _ => exact ⟨_, .refl _, by cases b <;> exact hverdict.eq_verdict hf⟩

/-! ## What depends on the order -/

theorem Allows.eq_true_iff {found : Finset Finding} {v : Value} (h : Allows found v) :
    v = bool true ↔ found = ∅ := by
  rcases h with ⟨hnone, htrue⟩ | ⟨f, hf, rfl⟩
  · simp [hnone, htrue]
  · have hne : found ≠ ∅ := Finset.ne_empty_of_mem hf
    cases f <;> simp [Finding.verdict, fail, hne]

/-- Where only one thing can be found, there is only one answer. -/
theorem Allows.unique {found : Finset Finding} {v v' : Value} (h : Allows found v)
    (h' : Allows found v')
    (hone : ¬(Finding.unequal ∈ found ∧ Finding.incomparable ∈ found)) : v = v' := by
  rcases h with ⟨hnone, htrue⟩ | ⟨f, hf, hv⟩
  · exact htrue.trans (h'.eq_true_iff.2 hnone).symm
  · rcases h' with ⟨hnone, _⟩ | ⟨f', hf', hv'⟩
    · exact absurd hnone (Finset.ne_empty_of_mem hf)
    · have hsame : f = f' := by
        cases f <;> cases f' <;> first | rfl | exact absurd ⟨‹_›, ‹_›⟩ hone
      rw [hv, hv', hsame]

theorem Rearranged.isPlain (h : Rearranged a a') : a.isPlain = true → a'.isPlain = true :=
  h.preserves (P := fun v => v.isPlain = true) isPlain_list_iff isPlain_map_iff.1
    (fun _ hparts => isPlain_map_iff.2 hparts)

/-- Swapped or rearranged, the answer is one of the findings. -/
theorem allows_rearranged (ha : a.isPlain = true) (hb : b.isPlain = true) (hac : a.Coherent)
    (hbc : b.Coherent) (hra : Rearranged a a') (hrb : Rearranged b b') :
    Allows (findings a b) (a'.equal b') ∧ Allows (findings a b) (b'.equal a') := by
  have hfound : findings a' b' = findings a b := findings_rearranged hac hbc hra hrb
  have hfound' : findings b' a' = findings a b :=
    (findings_rearranged hbc hac hrb hra).trans (findings_comm hbc hac)
  constructor
  · rw [← hfound]
    exact allows_equal (hra.isPlain ha) (hrb.isPlain hb)
  · rw [← hfound']
    exact allows_equal (hrb.isPlain hb) (hra.isPlain ha)

/-- Whether two values are equal depends neither on which of them is on the left nor on the order in
which the entries of the maps in them were inserted. The whole answer, which also tells values that
differ from values that cannot be compared, depends on neither exactly if not both can be found. -/
theorem equal_orderFree_iff (ha : a.isPlain = true) (hb : b.isPlain = true) (hac : a.Coherent)
    (hbc : b.Coherent) :
    (∀ a' b', Rearranged a a' → Rearranged b b' →
      (a'.equal b' = bool true ↔ a.equal b = bool true) ∧
        (b'.equal a' = bool true ↔ a.equal b = bool true)) ∧
      ((∀ a' b', Rearranged a a' → Rearranged b b' →
        a'.equal b' = a.equal b ∧ b'.equal a' = a.equal b) ↔
          ¬(Finding.unequal ∈ findings a b ∧ Finding.incomparable ∈ findings a b)) := by
  have hequal := allows_equal ha hb
  refine ⟨fun a' b' hra hrb => ?_, fun hsame hboth => ?_, fun hone a' b' hra hrb => ?_⟩
  · obtain ⟨hleft, hright⟩ := allows_rearranged ha hb hac hbc hra hrb
    rw [hleft.eq_true_iff, hright.eq_true_iff, hequal.eq_true_iff]
    exact ⟨Iff.rfl, Iff.rfl⟩
  · -- each of the two is the answer for some rearrangement
    obtain ⟨a₁, ha₁, hunequal⟩ := exists_rearranged ha hb hac hboth.1
    obtain ⟨a₂, ha₂, hincomparable⟩ := exists_rearranged ha hb hac hboth.2
    have hclash : Finding.unequal.verdict = Finding.incomparable.verdict :=
      calc Finding.unequal.verdict
        _ = a₁.equal b := hunequal.symm
        _ = a.equal b := (hsame a₁ b ha₁ (.refl b)).1
        _ = a₂.equal b := (hsame a₂ b ha₂ (.refl b)).1.symm
        _ = Finding.incomparable.verdict := hincomparable
    cases hclash
  · obtain ⟨hleft, hright⟩ := allows_rearranged ha hb hac hbc hra hrb
    exact ⟨hleft.unique hequal hone, hright.unique hequal hone⟩

section OfList

variable {es es' : List (Key × Value)} {e : Key × Value} {y : Value}

theorem isPlain_map_ofList (h : ∀ e ∈ es, e.2.isPlain = true) :
    (map (.ofList es)).isPlain = true :=
  isPlain_map_iff.2 fun e he => h e (OrderedMap.mem_of_mem_toList_ofList he)

theorem findings_map_ofList (h : (es.map Prod.fst).Nodup) (h' : (es'.map Prod.fst).Nodup)
    (hlength : es.length = es'.length) :
    findings (map (.ofList es)) (map (.ofList es')) = findingsEntries es (.ofList es') := by
  rw [findings_map, OrderedMap.size_ofList h, OrderedMap.size_ofList h', if_pos hlength,
    OrderedMap.toList_ofList h]

theorem findingsAt_ofList (h : (es.map Prod.fst).Nodup) (hmem : (e.1, y) ∈ es) :
    findingsAt e (.ofList es) = findings e.2 y := by
  rw [findingsAt, OrderedMap.get?_ofList_of_mem h hmem]

theorem equal_map_ofList_of_head {f : Finding} (h : ((e :: es).map Prod.fst).Nodup)
    (h' : (es'.map Prod.fst).Nodup) (hlength : (e :: es).length = es'.length)
    (hmem : (e.1, y) ∈ es') (hequal : e.2.equal y = f.verdict) :
    (map (.ofList (e :: es))).equal (map (.ofList es')) = f.verdict := by
  have hsize : (OrderedMap.ofList (e :: es)).size = (OrderedMap.ofList es').size := by
    rw [OrderedMap.size_ofList h, OrderedMap.size_ofList h', hlength]
  refine equal_map_of_head hsize (OrderedMap.toList_ofList h) ?_
  rw [equalAt, OrderedMap.get?_ofList_of_mem h' hmem]
  exact hequal

end OfList

/-- Two maps that differ in a map below a list, and in nothing else. -/
theorem equal_orderFree_iff_nestedMaps :
    let inner (n : Int64) : Value := map (.ofList [(.str "k", .null), (.str "l", .int n)])
    let a : Value := map (.ofList [(.int 1, list [inner 2]), (.int 2, .double ⟨0⟩)])
    let b : Value := map (.ofList
      [(.int 2, .double ⟨0x8000000000000000⟩), (.int 1, list [inner 3])])
    a.isPlain = true ∧ b.isPlain = true ∧ a.Coherent ∧ b.Coherent ∧
      ∀ a' b', Rearranged a a' → Rearranged b b' →
        a'.equal b' = bool false ∧ b'.equal a' = bool false := by
  intro inner a b
  have hplain : ∀ n, (inner n).isPlain = true := fun n => isPlain_map_ofList (by simp [isPlain])
  have hcoherent : ∀ n, (inner n).Coherent := fun n => coherent_map_ofList (by simp [Coherent])
  have hpa : a.isPlain = true := isPlain_map_ofList (by simp [isPlain, arePlain, hplain])
  have hpb : b.isPlain = true := isPlain_map_ofList (by simp [isPlain, arePlain, hplain])
  have hac : a.Coherent := coherent_map_ofList (by simp [Coherent, AreCoherent, hcoherent])
  have hbc : b.Coherent := coherent_map_ofList (by simp [Coherent, AreCoherent, hcoherent])
  have hinner : findings (inner 2) (inner 3) = {.unequal} := by
    rw [findings_map_ofList (by simp) (by simp) (by simp), findingsEntries_cons,
      findingsEntries_cons, findingsAt_ofList (y := .null) (by simp) (by simp),
      findingsAt_ofList (y := .int 3) (by simp) (by simp)]
    rfl
  have hfound : findings a b = {.unequal} := by
    rw [findings_map_ofList (by simp) (by simp) (by simp), findingsEntries_cons,
      findingsEntries_cons, findingsAt_ofList (y := list [inner 3]) (by simp) (by simp),
      findingsAt_ofList (y := .double ⟨0x8000000000000000⟩) (by simp) (by simp), findings_list,
      findingsElems, hinner]
    rfl
  have hone : ¬(Finding.unequal ∈ findings a b ∧ Finding.incomparable ∈ findings a b) := by
    rw [hfound]
    simp
  have hequal : a.equal b = bool false := by
    obtain ⟨hnone, _⟩ | ⟨f, hf, hv⟩ := hfound ▸ allows_equal hpa hpb
    · exact absurd hnone (Finset.singleton_ne_empty _)
    · rw [hv, Finset.mem_singleton.1 hf]
      rfl
  refine ⟨hpa, hpb, hac, hbc, fun a' b' hra hrb => ?_⟩
  have hsame := (equal_orderFree_iff hpa hpb hac hbc).2.2 hone a' b' hra hrb
  rwa [hequal] at hsame

/-- The answer for two maps, one with a text where the other has a number, changes when they are
swapped, and also when one is built in another order. -/
theorem equal_not_orderFree :
    let a : Value := map (.ofList [(.int 1, .int 1), (.int 2, .str "x")])
    let a' : Value := map (.ofList [(.int 2, .str "x"), (.int 1, .int 1)])
    let b : Value := map (.ofList [(.int 2, .int 3), (.int 1, .int 2)])
    a.isPlain = true ∧ b.isPlain = true ∧ a.Coherent ∧ b.Coherent ∧ Rearranged a a' ∧
      a.equal b = bool false ∧ b.equal a = fail .noSuchOverload ∧
        a'.equal b = fail .noSuchOverload := by
  intro a a' b
  refine ⟨isPlain_map_ofList (by simp [isPlain]), isPlain_map_ofList (by simp [isPlain]),
    coherent_map_ofList (by simp [Coherent]), coherent_map_ofList (by simp [Coherent]),
    rearranged_ofList (.swap _ _ _) (by simp), ?_, ?_, ?_⟩
  · exact equal_map_ofList_of_head (f := .unequal) (y := .int 2) (by simp) (by simp) rfl (by simp)
      rfl
  · exact equal_map_ofList_of_head (f := .incomparable) (y := .str "x") (by simp) (by simp) rfl
      (by simp) rfl
  · exact equal_map_ofList_of_head (f := .incomparable) (y := .int 3) (by simp) (by simp) rfl
      (by simp) rfl

end Value

end TreeEval
