import TreeEval.Proofs.PlannedSets

/-!
# Rebuilding visits the children

Listing the children of a node and rebuilding it go through the same nodes in the same order. The
reason is one equation, which holds for actions of every kind: `map_passOrder_mapChildren` says that
rebuilding a node and then listing its parts is running the action along the list of its parts. So
what is known of running actions along a list is known of rebuilding. `Callback.Rebuilds` says it of
callbacks that may fail and that may remember: they are called on one child after the other, and the
first failure is the last call.

A node is determined by its shape and its children (`Alike.eq_of_passOrder_eq`). That is why two
rebuildings, one after the other, are one.
-/

namespace TreeEval

/-! ## Rows -/

section Rows

variable {α : Type}

theorem flatMap_range_getElem? (as : List α) :
    ((List.range as.length).flatMap fun i => as[i]?.toList) = as := by
  induction as with
  | nil => rfl
  | cons a as ih =>
    rw [List.length_cons, List.range_succ_eq_map, List.flatMap_cons, List.flatMap_map]
    simpa using ih

/-- In turns means place by place. -/
theorem interleave_eq_flatMap_range (as bs : List α) :
    interleave as bs =
      (List.range (max as.length bs.length)).flatMap fun i => as[i]?.toList ++ bs[i]?.toList := by
  fun_induction interleave as bs with
  | case1 bs => simpa using (flatMap_range_getElem? bs).symm
  | case2 a as => simpa using (flatMap_range_getElem? (a :: as)).symm
  | case3 a as b bs ih =>
    have hlength : max (a :: as).length (b :: bs).length = max as.length bs.length + 1 := by
      simp only [List.length_cons]
      omega
    rw [hlength, List.range_succ_eq_map, List.flatMap_cons, List.flatMap_map, ih]
    simp

/-- The surplus comes last. -/
theorem alternate_prefix_interleave (as bs : List α) : alternate as bs <+: interleave as bs := by
  fun_induction interleave as bs with
  | case1 bs => simp [alternate]
  | case2 a as => simp [alternate]
  | case3 a as b bs ih =>
    rw [alternate]
    exact List.cons_prefix_cons.2 ⟨rfl, List.cons_prefix_cons.2 ⟨rfl, ih⟩⟩

/-- Two rows can be told from the row that they are in turns, if their lengths are known. -/
theorem interleave_inj {as as' bs bs' : List α} (ha : as.length = as'.length)
    (hb : bs.length = bs'.length) (h : interleave as bs = interleave as' bs') :
    as = as' ∧ bs = bs' := by
  induction as generalizing as' bs bs' with
  | nil =>
    have has' : as' = [] := List.length_eq_zero_iff.1 ha.symm
    subst has'
    exact ⟨rfl, h⟩
  | cons a as ih =>
    cases as' with
    | nil => cases ha
    | cons a' as' =>
      cases bs with
      | nil =>
        have hbs' : bs' = [] := List.length_eq_zero_iff.1 hb.symm
        subst hbs'
        exact ⟨h, rfl⟩
      | cons b bs =>
        cases bs' with
        | nil => cases hb
        | cons b' bs' =>
          have hcons : a :: b :: interleave as bs = a' :: b' :: interleave as' bs' := h
          injection hcons with hhead htail
          injection htail with hhead' hrest
          obtain ⟨has, hbs⟩ := ih (by simpa using ha) (by simpa using hb) hrest
          rw [hhead, hhead', has, hbs]
          exact ⟨rfl, rfl⟩

end Rows

/-! ## Shapes -/

namespace Node

/-- The two nodes differ in their children only. -/
abbrev SameShape : Node → Node → Prop := Alike fun _ _ => True

theorem SameShape.refl (n : Node) : SameShape n n := .of_parts fun _ _ => trivial

theorem SameShape.id_eq_of_kind_ne {n n' : Node} (h : SameShape n n') (hkind : n.kind ≠ .watch) :
    n'.id = n.id := by
  cases h with
  | watch observer h => exact absurd rfl hkind
  | _ => rfl

/-- A watch has the identifier of the node under it. -/
theorem SameShape.map_id_children_of_kind_eq {n n' : Node} (h : SameShape n n')
    (hkind : n.kind = .watch) : n'.children.map Node.id = [n'.id] := by
  cases h with
  | watch observer h => rfl
  | _ => cases hkind

/-- The children can be told from their list, since the shape says how many there are of each
sort. -/
theorem Alike.eq_of_passOrder_eq {R : Node → Node → Prop} {n n' : Node} (h : Alike R n n')
    (horder : n.passOrder = n'.passOrder) : n = n' := by
  cases h with
  | map id hk hv =>
    obtain ⟨hkeys, hvals⟩ := interleave_inj hk.length_eq hv.length_eq horder
    rw [hkeys, hvals]
  | list id h =>
    have helems := horder
    simp only [passOrder, children] at helems
    rw [helems]
  | _ => simp_all [passOrder, children]

end Node

/-! ## Actions that may fail and that change a state -/

section Run

variable {ε σ α β : Type}

/-- Runs an action from a state. It has an outcome and leaves a state behind. -/
def runFrom (x : ExceptT ε (StateM σ) α) (s : σ) : Except ε α × σ := x.run.run s

variable {x : ExceptT ε (StateM σ) α} {f : α → ExceptT ε (StateM σ) β} {s s₁ s₂ : σ}

theorem runFrom_map (g : α → β) (x : ExceptT ε (StateM σ) α) (s : σ) :
    runFrom (g <$> x) s = ((runFrom x s).1.map g, (runFrom x s).2) := by
  unfold runFrom
  rw [ExceptT.run_map, StateT.run_map]
  rfl

theorem runFrom_bind_of_ok {a : α} (h : runFrom x s = (.ok a, s₁)) :
    runFrom (x >>= f) s = runFrom (f a) s₁ := by
  unfold runFrom at h ⊢
  rw [ExceptT.run_bind, StateT.run_bind, h]
  rfl

theorem runFrom_bind_of_error {e : ε} (h : runFrom x s = (.error e, s₁)) :
    runFrom (x >>= f) s = (.error e, s₁) := by
  unfold runFrom at h ⊢
  rw [ExceptT.run_bind, StateT.run_bind, h]
  rfl

theorem runFrom_bind_eq_ok_iff {b : β} :
    runFrom (x >>= f) s = (.ok b, s₂) ↔
      ∃ a s₁, runFrom x s = (.ok a, s₁) ∧ runFrom (f a) s₁ = (.ok b, s₂) := by
  cases h : runFrom x s with
  | mk outcome s₁ =>
    cases outcome with
    | error e => simp [runFrom_bind_of_error h]
    | ok a => simp [runFrom_bind_of_ok h]

end Run

/-! ## Callbacks -/

/-- What a child is replaced by. A callback may fail, and its answers may depend on the calls
before. -/
abbrev Callback (ε σ : Type) := Node → ExceptT ε (StateM σ) Node

namespace Callback

variable {ε σ τ : Type}

/-- The callback, which also writes down the nodes that it is called on. -/
def noting (f : Callback ε σ) : Callback ε (σ × List Node) := fun c =>
  ExceptT.mk fun (s, called) =>
    let (answer, s') := runFrom (f c) s
    (answer, s', called ++ [c])

/-- The nodes that the callback is called on when a node is rebuilt, in the order of the calls. -/
def calls (f : Callback ε σ) (n : Node) (s : σ) : List Node :=
  (runFrom (n.mapChildren f.noting) (s, [])).2.2

/-- The second callback after the first one. They share nothing: each has a state of its own. -/
def andThen (f : Callback ε σ) (g : Callback ε τ) : Callback ε (σ × τ) := fun c =>
  ExceptT.mk fun (s, t) =>
    match runFrom (f c) s with
    | (.error e, s') => (.error e, s', t)
    | (.ok c', s') =>
      let (answer, t') := runFrom (g c') t
      (answer, s', t')

variable {f : Callback ε σ} {g : Callback ε τ} {s s₁ s₂ : σ} {t t₁ : τ}

theorem runFrom_noting {c : Node} {answer : Except ε Node}
    (h : runFrom (f c) s = (answer, s₁)) (called : List Node) :
    runFrom (f.noting c) (s, called) = (answer, s₁, called ++ [c]) := by
  show ((runFrom (f c) s).1, (runFrom (f c) s).2, called ++ [c]) = (answer, s₁, called ++ [c])
  rw [h]

theorem runFrom_andThen {c c₁ c₂ : Node} (hf : runFrom (f c) s = (.ok c₁, s₁))
    (hg : runFrom (g c₁) t = (.ok c₂, t₁)) :
    runFrom (f.andThen g c) (s, t) = (.ok c₂, s₁, t₁) := by
  show (match runFrom (f c) s with
    | (.error e, s') => (.error e, s', t)
    | (.ok c', s') => ((runFrom (g c') t).1, s', (runFrom (g c') t).2)) = (.ok c₂, s₁, t₁)
  rw [hf]
  show ((runFrom (g c₁) t).1, s₁, (runFrom (g c₁) t).2) = (.ok c₂, s₁, t₁)
  rw [hg]

/-! ### Calls in a row -/

/-- A row of calls is answered if the first call is and the others are, from there on. -/
theorem runFrom_mapM_cons_eq_ok_iff {c : Node} {cs answers : List Node} :
    runFrom ((c :: cs).mapM f) s = (.ok answers, s₂) ↔
      ∃ c' s₁ cs', runFrom (f c) s = (.ok c', s₁) ∧ runFrom (cs.mapM f) s₁ = (.ok cs', s₂) ∧
        c' :: cs' = answers := by
  rw [List.mapM_cons, runFrom_bind_eq_ok_iff]
  constructor
  · rintro ⟨c', s₁, hc, h⟩
    obtain ⟨cs', s₂', hcs, h⟩ := runFrom_bind_eq_ok_iff.1 h
    cases h
    exact ⟨c', s₁, cs', hc, hcs, rfl⟩
  · rintro ⟨c', s₁, cs', hc, hcs, rfl⟩
    exact ⟨c', s₁, hc, runFrom_bind_eq_ok_iff.2 ⟨cs', s₂, hcs, rfl⟩⟩

/-- The first failure is the last call. -/
theorem runFrom_mapM_of_failure {before answers : List Node} {c : Node} {e : ε}
    (hbefore : runFrom (before.mapM f) s = (.ok answers, s₁))
    (hc : runFrom (f c) s₁ = (.error e, s₂)) (after : List Node) :
    runFrom ((before ++ c :: after).mapM f) s = (.error e, s₂) := by
  have hrest : runFrom ((c :: after).mapM f) s₁ = (.error e, s₂) := by
    rw [List.mapM_cons, runFrom_bind_of_error hc]
  rw [List.mapM_append, runFrom_bind_of_ok hbefore, runFrom_bind_of_error hrest]

/-- Either every call is answered, or one is the first that fails. -/
theorem runFrom_mapM_cases (f : Callback ε σ) (cs : List Node) (s : σ) :
    (∃ cs' s', runFrom (cs.mapM f) s = (.ok cs', s')) ∨
      ∃ before c after answers s₁ e s₂, cs = before ++ c :: after ∧
        runFrom (before.mapM f) s = (.ok answers, s₁) ∧ runFrom (f c) s₁ = (.error e, s₂) := by
  induction cs generalizing s with
  | nil => exact .inl ⟨[], s, rfl⟩
  | cons c cs ih =>
    cases hc : runFrom (f c) s with
    | mk answer s₁ =>
      cases answer with
      | error e => exact .inr ⟨[], c, cs, [], s, e, s₁, rfl, rfl, hc⟩
      | ok c' =>
        have hcons : ∀ {cs cs' s₂}, runFrom (cs.mapM f) s₁ = (.ok cs', s₂) →
            runFrom ((c :: cs).mapM f) s = (.ok (c' :: cs'), s₂) := fun hcs =>
          runFrom_mapM_cons_eq_ok_iff.2 ⟨c', s₁, _, hc, hcs, rfl⟩
        rcases ih s₁ with ⟨cs', s₂, hcs⟩ | ⟨before, d, after, answers, s₂, e, s₃, rfl, hbefore, hd⟩
        · exact .inl ⟨c' :: cs', s₂, hcons hcs⟩
        · exact .inr ⟨c :: before, d, after, c' :: answers, s₂, e, s₃, rfl, hcons hbefore, hd⟩

/-- A row of calls that are answered is written down as it is. -/
theorem runFrom_mapM_noting {cs cs' : List Node} (h : runFrom (cs.mapM f) s = (.ok cs', s₁))
    (called : List Node) :
    runFrom (cs.mapM f.noting) (s, called) = (.ok cs', s₁, called ++ cs) := by
  induction cs generalizing s cs' called with
  | nil =>
    cases h
    rw [List.append_nil]
    rfl
  | cons c cs ih =>
    obtain ⟨c', s₂, cs'', hc, hcs, rfl⟩ := runFrom_mapM_cons_eq_ok_iff.1 h
    have hrest := ih hcs (called ++ [c])
    rw [List.append_assoc] at hrest
    exact runFrom_mapM_cons_eq_ok_iff.2 ⟨c', _, cs'', runFrom_noting hc called, hrest, rfl⟩

/-- Calling one callback along a row and another one along the answers is calling the one after the
other. -/
theorem runFrom_mapM_andThen {cs cs₁ cs₂ : List Node}
    (hf : runFrom (cs.mapM f) s = (.ok cs₁, s₁)) (hg : runFrom (cs₁.mapM g) t = (.ok cs₂, t₁)) :
    runFrom (cs.mapM (f.andThen g)) (s, t) = (.ok cs₂, s₁, t₁) := by
  induction cs generalizing s cs₁ cs₂ t with
  | nil =>
    cases hf
    cases hg
    rfl
  | cons c cs ih =>
    obtain ⟨c₁, s', cs₁', hc, hcs, rfl⟩ := runFrom_mapM_cons_eq_ok_iff.1 hf
    obtain ⟨c₂, t', cs₂', hc', hcs', rfl⟩ := runFrom_mapM_cons_eq_ok_iff.1 hg
    exact runFrom_mapM_cons_eq_ok_iff.2 ⟨c₂, _, cs₂', runFrom_andThen hc hc', ih hcs hcs', rfl⟩

/-! ### Rebuilding -/

open Node

theorem runFrom_mapM_passOrder (f : Callback ε σ) (n : Node) (s : σ) :
    runFrom (n.passOrder.mapM f) s =
      ((runFrom (n.mapChildren f) s).1.map passOrder, (runFrom (n.mapChildren f) s).2) := by
  rw [← map_passOrder_mapChildren, runFrom_map]

theorem sameShape_of_runFrom {n n' : Node} (h : runFrom (n.mapChildren f) s = (.ok n', s₁)) :
    SameShape n n' := by
  have hreturns : Returns (n.mapChildren f) n' := ⟨s, congrArg Prod.fst h⟩
  exact (alike_of_mapChildren (.run ε σ) hreturns).imp_of_mem fun _ _ _ _ => trivial

/-- A node is rebuilt if all calls are answered, and the answers take the places of its parts. -/
theorem runFrom_mapChildren_eq_ok_iff {n n' : Node} :
    runFrom (n.mapChildren f) s = (.ok n', s₁) ↔
      SameShape n n' ∧ runFrom (n.passOrder.mapM f) s = (.ok n'.passOrder, s₁) := by
  rw [runFrom_mapM_passOrder]
  cases h : runFrom (n.mapChildren f) s with
  | mk outcome s₂ =>
    cases outcome with
    | error e => simp [Except.map]
    | ok n₁ =>
      have hshape : SameShape n n₁ := sameShape_of_runFrom h
      simp only [Except.map, Prod.mk.injEq, Except.ok.injEq]
      constructor
      · rintro ⟨rfl, rfl⟩
        exact ⟨hshape, rfl, rfl⟩
      · rintro ⟨hn', horder, rfl⟩
        have hboth : SameShape n₁ n' := hshape.symm.trans hn' fun _ _ _ _ _ => trivial
        exact ⟨hboth.eq_of_passOrder_eq horder, rfl⟩

theorem runFrom_mapChildren_eq_error_iff {n : Node} {e : ε} :
    runFrom (n.mapChildren f) s = (.error e, s₁) ↔
      runFrom (n.passOrder.mapM f) s = (.error e, s₁) := by
  rw [runFrom_mapM_passOrder]
  cases runFrom (n.mapChildren f) s with
  | mk outcome s₂ => cases outcome <;> simp [Except.map]

theorem calls_eq (f : Callback ε σ) (n : Node) (s : σ) :
    f.calls n s = (runFrom (n.passOrder.mapM f.noting) (s, [])).2.2 := by
  rw [runFrom_mapM_passOrder, calls]

/-- What comes of rebuilding a node with a callback that is called on these nodes, one after the
other. Either all calls are answered and the answers take the places of the nodes, or the first
failure is the last call, and the failure of the whole. -/
inductive Rebuilds (f : Callback ε σ) (s : σ) (n : Node) (order : Node → List Node) : Prop
  | answered {n' : Node} {s' : σ} (hrun : runFrom (n.mapChildren f) s = (.ok n', s'))
      (hcalls : f.calls n s = order n)
      (hanswers : runFrom ((order n).mapM f) s = (.ok (order n'), s'))
      (hkind : n'.kind = n.kind) (hid : n.kind ≠ .watch → n'.id = n.id)
      (hwatch : n.kind = .watch → n'.children.map Node.id = [n'.id])
  | failed {before after answers : List Node} {c : Node} {e : ε} {s₁ s₂ : σ}
      (horder : order n = before ++ c :: after)
      (hanswers : runFrom (before.mapM f) s = (.ok answers, s₁))
      (hfailure : runFrom (f c) s₁ = (.error e, s₂))
      (hrun : runFrom (n.mapChildren f) s = (.error e, s₂)) (hcalls : f.calls n s = before ++ [c])

/-- Rebuilding goes through the parts of a node in the order of a pass, and through its children if
that is their order in all nodes of the shape. -/
theorem rebuilds {n : Node} {order : Node → List Node}
    (horder : ∀ n', SameShape n n' → n'.passOrder = order n') (f : Callback ε σ) (s : σ) :
    Rebuilds f s n order := by
  have hn : n.passOrder = order n := horder n (.refl n)
  rcases runFrom_mapM_cases f n.passOrder s with
    ⟨cs', s', hcs⟩ | ⟨before, c, after, answers, s₁, e, s₂, hsplit, hbefore, hc⟩
  · have hcalls : f.calls n s = order n := by
      rw [calls_eq, runFrom_mapM_noting hcs, List.nil_append, hn]
    cases hrun : runFrom (n.mapChildren f) s with
    | mk outcome s'' =>
      cases outcome with
      | error e =>
        rw [runFrom_mapChildren_eq_error_iff.1 hrun] at hcs
        cases hcs
      | ok n' =>
        obtain ⟨hshape, hanswers⟩ := runFrom_mapChildren_eq_ok_iff.1 hrun
        rw [hn, horder n' hshape] at hanswers
        exact .answered hrun hcalls hanswers hshape.kind_eq hshape.id_eq_of_kind_ne
          hshape.map_id_children_of_kind_eq
  · have hfailed := runFrom_mapM_of_failure hbefore hc after
    have hnoted := runFrom_mapM_of_failure (runFrom_mapM_noting hbefore [])
      (runFrom_noting hc ([] ++ before)) after
    rw [← hsplit] at hfailed hnoted
    have hcalls : f.calls n s = before ++ [c] := by
      rw [calls_eq, hnoted, List.nil_append]
    exact .failed (hn ▸ hsplit) hbefore hc (runFrom_mapChildren_eq_error_iff.2 hfailed) hcalls

/-- Rebuilding with one callback and then with another is rebuilding with the one after the other. -/
theorem runFrom_mapChildren_andThen {n n₁ n₂ : Node}
    (hf : runFrom (n.mapChildren f) s = (.ok n₁, s₁))
    (hg : runFrom (n₁.mapChildren g) t = (.ok n₂, t₁)) :
    runFrom (n.mapChildren (f.andThen g)) (s, t) = (.ok n₂, s₁, t₁) := by
  obtain ⟨hshape, hanswers⟩ := runFrom_mapChildren_eq_ok_iff.1 hf
  obtain ⟨hshape', hanswers'⟩ := runFrom_mapChildren_eq_ok_iff.1 hg
  have hboth : SameShape n n₂ := hshape.trans hshape' fun _ _ _ _ _ => trivial
  exact runFrom_mapChildren_eq_ok_iff.2 ⟨hboth, runFrom_mapM_andThen hanswers hanswers'⟩

/-- Rebuilding a node calls the callback on its children, in their order and up to the first failure,
and puts the answers in their places. A callback that answers with what it is called on leaves the
node as it is, and two rebuildings in which no call fails are one. A malformed map is gone through
place by place, a key and a value as long as there are any, so that the children come first and the
surplus after them. -/
theorem rebuilds_children :
    (∀ n : Node, n.Balanced → ∀ (ε σ : Type) (f : Callback ε σ) (s : σ), f.Rebuilds s n children) ∧
      (∀ (ε σ : Type) (n : Node) (s : σ),
        runFrom (n.mapChildren (pure : Callback ε σ)) s = (.ok n, s)) ∧
      (∀ (ε σ τ : Type) (f : Callback ε σ) (g : Callback ε τ) (n n₁ n₂ : Node) (s s₁ : σ) (t t₁ : τ),
        runFrom (n.mapChildren f) s = (.ok n₁, s₁) → runFrom (n₁.mapChildren g) t = (.ok n₂, t₁) →
          runFrom (n.mapChildren (f.andThen g)) (s, t) = (.ok n₂, s₁, t₁)) ∧
      ∀ (id : NodeId) (keys vals : List Node),
        ((map id keys vals).passOrder = (List.range (max keys.length vals.length)).flatMap fun i =>
          keys[i]?.toList ++ vals[i]?.toList) ∧
        (map id keys vals).children <+: (map id keys vals).passOrder ∧
        ∀ (ε σ : Type) (f : Callback ε σ) (s : σ), f.Rebuilds s (map id keys vals) passOrder := by
  refine ⟨fun n hn ε σ f s => ?_, fun ε σ n s => ?_, fun ε σ τ f g n n₁ n₂ s s₁ t t₁ hf hg => ?_,
    fun id keys vals => ⟨?_, ?_, fun ε σ f s => ?_⟩⟩
  · have horder : ∀ n', SameShape n n' → n'.passOrder = n'.children := fun n' hshape =>
      passOrder_eq_children (hshape.balanced_iff.1 hn)
    exact rebuilds horder f s
  · rw [mapChildren_pure]
    rfl
  · exact runFrom_mapChildren_andThen hf hg
  · exact interleave_eq_flatMap_range keys vals
  · exact alternate_prefix_interleave keys vals
  · exact rebuilds (fun _ _ => rfl) f s

/-- A callback that counts its calls, puts a watch around each child and fails at one of them. In a
map it comes to that child after the key and the value before it. In a malformed map it comes to all
values, and when the map is rebuilt twice, each count is its own. -/
theorem rebuilds_children_countedMap :
    let wrap : Callback String Nat := fun c => ExceptT.mk fun count =>
      (if c.id = ⟨3⟩ then .error "stop" else .ok (watch .tracker c), count + 1)
    let leaf (raw : UInt32) : Node := const ⟨raw⟩ .null
    let once (raw : UInt32) : Node := watch .tracker (leaf raw)
    let twice (raw : UInt32) : Node := watch .tracker (once raw)
    let entries := map ⟨1⟩ [leaf 2, leaf 3] [leaf 4, leaf 5]
    let surplus := map ⟨1⟩ [leaf 2] [leaf 4, leaf 5, leaf 6]
    (entries.Balanced ∧ wrap.Rebuilds 0 entries children ∧
      wrap.calls entries 0 = [leaf 2, leaf 4, leaf 3] ∧
      runFrom (entries.mapChildren wrap) 0 = (.error "stop", 3)) ∧
    (runFrom (surplus.mapChildren wrap) 0 =
        (.ok (map ⟨1⟩ [once 2] [once 4, once 5, once 6]), 4) ∧
      runFrom ((map ⟨1⟩ [once 2] [once 4, once 5, once 6]).mapChildren wrap) 7 =
        (.ok (map ⟨1⟩ [twice 2] [twice 4, twice 5, twice 6]), 11) ∧
      runFrom (surplus.mapChildren (wrap.andThen wrap)) (0, 7) =
        (.ok (map ⟨1⟩ [twice 2] [twice 4, twice 5, twice 6]), 4, 11)) ∧
    (wrap.Rebuilds 0 surplus passOrder ∧
      wrap.calls surplus 0 = [leaf 2, leaf 4, leaf 5, leaf 6]) := by
  intro wrap leaf once twice entries surplus
  obtain ⟨hchildren, -, htwice, hmaps⟩ := rebuilds_children
  have hentries : wrap.Rebuilds 0 entries children := hchildren entries rfl String Nat wrap 0
  have hsurplus := (hmaps ⟨1⟩ [leaf 2] [leaf 4, leaf 5, leaf 6]).2.2 String Nat wrap 0
  exact ⟨⟨rfl, hentries, rfl, rfl⟩, ⟨rfl, rfl, htwice _ _ _ _ _ _ _ _ _ _ _ _ rfl rfl⟩,
    hsurplus, rfl⟩

end Callback

end TreeEval
