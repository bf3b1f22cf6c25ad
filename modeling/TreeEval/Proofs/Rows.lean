import Mathlib.Data.List.Forall2
import TreeEval.Node.Postorder

/-!
# Rows of actions

The children of a node are rebuilt by actions that are run in a row, or in two rows that take turns.
What such rows return, their actions have returned one by one: `Returning` is what it takes to say
so for actions of any kind, be it that they may fail, that they change a state, or both.
-/

namespace TreeEval

theorem forall_mem_of_forall₂ {α β : Type} {P : β → Prop} {xs : List α} {ys : List β}
    (h : List.Forall₂ (fun _ y => P y) xs ys) : ∀ y ∈ ys, P y := by
  induction h with
  | nil => exact nofun
  | cons hy _ ih => exact List.forall_mem_cons.2 ⟨hy, ih⟩

/-- What is known of the members of the left row may be used to weaken the relation. -/
theorem forall₂_imp_of_mem {α β : Type} {R S : α → β → Prop} {xs : List α} {ys : List β}
    (h : List.Forall₂ R xs ys) (hRS : ∀ x ∈ xs, ∀ y, R x y → S x y) : List.Forall₂ S xs ys :=
  ((List.forall₂_and_left _ _).2 ⟨hRS, h⟩).imp fun _ y hx => hx.1 y hx.2

/-- Rows that are related to one row in between are related. -/
theorem forall₂_trans {α β γ : Type} {R : α → β → Prop} {S : β → γ → Prop} {T : α → γ → Prop}
    {xs : List α} {ys : List β} {zs : List γ} (h : List.Forall₂ R xs ys)
    (h' : List.Forall₂ S ys zs) (hRST : ∀ x y z, R x y → S y z → T x z) :
    List.Forall₂ T xs zs := by
  induction h generalizing zs with
  | nil =>
    cases h'
    exact .nil
  | cons hxy _ ih =>
    cases h' with
    | cons hyz hrest => exact .cons (hRST _ _ _ hxy hyz) (ih hrest)

/-! ## What actions return -/

/-- A way to say what an action may return: what a sequence of two steps may return, the second step
may return after something that the first step may return. -/
structure Returning (m : Type → Type) [Monad m] where
  /-- The action may return the value. -/
  mayReturn {α : Type} : m α → α → Prop
  eq_of_pure {α : Type} {a b : α} : mayReturn (pure a) b → a = b
  exists_of_bind {α β : Type} {x : m α} {f : α → m β} {b : β} :
    mayReturn (x >>= f) b → ∃ a, mayReturn x a ∧ mayReturn (f a) b

namespace Returning

variable {m : Type → Type} [Monad m] (r : Returning m) {α β : Type}

theorem forall₂_inOrder {f : α → m β} {as : List α} {bs : List β}
    (h : r.mayReturn (inOrder (as.map f)) bs) :
    List.Forall₂ (fun a b => r.mayReturn (f a) b) as bs := by
  induction as generalizing bs with
  | nil =>
    rw [← r.eq_of_pure h]
    exact .nil
  | cons a as ih =>
    obtain ⟨b, hb, h⟩ := r.exists_of_bind h
    obtain ⟨bs', hbs', h⟩ := r.exists_of_bind h
    rw [← r.eq_of_pure h]
    exact .cons hb (ih hbs')

theorem forall₂_inTurns {f : α → m β} {as cs : List α} {bs ds : List β}
    (h : r.mayReturn (inTurns (as.map f) (cs.map f)) (bs, ds)) :
    List.Forall₂ (fun a b => r.mayReturn (f a) b) as bs ∧
      List.Forall₂ (fun a b => r.mayReturn (f a) b) cs ds := by
  induction as generalizing cs bs ds with
  | nil =>
    obtain ⟨ds', hds', h⟩ := r.exists_of_bind h
    cases r.eq_of_pure h
    exact ⟨.nil, r.forall₂_inOrder hds'⟩
  | cons a as ih =>
    cases cs with
    | nil =>
      -- the other row has come to its end, and what is left of this one is run in order
      obtain ⟨bs', hbs', h⟩ := r.exists_of_bind h
      cases r.eq_of_pure h
      have hrow : List.Forall₂ (fun a b => r.mayReturn (f a) b) (a :: as) bs :=
        r.forall₂_inOrder hbs'
      exact ⟨hrow, .nil⟩
    | cons c cs =>
      obtain ⟨b, hb, h⟩ := r.exists_of_bind h
      obtain ⟨d, hd, h⟩ := r.exists_of_bind h
      obtain ⟨⟨bs', ds'⟩, hrest, h⟩ := r.exists_of_bind h
      cases r.eq_of_pure h
      obtain ⟨hbs', hds'⟩ := ih hrest
      exact ⟨.cons hb hbs', .cons hd hds'⟩

end Returning

/-! ## Rows of actions that succeed -/

section Except

variable {ε α β : Type}

/-- A sequence of two steps succeeds if both steps do. -/
theorem bind_eq_ok_iff {x : Except ε α} {f : α → Except ε β} {b : β} :
    x >>= f = .ok b ↔ ∃ a, x = .ok a ∧ f a = .ok b := by
  cases x with
  | error e => simp [bind, Except.bind]
  | ok a => simp [bind, Except.bind]

theorem pure_eq_ok_iff {a b : α} : (pure a : Except ε α) = .ok b ↔ a = b := by
  simp [pure, Except.pure]

/-- An action that may fail returns what it succeeds with. -/
def Returning.success (ε : Type) : Returning (Except ε) where
  mayReturn x a := x = .ok a
  eq_of_pure := pure_eq_ok_iff.1
  exists_of_bind := bind_eq_ok_iff.1

theorem inOrder_eq_ok_iff {f : α → Except ε β} {as : List α} {bs : List β} :
    inOrder (as.map f) = .ok bs ↔ List.Forall₂ (fun a b => f a = .ok b) as bs := by
  refine ⟨(Returning.success ε).forall₂_inOrder, fun h => ?_⟩
  induction h with
  | nil => rfl
  | cons hb _ ih =>
    rw [List.map_cons, inOrder, hb, ih]
    rfl

theorem inTurns_eq_ok_iff {f : α → Except ε β} {as cs : List α} {bs ds : List β} :
    inTurns (as.map f) (cs.map f) = .ok (bs, ds) ↔
      List.Forall₂ (fun a b => f a = .ok b) as bs ∧
        List.Forall₂ (fun a b => f a = .ok b) cs ds := by
  refine ⟨(Returning.success ε).forall₂_inTurns, ?_⟩
  rintro ⟨has, hcs⟩
  induction has generalizing cs ds with
  | nil =>
    rw [List.map_nil, inTurns, inOrder_eq_ok_iff.2 hcs]
    rfl
  | cons hb hbs ih =>
    cases hcs with
    | nil =>
      rw [List.map_nil, List.map_cons, inTurns, ← List.map_cons,
        inOrder_eq_ok_iff.2 (.cons hb hbs)]
      · rfl
      · exact nofun
    | cons hd hds =>
      rw [List.map_cons, List.map_cons, inTurns, hb, hd, ih hds]
      rfl

end Except

/-! ## Rows of actions of every kind -/

section Monad

variable {m : Type → Type} [Monad m] [LawfulMonad m] {α β : Type}

theorem inOrder_map_eq_mapM (f : α → m β) (as : List α) : inOrder (as.map f) = as.mapM f := by
  induction as with
  | nil => simp [inOrder]
  | cons a as ih => simp [inOrder, ih]

/-- Two rows in turns are one row, also in what they return. -/
theorem map_interleave_inTurns (f : α → m β) (as bs : List α) :
    (fun r => interleave r.1 r.2) <$> inTurns (as.map f) (bs.map f) =
      (interleave as bs).mapM f := by
  fun_induction interleave as bs with
  | case1 bs => simp [inTurns, inOrder_map_eq_mapM, interleave]
  | case2 a as =>
    show (fun r => interleave r.1 r.2) <$>
      (inOrder ((a :: as).map f) >>= fun as' => pure (as', [])) = (a :: as).mapM f
    simp only [map_bind, map_pure, inOrder_map_eq_mapM, interleave_nil, bind_pure]
  | case3 a as b bs ih =>
    simp only [List.map_cons, inTurns, map_bind, List.mapM_cons, ← ih]
    simp [interleave]

/-! ### Actions without effects -/

theorem inOrder_map_pure (as : List α) : inOrder (as.map pure) = (pure as : m (List α)) := by
  rw [inOrder_map_eq_mapM]
  simpa using List.mapM_pure (m := m) (l := as) (f := id)

theorem inTurns_map_pure (as : List α) (bs : List β) :
    inTurns (as.map pure) (bs.map pure) = (pure (as, bs) : m (List α × List β)) := by
  induction as generalizing bs with
  | nil => simp [inTurns, inOrder_map_pure]
  | cons a as ih =>
    cases bs with
    | nil =>
      show (inOrder ((a :: as).map pure) >>= fun as' => pure (as', [])) =
        (pure (a :: as, []) : m (List α × List β))
      rw [inOrder_map_pure, pure_bind]
    | cons b bs => simp [inTurns, ih]

theorem map_pure_id (xs : List α) : xs.map (pure : α → Id α) = xs :=
  List.map_id xs

theorem inOrder_id (xs : List α) : inOrder (m := Id) xs = xs := by
  have hpure : inOrder (m := Id) (xs.map pure) = xs := inOrder_map_pure xs
  rwa [map_pure_id] at hpure

theorem inTurns_id (xs : List α) (ys : List β) : inTurns (m := Id) xs ys = (xs, ys) := by
  have hpure : inTurns (m := Id) (xs.map pure) (ys.map pure) = (xs, ys) := inTurns_map_pure xs ys
  rwa [map_pure_id, map_pure_id] at hpure

/-! ### Actions whose results are dropped -/

theorem discard_eq_bind (x : m α) : discard x = x >>= fun _ => pure () := by
  rw [discard, LawfulFunctor.map_const]
  exact (bind_pure_comp _ x).symm

theorem discard_bind (x : m α) (f : α → m β) :
    discard (x >>= f) = x >>= fun a => discard (f a) := by
  simp only [discard_eq_bind, bind_assoc]

/-- What is made of a result is dropped with it. -/
theorem discard_map (g : α → β) (x : m α) : discard (g <$> x) = discard x := by
  simp only [discard_eq_bind, bind_map_left]

/-- What is dropped is not missed by an action that does not ask for it. -/
theorem discard_bind_const (x : m α) (y : m β) :
    (discard x >>= fun _ => y) = x >>= fun _ => y := by
  simp only [discard_eq_bind, bind_assoc, pure_bind]

theorem discard_mapM (f : α → m β) (as : List α) :
    discard (as.mapM f) = as.forM fun a => discard (f a) := by
  induction as with
  | nil => simp [discard_eq_bind]
  | cons a as ih =>
    show discard ((a :: as).mapM f) = discard (f a) >>= fun _ => as.forM fun a => discard (f a)
    rw [← ih, discard_bind_const, List.mapM_cons, discard_bind]
    refine bind_congr fun b => ?_
    rw [bind_pure_comp, discard_map]

end Monad

end TreeEval
