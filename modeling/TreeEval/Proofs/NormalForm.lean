import TreeEval.Proofs.ComputeAhead

/-!
# The order of built-in decorators

At one node the built-in decorators obey a few laws. The two that rewrite commute, and doing one of
them twice is doing it once. Behind an observer they find a watch, which they leave alone. So a list
of built-in decorators has a normal form, `Builtin.normalForm`: at most one of each rewrite, those
in front of the first observer, and then the observers. `apply_normalForm` says that a pipeline
plans every tree as its normal form does, be the outcome a tree or an error.
-/

namespace TreeEval

/-! ## Laws at one node -/

namespace Node

@[simp] theorem madeExhaustive_madeExhaustive (n : Node) :
    n.madeExhaustive.madeExhaustive = n.madeExhaustive := by
  cases n with
  | logical id mode connective lhs rhs => cases mode <;> rfl
  | conditional id mode cond truthy falsy => cases mode <;> rfl
  | fold id mode accuVar iterVar range init cond step result => cases mode <;> rfl
  | _ => rfl

/-- What has been computed ahead has no second mode, or has been left as it was. -/
theorem ComputedAhead.madeExhaustive_eq {n t' : Node} (h : ComputedAhead n t')
    (hn : n.madeExhaustive = n) : t'.madeExhaustive = t' := by
  cases h with
  | unchanged => exact hn
  | _ => rfl

end Node

namespace Builtin

open Node

/-- Whether the decorator only observes. -/
def isObserver : Builtin → Bool
  | observe _ => true
  | _ => false

/-- A second computation ahead finds nothing to do. -/
theorem rewrite_computeAhead_eq_ok {n t' : Node} (h : computeAhead.rewrite n = .ok t') :
    computeAhead.rewrite t' = .ok t' := by
  cases computedAhead_of_rewrite h with
  | unchanged => exact h
  | _ => rfl

/-- Computing ahead and making exhaustive deal with different nodes. -/
theorem rewrite_computeAhead_madeExhaustive (n : Node) :
    computeAhead.rewrite n.madeExhaustive =
      computeAhead.rewrite n >>= fun t' => .ok t'.madeExhaustive := by
  by_cases hn : n.madeExhaustive = n
  · rw [hn]
    cases h : computeAhead.rewrite n with
    | error e => rfl
    | ok t' =>
      have ht' := (computedAhead_of_rewrite h).madeExhaustive_eq hn
      show Except.ok t' = .ok t'.madeExhaustive
      rw [ht']
  · -- only nodes with two modes are made exhaustive, and of these nothing is computed ahead
    cases n with
    | logical id mode connective lhs rhs => cases mode <;> rfl
    | conditional id mode cond truthy falsy => cases mode <;> rfl
    | fold id mode accuVar iterVar range init cond step result => cases mode <;> rfl
    | _ => exact absurd rfl hn

/-- Behind an observer a rewrite finds a watch and leaves it alone. -/
theorem rewrite_watch {b : Builtin} (h : b.isObserver = false) (o : Observer) (n : Node) :
    b.rewrite (.watch o n) = .ok (.watch o n) := by
  cases b with
  | observe observer => cases h
  | _ => rfl

/-! ## Lists of decorators -/

/-- What some decorators put in the place of a node, each on what the one before it returned. -/
def rewriteAll (bs : List Builtin) (n : Node) : Except PlanError Node :=
  bs.foldlM (fun n b => b.rewrite n) n

@[simp] theorem rewriteAll_nil (n : Node) : rewriteAll [] n = .ok n := rfl

@[simp] theorem rewriteAll_cons (b : Builtin) (bs : List Builtin) (n : Node) :
    rewriteAll (b :: bs) n = b.rewrite n >>= rewriteAll bs := rfl

theorem rewriteAll_append (bs bs' : List Builtin) (n : Node) :
    rewriteAll (bs ++ bs') n = rewriteAll bs n >>= rewriteAll bs' := by
  rw [rewriteAll, List.foldlM_append]
  rfl

/-- Each of the two rewrites at most once. -/
def rewriteOnce (made ahead : Bool) (n : Node) : Except PlanError Node :=
  let n := if made then n.madeExhaustive else n
  if ahead then computeAhead.rewrite n else .ok n

theorem rewriteOnce_madeExhaustive (made ahead : Bool) (n : Node) :
    rewriteOnce made ahead n.madeExhaustive = rewriteOnce true ahead n := by
  cases made <;> simp [rewriteOnce]

theorem computeAhead_bind_rewriteOnce (made ahead : Bool) (n : Node) :
    computeAhead.rewrite n >>= rewriteOnce made ahead = rewriteOnce made true n := by
  have hcomm := rewrite_computeAhead_madeExhaustive n
  cases h : computeAhead.rewrite n with
  | error e =>
    rw [h] at hcomm
    cases made with
    | false => exact h.symm
    | true => exact hcomm.symm
  | ok t' =>
    -- what comes out is computed ahead already, also after it has been made exhaustive
    rw [h] at hcomm
    have hdone := rewrite_computeAhead_eq_ok h
    have hmade : computeAhead.rewrite t'.madeExhaustive = .ok t'.madeExhaustive :=
      rewrite_computeAhead_eq_ok hcomm
    cases made with
    | false =>
      cases ahead with
      | false => exact h.symm
      | true => exact hdone.trans h.symm
    | true =>
      cases ahead with
      | false => exact hcomm.symm
      | true => exact hmade.trans hcomm.symm

/-- Neither the order nor the number of rewrites matters. -/
theorem rewriteAll_eq_rewriteOnce {bs : List Builtin} (h : ∀ b ∈ bs, b.isObserver = false)
    (n : Node) :
    rewriteAll bs n = rewriteOnce (makeExhaustive ∈ bs) (computeAhead ∈ bs) n := by
  induction bs generalizing n with
  | nil => rfl
  | cons b bs ih =>
    have hrest : rewriteAll bs = rewriteOnce (makeExhaustive ∈ bs) (computeAhead ∈ bs) :=
      funext (ih fun b' hb' => h b' (List.mem_cons_of_mem _ hb'))
    rw [rewriteAll_cons, hrest]
    cases b with
    | observe o => exact absurd (h _ List.mem_cons_self) nofun
    | makeExhaustive =>
      rw [rewrite_makeExhaustive]
      refine (rewriteOnce_madeExhaustive _ _ n).trans ?_
      simp
    | computeAhead =>
      refine (computeAhead_bind_rewriteOnce _ _ n).trans ?_
      simp

/-- Behind an observer only the observers count. -/
theorem rewriteAll_watch (bs : List Builtin) (o : Observer) (n : Node) :
    rewriteAll bs (.watch o n) = rewriteAll (bs.filter isObserver) (.watch o n) := by
  induction bs generalizing o n with
  | nil => rfl
  | cons b bs ih =>
    cases hb : b.isObserver with
    | false =>
      rw [List.filter_cons_of_neg (by simp [hb]), rewriteAll_cons, rewrite_watch hb]
      exact ih o n
    | true =>
      obtain ⟨o', rfl⟩ : ∃ o', b = observe o' := by
        cases b with
        | observe o' => exact ⟨o', rfl⟩
        | _ => cases hb
      rw [List.filter_cons_of_pos hb, rewriteAll_cons, rewriteAll_cons, rewrite_observe]
      exact ih o' _

/-! ## The normal form -/

/-- The decorators in front of the first observer. -/
def front (bs : List Builtin) : List Builtin := bs.takeWhile fun b => !b.isObserver

/-- The rewrites of a list, each once and in a fixed order. -/
def rewritesOf (bs : List Builtin) : List Builtin :=
  (if makeExhaustive ∈ bs then [makeExhaustive] else []) ++
    (if computeAhead ∈ bs then [computeAhead] else [])

/-- What counts of a list of decorators: the rewrites in front of the first observer, and all
observers. -/
def normalForm (bs : List Builtin) : List Builtin :=
  rewritesOf (front bs) ++ bs.filter isObserver

theorem mem_rewritesOf {bs : List Builtin} {b : Builtin} :
    b ∈ rewritesOf bs ↔ b.isObserver = false ∧ b ∈ bs := by
  cases b <;> simp [rewritesOf, isObserver]

theorem isObserver_of_mem_front {bs : List Builtin} {b : Builtin} (h : b ∈ front bs) :
    b.isObserver = false := by
  simpa using List.all_eq_true.1 List.all_takeWhile b h

/-- Behind its front, a list of decorators is as good as its observers. -/
theorem rewriteAll_eq_front_bind (bs : List Builtin) (n : Node) :
    rewriteAll bs n = rewriteAll (front bs) n >>= rewriteAll (bs.filter isObserver) := by
  induction bs generalizing n with
  | nil => rfl
  | cons b bs ih =>
    cases b with
    | observe o => exact rewriteAll_watch bs o n
    | _ =>
      show rewriteAll (_ :: bs) n =
        rewriteAll (_ :: front bs) n >>= rewriteAll (bs.filter isObserver)
      rw [rewriteAll_cons, rewriteAll_cons, bind_assoc, funext ih]

/-- At one node, a list of decorators does what its normal form does. -/
theorem rewriteAll_normalForm (bs : List Builtin) (n : Node) :
    rewriteAll (normalForm bs) n = rewriteAll bs n := by
  rw [rewriteAll_eq_front_bind bs, normalForm, rewriteAll_append]
  congr 1
  have hfront : ∀ b ∈ front bs, b.isObserver = false := fun _ hb => isObserver_of_mem_front hb
  have hrewrites : ∀ b ∈ rewritesOf (front bs), b.isObserver = false := fun _ hb =>
    (mem_rewritesOf.1 hb).1
  rw [rewriteAll_eq_rewriteOnce hfront, rewriteAll_eq_rewriteOnce hrewrites]
  simp [mem_rewritesOf, isObserver]

/-- Pipelines that rewrite every node alike visit every node alike. -/
theorem visit_congr {bs bs' : List Builtin} (h : ∀ n, rewriteAll bs n = rewriteAll bs' n) :
    visit bs = visit bs' := by
  funext n
  show (Plan.checkArity n).outcome.1 >>= (fun _ => rewriteAll bs n) = _
  rw [h]
  rfl

/-- Rewriting a node twice in the same way is rewriting it once. -/
theorem visit_append_self {bs : List Builtin} (h : ∀ b ∈ bs, b.isObserver = false) :
    visit (bs ++ bs) = visit bs := by
  have hboth : ∀ b ∈ bs ++ bs, b.isObserver = false := by simpa using h
  refine visit_congr fun n => ?_
  rw [rewriteAll_eq_rewriteOnce h, rewriteAll_eq_rewriteOnce hboth]
  simp

theorem visit_normalForm (bs : List Builtin) : visit (normalForm bs) = visit bs :=
  visit_congr (rewriteAll_normalForm bs)

/-- Pipelines of built-in decorators do what their normal forms do, at every node and to every tree.
So the two rewrites commute, each of them is idempotent, and behind an observer they are idle. -/
theorem apply_normalForm (bs : List Builtin) :
    (∀ n, ((Pipeline.ofBuiltins bs).visit n).outcome.1 =
        ((Pipeline.ofBuiltins (normalForm bs)).visit n).outcome.1) ∧
      ∀ t, ((Pipeline.ofBuiltins bs).apply t).outcome.1 =
        ((Pipeline.ofBuiltins (normalForm bs)).apply t).outcome.1 := by
  refine ⟨fun n => ?_, fun t => ?_⟩
  · rw [(gives_visit bs n).outcome, (gives_visit (normalForm bs) n).outcome, visit_normalForm]
  · rw [apply_ofBuiltins, apply_ofBuiltins, visit_normalForm]

example (a b : Observer) :
    normalForm [computeAhead, observe a, makeExhaustive, observe b, computeAhead] =
      [computeAhead, observe a, observe b] := rfl

end Builtin

end TreeEval
