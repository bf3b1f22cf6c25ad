import TreeEval.Proofs.Loop

/-!
# The accumulators of a loop

Both modes of a loop go through the same values of the accumulator, which `accuAfter` lists. They
only differ in where they leave this sequence. An exhaustive loop takes the value after all items. A
short-circuit loop takes the value that meets the first false condition, before the step that would
follow it, and so ends where an exhaustive loop over fewer items would: `Node.eval_fold_modes`.
-/

namespace TreeEval

/-- The accumulator after a number of steps, each of which takes the next item. -/
def accuAfter (step : Value → Value → Value) (start : Value) (items : List Value) : Nat → Value
  | 0 => start
  | j + 1 =>
    match items[j]? with
    | some item => step (accuAfter step start items j) item
    | none => accuAfter step start items j

/-- A short-circuit loop takes `k` steps: `k` is the place of the first item whose condition is
false, or the number of items if there is none. -/
structure StopsAfter (cond step : Value → Value → Value) (start : Value) (items : List Value)
    (k : Nat) : Prop where
  le_length : k ≤ items.length
  ne_false : ∀ j < k, ∀ item, items[j]? = some item →
    cond (accuAfter step start items j) item ≠ .bool false
  eq_false : ∀ item, items[k]? = some item →
    cond (accuAfter step start items k) item = .bool false

section

variable {cond step : Value → Value → Value} {start item : Value} {items rest : List Value}
  {k : Nat}

/-! ## The sequence of accumulators -/

/-- After the first step, the rest of the items is gone through from the value it gave. -/
theorem accuAfter_cons (step : Value → Value → Value) (start item : Value) (rest : List Value)
    (j : Nat) :
    accuAfter step start (item :: rest) (j + 1) = accuAfter step (step start item) rest j := by
  induction j with
  | zero => rfl
  | succ j ih => rw [accuAfter, ih, List.getElem?_cons_succ, accuAfter]

/-- Items that are not reached do not matter. -/
theorem accuAfter_take {j : Nat} (h : j ≤ k) :
    accuAfter step start (items.take k) j = accuAfter step start items j := by
  induction j with
  | zero => rfl
  | succ j ih =>
    have hlt : j < k := h
    rw [accuAfter, accuAfter, ih (Nat.le_of_lt hlt), List.getElem?_take_of_lt hlt]

/-! ## Where a loop ends -/

theorem stopsAfter_cons_zero :
    StopsAfter cond step start (item :: rest) 0 ↔ cond start item = .bool false := by
  constructor
  · intro h
    exact h.eq_false item rfl
  · intro h
    refine ⟨Nat.zero_le _, fun j hj => absurd hj (Nat.not_lt_zero j), fun i hi => ?_⟩
    have hitem : item = i := Option.some.inj hi
    rw [← hitem]
    exact h

theorem stopsAfter_cons_succ :
    StopsAfter cond step start (item :: rest) (k + 1) ↔
      cond start item ≠ .bool false ∧ StopsAfter cond step (step start item) rest k := by
  constructor
  · intro h
    refine ⟨h.ne_false 0 (Nat.succ_pos k) item rfl, Nat.le_of_succ_le_succ h.le_length, ?_, ?_⟩
    · intro j hj i hi
      have hne := h.ne_false (j + 1) (Nat.succ_lt_succ hj) i hi
      rwa [accuAfter_cons] at hne
    · intro i hi
      have heq := h.eq_false i hi
      rwa [accuAfter_cons] at heq
  · intro h
    obtain ⟨hgo, hrest⟩ := h
    refine ⟨Nat.succ_le_succ hrest.le_length, ?_, ?_⟩
    · intro j hj i hi
      cases j with
      | zero =>
        have hitem : item = i := Option.some.inj hi
        rw [← hitem]
        exact hgo
      | succ j =>
        rw [accuAfter_cons]
        exact hrest.ne_false j (Nat.lt_of_succ_lt_succ hj) i hi
    · intro i hi
      rw [accuAfter_cons]
      exact hrest.eq_false i hi

theorem exists_stopsAfter (cond step : Value → Value → Value) (start : Value)
    (items : List Value) : ∃ k, StopsAfter cond step start items k := by
  induction items generalizing start with
  | nil => exact ⟨0, Nat.le_refl 0, fun j hj => absurd hj (Nat.not_lt_zero j), nofun⟩
  | cons item rest ih =>
    by_cases hstop : cond start item = .bool false
    · exact ⟨0, stopsAfter_cons_zero.2 hstop⟩
    · obtain ⟨k, hk⟩ := ih (step start item)
      exact ⟨k + 1, stopsAfter_cons_succ.2 ⟨hstop, hk⟩⟩

/-! ## What a loop ends with -/

/-- An exhaustive loop takes a step for every item, whatever the conditions are. -/
theorem Mode.loop_exhaustive (cond step : Value → Value → Value) (items : List Value)
    (start : Value) :
    Mode.exhaustive.loop (m := Id) cond step items start =
      accuAfter step start items items.length := by
  induction items generalizing start with
  | nil => rfl
  | cons item rest ih =>
    have hgo : ¬ Mode.exhaustive.stopsAt (cond start item) = true := Bool.false_ne_true
    rw [Mode.loop_cons, if_neg hgo, ih, List.length_cons, accuAfter_cons]

theorem Mode.loop_shortCircuit (h : StopsAfter cond step start items k) :
    Mode.shortCircuit.loop (m := Id) cond step items start = accuAfter step start items k := by
  induction items generalizing start k with
  | nil =>
    have hk : k = 0 := Nat.le_zero.1 h.le_length
    rw [hk]
    rfl
  | cons item rest ih =>
    cases k with
    | zero =>
      have hfalse : cond start item = .bool false := stopsAfter_cons_zero.1 h
      rw [Mode.loop_cons, hfalse]
      rfl
    | succ k =>
      obtain ⟨hgo, hrest⟩ := stopsAfter_cons_succ.1 h
      rw [Mode.loop_cons, Mode.stopsAt_eq_false hgo, if_neg Bool.false_ne_true, ih hrest,
        accuAfter_cons]

end

/-! ## Loops as nodes -/

/-- The item hides an accumulator of the same name, and both hide what the activation says. -/
theorem Activation.lookup_inLoop (accuVar iterVar : String) (accu item : Value) (act : Activation)
    (id : NodeId) (name : String) :
    (act.inLoop accuVar iterVar accu item).lookup id name =
      if iterVar = name then item else if accuVar = name then accu else act.lookup id name := by
  rw [inLoop, lookup_frame, lookup_frame]

namespace Node

variable {items : List Value} {k : Nat}

/-- The value of a part of a loop in a turn. -/
def evalInLoop (n : Node) (accuVar iterVar : String) (act : Activation) (accu item : Value) :
    Value :=
  n.eval (act.inLoop accuVar iterVar accu item)

theorem eval_fold_exhaustive (id : NodeId) (accuVar iterVar : String)
    (range init cond step result : Node) (act : Activation)
    (hitems : (range.eval act).items? = some items) :
    (fold id .exhaustive accuVar iterVar range init cond step result).eval act =
      result.eval (.frame accuVar (some (accuAfter (step.evalInLoop accuVar iterVar act)
        (init.eval act) items items.length)) act) := by
  rw [eval_fold, hitems]
  dsimp only
  rw [Mode.loop_exhaustive]
  rfl

theorem eval_fold_shortCircuit (id : NodeId) (accuVar iterVar : String)
    (range init result : Node) {cond step : Node} (act : Activation)
    (hitems : (range.eval act).items? = some items)
    (hk : StopsAfter (cond.evalInLoop accuVar iterVar act) (step.evalInLoop accuVar iterVar act)
      (init.eval act) items k) :
    (fold id .shortCircuit accuVar iterVar range init cond step result).eval act =
      result.eval (.frame accuVar (some (accuAfter (step.evalInLoop accuVar iterVar act)
        (init.eval act) items k)) act) := by
  rw [eval_fold, hitems]
  exact congrArg (fun last => result.eval (.frame accuVar (some last) act))
    (Mode.loop_shortCircuit hk)

/-- What the two modes of a loop make of its range. Both return a sentinel, and reject any other
range that is no list or map. Otherwise they only differ in how many steps they take. -/
theorem eval_fold_modes (id rangeId : NodeId) (accuVar iterVar : String)
    (range init cond step result : Node) (act : Activation) :
    (∀ accu item reader name, (act.inLoop accuVar iterVar accu item).lookup reader name =
      if iterVar = name then item else if accuVar = name then accu else act.lookup reader name) ∧
    match (range.eval act).items? with
    | none => ∀ mode,
      (fold id mode accuVar iterVar range init cond step result).eval act =
        if (range.eval act).isSentinel then range.eval act
        else .fail (.notIterable (range.eval act).type.name)
    | some items => ∃ k,
      StopsAfter (cond.evalInLoop accuVar iterVar act) (step.evalInLoop accuVar iterVar act)
        (init.eval act) items k ∧
      (fold id .exhaustive accuVar iterVar range init cond step result).eval act =
        result.eval (.frame accuVar (some (accuAfter (step.evalInLoop accuVar iterVar act)
          (init.eval act) items items.length)) act) ∧
      (fold id .shortCircuit accuVar iterVar range init cond step result).eval act =
        result.eval (.frame accuVar (some (accuAfter (step.evalInLoop accuVar iterVar act)
          (init.eval act) items k)) act) ∧
      (fold id .shortCircuit accuVar iterVar range init cond step result).eval act =
        (fold id .exhaustive accuVar iterVar (const rangeId (.list (items.take k))) init cond
          step result).eval act ∧
      ∀ cond',
        (fold id .exhaustive accuVar iterVar range init cond' step result).eval act =
          (fold id .exhaustive accuVar iterVar range init cond step result).eval act := by
  refine ⟨fun accu item => act.lookup_inLoop accuVar iterVar accu item, ?_⟩
  cases hitems : (range.eval act).items? with
  | none =>
    intro mode
    rw [eval_fold, hitems]
    rfl
  | some items =>
    have hall : ∀ cond', _ := fun cond' =>
      eval_fold_exhaustive id accuVar iterVar range init cond' step result act hitems
    obtain ⟨k, hk⟩ := exists_stopsAfter (cond.evalInLoop accuVar iterVar act)
      (step.evalInLoop accuVar iterVar act) (init.eval act) items
    have hstop := eval_fold_shortCircuit id accuVar iterVar range init result act hitems hk
    have hlength : (items.take k).length = k := by
      rw [List.length_take, Nat.min_eq_left hk.le_length]
    have hfirst : ((const rangeId (.list (items.take k))).eval act).items? = some (items.take k) :=
      rfl
    refine ⟨k, hk, hall cond, hstop, ?_, fun cond' => (hall cond').trans (hall cond).symm⟩
    rw [hstop, eval_fold_exhaustive id accuVar iterVar _ init cond step result act hfirst, hlength,
      accuAfter_take (Nat.le_refl k)]

/-- One, two and three, added up while the sum is less than two. -/
example :
    let total := ident ⟨1⟩ "total"
    let loop := fun mode => fold ⟨5⟩ mode "total" "x"
      (const ⟨2⟩ (.list [.int 1, .int 2, .int 3])) (const ⟨3⟩ (.int 0))
      (binary ⟨4⟩ .less total (const ⟨6⟩ (.int 2))) (binary ⟨7⟩ .add total (ident ⟨8⟩ "x")) total
    (loop .shortCircuit).eval .empty = .int 3 ∧ (loop .exhaustive).eval .empty = .int 6 :=
  ⟨rfl, rfl⟩

end Node

end TreeEval
