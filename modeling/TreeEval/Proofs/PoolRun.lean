import TreeEval.Program
import TreeEval.Proofs.Watching

/-!
# Runs over a pool

A run works with the slots that earlier loops have left behind, and yet it computes what is computed
with fresh slots. It gives back every slot that it takes, whichever way a loop ends. In between, the
slots in use are those of the loops around the visit that is made: `Machine.Performs` counts them
from the number at the start of some computation, so that the parts of a loop can be put together.
-/

namespace TreeEval

namespace Machine

/-- Started with `j` slots in use besides `base` others, the computation returns the value of `y`
and ends with `k` slots in use besides the others. Its reports are those of `y`, with the others
added to the slots in use. -/
def Performs {α : Type} (base j k : Nat) (x : StateM Machine α) (y : Logged Report α) : Prop :=
  ∀ machine : Machine, machine.pool.outstanding = base + j →
    (x.run machine).1 = y.value ∧
      (x.run machine).2.pool.outstanding = base + k ∧
      (x.run machine).2.reports.toList = machine.reports.toList ++ y.log.map (.above base)

namespace Performs

variable {α β γ : Type} {base i j k : Nat}

theorem congr {x : StateM Machine α} {y y' : Logged Report α} (h : Performs base j k x y)
    (hy : y = y') : Performs base j k x y' := hy ▸ h

theorem pure (a : α) : Performs base k k (pure a) (pure a) :=
  fun _ h => ⟨rfl, h, (List.append_nil _).symm⟩

/-- A computation goes on from a first result, of which only a part may be known. -/
theorem map_bind {δ : Type} (p : α → δ) (q : β → δ) {x : StateM Machine α} {y : Logged Report β}
    {f : α → StateM Machine γ} {g : β → Logged Report γ}
    (hx : Performs base i j (p <$> x) (q <$> y))
    (hf : ∀ a, p a = q y.value → Performs base j k (f a) (g y.value)) :
    Performs base i k (x >>= f) (y >>= g) := by
  intro machine hmachine
  obtain ⟨hvalue, hslots, hreports⟩ := hx machine hmachine
  obtain ⟨hvalue', hslots', hreports'⟩ := hf (x.run machine).1 hvalue (x.run machine).2 hslots
  refine ⟨hvalue', hslots', hreports'.trans ?_⟩
  have hstate : (x.run machine).2.reports.toList =
      machine.reports.toList ++ y.log.map (.above base) := by
    rw [← Logged.log_map q y]
    exact hreports
  rw [hstate, Logged.log_bind, List.map_append, List.append_assoc]

theorem bind {x : StateM Machine α} {y : Logged Report α} {f : α → StateM Machine β}
    {g : α → Logged Report β} (hx : Performs base i j x y)
    (hf : Performs base j k (f y.value) (g y.value)) : Performs base i k (x >>= f) (y >>= g) := by
  refine map_bind (j := j) id id ?_ fun a ha => ?_
  · rwa [id_map, id_map]
  · have ha' : a = y.value := ha
    rwa [ha']

theorem map (f : α → β) {x : StateM Machine α} {y : Logged Report α} (h : Performs base i j x y) :
    Performs base i j (f <$> x) (f <$> y) := by
  rw [map_eq_pure_bind, map_eq_pure_bind]
  exact h.bind (.pure _)

theorem checkout (name : String) :
    Performs base k (k + 1) (Host.checkout name) (Pure.pure ⟨name, none⟩) := by
  intro machine hmachine
  refine ⟨Scratch.Pool.fst_checkout machine.pool name, ?_, (List.append_nil _).symm⟩
  show (machine.pool.checkout name).2.outstanding = base + (k + 1)
  rw [Scratch.Pool.outstanding_checkout, hmachine, Nat.add_assoc]

theorem checkout_bind {name : String} {f : Scratch.Slot → StateM Machine α} {y : Logged Report α}
    (hf : Performs base (i + 1) k (f ⟨name, none⟩) y) :
    Performs base i k (Host.checkout name >>= f) y :=
  .congr (bind (g := fun _ => y) (checkout name) hf) (pure_bind _ _)

theorem release (slot : Scratch.Slot) :
    Performs base (k + 1) k (Host.release slot) (Pure.pure ()) := by
  intro machine hmachine
  refine ⟨rfl, ?_, (List.append_nil _).symm⟩
  show (machine.pool.release slot).outstanding = base + k
  rw [Scratch.Pool.outstanding_release, hmachine]
  rfl

theorem release_bind {slot : Scratch.Slot} {f : Unit → StateM Machine α} {y : Logged Report α}
    (hf : Performs base i k (f ()) y) : Performs base (i + 1) k (Host.release slot >>= f) y :=
  .congr (bind (g := fun _ => y) (release slot) hf) (pure_bind _ _)

theorem report (observer : Observer) (id : NodeId) (value : Value) :
    Performs base k k (Host.report observer id value) ⟨(), [⟨⟨observer, id, value⟩, k⟩]⟩ := by
  intro machine hmachine
  refine ⟨rfl, hmachine, ?_⟩
  show (machine.reports.push ⟨⟨observer, id, value⟩, machine.pool.outstanding⟩).toList = _
  rw [Array.toList_push, hmachine]
  rfl

/-- More slots may be in use from the start on, and are then in use at every report. -/
theorem above {x : StateM Machine α} {y : Logged Report α} (h : ∀ base, Performs base 0 0 x y) :
    Performs base k k x (y.above k) := by
  intro machine hmachine
  obtain ⟨hvalue, hslots, hreports⟩ := h (base + k) machine hmachine
  refine ⟨hvalue, hslots, hreports.trans ?_⟩
  have habove : Report.above (base + k) = Report.above base ∘ Report.above k := by
    funext r
    rw [Report.above, Nat.add_assoc]
    rfl
  rw [habove, ← List.map_map]
  rfl

end Performs

/-- The computations that leave `k` slots in use besides `base` others. -/
def level (base k : Nat) : MonadRel (StateM Machine) (Logged Report) where
  Rel := Performs base k k
  rel_pure := .pure
  rel_bind hx hf := hx.bind (hf _)

/-- The turns of a loop, whose two slots are in use already. -/
theorem Performs.iterate {base : Nat} {mode : Mode} {accuVar iterVar : String}
    {cond step : Scratch.Slot → Scratch.Slot → StateM Machine Value}
    {cond' step' : Value → Value → Logged Report Value}
    (hc : ∀ accu item base, Performs base 0 0 (cond ⟨accuVar, some accu⟩ ⟨iterVar, some item⟩)
      (cond' accu item))
    (hs : ∀ accu item base, Performs base 0 0 (step ⟨accuVar, some accu⟩ ⟨iterVar, some item⟩)
      (step' accu item)) (items : List Value) (start : Value) (old : Option Value) :
    Performs base 2 2
      (Prod.fst <$> mode.iterate cond step items ⟨accuVar, some start⟩ ⟨iterVar, old⟩)
      ((fun last => ⟨accuVar, some last⟩) <$>
        mode.loop (fun accu item => (cond' accu item).above 2)
          (fun accu item => (step' accu item).above 2) items start) := by
  rw [Mode.fst_iterate]
  refine .map _ ?_
  exact Mode.rel_loop (level base 2) mode (fun accu item => .above (hc accu item))
    (fun accu item => .above (hs accu item)) items start

/-- What can be said of the host that recycles slots. -/
def description : Host.Description (StateM Machine) where
  Rel x y := ∀ base, Performs base 0 0 x y
  rel_pure a _ := .pure a
  rel_bind hx hf base := (hx base).bind (hf _ base)
  rel_report observer id value _ := .report observer id value
  rel_fold := by
    intro mode accuVar iterVar items init cond step result init' cond' step' result' hi hc hs hres
      base
    have hresult : ∀ last iter, Performs base 2 0
        (do
          let value ← result ⟨accuVar, some last⟩
          Host.release iter
          Host.release ⟨accuVar, some last⟩
          pure value)
        ((result' last).above 2) := fun last iter =>
      .congr (.bind (.above (hres last)) <| .release_bind <| .release_bind <| .pure _)
        (bind_pure _)
    refine .checkout_bind <| .bind (.above hi) <| .checkout_bind ?_
    refine .map_bind Prod.fst _ (.iterate hc hs items _ none) ?_
    rintro ⟨accu, iter⟩ rfl
    exact hresult _ iter

end Machine

namespace Node

/-- A node that reports all visits of another one does so in every run, with the slots in use at the
start on top. -/
theorem Observed.run {os : List Observer} {n n' : Node} (h : Observed os n n') (act : Activation)
    (machine : Machine) :
    ((n'.run act).run machine).1 = n.eval act ∧
      ((n'.run act).run machine).2.pool.outstanding = machine.pool.outstanding ∧
      ((n'.run act).run machine).2.reports.toList =
        machine.reports.toList ++ (n.placedVisits act).flatMap fun v =>
          (v.reports os).map (.above machine.pool.outstanding) := by
  obtain ⟨hvalue, hslots, hreports⟩ :=
    h.rel Machine.description act machine.pool.outstanding machine rfl
  refine ⟨hvalue, hslots, hreports.trans ?_⟩
  rw [told, List.map_flatMap]

end Node

/-- A batch has the values that its activations have on their own, whatever was run before. -/
theorem Session.values_evalBatch (s : Session) (acts : List Activation) :
    (s.evalBatch acts).1 = acts.map s.program.root.eval := by
  induction acts generalizing s with
  | nil => rfl
  | cons act acts ih =>
    have hvalue : (s.eval act).1.value = s.program.root.eval act :=
      ((Node.observed_self s.program.root).run act ⟨s.pool, #[]⟩).1
    show (s.eval act).1.value :: ((s.eval act).2.evalBatch acts).1 = _
    rw [ih, hvalue]
    rfl

namespace Node

/-- The pool makes no difference to what a tree is evaluated to, and a run leaves as many slots in
use as it has found, whichever way its loops end. What is in use during the run can be seen with a
watch around every node: at every visit, these are the slots in use before the run and those of the
loops around the visit. So the activations of a batch have their values in any order. -/
theorem run_eq_eval (t : Node) (act : Activation) (machine : Machine) :
    ((t.run act).run machine).1 = t.eval act ∧
      ((t.run act).run machine).2.pool.outstanding = machine.pool.outstanding ∧
      (∀ observer : Observer,
        (((t.watchedThroughout [observer]).run act).run machine).1 = t.eval act ∧
          (((t.watchedThroughout [observer]).run act).run machine).2.reports.toList =
            machine.reports.toList ++ (t.placedVisits act).flatMap fun v =>
              (v.node.ownObservers ++ [observer]).map fun o =>
                ⟨⟨o, v.node.id, v.value⟩,
                  machine.pool.outstanding + (v.inside.map LoopPart.slots).sum⟩) ∧
      ∀ (hasState : Bool) (pool : Scratch.Pool) (state : EvalState) (acts : List Activation),
        (Session.evalBatch ⟨⟨t, hasState⟩, pool, state⟩ acts).1 = acts.map t.eval := by
  obtain ⟨hvalue, hslots, -⟩ := (observed_self t).run act machine
  refine ⟨hvalue, hslots, fun observer => ?_, fun _ _ _ acts => Session.values_evalBatch _ acts⟩
  obtain ⟨hvalue', -, hreports⟩ :=
    (observed_watchedThroughout [observer] t).run act machine
  refine ⟨hvalue', hreports.trans (congrArg _ (List.flatMap_congr fun v _ => ?_))⟩
  rw [PlacedVisit.reports, List.map_map]
  rfl

/-- A loop in the step of a loop, in a pool of which five slots are in use. -/
example :
    let inner := fold ⟨6⟩ .shortCircuit "b" "y" (list ⟨7⟩ []) (const ⟨8⟩ .null) (const ⟨9⟩ .null)
      (const ⟨10⟩ .null) (ident ⟨11⟩ "a")
    let outer := fold ⟨1⟩ .shortCircuit "a" "x" (list ⟨2⟩ [const ⟨3⟩ .null]) (const ⟨4⟩ .null)
      (const ⟨5⟩ .null) inner (ident ⟨12⟩ "a")
    let machine : Machine := ⟨⟨[⟨"b", none⟩], 1, 5⟩, #[]⟩
    ((outer.watchedThroughout [.values "o"]).run .empty machine).2.reports.toList.map
        (fun r => (r.id.raw, r.inUse)) =
      [(3, 5), (2, 5), (4, 6), (5, 7), (7, 7), (8, 8), (11, 9), (6, 7), (12, 7), (1, 5)] := by
  decide +kernel

end Node

end TreeEval
