import TreeEval.Eval.Pure
import TreeEval.Eval.Trace

/-!
# Loops without slots

A loop keeps its variables in scratch slots, but all that its iterations hand on is the value of the
accumulator. `Mode.loop` runs the iterations on that value alone, and `evalM_fold` says that on a
host that does nothing with slots this is how a loop is evaluated. `Mode.turns` lists the values
that the loop variables take on the way.
-/

namespace TreeEval

/-- Where the condition and the step of a loop are evaluated: the item lies in front of the
accumulator, and both in front of everything else. -/
def Activation.inLoop (accuVar iterVar : String) (accu item : Value) (act : Activation) :
    Activation :=
  .frame iterVar (some item) (.frame accuVar (some accu) act)

/-- The iterations of a loop, from one value of the accumulator to the last one. -/
def Mode.loop {m : Type → Type} [Monad m] (mode : Mode) (cond step : Value → Value → m Value) :
    List Value → Value → m Value
  | [], accu => pure accu
  | item :: rest, accu => do
    let go ← cond accu item
    if mode.stopsAt go then pure accu
    else
      let next ← step accu item
      mode.loop cond step rest next

theorem Mode.loop_cons (mode : Mode) (cond step : Value → Value → Value) (item : Value)
    (rest : List Value) (accu : Value) :
    mode.loop (m := Id) cond step (item :: rest) accu =
      if mode.stopsAt (cond accu item) then accu
      else mode.loop (m := Id) cond step rest (step accu item) := rfl

/-- What holds of the accumulator at the start and is kept by every step holds at the end. -/
theorem Mode.loop_invariant {P : Value → Prop} (mode : Mode) {cond step : Value → Value → Value}
    {items : List Value} (hstep : ∀ item ∈ items, ∀ accu, P accu → P (step accu item))
    {accu : Value} (haccu : P accu) : P (mode.loop (m := Id) cond step items accu) := by
  induction items generalizing accu with
  | nil => exact haccu
  | cons item rest ih =>
    rw [Mode.loop_cons]
    split
    · exact haccu
    · exact ih (fun i hi => hstep i (List.mem_cons_of_mem _ hi))
        (hstep item List.mem_cons_self accu haccu)

/-- The turns of a loop: the accumulator and the item for which its condition is evaluated, turn by
turn. -/
def Mode.turns (mode : Mode) (cond step : Value → Value → Value) :
    List Value → Value → List (Value × Value)
  | [], _ => []
  | item :: rest, accu =>
    (accu, item) ::
      if mode.stopsAt (cond accu item) then [] else mode.turns cond step rest (step accu item)

/-- A loop that takes notes computes what it would compute without, and notes in every turn what its
condition notes and, unless it stops there, what its step notes. -/
theorem Mode.loop_eq_turns {ω : Type} (mode : Mode) (cond step : Value → Value → Logged ω Value)
    (items : List Value) (accu : Value) :
    mode.loop cond step items accu =
      ⟨mode.loop (m := Id) (fun accu item => (cond accu item).value)
          (fun accu item => (step accu item).value) items accu,
        (mode.turns (fun accu item => (cond accu item).value)
          (fun accu item => (step accu item).value) items accu).flatMap fun turn =>
            (cond turn.1 turn.2).log ++
              if mode.stopsAt (cond turn.1 turn.2).value then []
              else (step turn.1 turn.2).log⟩ := by
  induction items generalizing accu with
  | nil => rfl
  | cons item rest ih =>
    rw [Mode.loop, Mode.loop_cons, Mode.turns]
    by_cases hstop : mode.stopsAt (cond accu item).value = true
    · ext <;> simp [hstop]
    · ext <;> simp [hstop, ih]

/-- Loops that agree in every turn on whether to stop are the same, be they of different modes. -/
theorem Mode.loop_congr_mode {ω : Type} {mode mode' : Mode}
    {cond step : Value → Value → Logged ω Value} {items : List Value} {accu : Value}
    (h : ∀ turn ∈ mode.turns (fun accu item => (cond accu item).value)
        (fun accu item => (step accu item).value) items accu,
      mode'.stopsAt (cond turn.1 turn.2).value = mode.stopsAt (cond turn.1 turn.2).value) :
    mode.loop cond step items accu = mode'.loop cond step items accu := by
  induction items generalizing accu with
  | nil => rfl
  | cons item rest ih =>
    rw [Mode.turns, List.forall_mem_cons] at h
    obtain ⟨hstop, hrest⟩ := h
    have hnext : mode.stopsAt (cond accu item).value = false →
        mode.loop cond step rest (step accu item).value =
          mode'.loop cond step rest (step accu item).value := by
      intro hgo
      rw [if_neg (by simp [hgo])] at hrest
      exact ih hrest
    rw [Mode.loop, Mode.loop]
    by_cases hgo : mode.stopsAt (cond accu item).value = true
    · ext : 1 <;> simp [hstop, hgo]
    · rw [Bool.not_eq_true] at hgo
      ext : 1 <;> simp [hstop, hgo, hnext hgo]

section

variable {m : Type → Type} [Monad m]

/-- The slot of the accumulator after a loop holds the last value, under its own name. -/
theorem Mode.fst_iterate [LawfulMonad m] (mode : Mode)
    (cond step : Scratch.Slot → Scratch.Slot → m Value) (accuVar iterVar : String)
    (items : List Value) (accu : Value) (old : Option Value) :
    Prod.fst <$> mode.iterate cond step items ⟨accuVar, some accu⟩ ⟨iterVar, old⟩ =
      (fun last => ⟨accuVar, some last⟩) <$>
        mode.loop (fun accu item => cond ⟨accuVar, some accu⟩ ⟨iterVar, some item⟩)
          (fun accu item => step ⟨accuVar, some accu⟩ ⟨iterVar, some item⟩) items accu := by
  induction items generalizing accu old with
  | nil => simp only [Mode.iterate, Mode.loop, map_pure]
  | cons item rest ih =>
    -- the slot of the item is written before the condition reads it, whatever it held
    simp only [Mode.iterate, Mode.loop, Scratch.Slot.set, map_bind]
    congr 1
    funext go
    split
    · simp only [map_pure]
    · simp only [map_bind, ih]

/-- A host on which every loop has slots of its own, and giving one back does nothing. -/
class Host.Slotless (m : Type → Type) [Monad m] [Host m] : Prop where
  checkout_eq (name : String) : Host.checkout name = (pure ⟨name, none⟩ : m Scratch.Slot)
  release_eq (slot : Scratch.Slot) : Host.release slot = (pure () : m Unit)

instance : Host.Slotless Id := ⟨fun _ => rfl, fun _ => rfl⟩

instance : Host.Slotless Traced := ⟨fun _ => rfl, fun _ => rfl⟩

/-- Of the two slots that a loop has, only what the accumulator holds is ever read. -/
theorem Host.Slotless.fold_eq [LawfulMonad m] [Host m] [Host.Slotless m] (mode : Mode)
    (accuVar iterVar : String) (items : List Value) (init : m Value)
    (cond step : Scratch.Slot → Scratch.Slot → m Value) (result : Scratch.Slot → m Value) :
    (do
      let accu ← Host.checkout accuVar
      let start ← init
      let iter ← Host.checkout iterVar
      let (accu, iter) ← mode.iterate cond step items (accu.set start) iter
      let value ← result accu
      Host.release iter
      Host.release accu
      pure value) =
    (do
      let start ← init
      let last ← mode.loop (fun accu item => cond ⟨accuVar, some accu⟩ ⟨iterVar, some item⟩)
        (fun accu item => step ⟨accuVar, some accu⟩ ⟨iterVar, some item⟩) items start
      result ⟨accuVar, some last⟩) := by
  simp only [checkout_eq, release_eq, pure_bind, bind_pure]
  congr 1
  funext start
  calc
    _ = Prod.fst <$> mode.iterate cond step items ⟨accuVar, some start⟩ ⟨iterVar, none⟩ >>=
        result := by
      rw [bind_map_left]
      rfl
    _ = _ := by rw [Mode.fst_iterate, bind_map_left]

theorem Node.evalM_fold [LawfulMonad m] [Host m] [Host.Slotless m] (id : NodeId) (mode : Mode)
    (accuVar iterVar : String) (range init cond step result : Node) (act : Activation) :
    (fold id mode accuVar iterVar range init cond step result).evalM act = (do
      let range ← range.evalM act
      match range.items? with
      | none => pure (range.orFail (.notIterable range.type.name))
      | some items =>
        let start ← init.evalM act
        let last ← mode.loop (fun accu item => cond.evalM (act.inLoop accuVar iterVar accu item))
          (fun accu item => step.evalM (act.inLoop accuVar iterVar accu item)) items start
        result.evalM (.frame accuVar (some last) act) : m Value) := by
  rw [evalM]
  congr 1
  funext value
  cases value.items? with
  | none => rfl
  | some items =>
    exact Host.Slotless.fold_eq mode accuVar iterVar items (init.evalM act)
      (fun accu iter => cond.evalM (iter.scope (accu.scope act)))
      (fun accu iter => step.evalM (iter.scope (accu.scope act)))
      (fun accu => result.evalM (accu.scope act))

end

/-- The value of a loop. -/
theorem Node.eval_fold (id : NodeId) (mode : Mode) (accuVar iterVar : String)
    (range init cond step result : Node) (act : Activation) :
    (fold id mode accuVar iterVar range init cond step result).eval act =
      match (range.eval act).items? with
      | none => (range.eval act).orFail (.notIterable (range.eval act).type.name)
      | some items =>
        result.eval (.frame accuVar (some
          (mode.loop (m := Id) (fun accu item => cond.eval (act.inLoop accuVar iterVar accu item))
            (fun accu item => step.eval (act.inLoop accuVar iterVar accu item)) items
            (init.eval act))) act) := by
  rw [eval, evalM_fold]
  rfl

end TreeEval
