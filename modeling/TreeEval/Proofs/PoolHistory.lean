import TreeEval.Scratch.Holders

/-!
# The history of a pool

What can be said of a pool after any history of holders who come, set their slots and go, in any
order. `Recorded` is the invariant: how the slots that wait, the holders and the largest number of
holders so far hang together. Its two bounds meet when nobody holds a slot, so then the pool holds
as many slots as there were holders at the same time, as far as its capacity goes.

That a holder finds in its slot what it has set is a matter of that holder's own steps. The rest of
the history does not enter into it, as `slot?_run` says.
-/

namespace TreeEval.Scratch

/-! ## Histories -/

namespace Step

/-- Whether a new holder comes. -/
def isCheckout : Step → Bool
  | checkout _ => true
  | _ => false

/-- The value that a holder sets in this step. -/
def valueSetBy? (holder : Nat) : Step → Option Value
  | set other value => if other = holder then some value else none
  | _ => none

end Step

/-- The number of holders that come, which is the number of the holder that comes next. -/
def arrivals (steps : List Step) : Nat := steps.countP Step.isCheckout

/-- The last value that a holder sets. -/
def lastSetBy? (holder : Nat) (steps : List Step) : Option Value :=
  (steps.filterMap (Step.valueSetBy? holder)).getLast?

namespace Holders

/-- The largest number of holders that have a slot at the same time, from now on. -/
def peak (h : Holders) : List Step → Nat
  | [] => h.live
  | s :: steps => max h.live ((h.step s).peak steps)

@[simp] theorem run_nil (h : Holders) : h.run [] = h := rfl

@[simp] theorem run_cons (h : Holders) (s : Step) (steps : List Step) :
    h.run (s :: steps) = (h.step s).run steps := rfl

theorem run_append (h : Holders) (steps steps' : List Step) :
    h.run (steps ++ steps') = (h.run steps).run steps' := List.foldl_append

/-! ## Steps -/

variable {h : Holders}

theorem slot?_eq_some_iff {holder : Nat} {slot : Slot} :
    h.slot? holder = some slot ↔ h.held[holder]? = some (some slot) := by
  rw [slot?, Option.join_eq_some_iff]

/-- A holder is one of those that have come. -/
theorem lt_size_of_slot? {holder : Nat} {slot : Slot} (hs : h.slot? holder = some slot) :
    holder < h.held.size := (Array.getElem?_eq_some_iff.1 (slot?_eq_some_iff.1 hs)).1

/-- A step of someone without a slot changes nothing. -/
theorem step_set_of_none {holder : Nat} (hs : h.slot? holder = none) (value : Value) :
    h.step (.set holder value) = h := by
  rw [step, hs]

theorem step_release_of_none {holder : Nat} (hs : h.slot? holder = none) :
    h.step (.release holder) = h := by
  rw [step, hs]

theorem step_set_of_some {holder : Nat} {slot : Slot} (hs : h.slot? holder = some slot)
    (value : Value) :
    h.step (.set holder value) =
      ⟨h.pool, h.held.setIfInBounds holder (some (slot.set value))⟩ := by
  rw [step, hs]

theorem step_release_of_some {holder : Nat} {slot : Slot} (hs : h.slot? holder = some slot) :
    h.step (.release holder) = ⟨h.pool.release slot, h.held.setIfInBounds holder none⟩ := by
  rw [step, hs]

theorem step_checkout (name : String) :
    h.step (.checkout name) = ⟨(h.pool.checkout name).2, h.held.push (some ⟨name, none⟩)⟩ := by
  rw [step, ← Pool.fst_checkout h.pool name]

/-! ## Counting holders -/

theorem live_checkout (name : String) : (h.step (.checkout name)).live = h.live + 1 := by
  rw [step_checkout, live, live, Array.toList_push, List.countP_append]
  rfl

/-- Replacing what a holder has changes the count by what the holder counts for. -/
theorem live_setIfInBounds {holder : Nat} {slot : Slot} (hs : h.slot? holder = some slot)
    (pool : Pool) (new : Option Slot) :
    live ⟨pool, h.held.setIfInBounds holder new⟩ + 1 = h.live + if new.isSome then 1 else 0 := by
  obtain ⟨hlt, hget⟩ := Array.getElem?_eq_some_iff.1 (slot?_eq_some_iff.1 hs)
  have hmem : some slot ∈ h.held.toList := Array.mem_toList_iff.2 (hget ▸ Array.getElem_mem hlt)
  have hpos : 0 < h.live := List.countP_pos_iff.2 ⟨some slot, hmem, rfl⟩
  have hcount := List.countP_set (p := Option.isSome) (l := h.held.toList) (a := new) hlt
  rw [Array.getElem_toList, hget] at hcount
  rw [live, Array.toList_setIfInBounds, hcount]
  change 0 < h.held.toList.countP Option.isSome at hpos
  change (h.held.toList.countP Option.isSome - 1) + _ + 1 = h.held.toList.countP Option.isSome + _
  omega

theorem live_set {holder : Nat} {slot : Slot} (hs : h.slot? holder = some slot) (value : Value) :
    (h.step (.set holder value)).live = h.live := by
  rw [step_set_of_some hs]
  exact Nat.add_right_cancel (live_setIfInBounds hs h.pool (some (slot.set value)))

theorem live_release {holder : Nat} {slot : Slot} (hs : h.slot? holder = some slot) :
    (h.step (.release holder)).live + 1 = h.live := by
  rw [step_release_of_some hs]
  exact live_setIfInBounds hs (h.pool.release slot) none

theorem live_le_peak (h : Holders) (steps : List Step) : h.live ≤ h.peak steps := by
  cases steps with
  | nil => exact Nat.le_refl _
  | cons s steps => exact Nat.le_max_left _ _

/-! ## The invariant -/

/-- A pool of capacity `c` and its holders, of whom at most `top` had a slot at the same time. -/
structure Recorded (c top : Nat) (h : Holders) : Prop where
  /-- Every slot in use has a holder. -/
  outstanding_eq : h.pool.outstanding = h.live
  maxRetained_eq : h.pool.maxRetained = c
  retained_le : h.pool.retained ≤ c
  /-- Slots that wait are empty. -/
  value_eq_none : ∀ slot ∈ h.pool.free, slot.value = none
  /-- A slot is forgotten only if as many wait as the pool may keep. -/
  min_le : min c top ≤ h.pool.retained + h.live
  /-- A slot is made only if there is none that waits. -/
  le_top : h.pool.retained + h.live ≤ top

theorem recorded_ofCapacity (c : Nat) : Recorded c 0 (ofPool (.ofCapacity c)) where
  outstanding_eq := rfl
  maxRetained_eq := rfl
  retained_le := Nat.zero_le c
  value_eq_none := nofun
  min_le := Nat.min_le_right c 0
  le_top := Nat.le_refl 0

variable {c top : Nat}

theorem Recorded.checkout (hr : Recorded c top h) (name : String) :
    Recorded c (max top (h.step (.checkout name)).live) (h.step (.checkout name)) := by
  have hlive := live_checkout (h := h) name
  have hretained : (h.step (.checkout name)).pool.retained = h.pool.retained - 1 := by
    rw [step_checkout, Pool.retained, Pool.free_checkout, List.length_tail]
    rfl
  have hout : (h.step (.checkout name)).pool.outstanding = h.pool.outstanding + 1 :=
    Pool.outstanding_checkout h.pool name
  obtain ⟨heq, hmax, hle, hempty, hmin, htop⟩ := hr
  refine ⟨by omega, ?_, by omega, ?_, by omega, by omega⟩
  · exact (Pool.maxRetained_checkout h.pool name).trans hmax
  · intro slot hslot
    rw [step_checkout, Pool.free_checkout] at hslot
    exact hempty slot (List.mem_of_mem_tail hslot)

/-- Nothing has to be recorded if the holders stay the same. -/
theorem Recorded.max_live (hr : Recorded c top h) : Recorded c (max top h.live) h := by
  have htop : max top h.live = top := by
    have := hr.le_top
    omega
  rw [htop]
  exact hr

theorem Recorded.set (hr : Recorded c top h) (holder : Nat) (value : Value) :
    Recorded c (max top (h.step (.set holder value)).live) (h.step (.set holder value)) := by
  cases hs : h.slot? holder with
  | none =>
    rw [step_set_of_none hs]
    exact hr.max_live
  | some slot =>
    rw [live_set hs]
    have hlive := live_set hs value
    obtain ⟨heq, hmax, hle, hempty, hmin, htop⟩ := hr.max_live
    rw [← hlive] at heq hmin htop
    rw [step_set_of_some hs] at hlive heq hmin htop ⊢
    exact ⟨heq, hmax, hle, hempty, hlive ▸ hmin, hlive ▸ htop⟩

theorem Recorded.release (hr : Recorded c top h) (holder : Nat) :
    Recorded c (max top (h.step (.release holder)).live) (h.step (.release holder)) := by
  cases hs : h.slot? holder with
  | none =>
    rw [step_release_of_none hs]
    exact hr.max_live
  | some slot =>
    have hlive := live_release hs
    rw [step_release_of_some hs] at hlive ⊢
    obtain ⟨heq, hmax, hle, hempty, hmin, htop⟩ := hr
    have hout : (h.pool.release slot).outstanding = h.pool.outstanding - 1 :=
      Pool.outstanding_release h.pool slot
    have hretained : (h.pool.release slot).retained =
        if h.pool.retained < c then h.pool.retained + 1 else h.pool.retained := by
      rw [Pool.retained, Pool.free_release, hmax]
      split <;> rfl
    refine ⟨?_, ?_, ?_, ?_, ?_, ?_⟩
    · show (h.pool.release slot).outstanding = _
      omega
    · exact (Pool.maxRetained_release h.pool slot).trans hmax
    · show (h.pool.release slot).retained ≤ c
      rw [hretained]
      split <;> omega
    · intro s hmem
      rw [Pool.free_release] at hmem
      split at hmem
      · rcases List.mem_cons.1 hmem with rfl | hmem
        · rfl
        · exact hempty s hmem
      · exact hempty s hmem
    · show _ ≤ (h.pool.release slot).retained + _
      rw [hretained]
      split <;> omega
    · show (h.pool.release slot).retained + _ ≤ _
      rw [hretained]
      split <;> omega

/-- One step keeps the record, if it takes in how many holders there are afterwards. -/
theorem Recorded.step (hr : Recorded c top h) (s : Step) :
    Recorded c (max top (h.step s).live) (h.step s) := by
  cases s with
  | checkout name => exact hr.checkout name
  | set holder value => exact hr.set holder value
  | release holder => exact hr.release holder

theorem Recorded.run (hr : Recorded c top h) (steps : List Step) :
    Recorded c (max top (h.peak steps)) (h.run steps) := by
  induction steps generalizing h top with
  | nil => exact hr.max_live
  | cons s steps ih =>
    have hrest := ih (hr.step s)
    have htop : max top (h.peak (s :: steps)) =
        max (max top (h.step s).live) ((h.step s).peak steps) := by
      have hnow := hr.le_top
      have hnext := live_le_peak (h.step s) steps
      rw [peak]
      omega
    rw [htop]
    exact hrest

/-! ## What a holder finds in its slot -/

theorem slot?_checkout (name : String) (holder : Nat) :
    (h.step (.checkout name)).slot? holder =
      if holder = h.held.size then some ⟨name, none⟩ else h.slot? holder := by
  rw [step_checkout, slot?, Array.getElem?_push]
  split
  · rfl
  · rfl

theorem slot?_setIfInBounds {other : Nat} (hlt : other < h.held.size) (pool : Pool)
    (new : Option Slot) (holder : Nat) :
    slot? ⟨pool, h.held.setIfInBounds other new⟩ holder =
      if other = holder then new else h.slot? holder := by
  rw [slot?, Array.getElem?_setIfInBounds, if_pos hlt]
  split
  · rfl
  · rfl

/-- A holder without a slot stays without one. -/
theorem slot?_step_of_none {holder : Nat} (hlt : holder < h.held.size)
    (hs : h.slot? holder = none) (s : Step) : (h.step s).slot? holder = none := by
  cases s with
  | checkout name => rw [slot?_checkout, if_neg (Nat.ne_of_lt hlt), hs]
  | set other value =>
    cases hother : h.slot? other with
    | none => rw [step_set_of_none hother, hs]
    | some slot =>
      have hne : other ≠ holder := by
        rintro rfl
        rw [hs] at hother
        cases hother
      rw [step_set_of_some hother, slot?_setIfInBounds (lt_size_of_slot? hother), if_neg hne, hs]
  | release other =>
    cases hother : h.slot? other with
    | none => rw [step_release_of_none hother, hs]
    | some slot =>
      rw [step_release_of_some hother, slot?_setIfInBounds (lt_size_of_slot? hother), hs, ite_self]

/-- A holder that gives its slot back has none. -/
theorem slot?_release (h : Holders) (holder : Nat) :
    (h.step (.release holder)).slot? holder = none := by
  cases hs : h.slot? holder with
  | none => rw [step_release_of_none hs, hs]
  | some slot =>
    rw [step_release_of_some hs, slot?_setIfInBounds (lt_size_of_slot? hs), if_pos rfl]

/-- A step of someone else changes nothing for a holder. A step of its own sets the value. -/
theorem slot?_step {holder : Nat} {name : String} {value : Option Value}
    (hs : h.slot? holder = some ⟨name, value⟩) {s : Step} (hkept : s ≠ .release holder) :
    (h.step s).slot? holder = some ⟨name, (s.valueSetBy? holder).or value⟩ := by
  cases s with
  | checkout name' =>
    rw [slot?_checkout, if_neg (Nat.ne_of_lt (lt_size_of_slot? hs)), hs]
    rfl
  | set other value' =>
    rw [Step.valueSetBy?]
    by_cases hother : other = holder
    · subst hother
      rw [step_set_of_some hs, slot?_setIfInBounds (lt_size_of_slot? hs), if_pos rfl, if_pos rfl]
      rfl
    · rw [if_neg hother, Option.none_or]
      cases hslot : h.slot? other with
      | none => rw [step_set_of_none hslot, hs]
      | some slot =>
        rw [step_set_of_some hslot, slot?_setIfInBounds (lt_size_of_slot? hslot), if_neg hother, hs]
  | release other =>
    have hother : other ≠ holder := fun heq => hkept (heq ▸ rfl)
    show (h.step (.release other)).slot? holder = some ⟨name, value⟩
    cases hslot : h.slot? other with
    | none => rw [step_release_of_none hslot, hs]
    | some slot =>
      rw [step_release_of_some hslot, slot?_setIfInBounds (lt_size_of_slot? hslot), if_neg hother,
        hs]

theorem size_step (h : Holders) (s : Step) :
    (h.step s).held.size = h.held.size + if s.isCheckout then 1 else 0 := by
  cases s with
  | checkout name =>
    rw [step_checkout]
    exact Array.size_push _
  | set holder value =>
    cases hs : h.slot? holder with
    | none => rw [step_set_of_none hs]; rfl
    | some slot => rw [step_set_of_some hs]; exact Array.size_setIfInBounds
  | release holder =>
    cases hs : h.slot? holder with
    | none => rw [step_release_of_none hs]; rfl
    | some slot => rw [step_release_of_some hs]; exact Array.size_setIfInBounds

/-- Holders are numbered as they come. -/
theorem size_run (h : Holders) (steps : List Step) :
    (h.run steps).held.size = h.held.size + arrivals steps := by
  induction steps generalizing h with
  | nil => rfl
  | cons s steps ih =>
    rw [run_cons, ih, size_step, arrivals, arrivals, List.countP_cons]
    omega

theorem lastSetBy?_cons (holder : Nat) (s : Step) (steps : List Step) :
    lastSetBy? holder (s :: steps) = (lastSetBy? holder steps).or (s.valueSetBy? holder) := by
  rw [lastSetBy?, List.filterMap_cons]
  cases s.valueSetBy? holder with
  | none => rw [Option.or_none]; rfl
  | some value =>
    show (value :: _).getLast? = _
    rw [List.getLast?_cons, lastSetBy?]
    cases (steps.filterMap (Step.valueSetBy? holder)).getLast? <;> rfl

/-- As long as a holder has its slot, it finds there the value that it has set last, whatever the
others do. -/
theorem slot?_run {holder : Nat} {name : String} {value : Option Value}
    (hs : h.slot? holder = some ⟨name, value⟩) {steps : List Step}
    (hkept : .release holder ∉ steps) :
    (h.run steps).slot? holder = some ⟨name, (lastSetBy? holder steps).or value⟩ := by
  induction steps generalizing h value with
  | nil => exact hs
  | cons s steps ih =>
    obtain ⟨hne, hrest⟩ := not_or.1 (mt List.mem_cons.2 hkept)
    rw [run_cons, ih (slot?_step hs (Ne.symm hne)) hrest, lastSetBy?_cons, Option.or_assoc]

theorem slot?_run_of_none {holder : Nat} (hlt : holder < h.held.size) (hs : h.slot? holder = none)
    (steps : List Step) : (h.run steps).slot? holder = none := by
  induction steps generalizing h with
  | nil => exact hs
  | cons s steps ih =>
    have hsize := size_step h s
    exact ih (by omega) (slot?_step_of_none hlt hs s)

/-- Who has given the slot back does not have it any more. -/
theorem slot?_run_of_release {holder : Nat} (hlt : holder < h.held.size) {steps : List Step}
    (hmem : .release holder ∈ steps) : (h.run steps).slot? holder = none := by
  induction steps generalizing h with
  | nil => cases hmem
  | cons s steps ih =>
    have hsize := size_step h s
    rcases List.mem_cons.1 hmem with rfl | hmem
    · exact slot?_run_of_none (by omega) (slot?_release h holder) steps
    · exact ih (by omega) hmem

/-! ## Whole histories -/

/-- A pool of any capacity after any history. It counts its holders, and a holder that gives back a
slot is counted. It keeps no more slots than its capacity, all of them empty, and hands out slots
with the name asked for and without a value. Every holder finds in its slot, until it gives it back,
the value that it has set last. And when nobody holds a slot, as many are kept as there were holders
at the same time, as far as the capacity goes. -/
theorem run_ofCapacity (c : Nat) (steps : List Step) :
    let start := ofPool (.ofCapacity c)
    let h := start.run steps
    (h.pool.outstanding = h.live ∧
        ∀ holder, (h.slot? holder).isSome = true → 0 < h.pool.outstanding) ∧
      h.pool.retained ≤ c ∧
      (∀ slot ∈ h.pool.free, slot.value = none) ∧
      (∀ name, (h.pool.checkout name).1 = ⟨name, none⟩) ∧
      (∀ before name after, steps = before ++ .checkout name :: after →
        (.release (arrivals before) ∈ after → h.slot? (arrivals before) = none) ∧
          (.release (arrivals before) ∉ after →
            h.slot? (arrivals before) =
              some ⟨name, lastSetBy? (arrivals before) after⟩)) ∧
      (h.pool.outstanding = 0 → h.pool.retained = min c (start.peak steps)) := by
  intro start h
  have hrecorded : Recorded c (start.peak steps) h := by
    rw [← Nat.zero_max (start.peak steps)]
    exact (recorded_ofCapacity c).run steps
  obtain ⟨heq, -, hle, hempty, hmin, htop⟩ := hrecorded
  refine ⟨⟨heq, fun holder hs => ?_⟩, hle, hempty, h.pool.fst_checkout, ?_, fun hquiet => ?_⟩
  · obtain ⟨slot, hs⟩ := Option.isSome_iff_exists.1 hs
    have hlive := live_release hs
    omega
  · rintro before name after rfl
    -- the holder that comes after `before` gets the next number
    have hsize : (start.run before).held.size = arrivals before :=
      (size_run start before).trans (Nat.zero_add _)
    have hrun : h = ((start.run before).step (.checkout name)).run after := by
      rw [← run_cons, ← run_append]
    have hnew : ((start.run before).step (.checkout name)).slot? (arrivals before) =
        some ⟨name, none⟩ := by
      rw [slot?_checkout, if_pos hsize.symm]
    rw [hrun]
    refine ⟨fun hmem => slot?_run_of_release (lt_size_of_slot? hnew) hmem, fun hkept => ?_⟩
    rw [slot?_run hnew hkept, Option.or_none]
  · have hlive : h.live = 0 := heq.symm.trans hquiet
    omega

/-- Three holders share a pool that keeps one slot. The second one comes and goes while the first
one has its slot, and leaves nothing behind for the third. When all have gone, the pool keeps one
slot, although two were in use at the same time. -/
theorem run_ofCapacity_recycledSlot :
    let steps : List Step := [.checkout "a", .checkout "b", .set 1 (.int 1), .set 0 (.int 2),
      .release 1, .checkout "c"]
    let h := (ofPool (.ofCapacity 1)).run steps
    let quiet := (ofPool (.ofCapacity 1)).run (steps ++ [.release 0, .release 2])
    h.slot? 0 = some ⟨"a", some (.int 2)⟩ ∧ h.slot? 1 = none ∧ h.slot? 2 = some ⟨"c", none⟩ ∧
      quiet.pool.outstanding = 0 ∧ quiet.pool.retained = min 1 2 := by
  intro steps h quiet
  obtain ⟨-, -, -, -, hslots, -⟩ := run_ofCapacity 1 steps
  obtain ⟨-, -, -, -, -, hquiet⟩ := run_ofCapacity 1 (steps ++ [.release 0, .release 2])
  have hfirst := (hslots [] "a" _ rfl).2 (by simp [arrivals])
  have hsecond := (hslots [.checkout "a"] "b" _ rfl).1 (by simp [arrivals, Step.isCheckout])
  have hthird := (hslots (steps.take 5) "c" [] rfl).2 (by simp)
  have hpeak : (ofPool (.ofCapacity 1)).peak (steps ++ [.release 0, .release 2]) = 2 := by decide
  rw [hpeak] at hquiet
  exact ⟨hfirst, hsecond, hthird, rfl, hquiet rfl⟩

end Holders

end TreeEval.Scratch
