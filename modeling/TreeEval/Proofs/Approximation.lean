import TreeEval.Proofs.Visits

/-!
# Two evaluations side by side

Two trees of one shape are evaluated in two activations. If everything that the first evaluation
visits has a counterpart in the second, so has its value. What a counterpart is comes in two
degrees: the same value, or, leniently, any value for an unknown one. `Node.Approx` is the relation
between trees, and `approx_of_alike` says that it passes from the children of a node to the node.

Nothing is assumed of the nodes that the first evaluation skips.
-/

namespace TreeEval

/-! ## Values -/

/-- The second value is the first one, or, leniently, anything in place of an unknown. -/
def Value.Approx (lenient : Bool) (v w : Value) : Prop :=
  (lenient = true ∧ v.isUnknown = true) ∨ v = w

namespace Value

variable {lenient : Bool} {v w : Value}

theorem Approx.refl (v : Value) : v.Approx lenient v := .inr rfl

theorem Approx.eq (h : v.Approx lenient w) (hv : lenient = true → v.isUnknown = false) :
    v = w := by
  rcases h with ⟨hlenient, hu⟩ | rfl
  · rw [hv hlenient] at hu
    cases hu
  · rfl

end Value

namespace Connective

variable {lenient : Bool} {c : Connective} {lhs lhs' rhs rhs' : Value}

theorem approx_combine (hl : lhs.Approx lenient lhs') (hr : rhs.Approx lenient rhs') :
    (c.combine lhs rhs).Approx lenient (c.combine lhs' rhs') := by
  -- an operand that settles the connective is not unknown, so it is the same in both
  by_cases hla : lhs.asBool? = some c.absorbing
  · have heq : lhs = lhs' := hl.eq fun _ => by rw [Value.asBool?_eq_some.1 hla]; rfl
    rw [← heq, combine_of_lhs hla, combine_of_lhs hla]
    exact .refl _
  by_cases hra : rhs.asBool? = some c.absorbing
  · have heq : rhs = rhs' := hr.eq fun _ => by rw [Value.asBool?_eq_some.1 hra]; rfl
    rw [← heq, combine_of_rhs hra, combine_of_rhs hra]
    exact .refl _
  -- otherwise an unknown operand makes the connective unknown, against an error as well
  rcases hl with ⟨hlenient, hu⟩ | rfl
  · exact .inl ⟨hlenient, isUnknown_combine hla hra (.inl hu)⟩
  rcases hr with ⟨hlenient, hu⟩ | rfl
  · exact .inl ⟨hlenient, isUnknown_combine hla hra (.inr hu)⟩
  · exact .refl _

end Connective

namespace Value

variable {lenient : Bool} {cond cond' truthy truthy' falsy falsy' : Value}

/-- Only the branch that the condition selects matters to a ternary. -/
theorem approx_choose (hc : cond.Approx lenient cond')
    (ht : cond.branch = .truthy → truthy.Approx lenient truthy')
    (hf : cond.branch = .falsy → falsy.Approx lenient falsy') :
    (cond.choose truthy falsy).Approx lenient (cond'.choose truthy' falsy') := by
  rcases hc with ⟨hlenient, hu⟩ | rfl
  · exact .inl ⟨hlenient, by rw [choose_of_isUnknown hu, hu]⟩
  · cases hbranch : cond.branch with
    | truthy =>
      rw [choose, choose, hbranch]
      exact ht hbranch
    | falsy =>
      rw [choose, choose, hbranch]
      exact hf hbranch
    | neither value =>
      rw [choose, choose, hbranch]
      exact .refl _

end Value

/-! ## Literals -/

namespace Literal

variable {lenient : Bool} {ω : Type} {good : ω → Prop}

/-- A part of a literal and what comes after it: a sentinel ends the work. -/
theorem approx_unlessSentinel {v v' rest' : Value} {rest : Logged ω Value}
    (h : v.Approx lenient v')
    (hlog : ∀ w ∈ (if v.isSentinel then pure v else rest : Logged ω Value).log, good w)
    (hrest : v = v' → (∀ w ∈ rest.log, good w) → rest.value.Approx lenient rest') :
    (if v.isSentinel then pure v else rest : Logged ω Value).value.Approx lenient
      (if v'.isSentinel then v' else rest') := by
  rcases h with ⟨hlenient, hu⟩ | rfl
  · rw [if_pos (Value.isSentinel_of_isUnknown hu)]
    exact .inl ⟨hlenient, hu⟩
  · by_cases hv : v.isSentinel = true
    · rw [if_pos hv, if_pos hv]
      exact .refl _
    · rw [if_neg hv] at hlog ⊢
      rw [if_neg hv]
      exact hrest rfl hlog

/-- If every element with good notes has a counterpart, so has a list literal with good notes. The
elements after the first sentinel are not computed and leave no notes. -/
theorem approx_listFrom {xs : List (Logged ω Value)} {ys : List Value}
    (h : List.Forall₂ (fun x y => (∀ w ∈ x.log, good w) → x.value.Approx lenient y) xs ys)
    (built : List Value) (hlog : ∀ w ∈ (listFrom xs built).log, good w) :
    (listFrom xs built).value.Approx lenient (listFrom (m := Id) ys built) := by
  induction h generalizing built with
  | nil => exact .refl _
  | @cons x y xs ys hxy _ ih =>
    obtain ⟨hx, hlog⟩ := List.forall_mem_append.1 hlog
    refine approx_unlessSentinel (hxy hx) hlog fun heq hlog => ?_
    rw [heq] at hlog ⊢
    exact ih _ hlog

theorem approx_mapFrom {xs : List (Logged ω Value × Logged ω Value)} {ys : List (Value × Value)}
    (h : List.Forall₂ (fun x y => ((∀ w ∈ x.1.log, good w) → x.1.value.Approx lenient y.1) ∧
      ((∀ w ∈ x.2.log, good w) → x.2.value.Approx lenient y.2)) xs ys)
    (built : OrderedMap Key Value) (hlog : ∀ w ∈ (mapFrom xs built).log, good w) :
    (mapFrom xs built).value.Approx lenient (mapFrom (m := Id) ys built) := by
  induction h generalizing built with
  | nil => exact .refl _
  | @cons x y xs ys hxy _ ih =>
    obtain ⟨hkey, hlog⟩ := List.forall_mem_append.1 hlog
    refine approx_unlessSentinel (hxy.1 hkey) hlog fun hkeys hlog => ?_
    obtain ⟨hvalue, hlog⟩ := List.forall_mem_append.1 hlog
    refine approx_unlessSentinel (hxy.2 hvalue) hlog fun hvalues hlog => ?_
    rw [hkeys, hvalues] at hlog ⊢
    -- equal keys and values make equal entries, so both maps are built further or both fail
    cases hadd : addEntry built y.1 y.2 with
    | error failure => exact .refl _
    | ok built =>
      rw [hadd] at hlog
      exact ih built hlog

theorem approx_list {xs : List (Logged ω Value)} {ys : List Value}
    (h : List.Forall₂ (fun x y => (∀ w ∈ x.log, good w) → x.value.Approx lenient y) xs ys)
    (hlog : ∀ w ∈ (list xs).log, good w) :
    (list xs).value.Approx lenient (list (m := Id) ys) :=
  approx_listFrom h [] hlog

/-- The same for map literals. -/
theorem approx_map {xs us : List (Logged ω Value)} {ys vs : List Value}
    (hk : List.Forall₂ (fun x y => (∀ w ∈ x.log, good w) → x.value.Approx lenient y) xs ys)
    (hv : List.Forall₂ (fun u v => (∀ w ∈ u.log, good w) → u.value.Approx lenient v) us vs)
    (hlog : ∀ w ∈ (map xs us).log, good w) :
    (map xs us).value.Approx lenient (map (m := Id) ys vs) := by
  rw [map] at hlog ⊢
  rw [map, ← hk.length_eq, ← hv.length_eq]
  by_cases hlen : xs.length = us.length
  · rw [if_pos hlen] at hlog ⊢
    rw [if_pos hlen]
    refine approx_mapFrom ?_ _ hlog
    clear hlog hlen
    induction hk generalizing us vs with
    | nil => exact .nil
    | cons hkey _ ih =>
      cases hv with
      | nil => exact .nil
      | cons hvalue hv => exact .cons ⟨hkey, hvalue⟩ (ih hv)
  · rw [if_neg hlen, if_neg hlen]
    exact .refl _

end Literal

/-! ## Loops and scopes -/

section

variable {lenient : Bool}

/-- Loops over the same items that agree in every turn on whether to stop, and whose steps are
counterparts, end with accumulators that are counterparts. Their modes need not be the same. -/
theorem Mode.approx_loop {mode mode' : Mode} {cond cond' step step' : Value → Value → Value}
    {items : List Value} {accu accu' : Value} (h : accu.Approx lenient accu')
    (hturns : ∀ turn ∈ mode.turns cond step items accu, ∀ other, turn.1.Approx lenient other →
      mode'.stopsAt (cond' other turn.2) = mode.stopsAt (cond turn.1 turn.2) ∧
        (mode.stopsAt (cond turn.1 turn.2) = false →
          (step turn.1 turn.2).Approx lenient (step' other turn.2))) :
    (mode.loop (m := Id) cond step items accu).Approx lenient
      (mode'.loop (m := Id) cond' step' items accu') := by
  induction items generalizing accu accu' with
  | nil => exact h
  | cons item rest ih =>
    rw [Mode.turns, List.forall_mem_cons] at hturns
    obtain ⟨hturn, hrest⟩ := hturns
    obtain ⟨hstop, hstep⟩ := hturn accu' h
    rw [Mode.loop_cons, Mode.loop_cons, hstop]
    by_cases hgo : mode.stopsAt (cond accu item) = true
    · rw [if_pos hgo, if_pos hgo]
      exact h
    · rw [if_neg hgo] at hrest
      rw [if_neg hgo, if_neg hgo]
      -- both loops go on, from accumulators that are counterparts again
      exact ih (hstep (by simpa using hgo)) hrest

/-- Every name has a counterpart in the second activation. -/
def Activation.Approx (lenient : Bool) (p f : Activation) : Prop :=
  ∀ id name, (p.lookup id name).Approx lenient (f.lookup id name)

theorem Activation.Approx.frame {p f : Activation} (h : p.Approx lenient f) (own : String)
    {v w : Value} (hvw : v.Approx lenient w) :
    (Activation.frame own (some v) p).Approx lenient (Activation.frame own (some w) f) := by
  intro id name
  rw [Activation.lookup_frame, Activation.lookup_frame]
  split
  · exact hvw
  · exact h id name

theorem Activation.Approx.inLoop {p f : Activation} (h : p.Approx lenient f)
    (accuVar iterVar : String) {accu accu' : Value} (haccu : accu.Approx lenient accu')
    (item : Value) :
    (p.inLoop accuVar iterVar accu item).Approx lenient (f.inLoop accuVar iterVar accu' item) :=
  (h.frame accuVar haccu).frame iterVar (.refl item)

end

/-! ## Trees -/

namespace Node

variable {lenient : Bool} {good : Visit → Prop}

/-- The second tree has a counterpart for the value of the first one, in all activations that are
counterparts, provided that all visits of the first evaluation are good. -/
def Approx (lenient : Bool) (good : Visit → Prop) (n n' : Node) : Prop :=
  ∀ p f : Activation, p.Approx lenient f → (∀ v ∈ n.visits p, good v) →
    (n.eval p).Approx lenient (n'.eval f)

theorem approx_visitEach {ns ns' : List Node} (h : List.Forall₂ (Approx lenient good) ns ns')
    {p f : Activation} (hpf : p.Approx lenient f) :
    List.Forall₂ (fun x y => (∀ v ∈ x.log, good v) → x.value.Approx lenient y) (visitEach ns p)
      (ns'.map fun n => n.eval f) := by
  induction h with
  | nil => exact .nil
  | cons hn _ ih => exact .cons (hn p f hpf) ih

theorem approx_logical {lhs lhs' rhs rhs' : Node} (id : NodeId) (mode mode' : Mode)
    (connective : Connective) (hl : lhs.Approx lenient good lhs')
    (hr : rhs.Approx lenient good rhs') :
    (logical id mode connective lhs rhs).Approx lenient good
      (logical id mode' connective lhs' rhs') := by
  intro p f hpf hvis
  rw [eval_logical, eval_logical]
  cases mode with
  | exhaustive =>
    simp only [visits, List.forall_mem_append] at hvis
    obtain ⟨⟨hvisl, hvisr⟩, _⟩ := hvis
    exact Connective.approx_combine (hl p f hpf hvisl) (hr p f hpf hvisr)
  | shortCircuit =>
    simp only [visits, List.forall_mem_append] at hvis
    obtain ⟨⟨hvisl, hvisr⟩, _⟩ := hvis
    have hlhs : (lhs.eval p).Approx lenient (lhs'.eval f) := hl p f hpf hvisl
    by_cases hla : (lhs.eval p).asBool? = some connective.absorbing
    · -- the right side has not been visited, but does not matter either
      have heq : lhs.eval p = lhs'.eval f := hlhs.eq fun _ => by
        rw [Value.asBool?_eq_some.1 hla]
        rfl
      rw [← heq, Connective.combine_of_lhs hla, Connective.combine_of_lhs hla]
      exact .refl _
    · rw [if_neg hla] at hvisr
      exact Connective.approx_combine hlhs (hr p f hpf hvisr)

theorem approx_conditional {cond cond' truthy truthy' falsy falsy' : Node} (id : NodeId)
    (mode mode' : Mode) (hc : cond.Approx lenient good cond')
    (ht : truthy.Approx lenient good truthy') (hf : falsy.Approx lenient good falsy') :
    (conditional id mode cond truthy falsy).Approx lenient good
      (conditional id mode' cond' truthy' falsy') := by
  intro p f hpf hvis
  rw [eval_conditional, eval_conditional]
  cases mode with
  | exhaustive =>
    simp only [visits, List.forall_mem_append] at hvis
    obtain ⟨⟨⟨hvisc, hvist⟩, hvisf⟩, _⟩ := hvis
    exact Value.approx_choose (hc p f hpf hvisc) (fun _ => ht p f hpf hvist)
      fun _ => hf p f hpf hvisf
  | shortCircuit =>
    simp only [visits, List.forall_mem_append] at hvis
    obtain ⟨⟨hvisc, hbranch⟩, _⟩ := hvis
    -- nothing is known of the branch that is not taken, and nothing is needed
    refine Value.approx_choose (hc p f hpf hvisc) (fun hb => ht p f hpf ?_) fun hb =>
      hf p f hpf ?_
    · rw [hb] at hbranch
      exact hbranch
    · rw [hb] at hbranch
      exact hbranch

/-- Two loops agree if in every turn of the first one they agree on whether to stop. -/
theorem approx_fold {range range' init init' cond cond' step step' result result' : Node}
    (id : NodeId) (mode mode' : Mode) (accuVar iterVar : String)
    (hr : range.Approx lenient good range') (hi : init.Approx lenient good init')
    (hc : cond.Approx lenient good cond') (hs : step.Approx lenient good step')
    (hres : result.Approx lenient good result')
    (hstop : ∀ p, good ⟨fold id mode accuVar iterVar range init cond step result, p⟩ →
      ∀ turn ∈ (fold id mode accuVar iterVar range init cond step result).turns p, ∀ go',
        (cond.eval (p.inLoop accuVar iterVar turn.1 turn.2)).Approx lenient go' →
          mode'.stopsAt go' = mode.stopsAt (cond.eval (p.inLoop accuVar iterVar turn.1 turn.2))) :
    (fold id mode accuVar iterVar range init cond step result).Approx lenient good
      (fold id mode' accuVar iterVar range' init' cond' step' result') := by
  intro p f hpf hvis
  simp only [visits, List.forall_mem_append] at hvis
  obtain ⟨⟨hrange, hrest⟩, hroot⟩ := hvis
  have hgood := hstop p (hroot _ List.mem_cons_self)
  rcases hr p f hpf hrange with ⟨hlenient, hu⟩ | heq
  · -- a loop over an unknown is that unknown
    rw [eval_fold, Value.items?_of_isUnknown hu]
    refine .inl ⟨hlenient, ?_⟩
    rw [Value.orFail, if_pos (Value.isSentinel_of_isUnknown hu), hu]
  cases hitems : (range.eval p).items? with
  | none =>
    rw [eval_fold, eval_fold, ← heq, hitems]
    exact .refl _
  | some items =>
    have hitems' : (range'.eval f).items? = some items := by rw [← heq, hitems]
    rw [hitems] at hrest
    simp only [Option.isNone_some, Bool.false_eq_true, if_false, List.forall_mem_append] at hrest
    obtain ⟨⟨hinit, hturns⟩, hresult⟩ := hrest
    rw [eval_fold_of_items hitems, eval_fold_of_items hitems']
    -- the accumulators may differ all the way, so the result is evaluated in different scopes
    refine hres _ _ (hpf.frame accuVar ?_) hresult
    rw [lastAccu, lastAccu, hitems, hitems']
    refine Mode.approx_loop (hi p f hpf hinit) fun turn hturn other hother => ?_
    have hmem : turn ∈ (fold id mode accuVar iterVar range init cond step result).turns p := by
      rw [turns, hitems]
      exact hturn
    have hbody := List.forall_mem_append.1 fun v hv =>
      hturns v (List.mem_flatMap.2 ⟨turn, hmem, hv⟩)
    have hscope := hpf.inLoop accuVar iterVar hother turn.2
    have hcond := hc _ _ hscope hbody.1
    refine ⟨hgood turn hmem _ hcond, fun hgo => hs _ _ hscope ?_⟩
    have hstep := hbody.2
    rw [hgo] at hstep
    exact hstep

/-- If the node is a short-circuit loop, what its condition is evaluated to decides the same in the
second evaluation: it is not an unknown in whose place there may be anything. -/
def Decided (lenient : Bool) (v : Visit) : Prop :=
  lenient = true → ∀ c ∈ v.node.loopConds v.act, c.isUnknown = false

theorem decided_strict (v : Visit) : Decided false v := fun h => absurd h (by decide)

/-- One step: if the children of two nodes of one shape are counterparts, so are the nodes. -/
theorem approx_of_alike (hgood : ∀ v, good v → Decided lenient v) {n n' : Node}
    (h : Alike (Approx lenient good) n n') : n.Approx lenient good n' := by
  cases h with
  | const id value => exact fun p f hpf hvis => .refl _
  | ident id name => exact fun p f hpf hvis => hpf id name
  | binary id op hl hr =>
    intro p f hpf hvis
    simp only [visits, List.forall_mem_append] at hvis
    obtain ⟨⟨hvisl, hvisr⟩, _⟩ := hvis
    rw [eval_binary, eval_binary]
    rcases hl p f hpf hvisl with ⟨hlenient, hu⟩ | heql
    · rw [if_pos (Value.isSentinel_of_isUnknown hu)]
      exact .inl ⟨hlenient, hu⟩
    rw [heql]
    split
    · exact .refl _
    -- the left side is a value in both, so the right side decides
    rcases hr p f hpf hvisr with ⟨hlenient, hu⟩ | heqr
    · rw [if_pos (Value.isSentinel_of_isUnknown hu)]
      exact .inl ⟨hlenient, hu⟩
    · rw [heqr]
      exact .refl _
  | logical id mode connective hl hr => exact approx_logical id mode mode connective hl hr
  | conditional id mode hc ht hf => exact approx_conditional id mode mode hc ht hf
  | list id h =>
    intro p f hpf hvis
    simp only [visits, List.forall_mem_append] at hvis
    obtain ⟨hviselems, _⟩ := hvis
    have hlist := Literal.approx_list (approx_visitEach h hpf) hviselems
    rw [value_list_visitEach id, ← eval_list id] at hlist
    exact hlist
  | map id hk hv =>
    intro p f hpf hvis
    simp only [visits, List.forall_mem_append] at hvis
    obtain ⟨hvisparts, _⟩ := hvis
    have hmap := Literal.approx_map (approx_visitEach hk hpf) (approx_visitEach hv hpf) hvisparts
    rw [value_map_visitEach id, ← eval_map id] at hmap
    exact hmap
  | fold id mode accuVar iterVar hr hi hc hs hres =>
    refine approx_fold id mode mode accuVar iterVar hr hi hc hs hres ?_
    intro p hroot turn hturn go' hgo
    cases mode with
    | exhaustive => rfl
    | shortCircuit =>
      -- this is where an unknown condition would let the runs part
      have heq := hgo.eq fun hlenient => hgood _ hroot hlenient _ (List.mem_map_of_mem hturn)
      rw [heq]
  | watch observer h =>
    intro p f hpf hvis
    simp only [visits, List.forall_mem_append] at hvis
    obtain ⟨hvisinner, _⟩ := hvis
    exact h p f hpf hvisinner
  | setMembership id elemType elems hl hr =>
    intro p f hpf hvis
    simp only [visits, List.forall_mem_append] at hvis
    obtain ⟨hvisl, _⟩ := hvis
    rw [eval_setMembership, eval_setMembership]
    rcases hl p f hpf hvisl with ⟨hlenient, hu⟩ | heq
    · rw [Value.isElemOf_of_isSentinel elems (Value.isSentinel_of_isUnknown hu)]
      exact .inl ⟨hlenient, hu⟩
    · rw [heq]
      exact .refl _

end Node

end TreeEval
