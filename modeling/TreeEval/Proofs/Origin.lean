import TreeEval.Proofs.Layers
import TreeEval.Proofs.Sentinels
import TreeEval.Proofs.Shape

/-!
# Where sentinels come from

An evaluation takes values from the constants of the tree and from the activation, and computes all
others. If none of the values it takes hides a sentinel inside a list or a map, neither does its
result, although the accumulator of a loop may well be a sentinel between two turns. If none of them
is a sentinel at all, an unknown result can be traced to one name that the activation withholds, and
the error of a missing name to a name that is indeed missing: names that a loop captures are not
withheld and not missing.

Both are cases of `eval_plainOr`: an evaluation stays among the plain values and the sentinels that
its constants and its free names are allowed to be.
-/

namespace TreeEval

namespace Node

/-- The values of the constants of a tree. -/
def constValues (n : Node) : List Value := n.preorder.filterMap asConst?

theorem forall_mem_constValues {P : Value → Prop} {n : Node} :
    (∀ v ∈ n.constValues, P v) ↔
      (∀ v, n.asConst? = some v → P v) ∧ ∀ c ∈ n.children, ∀ v ∈ c.constValues, P v := by
  have hroot : ∀ m : Node, (∀ v ∈ m.constValues, P v) ↔
      ∀ k ∈ m.preorder, ∀ v, k.asConst? = some v → P v := by
    intro m
    simp only [constValues, List.mem_filterMap, forall_exists_index, and_imp]
    exact ⟨fun h k hk v hv => h v k hk hv, fun h v k hk hv => h k hk v hv⟩
  simp only [hroot]
  exact forall_mem_preorder

variable {ok : Value → Prop}

/-- An evaluation stays among the plain values and the permitted sentinels if the constants and the
free names of the tree do. -/
theorem eval_plainOr (hok : Value.PermitsFailures ok) {n : Node} {act : Activation}
    (hconst : ∀ v ∈ n.constValues, v.PlainOr ok)
    (hfree : n.FreeRel (fun v _ => v.PlainOr ok) act act) : (n.eval act).PlainOr ok := by
  induction n generalizing act with
  | const id value => exact hconst value (by simp [constValues, preorder, asConst?])
  | ident id name => exact hfree (id, name) List.mem_cons_self
  | binary id op lhs rhs ihl ihr =>
    obtain ⟨_, hparts⟩ := forall_mem_constValues.1 hconst
    rw [FreeRel, freeIdents, List.forall_mem_append] at hfree
    have hl := ihl (hparts lhs (by simp [children])) hfree.1
    have hr := ihr (hparts rhs (by simp [children])) hfree.2
    rw [eval_binary]
    split
    · exact hl
    next hls =>
    split
    · exact hr
    next hrs => exact op.plainOr_apply hok (hl.isPlain hls) (hr.isPlain hrs)
  | logical id mode connective lhs rhs ihl ihr =>
    obtain ⟨_, hparts⟩ := forall_mem_constValues.1 hconst
    rw [FreeRel, freeIdents, List.forall_mem_append] at hfree
    rw [eval_logical]
    exact connective.plainOr_combine hok (ihl (hparts lhs (by simp [children])) hfree.1)
      (ihr (hparts rhs (by simp [children])) hfree.2)
  | conditional id mode cond truthy falsy ihc iht ihf =>
    obtain ⟨_, hparts⟩ := forall_mem_constValues.1 hconst
    rw [FreeRel, freeIdents, List.forall_mem_append, List.forall_mem_append] at hfree
    rw [eval_conditional]
    exact Value.plainOr_choose hok (ihc (hparts cond (by simp [children])) hfree.1.1)
      (iht (hparts truthy (by simp [children])) hfree.1.2)
      (ihf (hparts falsy (by simp [children])) hfree.2)
  | list id elems ih =>
    obtain ⟨_, hparts⟩ := forall_mem_constValues.1 hconst
    rw [freeRel_list_iff] at hfree
    rw [eval_list]
    exact Literal.plainOr_list
      (List.forall_mem_map.2 fun n hn => ih n hn (hparts n hn) (hfree n hn))
  | map id keys vals ihk ihv =>
    obtain ⟨_, hparts⟩ := forall_mem_constValues.1 hconst
    obtain ⟨hkeys, hvals⟩ := freeRel_map_iff.1 hfree
    rw [eval_map]
    by_cases hlen : keys.length = vals.length
    · -- in a balanced map all keys and values are children
      have hmem : ∀ c ∈ keys ++ vals, ∀ v ∈ c.constValues, v.PlainOr ok := fun c hc =>
        hparts c ((mem_alternate hlen c).2 hc)
      exact Literal.plainOr_map hok
        (List.forall_mem_map.2 fun n hn =>
          ihk n hn (hmem n (List.mem_append_left _ hn)) (hkeys n hn))
        (List.forall_mem_map.2 fun n hn =>
          ihv n hn (hmem n (List.mem_append_right _ hn)) (hvals n hn))
    · rw [Literal.map, if_neg (by simpa using hlen)]
      exact Value.plainOr_fail hok (by simp)
  | fold id mode accuVar iterVar range init cond step result ihrange ihinit ihcond ihstep
      ihresult =>
    obtain ⟨_, hparts⟩ := forall_mem_constValues.1 hconst
    obtain ⟨hfrange, hfinit, hfbody, hfresult⟩ := hfree.parts_of_fold
    have hrange := ihrange (hparts range (by simp [children])) hfrange
    rw [eval_fold]
    cases hitems : (range.eval act).items? with
    | none => exact hrange.orFail hok (by simp)
    | some items =>
      -- what can be looped over is no sentinel, so the items are plain, whatever the accumulator is
      have hplain : (range.eval act).isPlain = true :=
        hrange.isPlain (by simp [Value.isSentinel_of_items?_eq_some hitems])
      refine ihresult (hparts result (by simp [children])) (hfresult ?_)
      refine mode.loop_invariant (fun item hitem accu haccu => ?_)
        (ihinit (hparts init (by simp [children])) hfinit)
      have hitem : item.PlainOr ok := .inl (Value.isPlain_of_mem_items? hplain hitems item hitem)
      exact ihstep (hparts step (by simp [children])) (hfbody haccu hitem).2
  | watch observer inner ih =>
    obtain ⟨_, hparts⟩ := forall_mem_constValues.1 hconst
    exact ih (hparts inner (by simp [children])) hfree
  | setMembership id elemType elems lhs rhs ihl ihr =>
    obtain ⟨_, hparts⟩ := forall_mem_constValues.1 hconst
    rw [FreeRel, freeIdents, List.forall_mem_append] at hfree
    rw [eval_setMembership]
    exact (ihl (hparts lhs (by simp [children])) hfree.1).isElemOf hok elems

end Node

/-! ## Names -/

/-- A name is a plain value or a permitted sentinel if its binding is, and if the unknown or the
error that stands for an unbound name is permitted. -/
theorem Activation.plainOr_lookup {ok : Value → Prop} {act : Activation} {id : NodeId}
    {name : String} (hbound : ∀ v, act.resolve? name = some v → v.PlainOr ok)
    (hunbound : act.resolve? name = none → ok (act.lookup id name)) :
    (act.lookup id name).PlainOr ok := by
  cases hr : act.resolve? name with
  | some v =>
    rw [lookup, hr]
    exact hbound v hr
  | none =>
    refine .inr ⟨?_, hunbound hr⟩
    rw [lookup, hr]
    dsimp only
    split <;> rfl

/-! ## No sentinel is buried -/

/-- A good value is a sentinel itself, or there is none in it, at any depth. -/
def Value.Good (v : Value) : Prop := v.isSentinel = true ∨ v.isPlain = true

theorem Value.good_iff_plainOr {v : Value} : v.Good ↔ v.PlainOr fun _ => True := by
  rw [Good, PlainOr, and_true, or_comm]

namespace Node

/-- Good constants and good bindings make good results. -/
theorem eval_good {t : Node} {a : Activation} (hconst : ∀ v ∈ t.constValues, v.Good)
    (hact : ∀ name v, a.resolve? name = some v → v.Good) : (t.eval a).Good := by
  simp only [Value.good_iff_plainOr] at hconst hact ⊢
  exact eval_plainOr (fun _ _ => trivial) hconst fun x _ =>
    Activation.plainOr_lookup (hact x.2) fun _ => trivial

/-- A loop that gathers its items, each beside what `y` is. -/
def gatheringLoop : Node :=
  fold ⟨1⟩ .shortCircuit "seen" "x" (const ⟨2⟩ (.list [.int 1, .list [.str "a"]])) (list ⟨3⟩ [])
    (const ⟨4⟩ (.bool true))
    (binary ⟨5⟩ .add (ident ⟨6⟩ "seen") (list ⟨7⟩ [ident ⟨8⟩ "x", ident ⟨9⟩ "y"]))
    (list ⟨10⟩ [ident ⟨11⟩ "seen"])

theorem constValues_gatheringLoop :
    gatheringLoop.constValues = [.list [.int 1, .list [.str "a"]], .bool true] := rfl

theorem eval_good_gatheringLoop :
    let overflow : Value := .fail (.integerOverflow "addition")
    let a : Activation := .bound ⟨[("y", overflow)]⟩
    (∀ v ∈ gatheringLoop.constValues, v.Good) ∧
      (∀ name v, a.resolve? name = some v → v.Good) ∧
      (gatheringLoop.eval a).Good ∧ gatheringLoop.eval a = overflow := by
  intro overflow a
  have hconst : ∀ v ∈ gatheringLoop.constValues, v.Good := by
    rw [constValues_gatheringLoop, List.forall_mem_cons, List.forall_mem_singleton]
    exact ⟨.inr rfl, .inr rfl⟩
  have hact : ∀ name v, a.resolve? name = some v → v.Good :=
    Activation.forall_of_resolve? (by simp [a, Activation.layers, Value.Good, overflow])
  exact ⟨hconst, hact, eval_good hconst hact, rfl⟩

end Node

/-! ## Tracing sentinels to names -/

/-- If the value is unknown or the error of a missing name, a free name of the tree is to blame. -/
structure Value.OriginatesIn (t : Node) (a : Activation) (v : Value) : Prop where
  /-- An unknown is the doing of one expression, which asks for a name that is withheld. -/
  of_unknown : ∀ ids, v = .unknown ids → ∃ x ∈ t.freeIdents,
    ids = .singleton x.1 ∧ a.resolve? x.2 = none ∧ a.isWithheld x.2 = true
  /-- A name that is said to be missing is free, and neither bound nor withheld. -/
  of_missing : ∀ e name, v = .error e → e.cause = .noSuchAttribute name →
    name ∈ t.freeNames ∧ a.resolve? name = none ∧ a.isWithheld name = false

namespace Node

variable {t : Node} {a : Activation}

theorem originatesIn_of_isPlain {v : Value} (h : v.isPlain = true) : v.OriginatesIn t a where
  of_unknown ids hids := by rw [hids] at h; cases h
  of_missing e name he := by rw [he] at h; cases h

theorem permitsFailures_originatesIn : Value.PermitsFailures (Value.OriginatesIn t a) := by
  intro cause hcause
  constructor
  · intro ids hids
    cases hids
  · intro e name he hname
    cases he
    exact absurd hname (hcause name)

theorem originatesIn_lookup {x : NodeId × String} (hx : x ∈ t.freeIdents)
    (hr : a.resolve? x.2 = none) : (a.lookup x.1 x.2).OriginatesIn t a := by
  rw [Activation.lookup, hr]
  dsimp only
  split
  next hw =>
    constructor
    · intro ids hids
      cases hids
      exact ⟨x, hx, rfl, hr, hw⟩
    · intro e name he
      cases he
  next hw =>
    constructor
    · intro ids hids
      cases hids
    · intro e name he hname
      cases he
      cases hname
      exact ⟨List.mem_map_of_mem hx, hr, by simpa using hw⟩

/-- If constants and bindings are plain, an unknown and the error of a missing name originate in a
free name of the tree. -/
theorem eval_originatesIn (hconst : ∀ v ∈ t.constValues, v.isPlain = true)
    (hact : ∀ name v, a.resolve? name = some v → v.isPlain = true) :
    (t.eval a).OriginatesIn t a := by
  have hvalue : (t.eval a).PlainOr (Value.OriginatesIn t a) :=
    eval_plainOr permitsFailures_originatesIn (fun v hv => .inl (hconst v hv)) fun x hx =>
      Activation.plainOr_lookup (fun v hv => .inl (hact x.2 v hv)) (originatesIn_lookup hx)
  rcases hvalue with hplain | ⟨_, horigin⟩
  · exact originatesIn_of_isPlain hplain
  · exact horigin

theorem eval_originatesIn_gatheringLoop :
    let a : Activation := .withheld ⟨[("x", .str "b")]⟩ ["seen", "y"]
    let b : Activation := .bound ⟨[("x", .str "b")]⟩
    (∀ v ∈ gatheringLoop.constValues, v.isPlain = true) ∧
      (∀ name v, a.resolve? name = some v → v.isPlain = true) ∧
      (∀ name v, b.resolve? name = some v → v.isPlain = true) ∧
      (gatheringLoop.eval a = .unknown (.singleton ⟨9⟩) ∧ ∃ x ∈ gatheringLoop.freeIdents,
        UnknownSet.singleton ⟨9⟩ = .singleton x.1 ∧ a.resolve? x.2 = none ∧
          a.isWithheld x.2 = true) ∧
      (gatheringLoop.eval b = .fail (.noSuchAttribute "y") ∧ "y" ∈ gatheringLoop.freeNames ∧
        b.resolve? "y" = none ∧ b.isWithheld "y" = false) := by
  intro a b
  have hconst : ∀ v ∈ gatheringLoop.constValues, v.isPlain = true := by
    rw [constValues_gatheringLoop, List.forall_mem_cons, List.forall_mem_singleton]
    exact ⟨rfl, rfl⟩
  have ha : ∀ name v, a.resolve? name = some v → v.isPlain = true :=
    Activation.forall_of_resolve? (by simp [a, Activation.layers, Value.isPlain])
  have hb : ∀ name v, b.resolve? name = some v → v.isPlain = true :=
    Activation.forall_of_resolve? (by simp [b, Activation.layers, Value.isPlain])
  exact ⟨hconst, ha, hb, ⟨rfl, (eval_originatesIn hconst ha).of_unknown _ rfl⟩,
    rfl, (eval_originatesIn hconst hb).of_missing _ _ rfl rfl⟩

end Node

end TreeEval
