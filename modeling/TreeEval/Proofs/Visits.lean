import TreeEval.Proofs.Loop
import TreeEval.Proofs.Shape

/-!
# Visits

An evaluation visits some nodes once, some often, and some never. `Node.visits` lists the visits in
the order in which they end: the visit to a node ends after the visits that it has caused. That is
what watches around all nodes report, as the module on observers proves. A visit remembers the
activation, because the body of a loop is visited in many.

`Node.loopConds` picks out of one visit what a short-circuit loop has asked its condition.
-/

namespace TreeEval

/-! ## Relations between monads -/

/-- A relation between the computations of two monads that respects sequencing. -/
structure MonadRel (m m' : Type → Type) [Monad m] [Monad m'] where
  /-- The relation. -/
  Rel : {α : Type} → m α → m' α → Prop
  rel_pure : ∀ {α : Type} (a : α), Rel (pure a) (pure a)
  rel_bind : ∀ {α β : Type} {x : m α} {y : m' α} {f : α → m β} {g : α → m' β},
    Rel x y → (∀ a, Rel (f a) (g a)) → Rel (x >>= f) (y >>= g)

/-- A map between monads that respects sequencing. -/
structure MonadHom (m m' : Type → Type) [Monad m] [Monad m'] where
  /-- The map. -/
  app : {α : Type} → m α → m' α
  app_pure : ∀ {α : Type} (a : α), app (pure a) = pure a
  app_bind : ∀ {α β : Type} (x : m α) (f : α → m β), app (x >>= f) = app x >>= fun a => app (f a)

section

variable {m m' : Type → Type} [Monad m] [Monad m']

/-- A map relates every computation to its image. -/
def MonadHom.graph (φ : MonadHom m m') : MonadRel m m' where
  Rel x y := φ.app x = y
  rel_pure := φ.app_pure
  rel_bind := by
    rintro α β x _ f g rfl hfg
    rw [φ.app_bind, funext hfg]

/-- Loops whose conditions and steps are related are related. -/
theorem Mode.rel_loop (R : MonadRel m m') (mode : Mode) {cond step : Value → Value → m Value}
    {cond' step' : Value → Value → m' Value}
    (hcond : ∀ accu item, R.Rel (cond accu item) (cond' accu item))
    (hstep : ∀ accu item, R.Rel (step accu item) (step' accu item)) (items : List Value)
    (accu : Value) : R.Rel (mode.loop cond step items accu) (mode.loop cond' step' items accu) := by
  induction items generalizing accu with
  | nil => exact R.rel_pure accu
  | cons item rest ih =>
    refine R.rel_bind (hcond accu item) fun go => ?_
    split
    · exact R.rel_pure accu
    · exact R.rel_bind (hstep accu item) ih

end

namespace Literal

variable {m m' : Type → Type} [Monad m] [Monad m'] (R : MonadRel m m') (φ : MonadHom m m')

/-- List literals with related elements are related. -/
theorem rel_list {elems : List (m Value)} {elems' : List (m' Value)}
    (h : List.Forall₂ R.Rel elems elems') : R.Rel (list elems) (list elems') := by
  -- the elements that are built already change from call to call
  have hfrom : ∀ built, R.Rel (listFrom elems built) (listFrom elems' built) := by
    induction h with
    | nil => exact fun built => R.rel_pure _
    | cons helem _ ih =>
      intro built
      refine R.rel_bind helem fun value => ?_
      split
      · exact R.rel_pure value
      · exact ih _
  exact hfrom []

theorem rel_mapFrom {keys vals : List (m Value)} {keys' vals' : List (m' Value)}
    (hk : List.Forall₂ R.Rel keys keys') (hv : List.Forall₂ R.Rel vals vals')
    (built : OrderedMap Key Value) :
    R.Rel (mapFrom (keys.zip vals) built) (mapFrom (keys'.zip vals') built) := by
  induction hk generalizing vals vals' built with
  | nil => exact R.rel_pure _
  | cons hkey _ ih =>
    cases hv with
    | nil => exact R.rel_pure _
    | cons hval hvals =>
      refine R.rel_bind hkey fun key => ?_
      split
      · exact R.rel_pure key
      refine R.rel_bind hval fun value => ?_
      split
      · exact R.rel_pure value
      split
      · exact R.rel_pure _
      · exact ih hvals _

/-- The same for map literals. -/
theorem rel_map {keys vals : List (m Value)} {keys' vals' : List (m' Value)}
    (hk : List.Forall₂ R.Rel keys keys') (hv : List.Forall₂ R.Rel vals vals') :
    R.Rel (map keys vals) (map keys' vals') := by
  rw [map, map, hk.length_eq, hv.length_eq]
  split
  · exact rel_mapFrom R hk hv _
  · exact R.rel_pure _

theorem forall₂_app (elems : List (m Value)) :
    List.Forall₂ φ.graph.Rel elems (elems.map φ.app) :=
  List.forall₂_map_right_iff.2 (List.forall₂_same.2 fun _ _ => rfl)

/-- A map between monads may be applied to the elements of a list literal or to the literal. -/
theorem app_list (elems : List (m Value)) :
    φ.app (list elems) = list (elems.map φ.app) :=
  rel_list φ.graph (forall₂_app φ elems)

theorem app_map (keys vals : List (m Value)) :
    φ.app (map keys vals) = map (keys.map φ.app) (vals.map φ.app) :=
  rel_map φ.graph (forall₂_app φ keys) (forall₂_app φ vals)

variable {ω : Type}

/-- Every note of a list literal is a note of one of its elements, whose notes stay together. -/
theorem exists_infix_of_mem_listFrom {elems : List (Logged ω Value)} {built : List Value} {w : ω}
    (h : w ∈ (listFrom elems built).log) :
    ∃ elem ∈ elems, w ∈ elem.log ∧ elem.log <:+: (listFrom elems built).log := by
  induction elems generalizing built with
  | nil => cases h
  | cons elem rest ih =>
    rw [listFrom, Logged.log_bind] at h ⊢
    rcases List.mem_append.1 h with h | h
    · exact ⟨elem, List.mem_cons_self, h, List.infix_append_left⟩
    split at h
    · cases h
    next hs =>
    rw [if_neg hs]
    obtain ⟨elem', hmem, hw, hblock⟩ := ih h
    exact ⟨elem', List.mem_cons_of_mem _ hmem, hw, List.infix_append_of_infix_right hblock⟩

theorem exists_infix_of_mem_mapFrom {entries : List (Logged ω Value × Logged ω Value)}
    {built : OrderedMap Key Value} {w : ω} (h : w ∈ (mapFrom entries built).log) :
    ∃ entry ∈ entries, ∃ part, (part = entry.1 ∨ part = entry.2) ∧ w ∈ part.log ∧
      part.log <:+: (mapFrom entries built).log := by
  induction entries generalizing built with
  | nil => cases h
  | cons entry rest ih =>
    rw [mapFrom, Logged.log_bind] at h ⊢
    rcases List.mem_append.1 h with h | h
    · exact ⟨entry, List.mem_cons_self, entry.1, .inl rfl, h, List.infix_append_left⟩
    split at h
    · cases h
    next hk =>
    rw [if_neg hk, Logged.log_bind]
    rw [Logged.log_bind] at h
    rcases List.mem_append.1 h with h | h
    · exact ⟨entry, List.mem_cons_self, entry.2, .inr rfl, h,
        List.infix_append_of_infix_right List.infix_append_left⟩
    by_cases hv : entry.2.value.isSentinel = true
    · rw [if_pos hv] at h
      cases h
    rw [if_neg hv]
    rw [if_neg hv] at h
    cases hadd : addEntry built entry.1.value entry.2.value with
    | error failure =>
      rw [hadd] at h
      cases h
    | ok built' =>
      rw [hadd] at h
      obtain ⟨entry', hmem, part, hpart, hw, hblock⟩ := ih h
      exact ⟨entry', List.mem_cons_of_mem _ hmem, part, hpart, hw,
        List.infix_append_of_infix_right (List.infix_append_of_infix_right hblock)⟩

/-- The same for map literals, which note nothing if they are malformed. -/
theorem exists_infix_of_mem_map {keys vals : List (Logged ω Value)} {w : ω}
    (h : w ∈ (map keys vals).log) :
    keys.length = vals.length ∧
      ∃ part ∈ keys ++ vals, w ∈ part.log ∧ part.log <:+: (map keys vals).log := by
  rw [map] at h ⊢
  split at h
  · next hlen =>
    rw [if_pos hlen]
    obtain ⟨entry, hmem, part, hpart, hw, hblock⟩ := exists_infix_of_mem_mapFrom h
    refine ⟨hlen, part, ?_, hw, hblock⟩
    rcases hpart with rfl | rfl
    · exact List.mem_append_left _ (List.of_mem_zip hmem).1
    · exact List.mem_append_right _ (List.of_mem_zip hmem).2
  · cases h

end Literal

namespace Logged

/-- Forgetting the notes. -/
def forget (ω : Type) : MonadHom (Logged ω) Id where
  app x := pure x.value
  app_pure _ := rfl
  app_bind _ _ := rfl

variable {ω ω' α : Type}

/-- Another note for every note. -/
def relabel (f : ω → ω') (x : Logged ω α) : Logged ω' α := ⟨x.value, x.log.map f⟩

/-- Replacing every note by another one. -/
def relabeling (f : ω → ω') : MonadHom (Logged ω) (Logged ω') where
  app := relabel f
  app_pure _ := rfl
  app_bind _ _ := by ext <;> simp [relabel]

/-- Some notes for every note. -/
def expand (f : ω → List ω') (x : Logged ω α) : Logged ω' α := ⟨x.value, x.log.flatMap f⟩

/-- Replacing every note by some others. -/
def expansion (f : ω → List ω') : MonadHom (Logged ω) (Logged ω') where
  app := expand f
  app_pure _ := rfl
  app_bind _ _ := by ext <;> simp [expand]

end Logged

/-! ## What an evaluation visits -/

/-- A node and the activation in which it is visited. -/
structure Visit where
  /-- The node. -/
  node : Node
  /-- The activation. -/
  act : Activation

/-- What the node is evaluated to. -/
def Visit.value (v : Visit) : Value := v.node.eval v.act

namespace Node

/-- The turns of a loop when it is evaluated; other nodes have none. -/
def turns : Node → Activation → List (Value × Value)
  | fold _ mode accuVar iterVar range init cond step _, act =>
    mode.turns (fun accu item => cond.eval (act.inLoop accuVar iterVar accu item))
      (fun accu item => step.eval (act.inLoop accuVar iterVar accu item))
      ((range.eval act).items?.getD []) (init.eval act)
  | _, _ => []

/-- What the condition of a short-circuit loop is evaluated to, turn by turn. A loop that stops
early does so because the last of these values is false. -/
def loopConds : Node → Activation → List Value
  | n@(fold _ .shortCircuit accuVar iterVar _ _ cond _ _), act =>
    (n.turns act).map fun turn => cond.eval (act.inLoop accuVar iterVar turn.1 turn.2)
  | _, _ => []

/-- The accumulator at the end of a loop. -/
def lastAccu : Node → Activation → Value
  | fold _ mode accuVar iterVar range init cond step _, act =>
    mode.loop (m := Id) (fun accu item => cond.eval (act.inLoop accuVar iterVar accu item))
      (fun accu item => step.eval (act.inLoop accuVar iterVar accu item))
      ((range.eval act).items?.getD []) (init.eval act)
  | _, _ => .null

mutual

/-- The visits of an evaluation, in the order in which they end. -/
def visits : Node → Activation → List Visit
  | n@(const _ _), act => [⟨n, act⟩]
  | n@(ident _ _), act => [⟨n, act⟩]
  | n@(binary _ _ lhs rhs), act => lhs.visits act ++ rhs.visits act ++ [⟨n, act⟩]
  | n@(logical _ .shortCircuit connective lhs rhs), act =>
    -- an operand that settles the connective is the only one
    lhs.visits act ++
      (if (lhs.eval act).asBool? = some connective.absorbing then [] else rhs.visits act) ++
      [⟨n, act⟩]
  | n@(logical _ .exhaustive _ lhs rhs), act => lhs.visits act ++ rhs.visits act ++ [⟨n, act⟩]
  | n@(conditional _ .shortCircuit cond truthy falsy), act =>
    cond.visits act ++
      (match (cond.eval act).branch with
        | .truthy => truthy.visits act
        | .falsy => falsy.visits act
        | .neither _ => []) ++
      [⟨n, act⟩]
  | n@(conditional _ .exhaustive cond truthy falsy), act =>
    cond.visits act ++ truthy.visits act ++ falsy.visits act ++ [⟨n, act⟩]
  -- a literal decides itself how many of its parts are computed
  | n@(list _ elems), act => (Literal.list (visitEach elems act)).log ++ [⟨n, act⟩]
  | n@(map _ keys vals), act =>
    (Literal.map (visitEach keys act) (visitEach vals act)).log ++ [⟨n, act⟩]
  | n@(fold _ mode accuVar iterVar range init cond step result), act =>
    range.visits act ++
      -- without items not even the accumulator is computed
      (if (range.eval act).items?.isNone then []
      else
        init.visits act ++
          (n.turns act).flatMap (fun turn =>
            let inside := act.inLoop accuVar iterVar turn.1 turn.2
            cond.visits inside ++
              if mode.stopsAt (cond.eval inside) then [] else step.visits inside) ++
          result.visits (.frame accuVar (some (n.lastAccu act)) act)) ++
      [⟨n, act⟩]
  | n@(watch _ inner), act => inner.visits act ++ [⟨n, act⟩]
  -- the list is in the set already
  | n@(setMembership _ _ _ lhs _), act => lhs.visits act ++ [⟨n, act⟩]

/-- The values of some nodes, each with the visits that lead to it. -/
def visitEach : List Node → Activation → List (Logged Visit Value)
  | [], _ => []
  | n :: ns, act => ⟨n.eval act, n.visits act⟩ :: visitEach ns act

end

/-- The visits that end before the one to the node itself. -/
def visitsBelow (n : Node) (act : Activation) : List Visit := (n.visits act).dropLast

theorem visitEach_eq_map (ns : List Node) (act : Activation) :
    visitEach ns act = ns.map fun n => ⟨n.eval act, n.visits act⟩ := by
  induction ns with
  | nil => rfl
  | cons n ns ih => rw [visitEach, ih, List.map_cons]

/-- A list literal in which notes are made has the value that it has without. -/
theorem value_list_notes {ω : Type} (notes : Node → List ω) (id : NodeId) (elems : List Node)
    (act : Activation) :
    (Literal.list (elems.map fun n => (⟨n.eval act, notes n⟩ : Logged ω Value))).value =
      (list id elems).eval act := by
  refine (Literal.app_list (Logged.forget ω) _).trans ?_
  rw [eval_list, List.map_map]
  rfl

/-- The same for map literals. -/
theorem value_map_notes {ω : Type} (notes : Node → List ω) (id : NodeId) (keys vals : List Node)
    (act : Activation) :
    (Literal.map (keys.map fun n => (⟨n.eval act, notes n⟩ : Logged ω Value))
        (vals.map fun n => (⟨n.eval act, notes n⟩ : Logged ω Value))).value =
      (map id keys vals).eval act := by
  refine (Literal.app_map (Logged.forget ω) _ _).trans ?_
  rw [eval_map, List.map_map, List.map_map]
  rfl

theorem value_list_visitEach (id : NodeId) (elems : List Node) (act : Activation) :
    (Literal.list (visitEach elems act)).value = (list id elems).eval act := by
  rw [visitEach_eq_map]
  exact value_list_notes _ id elems act

theorem value_map_visitEach (id : NodeId) (keys vals : List Node) (act : Activation) :
    (Literal.map (visitEach keys act) (visitEach vals act)).value =
      (map id keys vals).eval act := by
  rw [visitEach_eq_map, visitEach_eq_map]
  exact value_map_notes _ id keys vals act

theorem eval_fold_of_items {id : NodeId} {mode : Mode} {accuVar iterVar : String}
    {range init cond step result : Node} {act : Activation} {items : List Value}
    (h : (range.eval act).items? = some items) :
    (fold id mode accuVar iterVar range init cond step result).eval act =
      result.eval (.frame accuVar (some
        ((fold id mode accuVar iterVar range init cond step result).lastAccu act)) act) := by
  rw [eval_fold, h, lastAccu, h]
  rfl

/-- The visit to a node is the last one of its evaluation. -/
theorem visits_eq_concat (n : Node) (act : Activation) :
    n.visits act = n.visitsBelow act ++ [⟨n, act⟩] := by
  cases n with
  | logical id mode connective lhs rhs =>
    cases mode <;> rw [visitsBelow, visits, List.dropLast_concat]
  | conditional id mode cond truthy falsy =>
    cases mode <;> rw [visitsBelow, visits, List.dropLast_concat]
  | const id value => rfl
  | ident id name => rfl
  | _ => rw [visitsBelow, visits, List.dropLast_concat]

theorem exists_mem_of_mem_visitEach {ns : List Node} {act : Activation} {x : Logged Visit Value}
    (h : x ∈ visitEach ns act) : ∃ n ∈ ns, x.log = n.visits act := by
  rw [visitEach_eq_map] at h
  obtain ⟨n, hn, rfl⟩ := List.mem_map.1 h
  exact ⟨n, hn, rfl⟩

theorem infix_flatMap_of_mem {α β : Type} {a : α} {as : List α} (h : a ∈ as) (f : α → List β) :
    f a <:+: as.flatMap f := by
  rw [List.flatMap_def]
  exact List.infix_of_mem_flatten (List.mem_map_of_mem h)

/-- The visit is made by an evaluation of a part of the node, whose visits stay together. -/
def CausedByPart (n : Node) (all : List Visit) (v : Visit) : Prop :=
  n.Balanced ∧ ∃ c ∈ n.parts, ∃ act, v ∈ c.visits act ∧ c.visits act <:+: all

theorem CausedByPart.mono {n : Node} {all all' : List Visit} {v : Visit}
    (h : n.CausedByPart all v) (hblock : all <:+: all') : n.CausedByPart all' v := by
  obtain ⟨hbal, c, hc, act, hv, hall⟩ := h
  exact ⟨hbal, c, hc, act, hv, hall.trans hblock⟩

/-- Every visit that ends before the one to the node is caused by a visit to one of its parts. -/
theorem causedByPart_of_mem_visitsBelow {n : Node} {act : Activation} {v : Visit}
    (h : v ∈ n.visitsBelow act) : n.CausedByPart (n.visitsBelow act) v := by
  cases n with
  | const id value => cases h
  | ident id name => cases h
  | binary id op lhs rhs =>
    rw [visitsBelow, visits, List.dropLast_concat] at h ⊢
    rcases List.mem_append.1 h with h | h
    · exact ⟨trivial, lhs, by simp [parts], act, h, List.infix_append_left⟩
    · exact ⟨trivial, rhs, by simp [parts], act, h, List.infix_append_right⟩
  | logical id mode connective lhs rhs =>
    cases mode with
    | exhaustive =>
      rw [visitsBelow, visits, List.dropLast_concat] at h ⊢
      rcases List.mem_append.1 h with h | h
      · exact ⟨trivial, lhs, by simp [parts], act, h, List.infix_append_left⟩
      · exact ⟨trivial, rhs, by simp [parts], act, h, List.infix_append_right⟩
    | shortCircuit =>
      rw [visitsBelow, visits, List.dropLast_concat] at h ⊢
      rcases List.mem_append.1 h with h | h
      · exact ⟨trivial, lhs, by simp [parts], act, h, List.infix_append_left⟩
      split at h
      · cases h
      next hl =>
      rw [if_neg hl]
      exact ⟨trivial, rhs, by simp [parts], act, h, List.infix_append_right⟩
  | conditional id mode cond truthy falsy =>
    cases mode with
    | exhaustive =>
      rw [visitsBelow, visits, List.dropLast_concat, List.append_assoc] at h ⊢
      rcases List.mem_append.1 h with h | h
      · exact ⟨trivial, cond, by simp [parts], act, h, List.infix_append_left⟩
      rcases List.mem_append.1 h with h | h
      · exact ⟨trivial, truthy, by simp [parts], act, h,
          List.infix_append_of_infix_right List.infix_append_left⟩
      · exact ⟨trivial, falsy, by simp [parts], act, h,
          List.infix_append_of_infix_right List.infix_append_right⟩
    | shortCircuit =>
      rw [visitsBelow, visits, List.dropLast_concat] at h ⊢
      rcases List.mem_append.1 h with h | h
      · exact ⟨trivial, cond, by simp [parts], act, h, List.infix_append_left⟩
      cases hb : (cond.eval act).branch with
      | truthy =>
        rw [hb] at h
        exact ⟨trivial, truthy, by simp [parts], act, h, List.infix_append_right⟩
      | falsy =>
        rw [hb] at h
        exact ⟨trivial, falsy, by simp [parts], act, h, List.infix_append_right⟩
      | neither value =>
        rw [hb] at h
        cases h
  | list id elems =>
    rw [visitsBelow, visits, List.dropLast_concat] at h ⊢
    obtain ⟨x, hx, hv, hblock⟩ := Literal.exists_infix_of_mem_listFrom h
    obtain ⟨c, hc, hlog⟩ := exists_mem_of_mem_visitEach hx
    rw [hlog] at hv hblock
    exact ⟨trivial, c, hc, act, hv, hblock⟩
  | map id keys vals =>
    rw [visitsBelow, visits, List.dropLast_concat] at h ⊢
    obtain ⟨hlen, x, hx, hv, hblock⟩ := Literal.exists_infix_of_mem_map h
    simp only [visitEach_eq_map, List.length_map] at hlen
    have hpart : ∃ c ∈ keys ++ vals, x.log = c.visits act := by
      rcases List.mem_append.1 hx with hx | hx
      · obtain ⟨c, hc, hlog⟩ := exists_mem_of_mem_visitEach hx
        exact ⟨c, List.mem_append_left _ hc, hlog⟩
      · obtain ⟨c, hc, hlog⟩ := exists_mem_of_mem_visitEach hx
        exact ⟨c, List.mem_append_right _ hc, hlog⟩
    obtain ⟨c, hc, hlog⟩ := hpart
    rw [hlog] at hv hblock
    exact ⟨hlen, c, hc, act, hv, hblock⟩
  | fold id mode accuVar iterVar range init cond step result =>
    rw [visitsBelow, visits, List.dropLast_concat] at h ⊢
    rcases List.mem_append.1 h with h | h
    · exact ⟨trivial, range, by simp [parts], act, h, List.infix_append_left⟩
    split at h
    · cases h
    next hitems =>
    rw [if_neg hitems, List.append_assoc]
    rw [List.append_assoc] at h
    rcases List.mem_append.1 h with h | h
    · exact ⟨trivial, init, by simp [parts], act, h,
        List.infix_append_of_infix_right List.infix_append_left⟩
    rcases List.mem_append.1 h with h | h
    · -- a visit in the body of the loop belongs to one of its turns
      obtain ⟨turn, hturn, h⟩ := List.mem_flatMap.1 h
      refine CausedByPart.mono ?_ <| List.infix_append_of_infix_right <|
        List.infix_append_of_infix_right <| List.infix_append_of_infix_left <|
          infix_flatMap_of_mem hturn _
      rcases List.mem_append.1 h with h | h
      · exact ⟨trivial, cond, by simp [parts], _, h, List.infix_append_left⟩
      split at h
      · cases h
      next hstop =>
      dsimp only
      rw [if_neg hstop]
      exact ⟨trivial, step, by simp [parts], _, h, List.infix_append_right⟩
    · exact ⟨trivial, result, by simp [parts], _, h, List.infix_append_of_infix_right <|
        List.infix_append_of_infix_right List.infix_append_right⟩
  | watch observer inner =>
    rw [visitsBelow, visits, List.dropLast_concat] at h ⊢
    exact ⟨trivial, inner, by simp [parts], act, h, List.infix_rfl⟩
  | setMembership id elemType elems lhs rhs =>
    rw [visitsBelow, visits, List.dropLast_concat] at h ⊢
    exact ⟨trivial, lhs, by simp [parts], act, h, List.infix_rfl⟩

/-- An evaluation visits only nodes of the tree. -/
theorem node_mem_preorder {n : Node} {act : Activation} {v : Visit} (h : v ∈ n.visits act) :
    v.node ∈ n.preorder := by
  induction n using parts_induction generalizing act with
  | step n ih =>
    rw [preorder_eq_cons]
    rw [visits_eq_concat, List.mem_append, List.mem_singleton] at h
    rcases h with h | rfl
    · obtain ⟨hbal, c, hc, act', hv, _⟩ := causedByPart_of_mem_visitsBelow h
      exact List.mem_cons_of_mem _
        (List.mem_flatMap.2 ⟨c, (mem_children_iff hbal).2 hc, ih c hc hv⟩)
    · exact List.mem_cons_self

/-- The visits that a visit causes stand right in front of it. -/
theorem isInfix_visits {n : Node} {act : Activation} {v : Visit} (h : v ∈ n.visits act) :
    v.node.visitsBelow v.act ++ [v] <:+: n.visits act := by
  induction n using parts_induction generalizing act with
  | step n ih =>
    rw [visits_eq_concat, List.mem_append, List.mem_singleton] at h
    rw [visits_eq_concat n]
    rcases h with h | rfl
    · obtain ⟨_, c, hc, act', hv, hblock⟩ := causedByPart_of_mem_visitsBelow h
      exact List.infix_append_of_infix_left ((ih c hc hv).trans hblock)
    · exact List.infix_rfl

end Node

end TreeEval
