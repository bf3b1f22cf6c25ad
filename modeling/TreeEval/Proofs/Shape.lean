import Mathlib.Data.List.Perm.Basic
import TreeEval.Node.Induction
import TreeEval.Node.Postorder
import TreeEval.Node.Transform
import TreeEval.Proofs.Rows

/-!
# Nodes of one shape

A pass that succeeds replaces the children of a node and keeps all else, and then visits what it
has put together. Three things live here:

* `Node.parts`, the direct children as rebuilding reaches them, with an induction that has one case
  for all nodes;
* `Node.Alike R`, which holds of two nodes that differ in their children only, if `R` holds of every
  pair of children in the same place;
* `alike_of_mapChildren` and `exists_of_transformM`, which say what rebuilding a node and a pass
  over a tree may return, and `transformM_eq_ok_iff` and `transformM_induction` on passes that
  either fail or succeed.
-/

namespace TreeEval

namespace Node

/-! ## Parts -/

/-- The direct children of a node, in a malformed map also those without a partner. -/
def parts : Node → List Node
  | const _ _ | ident _ _ => []
  | binary _ _ lhs rhs | logical _ _ _ lhs rhs | setMembership _ _ _ lhs rhs => [lhs, rhs]
  | conditional _ _ cond truthy falsy => [cond, truthy, falsy]
  | list _ elems => elems
  | map _ keys vals => keys ++ vals
  | fold _ _ _ _ range init cond step result => [range, init, cond, step, result]
  | watch _ inner => [inner]

/-- A pass comes to all parts of a node. -/
theorem mem_passOrder {n c : Node} : c ∈ n.passOrder ↔ c ∈ n.parts := by
  cases n with
  | map id keys vals => exact mem_interleave
  | _ => rfl

/-- Induction on nodes with one case: a property that passes from the parts of every node to the
node holds of all trees. -/
theorem parts_induction {motive : Node → Prop}
    (step : ∀ n, (∀ c ∈ n.parts, motive c) → motive n) (n : Node) : motive n := by
  induction n with
  | const id value => exact step _ (by simp [parts])
  | ident id name => exact step _ (by simp [parts])
  | binary id op lhs rhs hl hr => exact step _ (by simp [parts, hl, hr])
  | logical id mode connective lhs rhs hl hr => exact step _ (by simp [parts, hl, hr])
  | conditional id mode cond truthy falsy hc ht hf => exact step _ (by simp [parts, hc, ht, hf])
  | list id elems ih => exact step _ (by simpa [parts] using ih)
  | map id keys vals hk hv =>
    refine step _ fun c hc => ?_
    rcases List.mem_append.1 hc with h | h
    · exact hk c h
    · exact hv c h
  | fold id mode accuVar iterVar range init cond step' result hr hi hc hs hres =>
    exact step _ (by simp [parts, hr, hi, hc, hs, hres])
  | watch observer inner ih => exact step _ (by simp [parts, ih])
  | setMembership id elemType elems lhs rhs hl hr => exact step _ (by simp [parts, hl, hr])

/-- A map literal is balanced if it has as many keys as values; all other nodes are. -/
def Balanced : Node → Prop
  | map _ keys vals => keys.length = vals.length
  | _ => True

theorem mem_alternate {α : Type} {as bs : List α} (h : as.length = bs.length) (x : α) :
    x ∈ alternate as bs ↔ x ∈ as ++ bs := by
  induction as generalizing bs with
  | nil =>
    have hbs : bs = [] := List.length_eq_zero_iff.1 h.symm
    subst hbs
    simp [alternate]
  | cons a as ih =>
    cases bs with
    | nil => simp at h
    | cons b bs =>
      have hlen : as.length = bs.length := by simpa using h
      have hrest := ih hlen
      simp only [alternate, List.mem_cons, List.mem_append] at hrest ⊢
      rw [hrest]
      grind

theorem alternate_subset {α : Type} (as bs : List α) : alternate as bs ⊆ as ++ bs := by
  fun_induction alternate as bs with
  | case1 a as b bs ih =>
    intro x hx
    have hrest := @ih x
    grind
  | case2 as bs h => exact List.nil_subset _

theorem forall₂_alternate {α β : Type} {S : α → β → Prop} {as bs : List α} {as' bs' : List β}
    (ha : List.Forall₂ S as as') (hb : List.Forall₂ S bs bs') :
    List.Forall₂ S (alternate as bs) (alternate as' bs') := by
  induction ha generalizing bs bs' with
  | nil => simp [alternate]
  | cons h _ ih =>
    cases hb with
    | nil => simp [alternate]
    | cons h' hb => exact .cons h (.cons h' (ih hb))

theorem children_subset_parts (n : Node) : n.children ⊆ n.parts := by
  cases n with
  | map id keys vals => exact alternate_subset keys vals
  | _ => exact List.Subset.refl _

/-- Only a malformed map has parts that are not among its children. -/
theorem mem_children_iff {n c : Node} (h : n.Balanced) : c ∈ n.children ↔ c ∈ n.parts := by
  cases n with
  | map id keys vals => exact mem_alternate h c
  | _ => rfl

/-- A pass comes to the children of a node as an evaluation of all of them would, unless there is a
surplus. -/
theorem passOrder_eq_children {n : Node} (h : n.Balanced) : n.passOrder = n.children := by
  cases n with
  | map id keys vals => exact interleave_eq_alternate h
  | _ => rfl

/-- The nodes below a node of a tree are nodes of the tree. -/
theorem preorder_subset {t m : Node} (hm : m ∈ t.preorder) : m.preorder ⊆ t.preorder := by
  induction t using parts_induction with
  | step n ih =>
    rw [preorder_eq_cons n, List.mem_cons] at hm
    rcases hm with rfl | hm
    · exact List.Subset.refl _
    · obtain ⟨c, hc, hmc⟩ := List.mem_flatMap.1 hm
      rw [preorder_eq_cons n]
      exact fun x hx => List.mem_cons_of_mem _ <|
        List.mem_flatMap.2 ⟨c, hc, ih c (children_subset_parts n hc) hmc hx⟩

theorem children_mapChildren (g : Node → Node) (n : Node) :
    (n.mapChildren (m := Id) g).children = n.children.map g := by
  cases n with
  | list id elems => exact inOrder_id _
  | map id keys vals =>
    simp only [mapChildren, inTurns_id]
    exact alternate_map g keys vals
  | _ => rfl

/-- A property of all nodes of a tree is one of its root and of all nodes below. -/
theorem forall_mem_preorder {P : Node → Prop} {n : Node} :
    (∀ m ∈ n.preorder, P m) ↔ P n ∧ ∀ c ∈ n.children, ∀ m ∈ c.preorder, P m := by
  rw [preorder_eq_cons]
  simp only [List.mem_cons, List.mem_flatMap, forall_eq_or_imp, forall_exists_index, and_imp]
  constructor
  · rintro ⟨hn, hrest⟩
    exact ⟨hn, fun c hc m hm => hrest m c hc hm⟩
  · rintro ⟨hn, hrest⟩
    exact ⟨hn, fun m c hc hm => hrest c hc m hm⟩

/-- What holds of all nodes that a pass comes to holds of the root and in the trees of its parts. -/
theorem forall_mem_postorder {P : Node → Prop} {n : Node} :
    (∀ m ∈ n.postorder, P m) ↔ P n ∧ ∀ c ∈ n.parts, ∀ m ∈ c.postorder, P m := by
  rw [postorder_eq_concat]
  simp only [List.mem_append, List.mem_flatMap, mem_passOrder, List.mem_singleton]
  constructor
  · exact fun h => ⟨h n (.inr rfl), fun c hc m hm => h m (.inl ⟨c, hc, hm⟩)⟩
  · rintro ⟨hn, hparts⟩ m (⟨c, hc, hm⟩ | rfl)
    · exact hparts c hc m hm
    · exact hn

/-- In a tree without malformed maps, a pass comes to every node once. -/
theorem postorder_perm_preorder {t : Node} (h : ∀ m ∈ t.preorder, m.Balanced) :
    t.postorder.Perm t.preorder := by
  induction t using parts_induction with
  | step n ih =>
    obtain ⟨hn, hbelow⟩ := forall_mem_preorder.1 h
    rw [postorder_eq_concat, preorder_eq_cons, passOrder_eq_children hn]
    have hchildren : (n.children.flatMap postorder).Perm (n.children.flatMap preorder) :=
      .flatMap_left _ fun c hc => ih c ((mem_children_iff hn).1 hc) (hbelow c hc)
    exact (List.perm_append_singleton n _).trans (hchildren.cons n)

/-! ## Nodes that differ in their children only -/

/-- Two nodes of one shape with related children. -/
inductive Alike (R : Node → Node → Prop) : Node → Node → Prop
  | const (id : NodeId) (value : Value) : Alike R (const id value) (const id value)
  | ident (id : NodeId) (name : String) : Alike R (ident id name) (ident id name)
  | binary {lhs lhs' rhs rhs' : Node} (id : NodeId) (op : Overload) (hl : R lhs lhs')
      (hr : R rhs rhs') : Alike R (binary id op lhs rhs) (binary id op lhs' rhs')
  | logical {lhs lhs' rhs rhs' : Node} (id : NodeId) (mode : Mode) (connective : Connective)
      (hl : R lhs lhs') (hr : R rhs rhs') :
      Alike R (logical id mode connective lhs rhs) (logical id mode connective lhs' rhs')
  | conditional {cond cond' truthy truthy' falsy falsy' : Node} (id : NodeId) (mode : Mode)
      (hc : R cond cond') (ht : R truthy truthy') (hf : R falsy falsy') :
      Alike R (conditional id mode cond truthy falsy) (conditional id mode cond' truthy' falsy')
  | list {elems elems' : List Node} (id : NodeId) (h : List.Forall₂ R elems elems') :
      Alike R (list id elems) (list id elems')
  | map {keys keys' vals vals' : List Node} (id : NodeId) (hk : List.Forall₂ R keys keys')
      (hv : List.Forall₂ R vals vals') : Alike R (map id keys vals) (map id keys' vals')
  | fold {range range' init init' cond cond' step step' result result' : Node} (id : NodeId)
      (mode : Mode) (accuVar iterVar : String) (hr : R range range') (hi : R init init')
      (hc : R cond cond') (hs : R step step') (hres : R result result') :
      Alike R (fold id mode accuVar iterVar range init cond step result)
        (fold id mode accuVar iterVar range' init' cond' step' result')
  | watch {inner inner' : Node} (observer : Observer) (h : R inner inner') :
      Alike R (watch observer inner) (watch observer inner')
  | setMembership {lhs lhs' rhs rhs' : Node} (id : NodeId) (elemType : ValueType)
      (elems : KeySet elemType) (hl : R lhs lhs') (hr : R rhs rhs') :
      Alike R (setMembership id elemType elems lhs rhs) (setMembership id elemType elems lhs' rhs')

namespace Alike

variable {R S : Node → Node → Prop} {n n' : Node}

/-- What is known of the parts of the left node may be used to weaken the relation. -/
theorem imp_of_mem (h : Alike R n n') (hRS : ∀ c ∈ n.parts, ∀ c', R c c' → S c c') :
    Alike S n n' := by
  have hlist : ∀ {cs cs' : List Node}, List.Forall₂ R cs cs' → (∀ c ∈ cs, c ∈ n.parts) →
      List.Forall₂ S cs cs' :=
    fun hcs hmem => forall₂_imp_of_mem hcs fun c hc => hRS c (hmem c hc)
  cases h with
  | const => exact .const ..
  | ident => exact .ident ..
  | binary id op hl hr =>
    exact .binary id op (hRS _ (by simp [parts]) _ hl) (hRS _ (by simp [parts]) _ hr)
  | logical id mode connective hl hr =>
    exact .logical id mode connective (hRS _ (by simp [parts]) _ hl)
      (hRS _ (by simp [parts]) _ hr)
  | conditional id mode hc ht hf =>
    exact .conditional id mode (hRS _ (by simp [parts]) _ hc) (hRS _ (by simp [parts]) _ ht)
      (hRS _ (by simp [parts]) _ hf)
  | list id h => exact .list id (hlist h fun c hc => by simpa [parts] using hc)
  | map id hk hv =>
    exact .map id (hlist hk fun c hc => by simp [parts, hc])
      (hlist hv fun c hc => by simp [parts, hc])
  | fold id mode accuVar iterVar hr hi hc hs hres =>
    exact .fold id mode accuVar iterVar (hRS _ (by simp [parts]) _ hr)
      (hRS _ (by simp [parts]) _ hi) (hRS _ (by simp [parts]) _ hc)
      (hRS _ (by simp [parts]) _ hs) (hRS _ (by simp [parts]) _ hres)
  | watch observer h => exact .watch observer (hRS _ (by simp [parts]) _ h)
  | setMembership id elemType elems hl hr =>
    exact .setMembership id elemType elems (hRS _ (by simp [parts]) _ hl)
      (hRS _ (by simp [parts]) _ hr)

/-- A node has its own shape. -/
theorem of_parts (h : ∀ c ∈ n.parts, R c c) : Alike R n n := by
  cases n with
  | const id value => exact .const id value
  | ident id name => exact .ident id name
  | binary id op lhs rhs => exact .binary id op (h _ (by simp [parts])) (h _ (by simp [parts]))
  | logical id mode connective lhs rhs =>
    exact .logical id mode connective (h _ (by simp [parts])) (h _ (by simp [parts]))
  | conditional id mode cond truthy falsy =>
    exact .conditional id mode (h _ (by simp [parts])) (h _ (by simp [parts]))
      (h _ (by simp [parts]))
  | list id elems => exact .list id (List.forall₂_same.2 h)
  | map id keys vals =>
    exact .map id (List.forall₂_same.2 fun c hc => h c (List.mem_append_left _ hc))
      (List.forall₂_same.2 fun c hc => h c (List.mem_append_right _ hc))
  | fold id mode accuVar iterVar range init cond step result =>
    exact .fold id mode accuVar iterVar (h _ (by simp [parts])) (h _ (by simp [parts]))
      (h _ (by simp [parts])) (h _ (by simp [parts])) (h _ (by simp [parts]))
  | watch observer inner => exact .watch observer (h _ (by simp [parts]))
  | setMembership id elemType elems lhs rhs =>
    exact .setMembership id elemType elems (h _ (by simp [parts])) (h _ (by simp [parts]))

/-- The parts of the two nodes correspond. -/
theorem forall₂_parts (h : Alike R n n') : List.Forall₂ R n.parts n'.parts := by
  cases h with
  | const => exact .nil
  | ident => exact .nil
  | binary id op hl hr => exact .cons hl (.cons hr .nil)
  | logical id mode connective hl hr => exact .cons hl (.cons hr .nil)
  | conditional id mode hc ht hf => exact .cons hc (.cons ht (.cons hf .nil))
  | list id h => exact h
  | map id hk hv => exact List.rel_append hk hv
  | fold id mode accuVar iterVar hr hi hc hs hres =>
    exact .cons hr (.cons hi (.cons hc (.cons hs (.cons hres .nil))))
  | watch observer h => exact .cons h .nil
  | setMembership id elemType elems hl hr => exact .cons hl (.cons hr .nil)

/-- The children of the two nodes correspond. -/
theorem forall₂_children (h : Alike R n n') : List.Forall₂ R n.children n'.children := by
  have hparts := h.forall₂_parts
  cases h with
  | map id hk hv => exact forall₂_alternate hk hv
  | _ => exact hparts

theorem kind_eq (h : Alike R n n') : n'.kind = n.kind := by
  cases h <;> rfl

theorem exists_of_mem_parts (h : Alike R n n') {c : Node} (hc : c ∈ n.parts) : ∃ c', R c c' := by
  have hparts := h.forall₂_parts
  generalize n.parts = cs at hc hparts
  generalize n'.parts = cs' at hparts
  induction hparts with
  | nil => cases hc
  | @cons a b as bs hab _ ih =>
    rcases List.mem_cons.1 hc with rfl | hc
    · exact ⟨b, hab⟩
    · exact ih hc

/-- Related nodes may be put in the place of all children at once. -/
theorem of_mapChildren {g : Node → Node} (h : ∀ c ∈ n.parts, R c (g c)) :
    Alike R n (n.mapChildren (m := Id) g) := by
  have hlist : ∀ {cs : List Node}, (∀ c ∈ cs, R c (g c)) → List.Forall₂ R cs (cs.map g) :=
    fun hcs => List.forall₂_map_right_iff.2 (List.forall₂_same.2 hcs)
  cases n with
  | const id value => exact .const id value
  | ident id name => exact .ident id name
  | binary id op lhs rhs =>
    exact .binary id op (h lhs (by simp [parts])) (h rhs (by simp [parts]))
  | logical id mode connective lhs rhs =>
    exact .logical id mode connective (h lhs (by simp [parts])) (h rhs (by simp [parts]))
  | conditional id mode cond truthy falsy =>
    exact .conditional id mode (h cond (by simp [parts])) (h truthy (by simp [parts]))
      (h falsy (by simp [parts]))
  | list id elems =>
    refine .list id ?_
    rw [inOrder_id]
    exact hlist h
  | map id keys vals =>
    simp only [mapChildren, inTurns_id]
    exact .map id (hlist fun c hc => h c (List.mem_append_left _ hc))
      (hlist fun c hc => h c (List.mem_append_right _ hc))
  | fold id mode accuVar iterVar range init cond step result =>
    exact .fold id mode accuVar iterVar (h range (by simp [parts])) (h init (by simp [parts]))
      (h cond (by simp [parts])) (h step (by simp [parts])) (h result (by simp [parts]))
  | watch observer inner => exact .watch observer (h inner (by simp [parts]))
  | setMembership id elemType elems lhs rhs =>
    exact .setMembership id elemType elems (h lhs (by simp [parts])) (h rhs (by simp [parts]))

/-- Nothing but the children has been replaced. -/
theorem mapChildren_eq {g : Node → Node} (h : Alike (fun c c' => g c = c') n n') :
    n.mapChildren (m := Id) g = n' := by
  have hlist : ∀ {cs cs' : List Node}, List.Forall₂ (fun c c' => g c = c') cs cs' →
      cs.map g = cs' := by
    intro cs cs' hcs
    rwa [← List.forall₂_map_left_iff, List.forall₂_eq_eq_eq] at hcs
  cases h with
  | const => rfl
  | ident => rfl
  | binary id op hl hr => rw [← hl, ← hr]; rfl
  | logical id mode connective hl hr => rw [← hl, ← hr]; rfl
  | conditional id mode hc ht hf => rw [← hc, ← ht, ← hf]; rfl
  | list id h => rw [mapChildren, inOrder_id, hlist h]; rfl
  | map id hk hv => rw [mapChildren, inTurns_id, hlist hk, hlist hv]; rfl
  | fold id mode accuVar iterVar hr hi hc hs hres => rw [← hr, ← hi, ← hc, ← hs, ← hres]; rfl
  | watch observer h => rw [← h]; rfl
  | setMembership id elemType elems hl hr => rw [← hl, ← hr]; rfl

theorem exists_of_parts (h : ∀ c ∈ n.parts, ∃ c', R c c') : ∃ n', Alike R n n' := by
  choose! g hg using h
  exact ⟨_, of_mapChildren hg⟩

/-- The two nodes may be exchanged. -/
theorem symm (h : Alike R n n') : Alike (fun c' c => R c c') n' n := by
  cases h with
  | const => exact .const ..
  | ident => exact .ident ..
  | binary id op hl hr => exact .binary id op hl hr
  | logical id mode connective hl hr => exact .logical id mode connective hl hr
  | conditional id mode hc ht hf => exact .conditional id mode hc ht hf
  | list id h => exact .list id h.flip
  | map id hk hv => exact .map id hk.flip hv.flip
  | fold id mode accuVar iterVar hr hi hc hs hres =>
    exact .fold id mode accuVar iterVar hr hi hc hs hres
  | watch observer h => exact .watch observer h
  | setMembership id elemType elems hl hr => exact .setMembership id elemType elems hl hr

/-- Two replacements of the children, one after the other, are one replacement. -/
theorem trans {T : Node → Node → Prop} {n'' : Node} (h : Alike R n n') (h' : Alike S n' n'')
    (hRST : ∀ c c' c'', R c c' → S c' c'' → T c c'') : Alike T n n'' := by
  cases h with
  | const => cases h'; exact .const ..
  | ident => cases h'; exact .ident ..
  | binary id op hl hr =>
    cases h' with
    | binary _ _ hl' hr' => exact .binary id op (hRST _ _ _ hl hl') (hRST _ _ _ hr hr')
  | logical id mode connective hl hr =>
    cases h' with
    | logical _ _ _ hl' hr' =>
      exact .logical id mode connective (hRST _ _ _ hl hl') (hRST _ _ _ hr hr')
  | conditional id mode hc ht hf =>
    cases h' with
    | conditional _ _ hc' ht' hf' =>
      exact .conditional id mode (hRST _ _ _ hc hc') (hRST _ _ _ ht ht') (hRST _ _ _ hf hf')
  | list id h =>
    cases h' with
    | list _ h' => exact .list id (forall₂_trans h h' hRST)
  | map id hk hv =>
    cases h' with
    | map _ hk' hv' => exact .map id (forall₂_trans hk hk' hRST) (forall₂_trans hv hv' hRST)
  | fold id mode accuVar iterVar hr hi hc hs hres =>
    cases h' with
    | fold _ _ _ _ hr' hi' hc' hs' hres' =>
      exact .fold id mode accuVar iterVar (hRST _ _ _ hr hr') (hRST _ _ _ hi hi')
        (hRST _ _ _ hc hc') (hRST _ _ _ hs hs') (hRST _ _ _ hres hres')
  | watch observer h =>
    cases h' with
    | watch _ h' => exact .watch observer (hRST _ _ _ h h')
  | setMembership id elemType elems hl hr =>
    cases h' with
    | setMembership _ _ _ hl' hr' =>
      exact .setMembership id elemType elems (hRST _ _ _ hl hl') (hRST _ _ _ hr hr')

/-- Nodes of one shape stand for the same expression. Of a watch, this is that of its child. -/
theorem id_eq (h : Alike R n n') (hR : ∀ c c', R c c' → c'.id = c.id) : n'.id = n.id := by
  cases h with
  | @watch inner inner' observer h => exact hR inner inner' h
  | _ => rfl

/-- Nodes of one shape are balanced together. -/
theorem balanced_iff (h : Alike R n n') : n.Balanced ↔ n'.Balanced := by
  cases h with
  | map id hk hv => rw [Balanced, Balanced, hk.length_eq, hv.length_eq]
  | _ => rfl

end Alike

/-! ## What passes return -/

section Returning

variable {m : Type → Type} [Monad m] (r : Returning m)

/-- Rebuilding a node returns a node of the same shape, with children that the action may return. -/
theorem alike_of_mapChildren {f : Node → m Node} {n n' : Node}
    (h : r.mayReturn (n.mapChildren f) n') : Alike (fun c c' => r.mayReturn (f c) c') n n' := by
  -- the actions on the children are run one by one, and have returned the new children
  cases n with
  | const id value =>
    rw [← r.eq_of_pure h]
    exact .const id value
  | ident id name =>
    rw [← r.eq_of_pure h]
    exact .ident id name
  | binary id op lhs rhs =>
    obtain ⟨lhs', hl, h⟩ := r.exists_of_bind h
    obtain ⟨rhs', hr, h⟩ := r.exists_of_bind h
    rw [← r.eq_of_pure h]
    exact .binary id op hl hr
  | logical id mode connective lhs rhs =>
    obtain ⟨lhs', hl, h⟩ := r.exists_of_bind h
    obtain ⟨rhs', hr, h⟩ := r.exists_of_bind h
    rw [← r.eq_of_pure h]
    exact .logical id mode connective hl hr
  | conditional id mode cond truthy falsy =>
    obtain ⟨cond', hc, h⟩ := r.exists_of_bind h
    obtain ⟨truthy', ht, h⟩ := r.exists_of_bind h
    obtain ⟨falsy', hf, h⟩ := r.exists_of_bind h
    rw [← r.eq_of_pure h]
    exact .conditional id mode hc ht hf
  | list id elems =>
    obtain ⟨elems', helems, h⟩ := r.exists_of_bind h
    rw [← r.eq_of_pure h]
    exact .list id (r.forall₂_inOrder helems)
  | map id keys vals =>
    obtain ⟨⟨keys', vals'⟩, hboth, h⟩ := r.exists_of_bind h
    rw [← r.eq_of_pure h]
    exact .map id (r.forall₂_inTurns hboth).1 (r.forall₂_inTurns hboth).2
  | fold id mode accuVar iterVar range init cond step result =>
    obtain ⟨range', hr, h⟩ := r.exists_of_bind h
    obtain ⟨init', hi, h⟩ := r.exists_of_bind h
    obtain ⟨cond', hc, h⟩ := r.exists_of_bind h
    obtain ⟨step', hs, h⟩ := r.exists_of_bind h
    obtain ⟨result', hres, h⟩ := r.exists_of_bind h
    rw [← r.eq_of_pure h]
    exact .fold id mode accuVar iterVar hr hi hc hs hres
  | watch observer inner =>
    obtain ⟨inner', hinner, h⟩ := r.exists_of_bind h
    rw [← r.eq_of_pure h]
    exact .watch observer hinner
  | setMembership id elemType elems lhs rhs =>
    obtain ⟨lhs', hl, h⟩ := r.exists_of_bind h
    obtain ⟨rhs', hr, h⟩ := r.exists_of_bind h
    rw [← r.eq_of_pure h]
    exact .setMembership id elemType elems hl hr

/-- What a pass over a tree returns, the visit has made of a node with passed parts. -/
theorem exists_of_transformM [LawfulMonad m] {visit : Node → m Node} {n t' : Node}
    (h : r.mayReturn (n.transformM visit) t') :
    ∃ n', r.mayReturn (n.mapChildren (transformM visit)) n' ∧ r.mayReturn (visit n') t' := by
  rw [transformM_eq_mapChildren_bind] at h
  exact r.exists_of_bind h

end Returning

/-! ## Rebuilding with actions of every kind -/

section Monad

variable {m : Type → Type} [Monad m] [LawfulMonad m]

/-- Rebuilding a node is running the action along its parts in the order of a pass, and what it
returns takes their places. -/
theorem map_passOrder_mapChildren (f : Node → m Node) (n : Node) :
    passOrder <$> n.mapChildren f = n.passOrder.mapM f := by
  cases n with
  | map id keys vals =>
    show passOrder <$> (inTurns (keys.map f) (vals.map f) >>= fun r => pure (map id r.1 r.2)) =
      (interleave keys vals).mapM f
    rw [bind_pure_comp, ← comp_map, ← map_interleave_inTurns]
    rfl
  | list id elems => simp [mapChildren, passOrder, children, inOrder_map_eq_mapM]
  | _ => simp [mapChildren, passOrder, children]

/-- An action that does nothing leaves the node as it is. -/
theorem mapChildren_pure (n : Node) : n.mapChildren pure = (pure n : m Node) := by
  cases n with
  | map id keys vals =>
    show (inTurns (keys.map pure) (vals.map pure) >>= fun r => pure (map id r.1 r.2)) =
      (pure (map id keys vals) : m Node)
    rw [inTurns_map_pure, pure_bind]
  | list id elems =>
    show (inOrder (elems.map pure) >>= fun es => pure (list id es)) = (pure (list id elems) : m Node)
    rw [inOrder_map_pure, pure_bind]
  | _ => simp [mapChildren]

/-- If what it returns is dropped, rebuilding a node is dealing with its parts in the order of a
pass. -/
theorem discard_mapChildren (f : Node → m Node) (n : Node) :
    discard (n.mapChildren f) = n.passOrder.forM fun c => discard (f c) := by
  rw [← discard_map passOrder, map_passOrder_mapChildren, discard_mapM]

end Monad

/-! ## Passes that succeed -/

section Except

variable {ε : Type}

theorem mapChildren_eq_ok_iff {f : Node → Except ε Node} {n n' : Node} :
    n.mapChildren f = .ok n' ↔ Alike (fun c c' => f c = .ok c') n n' := by
  constructor
  · exact alike_of_mapChildren (.success ε)
  · intro h
    cases h with
    | const => rfl
    | ident => rfl
    | binary id op hl hr => rw [mapChildren, hl, hr]; rfl
    | logical id mode connective hl hr => rw [mapChildren, hl, hr]; rfl
    | conditional id mode hc ht hf => rw [mapChildren, hc, ht, hf]; rfl
    | list id h => rw [mapChildren, inOrder_eq_ok_iff.2 h]; rfl
    | map id hk hv => rw [mapChildren, inTurns_eq_ok_iff.2 ⟨hk, hv⟩]; rfl
    | fold id mode accuVar iterVar hr hi hc hs hres =>
      rw [mapChildren, hr, hi, hc, hs, hres]; rfl
    | watch observer h => rw [mapChildren, h]; rfl
    | setMembership id elemType elems hl hr => rw [mapChildren, hl, hr]; rfl

/-- If the children are replaced in two steps, the first of which has one result, there is a node in
between. -/
theorem Alike.exists_between {f : Node → Except ε Node} {S : Node → Node → Prop} {n n' : Node}
    (h : Alike (fun c c' => ∃ s, f c = .ok s ∧ S s c') n n') :
    ∃ n₁, Alike (fun c s => f c = .ok s) n n₁ ∧ Alike S n₁ n' := by
  obtain ⟨n₁, hn₁⟩ : ∃ n₁, Alike (fun c s => f c = .ok s) n n₁ := by
    refine Alike.exists_of_parts fun c hc => ?_
    obtain ⟨c', s, hs, _⟩ := h.exists_of_mem_parts hc
    exact ⟨s, hs⟩
  refine ⟨n₁, hn₁, hn₁.symm.trans h fun s c c' hs hcc' => ?_⟩
  obtain ⟨s', hs', hS⟩ := hcc'
  rw [hs] at hs'
  cases hs'
  exact hS

/-- A pass succeeds on a tree if it succeeds on the parts and the visit of what is put together from
the results succeeds. -/
theorem transformM_eq_ok_iff {visit : Node → Except ε Node} {n t' : Node} :
    n.transformM visit = .ok t' ↔
      ∃ n', Alike (fun c c' => c.transformM visit = .ok c') n n' ∧ visit n' = .ok t' := by
  rw [transformM_eq_mapChildren_bind, bind_eq_ok_iff]
  simp only [mapChildren_eq_ok_iff]

/-- What relates every node to its visit, given that it relates the parts, relates every tree to
what a pass has made of it. -/
theorem transformM_induction {R : Node → Node → Prop} {visit : Node → Except ε Node}
    (step : ∀ {n n' t' : Node}, Alike R n n' → visit n' = .ok t' → R n t')
    {t t' : Node} (h : t.transformM visit = .ok t') : R t t' := by
  induction t using parts_induction generalizing t' with
  | step n ih =>
    obtain ⟨n', hn, hv⟩ := transformM_eq_ok_iff.1 h
    exact step (hn.imp_of_mem fun c hc _ hcc' => ih c hc hcc') hv

end Except

end Node

end TreeEval
