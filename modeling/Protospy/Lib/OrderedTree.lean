import Protospy.Lib.Machine
import Mathlib.Data.List.Perm.Basic

/-!
# Ordered trees and walks through them

A place in a tree is a subtree together with the branches above it and the child
that was taken at each of them. A walk reports something when it comes to a place
and when it leaves the place, and does not go into children that are not open.
-/

universe u v w

inductive OrderedTree (α : Type u) (β : Type v) where
  | leaf (label : α)
  | branch (label : β) (children : List (OrderedTree α β))

namespace OrderedTree

variable {α : Type u} {β : Type v} {γ : Type w}

def children : OrderedTree α β → List (OrderedTree α β)
  | leaf _ => []
  | branch _ cs => cs

@[simp] theorem children_leaf (a : α) : (leaf a : OrderedTree α β).children = [] := rfl

@[simp] theorem children_branch (b : β) (cs : List (OrderedTree α β)) :
    (branch b cs).children = cs := rfl

/-- Induction with the hypothesis for every child. -/
@[induction_eliminator]
theorem induct {P : OrderedTree α β → Prop} (leaf : ∀ a, P (leaf a))
    (branch : ∀ b cs, (∀ c ∈ cs, P c) → P (branch b cs)) : ∀ t, P t
  | .leaf a => leaf a
  | .branch b cs => branch b cs fun c _ => induct leaf branch c

/-- `above` lists the branches above and the child taken at each, innermost first. -/
structure Place (α : Type u) (β : Type v) where
  above : List (OrderedTree α β × Nat)
  tree : OrderedTree α β

mutual

/-- A tree and all the trees in it, in preorder. -/
def subtrees : OrderedTree α β → List (OrderedTree α β)
  | leaf a => [leaf a]
  | branch b cs => branch b cs :: subtreesOf cs

def subtreesOf : List (OrderedTree α β) → List (OrderedTree α β)
  | [] => []
  | c :: cs => subtrees c ++ subtreesOf cs

end

theorem subtreesOf_eq (cs : List (OrderedTree α β)) : subtreesOf cs = cs.flatMap subtrees := by
  induction cs with
  | nil => rfl
  | cons c cs ih => rw [subtreesOf, ih, List.flatMap_cons]

theorem self_mem_subtrees (t : OrderedTree α β) : t ∈ subtrees t := by
  cases t <;> simp [subtrees]

theorem subtrees_of_child {b : β} {cs : List (OrderedTree α β)} {c : OrderedTree α β}
    (child : c ∈ cs) : subtrees c ⊆ subtrees (branch b cs) := by
  intro s member
  rw [subtrees, subtreesOf_eq]
  exact List.mem_cons_of_mem _ (List.mem_flatMap.mpr ⟨c, child, member⟩)

/-! ## The places of a tree -/

mutual

def preorder (above : List (OrderedTree α β × Nat)) : OrderedTree α β → List (Place α β)
  | leaf a => [⟨above, leaf a⟩]
  | branch b cs => ⟨above, branch b cs⟩ :: preorderChildren above (branch b cs) 0 cs

/-- The places in the children of `parent` from child `i` on. -/
def preorderChildren (above : List (OrderedTree α β × Nat)) (parent : OrderedTree α β) (i : Nat) :
    List (OrderedTree α β) → List (Place α β)
  | [] => []
  | c :: cs => preorder ((parent, i) :: above) c ++ preorderChildren above parent (i + 1) cs

end

mutual

def postorder (above : List (OrderedTree α β × Nat)) : OrderedTree α β → List (Place α β)
  | leaf a => [⟨above, leaf a⟩]
  | branch b cs => postorderChildren above (branch b cs) 0 cs ++ [⟨above, branch b cs⟩]

def postorderChildren (above : List (OrderedTree α β × Nat)) (parent : OrderedTree α β)
    (i : Nat) : List (OrderedTree α β) → List (Place α β)
  | [] => []
  | c :: cs => postorder ((parent, i) :: above) c ++ postorderChildren above parent (i + 1) cs

end

theorem mem_preorderChildren {above : List (OrderedTree α β × Nat)} {parent : OrderedTree α β}
    {i : Nat} {cs : List (OrderedTree α β)} {p : Place α β} :
    p ∈ preorderChildren above parent i cs ↔
      ∃ j c, cs[j]? = some c ∧ p ∈ preorder ((parent, i + j) :: above) c := by
  induction cs generalizing i with
  | nil => simp [preorderChildren]
  | cons c cs ih =>
    rw [preorderChildren, List.mem_append, ih]
    constructor
    · rintro (here | ⟨j, d, hd, there⟩)
      · exact ⟨0, c, rfl, here⟩
      · exact ⟨j + 1, d, hd, by rwa [show i + (j + 1) = i + 1 + j by omega]⟩
    · rintro ⟨_ | j, d, hd, there⟩
      · obtain rfl : c = d := by simpa using hd
        exact .inl there
      · exact .inr ⟨j, d, hd, by rwa [show i + 1 + j = i + (j + 1) by omega]⟩

theorem mem_preorder_branch {above : List (OrderedTree α β × Nat)} {b : β}
    {cs : List (OrderedTree α β)} {p : Place α β} :
    p ∈ preorder above (branch b cs) ↔ p = ⟨above, branch b cs⟩ ∨
      ∃ j c, cs[j]? = some c ∧ p ∈ preorder ((branch b cs, j) :: above) c := by
  rw [preorder, List.mem_cons, mem_preorderChildren]
  simp

theorem self_mem_preorder (above : List (OrderedTree α β × Nat)) (t : OrderedTree α β) :
    ⟨above, t⟩ ∈ preorder above t := by
  cases t <;> simp [preorder]

/-- Below a tree, everything above it is above too. -/
theorem above_suffix {above : List (OrderedTree α β × Nat)} {t : OrderedTree α β}
    {p : Place α β} (member : p ∈ preorder above t) : above <:+ p.above := by
  induction t generalizing above with
  | leaf a =>
    obtain rfl := List.mem_singleton.mp member
    exact List.suffix_rfl
  | branch b cs ih =>
    rcases mem_preorder_branch.mp member with rfl | ⟨j, c, hc, inside⟩
    · exact List.suffix_rfl
    · exact (List.suffix_cons _ _).trans (ih c (List.mem_of_getElem? hc) inside)

theorem preorder_trans {above : List (OrderedTree α β × Nat)} {t : OrderedTree α β}
    {p q : Place α β} (outer : p ∈ preorder above t) (inner : q ∈ preorder p.above p.tree) :
    q ∈ preorder above t := by
  induction t generalizing above with
  | leaf a =>
    obtain rfl := List.mem_singleton.mp outer
    exact inner
  | branch b cs ih =>
    rcases mem_preorder_branch.mp outer with rfl | ⟨j, c, hc, inside⟩
    · exact inner
    · exact mem_preorder_branch.mpr (.inr ⟨j, c, hc, ih c (List.mem_of_getElem? hc) inside⟩)

/-- In a tree, a place is the tree itself or has the tree above it. -/
theorem eq_or_above {above : List (OrderedTree α β × Nat)} {t : OrderedTree α β} {p : Place α β}
    (member : p ∈ preorder above t) : p = ⟨above, t⟩ ∨ ∃ i, (t, i) ∈ p.above := by
  cases t with
  | leaf a => exact .inl (List.mem_singleton.mp member)
  | branch b cs =>
    rcases mem_preorder_branch.mp member with here | ⟨j, c, -, inside⟩
    · exact .inl here
    · exact .inr ⟨j, (above_suffix inside).subset List.mem_cons_self⟩

mutual

/-- The subtrees do not depend on what is above. -/
theorem map_tree_preorder (above : List (OrderedTree α β × Nat)) : ∀ t : OrderedTree α β,
    (preorder above t).map Place.tree = subtrees t
  | leaf a => rfl
  | branch b cs => by
    rw [preorder, List.map_cons, map_tree_preorderChildren, subtrees]

theorem map_tree_preorderChildren (above : List (OrderedTree α β × Nat))
    (parent : OrderedTree α β) : ∀ (i : Nat) (cs : List (OrderedTree α β)),
    (preorderChildren above parent i cs).map Place.tree = subtreesOf cs
  | _, [] => rfl
  | i, c :: cs => by
    rw [preorderChildren, List.map_append, map_tree_preorder _ c,
      map_tree_preorderChildren above parent (i + 1) cs, subtreesOf]

end

theorem tree_mem_subtrees {above : List (OrderedTree α β × Nat)} {t : OrderedTree α β}
    {p : Place α β} (member : p ∈ preorder above t) : p.tree ∈ subtrees t := by
  rw [← map_tree_preorder above t]
  exact List.mem_map_of_mem member

theorem exists_place (above : List (OrderedTree α β × Nat)) {t s : OrderedTree α β}
    (member : s ∈ subtrees t) : ∃ p ∈ preorder above t, p.tree = s := by
  rw [← map_tree_preorder above t] at member
  exact List.mem_map.mp member

/-- What is above a place has the place's tree among the trees in its children. -/
theorem above_mem {above : List (OrderedTree α β × Nat)} {t : OrderedTree α β} {p : Place α β}
    (member : p ∈ preorder above t) :
    ∀ a ∈ p.above, a ∈ above ∨ a.1 ∈ subtrees t ∧ p.tree ∈ subtreesOf a.1.children := by
  induction t generalizing above with
  | leaf b =>
    obtain rfl := List.mem_singleton.mp member
    exact fun a ha => .inl ha
  | branch b cs ih =>
    rcases mem_preorder_branch.mp member with rfl | ⟨j, c, hc, inside⟩
    · exact fun a ha => .inl ha
    · intro a ha
      have child := List.mem_of_getElem? hc
      rcases ih c child inside a ha with outside | ⟨sub, below⟩
      · rcases List.mem_cons.mp outside with rfl | further
        · refine .inr ⟨self_mem_subtrees _, ?_⟩
          rw [children_branch, subtreesOf_eq]
          exact List.mem_flatMap.mpr ⟨c, child, tree_mem_subtrees inside⟩
        · exact .inl further
      · exact .inr ⟨subtrees_of_child child sub, below⟩

mutual

theorem postorder_perm (above : List (OrderedTree α β × Nat)) :
    ∀ t : OrderedTree α β, (postorder above t).Perm (preorder above t)
  | leaf a => .refl _
  | branch b cs => by
    rw [postorder, preorder]
    exact List.perm_append_singleton _ _ |>.trans
      ((postorderChildren_perm above (branch b cs) 0 cs).cons _)

theorem postorderChildren_perm (above : List (OrderedTree α β × Nat)) (parent : OrderedTree α β) :
    ∀ (i : Nat) (cs : List (OrderedTree α β)),
      (postorderChildren above parent i cs).Perm (preorderChildren above parent i cs)
  | _, [] => .refl _
  | i, c :: cs => by
    rw [postorderChildren, preorderChildren]
    exact (postorder_perm _ c).append (postorderChildren_perm above parent (i + 1) cs)

end

theorem preorderChildren_append (above : List (OrderedTree α β × Nat)) (parent : OrderedTree α β)
    (i : Nat) (cs ds : List (OrderedTree α β)) :
    preorderChildren above parent i (cs ++ ds) =
      preorderChildren above parent i cs ++ preorderChildren above parent (i + cs.length) ds := by
  induction cs generalizing i with
  | nil => rfl
  | cons c cs ih =>
    rw [List.cons_append, preorderChildren, preorderChildren, ih, List.append_assoc,
      List.length_cons, Nat.add_right_comm, Nat.add_assoc]

/-! ## Last children -/

/-- Induction along the last children. -/
theorem lastInduct {P : OrderedTree α β → Prop} (leaf : ∀ a, P (leaf a))
    (empty : ∀ b, P (branch b [])) (last : ∀ b cs c, P c → P (branch b (cs ++ [c]))) :
    ∀ t, P t := by
  intro t
  induction t with
  | leaf a => exact leaf a
  | branch b cs ih =>
    obtain rfl | ⟨init, c, rfl⟩ := List.eq_nil_or_concat' cs
    · exact empty b
    · exact last b init c (ih c (by simp))

mutual

/-- A tree, its last child, the last child of that and so on. -/
def rightSpine : OrderedTree α β → List (OrderedTree α β)
  | leaf a => [leaf a]
  | branch b cs => branch b cs :: rightSpineOf cs

def rightSpineOf : List (OrderedTree α β) → List (OrderedTree α β)
  | [] => []
  | [c] => rightSpine c
  | _ :: c :: cs => rightSpineOf (c :: cs)

end

theorem rightSpineOf_concat (cs : List (OrderedTree α β)) (c : OrderedTree α β) :
    rightSpineOf (cs ++ [c]) = rightSpine c := by
  induction cs with
  | nil => rfl
  | cons d cs ih =>
    cases cs with
    | nil => rfl
    | cons e cs => exact ih

@[simp] theorem rightSpine_concat (b : β) (cs : List (OrderedTree α β)) (c : OrderedTree α β) :
    rightSpine (branch b (cs ++ [c])) = branch b (cs ++ [c]) :: rightSpine c := by
  rw [rightSpine, rightSpineOf_concat]

/-! ## Walks -/

mutual

/-- Go to every place whose branches above are open at the children taken. -/
def walk (first last : Place α β → List γ) (opened : OrderedTree α β → Nat → Bool)
    (above : List (OrderedTree α β × Nat)) : OrderedTree α β → List γ
  | leaf a => first ⟨above, leaf a⟩ ++ last ⟨above, leaf a⟩
  | branch b cs => first ⟨above, branch b cs⟩ ++
      (walkChildren first last opened above (branch b cs) 0 cs ++ last ⟨above, branch b cs⟩)

def walkChildren (first last : Place α β → List γ) (opened : OrderedTree α β → Nat → Bool)
    (above : List (OrderedTree α β × Nat)) (parent : OrderedTree α β) (i : Nat) :
    List (OrderedTree α β) → List γ
  | [] => []
  | c :: cs => (if opened parent i then walk first last opened ((parent, i) :: above) c else []) ++
      walkChildren first last opened above parent (i + 1) cs

end

/-- Everything above is open at the child taken. -/
def Place.reached (opened : OrderedTree α β → Nat → Bool) (p : Place α β) : Bool :=
  p.above.all fun a => opened a.1 a.2

variable {opened : OrderedTree α β → Nat → Bool}

theorem reached_cons {above : List (OrderedTree α β × Nat)} {parent : OrderedTree α β} {i : Nat}
    (reach : ∀ a ∈ above, opened a.1 a.2 = true) (open_ : opened parent i = true) :
    ∀ a ∈ (parent, i) :: above, opened a.1 a.2 = true := by
  simpa [open_] using reach

/-- Nothing under a child that is not open is reached. -/
theorem filter_reached_closed {above : List (OrderedTree α β × Nat)} {parent : OrderedTree α β}
    {i : Nat} (closed : opened parent i = false) {places : List (Place α β)}
    (below : ∀ p ∈ places, (parent, i) :: above <:+ p.above) :
    places.filter (Place.reached opened) = [] := by
  rw [List.filter_eq_nil_iff]
  intro p member reached
  have inside := (below p member).subset List.mem_cons_self
  rw [List.all_eq_true.mp reached _ inside] at closed
  cases closed

section Walks

variable (first last : Place α β → List γ)

mutual

theorem walk_first {above : List (OrderedTree α β × Nat)}
    (reach : ∀ a ∈ above, opened a.1 a.2 = true) : ∀ t : OrderedTree α β,
    walk first (fun _ => []) opened above t =
      ((preorder above t).filter (Place.reached opened)).flatMap first
  | leaf a => by
    have here : Place.reached opened ⟨above, leaf a⟩ = true := List.all_eq_true.mpr reach
    simp [walk, preorder, here]
  | branch b cs => by
    have here : Place.reached opened ⟨above, branch b cs⟩ = true := List.all_eq_true.mpr reach
    rw [walk, preorder, List.filter_cons_of_pos here, List.flatMap_cons, List.append_nil,
      walkChildren_first reach]

theorem walkChildren_first {above : List (OrderedTree α β × Nat)}
    (reach : ∀ a ∈ above, opened a.1 a.2 = true) {parent : OrderedTree α β} : ∀ (i : Nat) (cs : List (OrderedTree α β)),
    walkChildren first (fun _ => []) opened above parent i cs =
      ((preorderChildren above parent i cs).filter (Place.reached opened)).flatMap first
  | _, [] => rfl
  | i, c :: cs => by
    rw [walkChildren, preorderChildren, List.filter_append, List.flatMap_append,
      walkChildren_first reach (i + 1) cs]
    cases open_ : opened parent i with
    | true => rw [if_pos rfl, walk_first (reached_cons reach open_) c]
    | false =>
      rw [filter_reached_closed open_ fun p member => above_suffix member]
      rfl

end

mutual

theorem walk_last {above : List (OrderedTree α β × Nat)}
    (reach : ∀ a ∈ above, opened a.1 a.2 = true) : ∀ t : OrderedTree α β,
    walk (fun _ => []) last opened above t =
      ((postorder above t).filter (Place.reached opened)).flatMap last
  | leaf a => by
    have here : Place.reached opened ⟨above, leaf a⟩ = true := List.all_eq_true.mpr reach
    simp [walk, postorder, here]
  | branch b cs => by
    have here : Place.reached opened ⟨above, branch b cs⟩ = true := List.all_eq_true.mpr reach
    rw [walk, postorder, List.filter_append, List.flatMap_append, List.nil_append,
      walkChildren_last reach, List.filter_cons_of_pos here]
    simp

theorem walkChildren_last {above : List (OrderedTree α β × Nat)}
    (reach : ∀ a ∈ above, opened a.1 a.2 = true) {parent : OrderedTree α β} : ∀ (i : Nat) (cs : List (OrderedTree α β)),
    walkChildren (fun _ => []) last opened above parent i cs =
      ((postorderChildren above parent i cs).filter (Place.reached opened)).flatMap last
  | _, [] => rfl
  | i, c :: cs => by
    rw [walkChildren, postorderChildren, List.filter_append, List.flatMap_append,
      walkChildren_last reach (i + 1) cs]
    cases open_ : opened parent i with
    | true => rw [if_pos rfl, walk_last (reached_cons reach open_) c]
    | false =>
      rw [filter_reached_closed open_ fun p member =>
        above_suffix ((postorder_perm _ _).mem_iff.mp member)]
      rfl

end

variable {first last}

mutual

theorem filter_walk (q : γ → Bool) : ∀ (above : List (OrderedTree α β × Nat))
    (t : OrderedTree α β), (walk first last opened above t).filter q =
      walk (fun p => (first p).filter q) (fun p => (last p).filter q) opened above t
  | _, leaf a => by rw [walk, walk, List.filter_append]
  | above, branch b cs => by
    rw [walk, walk, List.filter_append, List.filter_append,
      filter_walkChildren q above (branch b cs) 0 cs]

theorem filter_walkChildren (q : γ → Bool) : ∀ (above : List (OrderedTree α β × Nat))
    (parent : OrderedTree α β) (i : Nat) (cs : List (OrderedTree α β)),
    (walkChildren first last opened above parent i cs).filter q =
      walkChildren (fun p => (first p).filter q) (fun p => (last p).filter q) opened above
        parent i cs
  | _, _, _, [] => rfl
  | above, parent, i, c :: cs => by
    rw [walkChildren, walkChildren, List.filter_append, filter_walkChildren q above parent (i + 1) cs]
    cases opened parent i with
    | true => rw [if_pos rfl, if_pos rfl, filter_walk q _ c]
    | false => rfl

end

theorem walkChildren_closed (above : List (OrderedTree α β × Nat)) {parent : OrderedTree α β} :
    ∀ (i : Nat) (cs : List (OrderedTree α β)), (∀ j, i ≤ j → opened parent j = false) →
      walkChildren first last opened above parent i cs = []
  | _, [], _ => rfl
  | i, c :: cs, closed => by
    rw [walkChildren, closed i (Nat.le_refl i),
      walkChildren_closed above (i + 1) cs fun j hj => closed j (by omega)]
    rfl

mutual

theorem walk_congr {first' last' : Place α β → List γ} : ∀ (above : List (OrderedTree α β × Nat))
    (t : OrderedTree α β),
    (∀ p ∈ preorder above t, first p = first' p ∧ last p = last' p) →
      walk first last opened above t = walk first' last' opened above t
  | above, leaf a, same => by
    obtain ⟨hfirst, hlast⟩ := same ⟨above, leaf a⟩ (self_mem_preorder _ _)
    rw [walk, walk, hfirst, hlast]
  | above, branch b cs, same => by
    obtain ⟨hfirst, hlast⟩ := same ⟨above, branch b cs⟩ (self_mem_preorder _ _)
    rw [walk, walk, hfirst, hlast, walkChildren_congr above (branch b cs) 0 cs fun p member =>
      same p (List.mem_cons_of_mem _ member)]

theorem walkChildren_congr {first' last' : Place α β → List γ} :
    ∀ (above : List (OrderedTree α β × Nat)) (parent : OrderedTree α β) (i : Nat)
      (cs : List (OrderedTree α β)),
      (∀ p ∈ preorderChildren above parent i cs, first p = first' p ∧ last p = last' p) →
        walkChildren first last opened above parent i cs =
          walkChildren first' last' opened above parent i cs
  | _, _, _, [], _ => rfl
  | above, parent, i, c :: cs, same => by
    rw [walkChildren, walkChildren,
      walk_congr _ c fun p member => same p (List.mem_append_left _ member),
      walkChildren_congr above parent (i + 1) cs fun p member =>
        same p (List.mem_append_right _ member)]

end

/-- At a state where `Q` holds, what a place reports last undoes what it reported first. -/
structure Balanced {σ : Type*} (step : σ → γ → Option σ) (Q : σ → Prop)
    (enter : Place α β → σ → σ) (first last : Place α β → List γ) : Prop where
  first_enter : ∀ p s, Q s → Machine.run step s (first p) = some (enter p s) ∧ Q (enter p s)
  last_leave : ∀ p s, Q s → Machine.run step (enter p s) (last p) = some s

variable {σ : Type*} {step : σ → γ → Option σ} {Q : σ → Prop} {enter : Place α β → σ → σ}

mutual

theorem run_walk (balanced : Balanced step Q enter first last) :
    ∀ (above : List (OrderedTree α β × Nat)) (t : OrderedTree α β) (s : σ), Q s →
      Machine.run step s (walk first last opened above t) = some s
  | _, leaf a, s, hs => by
    rw [walk, Machine.run_append, (balanced.first_enter _ s hs).1]
    exact balanced.last_leave _ s hs
  | above, branch b cs, s, hs => by
    obtain ⟨entered, kept⟩ := balanced.first_enter ⟨above, branch b cs⟩ s hs
    rw [walk, Machine.run_append, entered, Option.bind_some, Machine.run_append,
      run_walkChildren balanced above (branch b cs) 0 cs _ kept]
    exact balanced.last_leave _ s hs

theorem run_walkChildren (balanced : Balanced step Q enter first last) :
    ∀ (above : List (OrderedTree α β × Nat)) (parent : OrderedTree α β) (i : Nat)
      (cs : List (OrderedTree α β)) (s : σ), Q s →
      Machine.run step s (walkChildren first last opened above parent i cs) = some s
  | _, _, _, [], s, _ => rfl
  | above, parent, i, c :: cs, s, hs => by
    rw [walkChildren, Machine.run_append]
    cases opened parent i with
    | true =>
      rw [if_pos rfl, run_walk balanced _ c s hs]
      exact run_walkChildren balanced above parent (i + 1) cs s hs
    | false => exact run_walkChildren balanced above parent (i + 1) cs s hs

end

end Walks

end OrderedTree
