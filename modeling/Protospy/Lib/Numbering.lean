import Protospy.Lib.Keyed
import Protospy.Lib.OrderedTree

/-!
# Trees that are numbered in preorder

The numbers of a tree and the trees in it are an interval, so that a number tells
whether one tree lies in another.
-/

universe u v

namespace OrderedTree

variable {α : Type u} {β : Type v}

/-! ## Trees in a tree stand together -/

theorem infix_of_mem_subtrees {t s : OrderedTree α β} (member : s ∈ subtrees t) :
    subtrees s <:+: subtrees t := by
  induction t with
  | leaf a =>
    obtain rfl := List.mem_singleton.mp member
    exact List.infix_rfl
  | branch b cs ih =>
    rw [subtrees, subtreesOf_eq] at member
    rcases List.mem_cons.mp member with rfl | below
    · exact List.infix_rfl
    · obtain ⟨c, child, inside⟩ := List.mem_flatMap.mp below
      have part : subtrees c <:+: cs.flatMap subtrees :=
        List.infix_of_mem_flatten (List.mem_map_of_mem child)
      rw [subtrees, subtreesOf_eq]
      exact List.infix_cons ((ih c child inside).trans part)

theorem infix_of_mem_subtreesOf {forest : List (OrderedTree α β)} {s : OrderedTree α β}
    (member : s ∈ subtreesOf forest) : subtrees s <:+: subtreesOf forest := by
  rw [subtreesOf_eq] at member ⊢
  obtain ⟨t, root, inside⟩ := List.mem_flatMap.mp member
  exact (infix_of_mem_subtrees inside).trans (List.infix_of_mem_flatten (List.mem_map_of_mem root))

theorem subtrees_eq_cons (t : OrderedTree α β) :
    subtrees t = t :: subtreesOf t.children := by
  cases t <;> rfl

/-! ## Numbers -/

/-- The trees of a forest have the numbers from `start` on, in preorder. -/
def Numbered (number : OrderedTree α β → Nat) (start : Nat) (forest : List (OrderedTree α β)) :
    Prop :=
  (subtreesOf forest).map number = List.range' start (subtreesOf forest).length

variable {number : OrderedTree α β → Nat} {start : Nat} {forest : List (OrderedTree α β)}

theorem numbered_of_range' {n : Nat}
    (numbers : (subtreesOf forest).map number = List.range' start n) :
    Numbered number start forest := by
  have length := congrArg List.length numbers
  rw [List.length_map, List.length_range'] at length
  rw [Numbered, length]
  exact numbers

namespace Numbered

theorem distinct (numbered : Numbered number start forest) :
    ((subtreesOf forest).map number).Nodup := by
  rw [numbered]
  exact List.nodup_range'

/-- A tree in the forest is numbered from its own number on. -/
theorem map_subtrees (numbered : Numbered number start forest) {t : OrderedTree α β}
    (member : t ∈ subtreesOf forest) :
    (subtrees t).map number =
      List.range' (number t) (subtrees t).length := by
  have part := (infix_of_mem_subtreesOf member).map number
  rw [numbered] at part
  obtain ⟨before, after, joined⟩ := part
  obtain ⟨k, -, front, -⟩ := List.range'_eq_append_iff.mp joined.symm
  obtain ⟨j, -, -, numbers⟩ := List.range'_eq_append_iff.mp front.symm
  have length := congrArg List.length numbers
  rw [List.length_map, List.length_range'] at length
  rw [← length] at numbers
  have first := congrArg List.head? numbers
  rw [subtrees_eq_cons, List.map_cons, List.head?_cons, List.length_cons, List.range'_succ,
    List.head?_cons] at first
  rw [numbers, Option.some.inj first]

/-- One tree lies in another just where its number lies in the other's interval. -/
theorem mem_subtrees_iff (numbered : Numbered number start forest) {t s : OrderedTree α β}
    (ht : t ∈ subtreesOf forest) (hs : s ∈ subtreesOf forest) :
    s ∈ subtrees t ↔
      number t ≤ number s ∧ number s < number t + (subtrees t).length := by
  have interval : number s ∈ (subtrees t).map number ↔
      number t ≤ number s ∧ number s < number t + (subtrees t).length := by
    rw [numbered.map_subtrees ht, List.mem_range'_1]
  constructor
  · intro inside
    exact interval.mp (List.mem_map_of_mem inside)
  · intro between
    obtain ⟨r, inside, same⟩ := List.mem_map.mp (interval.mpr between)
    have hr := (infix_of_mem_subtreesOf ht).subset inside
    rwa [← List.inj_on_of_nodup_map numbered.distinct hr hs same]

/-- Numbers that begin with 0 are the places in preorder. -/
theorem find?_eq (numbered : Numbered number 0 forest) (i : Nat) :
    (subtreesOf forest).find? (fun t => number t = i) = (subtreesOf forest)[i]? := by
  have at_ (j : Nat) (inside : j < (subtreesOf forest).length) :
      number (subtreesOf forest)[j] = j := by
    have numbers := congrArg (fun l => l[j]?) numbered
    simpa [inside] using numbers
  by_cases inside : i < (subtreesOf forest).length
  · have found := Keyed.find?_key numbered.distinct (List.getElem_mem inside)
    rw [at_ i inside] at found
    rw [found, List.getElem?_eq_getElem inside]
  · rw [List.getElem?_eq_none (Nat.le_of_not_lt inside), List.find?_eq_none]
    intro t member same
    obtain ⟨j, small, rfl⟩ := List.getElem_of_mem member
    rw [at_ j small, decide_eq_true_eq] at same
    exact inside (same ▸ small)

end Numbered

end OrderedTree
