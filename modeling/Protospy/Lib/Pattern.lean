import Mathlib.Data.List.TakeWhile
import Mathlib.Tactic.Common

/-!
# Greedy patterns

A pattern is a row of items, each a test that is to be passed by a number of elements in
a row. An item takes as many elements as it can and gives them back one by one until the
items after it match.
-/

namespace Pattern

universe u

variable {α : Type u}

structure Item (α : Type u) where
  test : α → Bool
  least : Nat
  most : Option Nat
  captured : Bool

namespace Item

def one (test : α → Bool) : Item α := ⟨test, 1, some 1, false⟩

def optional (test : α → Bool) : Item α := ⟨test, 0, some 1, false⟩

def star (test : α → Bool) : Item α := ⟨test, 0, none, false⟩

/-- A group of at least one element. -/
def group (test : α → Bool) : Item α := ⟨test, 1, none, true⟩

/-- The elements that the item can take at the start of a list. -/
def run (item : Item α) (l : List α) : List α :=
  match item.most with
  | some n => (l.takeWhile item.test).take n
  | none => l.takeWhile item.test

/-- How many elements the item may take, the most first. -/
def lengths (item : Item α) (l : List α) : List Nat :=
  (List.range ((item.run l).length + 1)).reverse.filter fun n => item.least ≤ n

end Item

/-- What the groups of a match at the start of the list have captured. -/
def matchStart : List (Item α) → List α → Option (List α)
  | [], _ => some []
  | item :: items, l =>
    (item.lengths l).findSome? fun n =>
      (matchStart items (l.drop n)).map fun captured =>
        if item.captured then l.take n ++ captured else captured

/-- The leftmost match. -/
def search (items : List (Item α)) : List α → Option (List α)
  | [] => matchStart items []
  | a :: l => (matchStart items (a :: l)).or (search items l)

theorem Item.run_prefix (item : Item α) (l : List α) : item.run l <+: l := by
  rw [Item.run]
  split
  · exact (List.take_prefix _ _).trans (List.takeWhile_prefix _)
  · exact List.takeWhile_prefix _

theorem Item.test_of_mem_run {item : Item α} {l : List α} {a : α} (member : a ∈ item.run l) :
    item.test a = true := by
  rw [Item.run] at member
  split at member
  · exact List.mem_takeWhile_imp (List.mem_of_mem_take member)
  · exact List.mem_takeWhile_imp member

/-- What is captured passes the test of a group. -/
theorem captured_of_matchStart {items : List (Item α)} {l captured : List α}
    (found : matchStart items l = some captured) :
    ∀ a ∈ captured, ∃ item ∈ items, item.captured = true ∧ item.test a = true := by
  induction items generalizing l captured with
  | nil =>
    obtain rfl := Option.some.inj found
    exact fun a member => absurd member List.not_mem_nil
  | cons item items ih =>
    rw [matchStart] at found
    obtain ⟨n, inside, here⟩ := List.exists_of_findSome?_eq_some found
    obtain ⟨rest, later, rfl⟩ := Option.map_eq_some_iff.mp here
    have bound : n ≤ (item.run l).length := by
      have := (List.mem_filter.mp inside).1
      rw [List.mem_reverse, List.mem_range] at this
      omega
    intro a member
    have old (tail : a ∈ rest) : ∃ item' ∈ item :: items, item'.captured = true ∧
        item'.test a = true := by
      obtain ⟨item', there, passes⟩ := ih later a tail
      exact ⟨item', List.mem_cons_of_mem _ there, passes⟩
    split at member
    · rename_i isGroup
      rcases List.mem_append.mp member with taken | tail
      · refine ⟨item, List.mem_cons_self, isGroup, Item.test_of_mem_run (l := l) ?_⟩
        have start : l.take n = (item.run l).take n := by
          rw [List.prefix_iff_eq_take.mp (item.run_prefix l), List.take_take, Nat.min_eq_left bound]
        rw [start] at taken
        exact List.mem_of_mem_take taken
      · exact old tail
    · exact old member

theorem captured_of_search {items : List (Item α)} {l captured : List α}
    (found : search items l = some captured) :
    ∀ a ∈ captured, ∃ item ∈ items, item.captured = true ∧ item.test a = true := by
  induction l with
  | nil => exact captured_of_matchStart found
  | cons a l ih =>
    rw [search, Option.or_eq_some_iff] at found
    rcases found with here | ⟨-, later⟩
    · exact captured_of_matchStart here
    · exact ih later

/-- Where the item takes all it can and the rest matches, nothing is given back. -/
theorem matchStart_greedy (item : Item α) (items : List (Item α)) {l captured : List α}
    (enough : item.least ≤ (item.run l).length)
    (rest : matchStart items (l.drop (item.run l).length) = some captured) :
    matchStart (item :: items) l =
      some (if item.captured then item.run l ++ captured else captured) := by
  have first : item.lengths l = (item.run l).length ::
      (List.range (item.run l).length).reverse.filter fun n => item.least ≤ n := by
    rw [Item.lengths, List.range_succ, List.reverse_append, List.reverse_singleton,
      List.singleton_append, List.filter_cons, if_pos (decide_eq_true enough)]
  have start : l.take (item.run l).length = item.run l :=
    (List.prefix_iff_eq_take.mp (item.run_prefix l)).symm
  rw [matchStart, first, List.findSome?_cons, rest, start]
  rfl

theorem Item.run_one {test : α → Bool} {a : α} (passes : test a = true) (l : List α) :
    (Item.one test).run (a :: l) = [a] := by
  rw [Item.run, Item.one, List.takeWhile_cons_of_pos passes]
  rfl

/-- An element that has to be there. -/
theorem matchStart_one (test : α → Bool) (items : List (Item α)) {a : α} (l : List α)
    (passes : test a = true) :
    matchStart (Item.one test :: items) (a :: l) = matchStart items l := by
  have only : (Item.one test).lengths (a :: l) = [1] := by
    rw [Item.lengths, Item.run_one passes]
    rfl
  rw [matchStart, only, List.findSome?_singleton, List.drop_one, List.tail_cons]
  exact Option.map_id'

theorem matchStart_one_none {test : α → Bool} {items : List (Item α)} {a : α} (l : List α)
    (fails : test a = false) : matchStart (Item.one test :: items) (a :: l) = none := by
  have only : (Item.one test).lengths (a :: l) = [] := by
    rw [Item.lengths, Item.run, Item.one, List.takeWhile_cons_of_neg (by simp [fails])]
    rfl
  rw [matchStart, only, List.findSome?_nil]

/-- What cannot start a match is skipped. -/
theorem search_append {test : α → Bool} {items : List (Item α)} {before : List α}
    (none : before.all (fun a => !test a) = true) (l : List α) :
    search (Item.one test :: items) (before ++ l) = search (Item.one test :: items) l := by
  induction before with
  | nil => rfl
  | cons a before ih =>
    rw [List.all_cons, Bool.and_eq_true, Bool.not_eq_true'] at none
    obtain ⟨fails, rest⟩ := none
    rw [List.cons_append, search, matchStart_one_none _ fails, Option.none_or, ih rest]

theorem search_of_matchStart {items : List (Item α)} {l captured : List α}
    (found : matchStart items l = some captured) : search items l = some captured := by
  cases l with
  | nil => exact found
  | cons a l => rw [search, found, Option.some_or]

end Pattern
