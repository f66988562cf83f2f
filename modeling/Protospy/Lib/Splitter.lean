import Mathlib.Data.List.Basic

/-!
# Splitting a list that arrives in pieces

A splitter cuts a list into parts. What is appended to the list changes its last
part only, so a reader can hand on the complete parts of a piece and keep the
last one for the next piece.
-/

universe u

/-! ## What follows a mark -/

/-- Empty, or with `x` at the end. -/
def EndsIn {α : Type u} (x : α) (u : List α) : Prop := u = [] ∨ ∃ v, u = v ++ [x]

theorem EndsIn.eq_of_concat {α : Type u} {x y : α} {u : List α} (ends : EndsIn x (u ++ [y])) :
    y = x := by
  obtain empty | ⟨v, last⟩ := ends
  · simp at empty
  · exact (List.append_singleton_inj.mp last).2

/-- The first place of a mark determines what is before it and what is after it. -/
theorem eq_of_separated {α : Type u} {c : α} : ∀ {left left' right right' : List α}, c ∉ left →
    c ∉ left' → left ++ c :: right = left' ++ c :: right' → left = left' ∧ right = right'
  | [], [], _, _, _, _, h => ⟨rfl, (List.cons.inj h).2⟩
  | [], d :: left', _, _, _, away, h => by
    obtain ⟨rfl, -⟩ := List.cons.inj h
    exact absurd List.mem_cons_self away
  | d :: left, [], _, _, away, _, h => by
    obtain ⟨rfl, -⟩ := List.cons.inj h
    exact absurd List.mem_cons_self away
  | d :: left, d' :: left', _, _, away, away', h => by
    obtain ⟨rfl, rest⟩ := List.cons.inj h
    obtain ⟨rfl, rfl⟩ := eq_of_separated (fun m => away (List.mem_cons_of_mem _ m))
      (fun m => away' (List.mem_cons_of_mem _ m)) rest
    exact ⟨rfl, rfl⟩

/-- How often `x` occurs in what follows an `x` determines where it begins. -/
theorem eq_of_count_after {α : Type u} [DecidableEq α] {x : α} {a r b s : List α}
    (same : a ++ r = b ++ s) (left : EndsIn x a) (right : EndsIn x b)
    (count : r.count x = s.count x) : r = s := by
  wlog longer : a.length ≤ b.length generalizing a b r s
  · exact (this same.symm right left count.symm (by omega)).symm
  obtain ⟨w, rfl, rfl⟩ : ∃ w, b = a ++ w ∧ r = w ++ s := by
    rcases List.append_eq_append_iff.mp same with ⟨w, hb, hr⟩ | ⟨w, ha, hs⟩
    · exact ⟨w, hb, hr⟩
    · obtain rfl : w = [] := by
        rw [ha, List.length_append] at longer
        exact List.length_eq_zero_iff.mp (by omega)
      exact ⟨[], by simpa using ha.symm, hs.symm⟩
  rcases List.eq_nil_or_concat' w with rfl | ⟨w, y, rfl⟩
  · rfl
  · rw [← List.append_assoc] at right
    obtain rfl := right.eq_of_concat
    simp only [List.count_append, List.count_singleton_self] at count
    omega

/-! ## Splitters -/

structure Splitter (α : Type u) where
  split : List α → List (List α)
  split_ne_nil : ∀ x, split x ≠ []
  split_append : ∀ x y,
    split (x ++ y) = (split x).dropLast ++ split ((split x).getLastD [] ++ y)

namespace Splitter

variable {α : Type u} (S : Splitter α)

/-- The parts that are complete after the piece `x`. -/
def complete (rest x : List α) : List (List α) := (S.split (rest ++ x)).dropLast

/-- What is kept for the next piece. -/
def remainder (rest x : List α) : List α := (S.split (rest ++ x)).getLastD []

theorem dropLast_append_remainder (x : List α) :
    (S.split x).dropLast ++ [(S.split x).getLastD []] = S.split x := by
  have last := List.getLastD_eq_getLast? (a := []) (l := S.split x)
  rw [last, List.getLast?_eq_some_getLast (S.split_ne_nil x)]
  exact List.dropLast_concat_getLast (S.split_ne_nil x)

/-- The last part holds no separator. -/
theorem split_getLastD (x : List α) :
    S.split ((S.split x).getLastD []) = [(S.split x).getLastD []] := by
  have again := S.split_append x []
  rw [List.append_nil, List.append_nil] at again
  exact (List.append_cancel_left (again.symm.trans (S.dropLast_append_remainder x).symm))

theorem complete_append (rest x y : List α) :
    S.complete rest (x ++ y) = S.complete rest x ++ S.complete (S.remainder rest x) y := by
  rw [complete, ← List.append_assoc, S.split_append,
    List.dropLast_append_of_ne_nil (S.split_ne_nil _)]
  rfl

theorem remainder_append (rest x y : List α) :
    S.remainder rest (x ++ y) = S.remainder (S.remainder rest x) y := by
  have parts := S.dropLast_append_remainder (S.remainder rest x ++ y)
  rw [remainder, ← List.append_assoc, S.split_append]
  change (_ ++ S.split (S.remainder rest x ++ y)).getLastD [] = _
  rw [← parts, ← List.append_assoc, List.getLastD_concat]
  rfl

end Splitter
