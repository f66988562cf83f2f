import Mathlib.Data.List.Infix
import Mathlib.Tactic.Common

/-!
# The first occurrence of a list in a list
-/

namespace Occurrence

universe u

variable {α : Type u} [DecidableEq α]

/-- Where `part` first begins. -/
def first (part : List α) : List α → Option Nat
  | [] => if part = [] then some 0 else none
  | a :: l => if part.isPrefixOf (a :: l) then some 0 else (first part l).map (· + 1)

theorem first_of_start {part l : List α} (h : part <+: l) : first part l = some 0 := by
  cases l with
  | nil => rw [first, if_pos (List.prefix_nil.mp h)]
  | cons a l => rw [first, if_pos (List.isPrefixOf_iff_prefix.mpr h)]

theorem first_cons_of_not_start {part l : List α} {a : α} (h : ¬ part <+: a :: l) :
    first part (a :: l) = (first part l).map (· + 1) := by
  rw [first, if_neg (mt List.isPrefixOf_iff_prefix.mp h)]

/-- What is found is there. -/
theorem prefix_drop_of_first {part l : List α} {i : Nat} (h : first part l = some i) :
    part <+: l.drop i := by
  induction l generalizing i with
  | nil =>
    rw [first] at h
    split at h
    · rename_i empty
      exact empty ▸ List.nil_prefix
    · cases h
  | cons a l ih =>
    rw [first] at h
    split at h
    · rename_i here
      obtain rfl := Option.some.inj h
      exact List.isPrefixOf_iff_prefix.mp here
    · obtain ⟨j, later, rfl⟩ := Option.map_eq_some_iff.mp h
      exact ih later

theorem length_le_of_first {part l : List α} {i : Nat} (nonempty : part ≠ [])
    (h : first part l = some i) : i + part.length ≤ l.length := by
  have inside := (prefix_drop_of_first h).length_le
  have some' := List.length_pos_iff.mpr nonempty
  rw [List.length_drop] at inside
  omega

/-- An occurrence stays the first one as the list grows at its end. -/
theorem first_append {part l : List α} {i : Nat} (nonempty : part ≠ [])
    (h : first part l = some i) (more : List α) : first part (l ++ more) = some i := by
  induction l generalizing i with
  | nil =>
    rw [first, if_neg nonempty] at h
    cases h
  | cons a l ih =>
    by_cases here : part <+: a :: l
    · rw [first_of_start here] at h
      rw [first_of_start (here.trans (List.prefix_append _ _)), h]
    · rw [first_cons_of_not_start here] at h
      obtain ⟨j, later, rfl⟩ := Option.map_eq_some_iff.mp h
      have room : part.length ≤ (a :: l).length := by
        have := length_le_of_first nonempty later
        rw [List.length_cons]
        omega
      have still : ¬ part <+: a :: (l ++ more) := fun longer =>
        here (List.prefix_of_prefix_length_le longer (List.prefix_append (a :: l) more) room)
      rw [List.cons_append, first_cons_of_not_start still, ih later, Option.map_some]

/-- What cannot begin an occurrence is passed over. -/
theorem first_skip {a : α} {before : List α} (absent : a ∉ before) (part l : List α) :
    first (a :: part) (before ++ l) = (first (a :: part) l).map (before.length + ·) := by
  induction before with
  | nil =>
    rw [List.nil_append, List.length_nil]
    exact (Option.map_id' (x := first (a :: part) l)).symm.trans
      (congrArg (Option.map · _) (funext fun n => (Nat.zero_add n).symm))
  | cons b before ih =>
    have other : a ≠ b := fun same => absent (same ▸ List.mem_cons_self)
    have start : ¬ a :: part <+: b :: (before ++ l) := fun h => other (List.cons_prefix_cons.mp h).1
    rw [List.cons_append, first_cons_of_not_start start, ih (mt (List.mem_cons_of_mem b) absent),
      Option.map_map, List.length_cons]
    exact congrArg (Option.map · _) (funext fun n => by rw [Function.comp_apply]; omega)

theorem first_eq_length {a : α} {part before : List α} (absent : a ∉ before) (l : List α) :
    first (a :: part) (before ++ (a :: part ++ l)) = some before.length := by
  rw [first_skip absent part, first_of_start (List.prefix_append _ _), Option.map_some, Nat.add_zero]

end Occurrence
