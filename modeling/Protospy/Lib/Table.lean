import Mathlib.Data.List.Basic

/-!
# Tables in text

Lists that are laid out in rows of a fixed number of entries, and lines of cells of a
fixed width.
-/

namespace Table

universe u

variable {α : Type u}

/-! ## Rows -/

/-- Row `r` of a list that is laid out with `size` entries in each row. -/
def row (size r : Nat) (xs : List α) : List α := (xs.drop (r * size)).take size

theorem length_row_le (size r : Nat) (xs : List α) : (row size r xs).length ≤ size :=
  List.length_take_le _ _

theorem flatMap_row (size n : Nat) (xs : List α) :
    (List.range n).flatMap (fun r => row size r xs) = xs.take (n * size) := by
  induction n with
  | zero => rw [Nat.zero_mul, List.take_zero]; rfl
  | succ n ih =>
    rw [List.range_succ, List.flatMap_append, ih, List.flatMap_singleton, Nat.succ_mul,
      List.take_add, row]

/-- Enough rows have all the entries. -/
theorem flatMap_row_eq_self {size n : Nat} {xs : List α} (enough : xs.length ≤ n * size) :
    (List.range n).flatMap (fun r => row size r xs) = xs := by
  rw [flatMap_row, List.take_of_length_le enough]

/-! ## Cells -/

/-- The first `n` cells of a line, with one element between two of them. -/
def cells (width : Nat) : Nat → List α → List (List α)
  | 0, _ => []
  | n + 1, line => line.take width :: cells width n (line.drop (width + 1))

variable {width : Nat} {cs : List (List α)}

theorem length_line (even : ∀ c ∈ cs, c.length = width) (sep : α) :
    ([sep].intercalate cs).length = cs.length * (width + 1) - 1 := by
  induction cs with
  | nil => rw [List.intercalate_nil]; simp
  | cons c cs ih =>
    have here := even c List.mem_cons_self
    cases cs with
    | nil => simp [here]
    | cons d cs =>
      rw [List.intercalate_cons_cons, List.length_append, List.length_append, here,
        ih fun e member => even e (List.mem_cons_of_mem _ member), List.length_singleton]
      simp only [List.length_cons, Nat.succ_mul]
      omega

/-- A line of cells of one width is read cell by cell. -/
theorem cells_line (even : ∀ c ∈ cs, c.length = width) (sep : α) :
    cells width cs.length ([sep].intercalate cs) = cs := by
  induction cs with
  | nil => rfl
  | cons c cs ih =>
    have here := even c List.mem_cons_self
    cases cs with
    | nil =>
      rw [List.intercalate_singleton, List.length_singleton, cells, cells,
        List.take_of_length_le (Nat.le_of_eq here)]
    | cons d cs =>
      have rest := ih fun e member => even e (List.mem_cons_of_mem _ member)
      have marked : (c ++ [sep]).length = width + 1 := by
        rw [List.length_append, here, List.length_singleton]
      rw [List.intercalate_cons_cons, List.length_cons, cells, ← marked, List.drop_left, rest,
        List.append_assoc, ← here, List.take_left]

end Table
