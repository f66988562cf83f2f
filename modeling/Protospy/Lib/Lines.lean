import Mathlib.Data.List.Basic

/-!
# Lists that are cut at separators
-/

namespace Lines

universe u v

variable {α : Type u} {β : Type v} {sep : α → Bool}

/-- Put more at the end of the last line. -/
def appendLast (lines : List (List α)) (more : List α) : List (List α) :=
  lines.dropLast ++ [lines.getLastD [] ++ more]

theorem appendLast_cons {line : List α} {lines : List (List α)} (some : lines ≠ [])
    (more : List α) : appendLast (line :: lines) more = line :: appendLast lines more := by
  obtain ⟨next, rest, rfl⟩ := List.exists_cons_of_ne_nil some
  simp [appendLast]

theorem map_appendLast (f : List α → List β) {lines : List (List α)} {more : List α}
    {more' : List β} (last : f (lines.getLastD [] ++ more) = (lines.map f).getLastD [] ++ more') :
    (appendLast lines more).map f = appendLast (lines.map f) more' := by
  rw [appendLast, appendLast, List.map_append, List.map_dropLast, List.map_singleton, last]

/-- A list is cut at the first mark. -/
theorem split_at_mark [DecidableEq α] {mark : α} {before : List α} (none : mark ∉ before)
    (after : List α) :
    (before ++ mark :: after).takeWhile (· ≠ mark) = before ∧
      ((before ++ mark :: after).dropWhile (· ≠ mark)).drop 1 = after := by
  have all : ∀ c ∈ before, decide (c ≠ mark) = true := by
    intro c member
    exact decide_eq_true fun same => none (same ▸ member)
  rw [List.takeWhile_append_of_pos all, List.dropWhile_append_of_pos all, List.takeWhile_cons,
    List.dropWhile_cons, if_neg (by simp), List.append_nil]
  exact ⟨rfl, by simp⟩

/-- What has no separator goes on with the last line. -/
theorem splitOnP_append (xs : List α) {ys : List α} (oneLine : ∀ y ∈ ys, sep y = false) :
    (xs ++ ys).splitOnP sep = appendLast (xs.splitOnP sep) ys := by
  induction xs with
  | nil =>
    rw [List.nil_append, List.splitOnP_eq_singleton oneLine]
    rfl
  | cons x xs ih =>
    have some := List.splitOnP_ne_nil sep xs
    rw [List.cons_append, List.splitOnP_cons_eq_if_modifyHead, List.splitOnP_cons_eq_if_modifyHead,
      ih]
    split
    · rw [appendLast_cons some]
    · obtain ⟨line, lines, split⟩ := List.exists_cons_of_ne_nil some
      rw [split]
      cases lines with
      | nil => rfl
      | cons next rest => rw [appendLast_cons (List.cons_ne_nil _ _), List.modifyHead_cons,
          List.modifyHead_cons, appendLast_cons (List.cons_ne_nil _ _)]

/-- A separator starts a new line. -/
theorem splitOnP_concat (xs : List α) {x : α} (separates : sep x = true) :
    (xs ++ [x]).splitOnP sep = xs.splitOnP sep ++ [[]] := by
  rw [List.splitOnP_append_cons _ _ separates, List.splitOnP_nil]

theorem not_sep_of_mem_splitOnP {xs : List α} {line : List α} (member : line ∈ xs.splitOnP sep) :
    ∀ x ∈ line, sep x = false := by
  induction xs generalizing line with
  | nil =>
    rw [List.splitOnP_nil, List.mem_singleton] at member
    simp [member]
  | cons x xs ih =>
    rw [List.splitOnP_cons_eq_if_modifyHead] at member
    split at member
    · rcases List.mem_cons.mp member with rfl | later
      · simp
      · exact ih later
    · rename_i inside
      obtain ⟨first, rest, split⟩ := List.exists_cons_of_ne_nil (List.splitOnP_ne_nil sep xs)
      rw [split, List.modifyHead_cons] at member
      rw [split] at ih
      rcases List.mem_cons.mp member with rfl | later
      · intro y here
        rcases List.mem_cons.mp here with rfl | tail
        · simpa using inside
        · exact ih List.mem_cons_self y tail
      · exact ih (List.mem_cons_of_mem _ later)

theorem splitOnP_map (f : β → α) (xs : List β) :
    (xs.map f).splitOnP sep = (xs.splitOnP fun x => sep (f x)).map (List.map f) := by
  induction xs with
  | nil => rfl
  | cons x xs ih =>
    rw [List.map_cons, List.splitOnP_cons_eq_if_modifyHead, List.splitOnP_cons_eq_if_modifyHead, ih]
    split
    · rfl
    · obtain ⟨first, rest, split⟩ := List.exists_cons_of_ne_nil
        (List.splitOnP_ne_nil (fun x => sep (f x)) xs)
      rw [split]
      rfl

/-- Joined lines: the first, and a separator before each of the others. -/
theorem intercalate_cons (x : α) (line : List α) (lines : List (List α)) :
    [x].intercalate (line :: lines) = line ++ lines.flatMap (x :: ·) := by
  induction lines generalizing line with
  | nil => rw [List.intercalate_singleton, List.flatMap_nil, List.append_nil]
  | cons next lines ih =>
    rw [List.intercalate_cons_cons, ih, List.flatMap_cons, List.append_assoc]
    rfl

end Lines
