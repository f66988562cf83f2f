import Mathlib.Data.List.Chain

/-!
# Lists in which a mark never stands twice

Such lists, joined with two marks between them, are told apart again.
-/

universe u

variable {α : Type u} {mark : α}

/-- Not empty, with no mark at either end and no two marks side by side. -/
structure Paragraph (mark : α) (s : List α) : Prop where
  nonempty : s ≠ []
  first : s.head? ≠ some mark
  last : s.getLast? ≠ some mark
  apart : s.IsChain fun a b => a = mark → b ≠ mark

namespace Paragraph

variable {s t : List α}

theorem of_not_mem (nonempty : s ≠ []) (none : mark ∉ s) : Paragraph mark s where
  nonempty := nonempty
  first here := none (List.mem_of_mem_head? here)
  last here := none (List.mem_of_getLast? here)
  apart := List.Pairwise.isChain
    (List.pairwise_of_forall_mem_list fun _ ha _ _ same => absurd (same ▸ ha) none)

theorem append (left : Paragraph mark s) (right : Paragraph mark t) : Paragraph mark (s ++ t) where
  nonempty := List.append_ne_nil_of_left_ne_nil left.nonempty t
  first := by
    rw [List.head?_append_of_ne_nil _ left.nonempty]
    exact left.first
  last := by
    rw [List.getLast?_append_of_ne_nil _ right.nonempty]
    exact right.last
  apart := left.apart.append right.apart fun a ha b hb same => by
    subst same
    exact absurd ha left.last

/-- Two lines of a paragraph. -/
theorem line (left : Paragraph mark s) (right : Paragraph mark t) :
    Paragraph mark (s ++ mark :: t) where
  nonempty := List.append_ne_nil_of_left_ne_nil left.nonempty _
  first := by
    rw [List.head?_append_of_ne_nil _ left.nonempty]
    exact left.first
  last := by
    obtain ⟨b, t, rfl⟩ := List.exists_cons_of_ne_nil right.nonempty
    rw [List.getLast?_append_of_ne_nil _ (List.cons_ne_nil _ _), List.getLast?_cons_cons]
    exact right.last
  apart := by
    have next : (mark :: t).IsChain fun a b => a = mark → b ≠ mark :=
      right.apart.cons fun b hb _ same => right.first (same ▸ hb)
    exact left.apart.append next fun a ha b _ same => absurd (same ▸ ha) left.last

end Paragraph

/-- What stands between two marks and two marks, behind what was read of the first part. -/
def paragraphs [DecidableEq α] (mark : α) (part : List α) : List α → List (List α)
  | [] => [part]
  | [a] => [part ++ [a]]
  | a :: b :: rest =>
    if a = mark ∧ b = mark then part :: paragraphs mark [] rest
    else paragraphs mark (part ++ [a]) (b :: rest)

variable [DecidableEq α]

theorem paragraphs_last {s : List α} (apart : s.IsChain fun a b => a = mark → b ≠ mark)
    (part : List α) : paragraphs mark part s = [part ++ s] := by
  induction s generalizing part with
  | nil => rw [paragraphs, List.append_nil]
  | cons a s ih =>
    cases s with
    | nil => rfl
    | cons b s =>
      obtain ⟨here, later⟩ := List.isChain_cons_cons.mp apart
      rw [paragraphs, if_neg (fun both => here both.1 both.2), ih later, List.append_assoc,
        List.singleton_append]

theorem paragraphs_append {s : List α} (apart : s.IsChain fun a b => a = mark → b ≠ mark)
    (last : s.getLast? ≠ some mark) (part rest : List α) :
    paragraphs mark part (s ++ mark :: mark :: rest) = (part ++ s) :: paragraphs mark [] rest := by
  induction s generalizing part with
  | nil => rw [List.nil_append, paragraphs, if_pos ⟨rfl, rfl⟩, List.append_nil]
  | cons a s ih =>
    cases s with
    | nil =>
      have other : a ≠ mark := fun same => last (congrArg some same)
      rw [List.singleton_append, paragraphs, if_neg (fun both => other both.1), paragraphs,
        if_pos ⟨rfl, rfl⟩]
    | cons b s =>
      obtain ⟨here, later⟩ := List.isChain_cons_cons.mp apart
      have next := ih later (by rwa [List.getLast?_cons_cons] at last) (part ++ [a])
      rw [List.cons_append, List.cons_append, paragraphs, if_neg (fun both => here both.1 both.2)]
      rw [List.cons_append] at next
      rw [next, List.append_assoc, List.singleton_append]

/-- Paragraphs that were joined are read back. -/
theorem paragraphs_intercalate : ∀ {texts : List (List α)}, texts ≠ [] →
    (∀ s ∈ texts, Paragraph mark s) →
    paragraphs mark [] ([mark, mark].intercalate texts) = texts
  | [s], _, each => by
    rw [List.intercalate_singleton, paragraphs_last (each s List.mem_cons_self).apart,
      List.nil_append]
  | s :: t :: texts, _, each => by
    obtain ⟨first, others⟩ := List.forall_mem_cons.mp each
    rw [List.intercalate_cons_cons, List.append_assoc]
    refine (paragraphs_append first.apart first.last [] _).trans ?_
    exact congrArg (s :: ·) (paragraphs_intercalate (List.cons_ne_nil t texts) others)
