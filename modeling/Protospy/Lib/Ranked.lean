import Mathlib.Data.List.Sort

/-!
# Stable sorting by a rank

What a stable sort makes of a list: the elements of each rank in their order, rank by rank.
-/

namespace Ranked

universe u

variable {α : Type u} (rank : α → Nat)

def sort (l : List α) : List α := l.insertionSort fun a b => rank a ≤ rank b

def bucket (k : Nat) (l : List α) : List α := l.filter fun a => rank a = k

variable {rank}

theorem bucket_cons_self (a : α) (l : List α) :
    bucket rank (rank a) (a :: l) = a :: bucket rank (rank a) l :=
  List.filter_cons_of_pos (decide_eq_true rfl)

theorem bucket_cons_of_ne {a : α} {k : Nat} (other : rank a ≠ k) (l : List α) :
    bucket rank k (a :: l) = bucket rank k l :=
  List.filter_cons_of_neg (by simpa using other)

theorem rank_of_mem_bucket {k : Nat} {l : List α} {a : α} (member : a ∈ bucket rank k l) :
    rank a = k := by
  simpa using (List.mem_filter.mp member).2

theorem orderedInsert_of_first {a : α} {l : List α} (first : ∀ b ∈ l, rank a ≤ rank b) :
    l.orderedInsert (fun a b => rank a ≤ rank b) a = a :: l := by
  cases l with
  | nil => rfl
  | cons b l => exact List.orderedInsert_cons_of_le _ l (first b List.mem_cons_self)

theorem orderedInsert_append {a : α} {l : List α} (later : ∀ b ∈ l, ¬ rank a ≤ rank b) (m : List α) :
    (l ++ m).orderedInsert (fun a b => rank a ≤ rank b) a =
      l ++ m.orderedInsert (fun a b => rank a ≤ rank b) a := by
  induction l with
  | nil => rfl
  | cons b l ih =>
    obtain ⟨here, rest⟩ := List.forall_mem_cons.mp later
    rw [List.cons_append, List.orderedInsert_of_not_le _ (l ++ m) here, ih rest, List.cons_append]

/-- An element is inserted before all others of its rank. -/
theorem orderedInsert_buckets {a : α} {ks : List Nat} (increasing : ks.Pairwise (· < ·))
    (ranked : rank a ∈ ks) (l : List α) :
    (ks.flatMap fun k => bucket rank k l).orderedInsert (fun a b => rank a ≤ rank b) a =
      ks.flatMap fun k => bucket rank k (a :: l) := by
  induction ks with
  | nil => exact absurd ranked List.not_mem_nil
  | cons k ks ih =>
    obtain ⟨above, increasing⟩ := List.pairwise_cons.mp increasing
    rw [List.flatMap_cons, List.flatMap_cons]
    rcases List.mem_cons.mp ranked with rfl | later
    · have same : (ks.flatMap fun k => bucket rank k (a :: l)) = ks.flatMap fun k => bucket rank k l :=
        List.flatMap_congr fun k member => bucket_cons_of_ne (above k member).ne l
      rw [bucket_cons_self, same]
      refine orderedInsert_of_first fun b member => ?_
      rcases List.mem_append.mp member with here | there
      · exact (rank_of_mem_bucket here).ge
      · obtain ⟨k, larger, inBucket⟩ := List.mem_flatMap.mp there
        exact (rank_of_mem_bucket inBucket).symm ▸ (above k larger).le
    · have larger := above _ later
      rw [bucket_cons_of_ne larger.ne', orderedInsert_append, ih increasing later]
      intro b member
      rw [rank_of_mem_bucket member]
      omega

theorem sort_eq_buckets {n : Nat} {l : List α} (below : ∀ a ∈ l, rank a < n) :
    sort rank l = (List.range n).flatMap fun k => bucket rank k l := by
  induction l with
  | nil => exact (List.flatMap_eq_nil_iff.mpr fun k _ => rfl).symm
  | cons a l ih =>
    obtain ⟨here, rest⟩ := List.forall_mem_cons.mp below
    have sorted : sort rank l = (List.range n).flatMap fun k => bucket rank k l := ih rest
    rw [sort, List.insertionSort_cons, ← sort, sorted,
      orderedInsert_buckets List.pairwise_lt_range (List.mem_range.mpr here)]

theorem sort_perm (l : List α) : (sort rank l).Perm l := List.perm_insertionSort _ l

end Ranked
