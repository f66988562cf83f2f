import Protospy.Lib.Lanes
import Protospy.Ui.Text
import Mathlib.Data.Finset.Lattice.Fold
import Mathlib.Data.List.ReduceOption
import Mathlib.Order.Bounds.Basic
import Mathlib.Order.Lattice.Nat

/-!
# Lanes of traces (`components/trace-rail.tsx`)

A bar for each trace with at least two members runs from its first row to its last. Bars
that overlap are put in different lanes.
-/

namespace Protospy

/-- `Omit<TraceInterval, "lane">`. -/
structure Span where
  traceId : Text
  first : Nat
  last : Nat
  count : Nat
  deriving DecidableEq, Repr

structure TraceInterval extends Span where
  lane : Nat
  deriving DecidableEq, Repr

structure PackedLanes where
  intervals : List TraceInterval
  laneCount : Nat
  deriving DecidableEq, Repr

/-- `get` and `set` of the map of spans: an entry that is there keeps its place. -/
def recordMember (spans : List Span) (id : Text) (i : Nat) : List Span :=
  if spans.any fun s => s.traceId = id then
    spans.map fun s => if s.traceId = id then { s with last := i, count := s.count + 1 } else s
  else spans ++ [⟨id, i, i, 1⟩]

/-- An empty id is as good as none. -/
def recordRow (spans : List Span) (row : Option Text × Nat) : List Span :=
  match row.1 with
  | some id => if id = [] then spans else recordMember spans id row.2
  | none => spans

def spansOf (traceIds : List (Option Text)) : List Span := traceIds.zipIdx.foldl recordRow []

def sortedSpans (traceIds : List (Option Text)) : List Span :=
  ((spansOf traceIds).filter fun s => 1 < s.count).mergeSort fun a b => a.first ≤ b.first

def assignLane (state : List Nat × List TraceInterval) (s : Span) :
    List Nat × List TraceInterval :=
  match state.1.findIdx? fun e => e < s.first with
  | some lane => (state.1.set lane s.last, state.2 ++ [⟨s, lane⟩])
  | none => (state.1 ++ [s.last], state.2 ++ [⟨s, state.1.length⟩])

def packLanes (traceIds : List (Option Text)) : PackedLanes :=
  let (laneEnds, intervals) := (sortedSpans traceIds).foldl assignLane ([], [])
  ⟨intervals, laneEnds.length⟩

/-! ## The rows of a trace -/

def traceRows (traceIds : List (Option Text)) (id : Text) : Set Nat :=
  {i | traceIds[i]? = some (some id)}

def MultiMember (traceIds : List (Option Text)) (id : Text) : Prop :=
  id ≠ [] ∧ 2 ≤ traceIds.count (some id)

/-- The trace has a row at or before the index and a row at or after it. -/
def CoversRow (traceIds : List (Option Text)) (i : Nat) (id : Text) : Prop :=
  some id ∈ traceIds.take (i + 1) ∧ some id ∈ traceIds.drop i

instance (traceIds : List (Option Text)) (id : Text) : Decidable (MultiMember traceIds id) :=
  inferInstanceAs (Decidable (_ ∧ _))

instance (traceIds : List (Option Text)) (i : Nat) (id : Text) :
    Decidable (CoversRow traceIds i id) :=
  inferInstanceAs (Decidable (_ ∧ _))

/-- The traces with at least two members whose rows enclose the index. -/
def tracesOver (traceIds : List (Option Text)) (i : Nat) : Finset Text :=
  traceIds.reduceOption.toFinset.filter fun id =>
    MultiMember traceIds id ∧ CoversRow traceIds i id

/-- The span says where the trace starts and ends and how many rows it has. -/
structure IsSpan (traceIds : List (Option Text)) (s : Span) : Prop where
  named : s.traceId ≠ []
  first : IsLeast (traceRows traceIds s.traceId) s.first
  last : IsGreatest (traceRows traceIds s.traceId) s.last
  count : s.count = traceIds.count (some s.traceId)

/-- The spans of the rows so far, in the order in which the traces start. -/
structure AreSpans (traceIds : List (Option Text)) (spans : List Span) : Prop where
  each : ∀ s ∈ spans, IsSpan traceIds s
  all : ∀ id ≠ [], some id ∈ traceIds → ∃ s ∈ spans, s.traceId = id
  ordered : spans.Pairwise fun a b => a.first < b.first

theorem mem_traceRows_concat {traceIds : List (Option Text)} {row : Option Text} {id : Text}
    {i : Nat} : i ∈ traceRows (traceIds ++ [row]) id ↔
      i ∈ traceRows traceIds id ∨ i = traceIds.length ∧ row = some id := by
  simp only [traceRows, Set.mem_ofPred_eq, List.getElem?_append]
  split
  · rename_i inside
    exact ⟨.inl, fun either => either.resolve_right fun last => absurd last.1 (by omega)⟩
  · rename_i outside
    rw [List.getElem?_eq_none (by omega : traceIds.length ≤ i), List.getElem?_singleton]
    constructor
    · intro last
      split at last
      · exact .inr ⟨by omega, Option.some.inj last⟩
      · cases last
    · rintro (none | ⟨rfl, rfl⟩)
      · cases none
      · rw [Nat.sub_self]
        rfl

theorem lt_length_of_mem_traceRows {traceIds : List (Option Text)} {id : Text} {i : Nat}
    (member : i ∈ traceRows traceIds id) : i < traceIds.length :=
  (List.getElem?_eq_some_iff.mp member).1

/-- A row of another trace changes nothing. -/
theorem IsSpan.concat_other {traceIds : List (Option Text)} {s : Span} (span : IsSpan traceIds s)
    {row : Option Text} (other : row ≠ some s.traceId) : IsSpan (traceIds ++ [row]) s := by
  have rows : traceRows (traceIds ++ [row]) s.traceId = traceRows traceIds s.traceId := by
    ext i
    rw [mem_traceRows_concat]
    exact or_iff_left fun last => other last.2
  refine ⟨span.named, rows ▸ span.first, rows ▸ span.last, ?_⟩
  rw [List.count_append, List.count_singleton, if_neg (by simpa using other), Nat.add_zero]
  exact span.count

/-- A row of the trace is its last. -/
theorem IsSpan.concat_member {traceIds : List (Option Text)} {s : Span} (span : IsSpan traceIds s) :
    IsSpan (traceIds ++ [some s.traceId])
      { s with last := traceIds.length, count := s.count + 1 } := by
  refine ⟨span.named, ⟨?_, ?_⟩, ⟨?_, ?_⟩, ?_⟩
  · exact mem_traceRows_concat.mpr (.inl span.first.1)
  · intro i member
    rcases mem_traceRows_concat.mp member with old | ⟨rfl, -⟩
    · exact span.first.2 old
    · exact (lt_length_of_mem_traceRows span.first.1).le
  · exact mem_traceRows_concat.mpr (.inr ⟨rfl, rfl⟩)
  · intro i member
    rcases mem_traceRows_concat.mp member with old | ⟨rfl, -⟩
    · exact (lt_length_of_mem_traceRows old).le
    · exact le_refl _
  · rw [List.count_append, List.count_singleton_self, span.count]

/-- A trace that has no row starts with the new one. -/
theorem isSpan_concat_new {traceIds : List (Option Text)} {id : Text} (named : id ≠ [])
    (new : some id ∉ traceIds) :
    IsSpan (traceIds ++ [some id]) ⟨id, traceIds.length, traceIds.length, 1⟩ := by
  have only : ∀ i ∈ traceRows (traceIds ++ [some id]) id, i = traceIds.length := by
    intro i member
    rcases mem_traceRows_concat.mp member with old | ⟨last, -⟩
    · exact absurd (List.mem_of_getElem? old) new
    · exact last
  have last : traceIds.length ∈ traceRows (traceIds ++ [some id]) id :=
    mem_traceRows_concat.mpr (.inr ⟨rfl, rfl⟩)
  refine ⟨named, ⟨last, fun i member => (only i member).ge⟩,
    ⟨last, fun i member => (only i member).le⟩, ?_⟩
  rw [List.count_append, List.count_singleton_self, List.count_eq_zero_of_not_mem new]

theorem AreSpans.skip {traceIds : List (Option Text)} {spans : List Span}
    (spans' : AreSpans traceIds spans) {row : Option Text} (anonymous : ∀ id ≠ [], row ≠ some id) :
    AreSpans (traceIds ++ [row]) spans := by
  refine ⟨fun s member => ?_, fun id named member => ?_, spans'.ordered⟩
  · have span := spans'.each s member
    exact span.concat_other (anonymous _ span.named)
  · rcases List.mem_append.mp member with old | new
    · exact spans'.all id named old
    · exact absurd (List.mem_singleton.mp new).symm (anonymous id named)

/-- A row of a trace that has a span makes that span longer. -/
theorem AreSpans.record_known {traceIds : List (Option Text)} {spans : List Span}
    (spans' : AreSpans traceIds spans) {id : Text} (known : ∃ s ∈ spans, s.traceId = id) :
    AreSpans (traceIds ++ [some id]) (spans.map fun s =>
      if s.traceId = id then { s with last := traceIds.length, count := s.count + 1 } else s) := by
  constructor
  case each =>
    intro s member
    obtain ⟨old, inside, rfl⟩ := List.mem_map.mp member
    split
    · rename_i same
      rw [← same]
      exact (spans'.each old inside).concat_member
    · rename_i other
      exact (spans'.each old inside).concat_other fun same => other (Option.some.inj same).symm
  case all =>
    intro id' named' member
    have old : ∃ s ∈ spans, s.traceId = id' := by
      rcases List.mem_append.mp member with old | new
      · exact spans'.all id' named' old
      · obtain rfl := Option.some.inj (List.mem_singleton.mp new)
        exact known
    obtain ⟨s, inside, rfl⟩ := old
    refine ⟨_, List.mem_map_of_mem inside, ?_⟩
    split <;> rfl
  case ordered =>
    refine List.pairwise_map.mpr (spans'.ordered.imp fun {a b} before => ?_)
    split <;> split <;> exact before

/-- The first row of a trace makes a span of its own. -/
theorem AreSpans.record_new {traceIds : List (Option Text)} {spans : List Span}
    (spans' : AreSpans traceIds spans) {id : Text} (named : id ≠ [])
    (unknown : ¬ ∃ s ∈ spans, s.traceId = id) :
    AreSpans (traceIds ++ [some id])
      (spans ++ [⟨id, traceIds.length, traceIds.length, 1⟩]) := by
  have absent : some id ∉ traceIds := mt (spans'.all id named) unknown
  constructor
  case each =>
    intro s member
    rcases List.mem_append.mp member with old | last
    · have span := spans'.each s old
      refine span.concat_other fun same => absent ?_
      rw [Option.some.inj same]
      exact List.mem_of_getElem? span.first.1
    · rw [List.mem_singleton.mp last]
      exact isSpan_concat_new named absent
  case all =>
    intro id' named' member
    rcases List.mem_append.mp member with old | last
    · obtain ⟨s, inside, same⟩ := spans'.all id' named' old
      exact ⟨s, List.mem_append_left _ inside, same⟩
    · obtain rfl := Option.some.inj (List.mem_singleton.mp last)
      exact ⟨_, List.mem_append_right _ List.mem_cons_self, rfl⟩
  case ordered =>
    exact Lanes.pairwise_concat spans'.ordered fun s member =>
      lt_length_of_mem_traceRows (spans'.each s member).first.1

theorem AreSpans.record {traceIds : List (Option Text)} {spans : List Span}
    (spans' : AreSpans traceIds spans) {id : Text} (named : id ≠ []) :
    AreSpans (traceIds ++ [some id]) (recordMember spans id traceIds.length) := by
  have known : spans.any (fun s => s.traceId = id) = true ↔ ∃ s ∈ spans, s.traceId = id := by
    simp only [List.any_eq_true, decide_eq_true_eq]
  rw [recordMember]
  split
  · rename_i old
    exact spans'.record_known (known.mp old)
  · rename_i new
    exact spans'.record_new named (mt known.mpr new)

theorem recordRow_some (spans : List Span) (id : Text) (i : Nat) :
    recordRow spans (some id, i) = if id = [] then spans else recordMember spans id i := rfl

theorem areSpans (traceIds : List (Option Text)) : AreSpans traceIds (spansOf traceIds) := by
  induction traceIds using List.reverseRecOn with
  | nil => exact ⟨by simp [spansOf], by simp, List.Pairwise.nil⟩
  | append_singleton traceIds row ih =>
    have step : spansOf (traceIds ++ [row]) =
        recordRow (spansOf traceIds) (row, traceIds.length) := by
      rw [spansOf, List.zipIdx_append, List.foldl_append, ← spansOf, Nat.zero_add,
        List.zipIdx_singleton, List.foldl_cons, List.foldl_nil]
    rw [step]
    cases row with
    | none => exact ih.skip fun id _ same => by cases same
    | some id =>
      by_cases unnamed : id = []
      · rw [recordRow_some, if_pos unnamed]
        exact ih.skip fun id' named same => named (Option.some.inj same ▸ unnamed)
      · rw [recordRow_some, if_neg unnamed]
        exact ih.record unnamed

/-! ## The spans that get a bar -/

theorem sortedSpans_eq (traceIds : List (Option Text)) :
    sortedSpans traceIds = (spansOf traceIds).filter fun s => 1 < s.count := by
  refine List.mergeSort_of_pairwise ?_
  exact ((areSpans traceIds).ordered.filter _).imp fun before => decide_eq_true before.le

theorem isSpan_of_mem_sortedSpans {traceIds : List (Option Text)} {s : Span}
    (member : s ∈ sortedSpans traceIds) : IsSpan traceIds s := by
  rw [sortedSpans_eq] at member
  exact (areSpans traceIds).each s (List.mem_of_mem_filter member)

theorem sortedSpans_ordered (traceIds : List (Option Text)) :
    (sortedSpans traceIds).Pairwise fun a b => a.first < b.first := by
  rw [sortedSpans_eq]
  exact (areSpans traceIds).ordered.filter _

theorem nodup_sortedSpans (traceIds : List (Option Text)) :
    ((sortedSpans traceIds).map Span.traceId).Nodup := by
  refine List.pairwise_map.mpr (List.Pairwise.imp_of_mem ?_ (sortedSpans_ordered traceIds))
  intro a b ha hb before same
  have start := (isSpan_of_mem_sortedSpans ha).first
  rw [same] at start
  exact absurd (start.unique (isSpan_of_mem_sortedSpans hb).first) before.ne

theorem mem_sortedSpans_iff (traceIds : List (Option Text)) (id : Text) :
    id ∈ (sortedSpans traceIds).map Span.traceId ↔ MultiMember traceIds id := by
  constructor
  · intro member
    obtain ⟨s, inside, rfl⟩ := List.mem_map.mp member
    have span := isSpan_of_mem_sortedSpans inside
    rw [sortedSpans_eq] at inside
    refine ⟨span.named, ?_⟩
    rw [← span.count]
    exact of_decide_eq_true (List.mem_filter.mp inside).2
  · rintro ⟨named, several⟩
    have present : some id ∈ traceIds := List.count_pos_iff.mp (by omega)
    obtain ⟨s, inside, rfl⟩ := (areSpans traceIds).all id named present
    rw [sortedSpans_eq]
    refine List.mem_map_of_mem (List.mem_filter.mpr ⟨inside, decide_eq_true ?_⟩)
    rw [((areSpans traceIds).each s inside).count]
    exact several

theorem IsSpan.first_le_last {traceIds : List (Option Text)} {s : Span} (span : IsSpan traceIds s) :
    s.first ≤ s.last := span.last.2 span.first.1

/-! ## Packing -/

def toInterval (placed : Span × Nat) : TraceInterval := ⟨placed.1, placed.2⟩

theorem assignLane_eq (p : Lanes.Packing Span Nat) (s : Span) :
    assignLane (p.ends, p.placed.map toInterval) s =
      ((p.place Span.first Span.last s).ends,
        (p.place Span.first Span.last s).placed.map toInterval) := by
  rw [assignLane, Lanes.Packing.place]
  cases p.ends.findIdx? (fun e => e < s.first) <;> simp [toInterval]

/-- The lanes of the library for the spans. -/
def packing (traceIds : List (Option Text)) : Lanes.Packing Span Nat :=
  Lanes.Packing.empty.placeAll Span.first Span.last (sortedSpans traceIds)

theorem packLanes_eq (traceIds : List (Option Text)) :
    packLanes traceIds = ⟨(packing traceIds).placed.map toInterval, (packing traceIds).ends.length⟩ := by
  have run : ∀ (spans : List Span) (p : Lanes.Packing Span Nat),
      spans.foldl assignLane (p.ends, p.placed.map toInterval) =
        ((p.placeAll Span.first Span.last spans).ends,
          (p.placeAll Span.first Span.last spans).placed.map toInterval) := by
    intro spans
    induction spans with
    | nil => exact fun _ => rfl
    | cons s spans ih =>
      intro p
      rw [List.foldl_cons, assignLane_eq, ih]
      rfl
  have all := run (sortedSpans traceIds) Lanes.Packing.empty
  rw [packLanes]
  exact congrArg (fun state : List Nat × List TraceInterval =>
    (⟨state.2, state.1.length⟩ : PackedLanes)) all

theorem packed (traceIds : List (Option Text)) :
    Lanes.Packed Span.first Span.last (packing traceIds) ∧
      (packing traceIds).placed.map Prod.fst = sortedSpans traceIds :=
  Lanes.packed_empty.placeAll
    (fun _ member => (isSpan_of_mem_sortedSpans member).first_le_last)
    ((sortedSpans_ordered traceIds).imp fun before => before.le)

theorem map_toSpan_intervals (traceIds : List (Option Text)) :
    (packLanes traceIds).intervals.map TraceInterval.toSpan = sortedSpans traceIds := by
  rw [packLanes_eq, List.map_map]
  exact (packed traceIds).2

/-! ## The traces over a row -/

theorem coversRow_iff {traceIds : List (Option Text)} {s : Span} (span : IsSpan traceIds s)
    (i : Nat) : CoversRow traceIds i s.traceId ↔ Lanes.Covers Span.first Span.last i s := by
  rw [CoversRow, Lanes.Covers, List.mem_take_iff_getElem, List.mem_drop_iff_getElem]
  constructor
  · rintro ⟨⟨j, before, here⟩, k, after, there⟩
    have early : j ∈ traceRows traceIds s.traceId := List.getElem?_eq_some_iff.mpr ⟨_, here⟩
    have late : i + k ∈ traceRows traceIds s.traceId := List.getElem?_eq_some_iff.mpr ⟨_, there⟩
    have := span.first.2 early
    have := span.last.2 late
    exact ⟨by omega, by omega⟩
  · rintro ⟨start, stop⟩
    obtain ⟨inside, here⟩ := List.getElem?_eq_some_iff.mp span.first.1
    obtain ⟨inside', there⟩ := List.getElem?_eq_some_iff.mp span.last.1
    refine ⟨⟨s.first, by omega, here⟩, s.last - i, by omega, ?_⟩
    simp only [Nat.add_sub_cancel' stop]
    exact there

theorem card_tracesOver (traceIds : List (Option Text)) (i : Nat) :
    (tracesOver traceIds i).card =
      Lanes.depth Span.first Span.last (sortedSpans traceIds) i := by
  have same : tracesOver traceIds i = (((sortedSpans traceIds).filter fun s =>
      Lanes.Covers Span.first Span.last i s).map Span.traceId).toFinset := by
    ext id
    rw [tracesOver, Finset.mem_filter, List.mem_toFinset, List.mem_toFinset,
      List.reduceOption_mem_iff, List.mem_map]
    constructor
    · rintro ⟨-, multi, covers⟩
      obtain ⟨s, member, rfl⟩ := List.mem_map.mp ((mem_sortedSpans_iff traceIds _).mpr multi)
      have inside := (coversRow_iff (isSpan_of_mem_sortedSpans member) i).mp covers
      exact ⟨s, List.mem_filter.mpr ⟨member, decide_eq_true inside⟩, rfl⟩
    · rintro ⟨s, member, rfl⟩
      obtain ⟨member, covers⟩ := List.mem_filter.mp member
      have span := isSpan_of_mem_sortedSpans member
      exact ⟨List.mem_of_getElem? span.first.1,
        (mem_sortedSpans_iff traceIds _).mp (List.mem_map_of_mem member),
        (coversRow_iff span i).mpr (of_decide_eq_true covers)⟩
  have distinct : (((sortedSpans traceIds).filter fun s =>
      Lanes.Covers Span.first Span.last i s).map Span.traceId).Nodup :=
    (nodup_sortedSpans traceIds).sublist (List.filter_sublist.map _)
  rw [same, List.toFinset_card_of_nodup distinct, List.length_map, Lanes.depth]

theorem laneCount_eq_sup (traceIds : List (Option Text)) :
    (packing traceIds).ends.length =
      (Finset.range traceIds.length).sup fun i => (tracesOver traceIds i).card := by
  obtain ⟨most, some⟩ := Lanes.placeAll_optimal Span.first Span.last
    (fun _ (member : _ ∈ sortedSpans traceIds) =>
      (isSpan_of_mem_sortedSpans member).first_le_last)
    ((sortedSpans_ordered traceIds).imp fun before => before.le)
  refine le_antisymm ?_ (Finset.sup_le fun i _ => ?_)
  · by_cases none : sortedSpans traceIds = []
    · rw [packing, none]
      exact Nat.zero_le _
    · obtain ⟨s, member, deep⟩ := some none
      have inside := lt_length_of_mem_traceRows (isSpan_of_mem_sortedSpans member).first.1
      rw [packing, ← deep, ← card_tracesOver]
      exact Finset.le_sup (f := fun i => (tracesOver traceIds i).card) (Finset.mem_range.mpr inside)
  · rw [card_tracesOver]
    exact most i

/-- Each trace with at least two members has one bar, from its first row to its last.
Bars in one lane do not meet, and no fewer lanes would do. -/
theorem packLanes_correct (traceIds : List (Option Text)) :
    ((packLanes traceIds).intervals.map fun interval => interval.traceId).Nodup ∧
    (∀ id, (∃ interval ∈ (packLanes traceIds).intervals, interval.traceId = id) ↔
      MultiMember traceIds id) ∧
    (∀ interval ∈ (packLanes traceIds).intervals,
      IsLeast (traceRows traceIds interval.traceId) interval.first ∧
      IsGreatest (traceRows traceIds interval.traceId) interval.last ∧
      interval.count = traceIds.count (some interval.traceId)) ∧
    ((packLanes traceIds).intervals.Pairwise fun a b =>
      a.lane = b.lane → a.last < b.first ∨ b.last < a.first) ∧
    (∀ interval ∈ (packLanes traceIds).intervals, interval.lane < (packLanes traceIds).laneCount) ∧
    (packLanes traceIds).laneCount =
      (Finset.range traceIds.length).sup fun i => (tracesOver traceIds i).card := by
  have spans := map_toSpan_intervals traceIds
  obtain ⟨packed, -⟩ := packed traceIds
  have ids : (packLanes traceIds).intervals.map (fun interval => interval.traceId) =
      (sortedSpans traceIds).map Span.traceId := by
    rw [← spans, List.map_map]
    rfl
  refine ⟨ids ▸ nodup_sortedSpans traceIds, fun id => ?_, fun interval member => ?_, ?_,
    fun interval member => ?_, ?_⟩
  · rw [← mem_sortedSpans_iff, ← ids, List.mem_map]
  · have inside : interval.toSpan ∈ sortedSpans traceIds := spans ▸ List.mem_map_of_mem member
    have span := isSpan_of_mem_sortedSpans inside
    exact ⟨span.first, span.last, span.count⟩
  · rw [packLanes_eq]
    exact List.pairwise_map.mpr (packed.apart.imp fun apart same => .inl (apart same))
  · rw [packLanes_eq] at member ⊢
    obtain ⟨placed, inside, rfl⟩ := List.mem_map.mp member
    exact packed.lane_lt placed inside
  · rw [packLanes_eq]
    exact laneCount_eq_sup traceIds

end Protospy
