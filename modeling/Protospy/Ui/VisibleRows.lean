import Protospy.Ui.JsonRows

/-!
# Which rows are shown

The rows of a forest against its places: the nodes under expanded containers, within
what is revealed of them, with one row each, and for every open container the rows
with which it ends.
-/

namespace Protospy

open OrderedTree (Place)

/-- Brackets that are open, innermost last to open first, and whether a row that ends
the children of the innermost has come. -/
structure RowBrackets where
  stack : List (Nat × Nat)
  ending : Bool
  deriving DecidableEq

namespace RowBrackets

def start : RowBrackets := ⟨[], false⟩

/-- Between a show-more row and the close row of its container there is no other row. -/
def step (s : RowBrackets) (row : FlatRow) : Option RowBrackets :=
  match row.kind, s.ending, s.stack with
  | .close, _, (nodeId, depth) :: rest =>
    if row.nodeId = nodeId ∧ row.depth = depth then some ⟨rest, false⟩ else none
  | .showMore, false, (nodeId, depth) :: rest =>
    if row.nodeId = nodeId ∧ row.depth = depth + 1 then some ⟨(nodeId, depth) :: rest, true⟩ else none
  | .open, false, stack => some ⟨(row.nodeId, row.depth) :: stack, false⟩
  | .collapsed, false, stack => some ⟨stack, false⟩
  | .leaf, false, stack => some ⟨stack, false⟩
  | _, _, _ => none

end RowBrackets

section Rows

variable {N : Type*}

/-- The row of a node, as opposed to one with which it ends. -/
def FlatRow.isNodeRow (row : FlatRow) : Bool :=
  row.kind = .open || row.kind = .collapsed || row.kind = .leaf

/-- All containers above are expanded and reveal the way to the place. -/
def isShown (expanded : Finset Nat) (limits : Limits) (p : Place (JsonLeaf N) JsonContainer) :
    Bool :=
  p.reached (shows expanded limits)

/-- The places of every document, with its index. -/
def forestPreorder (roots : List (JsonTreeNode N)) :
    List (Nat × Place (JsonLeaf N) JsonContainer) :=
  roots.zipIdx.flatMap fun (root, docIndex) =>
    (OrderedTree.preorder [] root).map fun p => (docIndex, p)

def forestPostorder (roots : List (JsonTreeNode N)) : List (Place (JsonLeaf N) JsonContainer) :=
  roots.flatMap (OrderedTree.postorder [])

theorem flatMap_zipIdx {α β : Type*} (f : α → List β) (l : List α) :
    (l.zipIdx.flatMap fun d => f d.1) = l.flatMap f := by
  rw [← List.flatMap_map Prod.fst, List.zipIdx_map_fst]

theorem mem_forestPreorder {roots : List (JsonTreeNode N)}
    {d : Nat × Place (JsonLeaf N) JsonContainer} :
    d ∈ forestPreorder roots ↔
      ∃ root, (root, d.1) ∈ roots.zipIdx ∧ d.2 ∈ OrderedTree.preorder [] root := by
  obtain ⟨docIndex, p⟩ := d
  simp only [forestPreorder, List.mem_flatMap, List.mem_map, Prod.exists, Prod.mk.injEq]
  constructor
  · rintro ⟨root, i, member, p', inside, rfl, rfl⟩
    exact ⟨root, member, inside⟩
  · rintro ⟨root, member, inside⟩
    exact ⟨root, docIndex, member, p, inside, rfl, rfl⟩

/-! ## The rows at one place -/

theorem nodeRow_spec [JsNumber N] (expanded : Finset Nat) (p : Place (JsonLeaf N) JsonContainer) :
    (nodeRow expanded p).kind = (if isOpen expanded p.tree then .open
      else if 0 < JsonTreeNode.childCount p.tree then .collapsed else .leaf) ∧
    (nodeRow expanded p).nodeId = JsonTreeNode.id p.tree ∧
    (nodeRow expanded p).depth = JsonTreeNode.depth p.tree ∧
    (nodeRow expanded p).hasComma = (!isOpen expanded p.tree && !isLast p) ∧
    (nodeRow expanded p).truncated = JsonTreeNode.truncated p.tree ∧
    (nodeRow expanded p).docIndex = none := by
  obtain ⟨above, tree⟩ := p
  cases tree with
  | leaf l =>
    exact ⟨rfl, rfl, rfl, rfl, rfl, rfl⟩
  | branch c children =>
    cases children with
    | nil => exact ⟨rfl, rfl, rfl, rfl, rfl, rfl⟩
    | cons child children =>
      by_cases hexpanded : c.id ∈ expanded
      · simp [nodeRow, isOpen, JsonTreeNode.childCount, JsonTreeNode.id, JsonTreeNode.depth,
          JsonTreeNode.truncated, JsonTreeNode.info, hexpanded, openRow]
      · simp [nodeRow, isOpen, JsonTreeNode.childCount, JsonTreeNode.id, JsonTreeNode.depth,
          JsonTreeNode.truncated, JsonTreeNode.info, hexpanded, collapsedRow]

theorem firstRow_spec [JsNumber N] (expanded : Finset Nat) (docIndex : Nat)
    (p : Place (JsonLeaf N) JsonContainer) :
    (firstRow expanded docIndex p).kind = (if isOpen expanded p.tree then .open
      else if 0 < JsonTreeNode.childCount p.tree then .collapsed else .leaf) ∧
    (firstRow expanded docIndex p).nodeId = JsonTreeNode.id p.tree ∧
    (firstRow expanded docIndex p).depth = JsonTreeNode.depth p.tree ∧
    (firstRow expanded docIndex p).hasComma = (!isOpen expanded p.tree && !isLast p) ∧
    (firstRow expanded docIndex p).truncated = JsonTreeNode.truncated p.tree ∧
    (firstRow expanded docIndex p).docIndex =
      if p.above.isEmpty then some docIndex else none := by
  obtain ⟨kind, id, depth, comma, truncated, doc⟩ := nodeRow_spec expanded p
  rw [firstRow]
  split
  · exact ⟨kind, id, depth, comma, truncated, rfl⟩
  · exact ⟨kind, id, depth, comma, truncated, doc⟩

theorem moreRow?_spec {expanded : Finset Nat} {limits : Limits}
    {p : Place (JsonLeaf N) JsonContainer} {row : FlatRow}
    (more : moreRow? expanded limits p = some row) :
    (isOpen expanded p.tree = true ∧
      shownCount limits p.tree < JsonTreeNode.childCount p.tree) ∧
    row.kind = .showMore ∧ row.nodeId = JsonTreeNode.id p.tree ∧
    row.depth = JsonTreeNode.depth p.tree + 1 ∧
    row.shownCount = some (shownCount limits p.tree) ∧
    row.childCount = some (JsonTreeNode.childCount p.tree) ∧ row.hasComma = false ∧
    row.truncated = false ∧ row.docIndex = none := by
  obtain ⟨above, tree⟩ := p
  cases tree with
  | leaf l => cases more
  | branch c children =>
    simp only [moreRow?, Bool.and_eq_true, decide_eq_true_eq, Option.ite_none_right_eq_some,
      Option.some.injEq] at more
    obtain ⟨shown, rfl⟩ := more
    exact ⟨shown, rfl, rfl, rfl, rfl, rfl, rfl, rfl, rfl⟩

theorem closeRow?_spec {expanded : Finset Nat} {p : Place (JsonLeaf N) JsonContainer}
    {row : FlatRow} (close : closeRow? expanded p = some row) :
    isOpen expanded p.tree = true ∧ row.kind = .close ∧
    row.nodeId = JsonTreeNode.id p.tree ∧ row.depth = JsonTreeNode.depth p.tree ∧
    row.hasComma = !isLast p ∧ row.truncated = JsonTreeNode.truncated p.tree ∧
    row.docIndex = none := by
  obtain ⟨above, tree⟩ := p
  cases tree with
  | leaf l => cases close
  | branch c children =>
    simp only [closeRow?, Option.ite_none_right_eq_some, Option.some.injEq] at close
    obtain ⟨shown, rfl⟩ := close
    exact ⟨shown, rfl, rfl, rfl, rfl, rfl, rfl⟩

theorem moreRow?_isSome_iff (expanded : Finset Nat) (limits : Limits)
    (p : Place (JsonLeaf N) JsonContainer) : (moreRow? expanded limits p).isSome = true ↔
      isOpen expanded p.tree = true ∧
        shownCount limits p.tree < JsonTreeNode.childCount p.tree := by
  obtain ⟨above, tree⟩ := p
  cases tree with
  | leaf l => simp [moreRow?, isOpen, JsonTreeNode.childCount]
  | branch c children => simp [moreRow?, JsonTreeNode.childCount]

theorem closeRow?_isSome_iff (expanded : Finset Nat) (p : Place (JsonLeaf N) JsonContainer) :
    (closeRow? expanded p).isSome = true ↔ isOpen expanded p.tree = true := by
  obtain ⟨above, tree⟩ := p
  cases tree with
  | leaf l => simp [closeRow?, isOpen, JsonTreeNode.childCount]
  | branch c children => simp [closeRow?]

/-! ## The rows of a kind -/

theorem moreRow?_kind {expanded : Finset Nat} {limits : Limits}
    {p : Place (JsonLeaf N) JsonContainer} {row : FlatRow}
    (member : row ∈ (moreRow? expanded limits p).toList) : row.kind = .showMore :=
  (moreRow?_spec (Option.mem_toList.mp member)).2.1

theorem closeRow?_kind {expanded : Finset Nat} {p : Place (JsonLeaf N) JsonContainer}
    {row : FlatRow} (member : row ∈ (closeRow? expanded p).toList) : row.kind = .close :=
  (closeRow?_spec (Option.mem_toList.mp member)).2.1

/-- Nothing is above the root of a document. -/
theorem nothing_above (expanded : Finset Nat) (limits : Limits) :
    ∀ a ∈ ([] : List (JsonTreeNode N × Nat)),
    shows expanded limits a.1 a.2 = true := by
  simp

variable (expanded : Finset Nat) (limits : Limits)

theorem filter_endRows_node (p : Place (JsonLeaf N) JsonContainer) :
    (endRows expanded limits p).filter FlatRow.isNodeRow = [] := by
  rw [List.filter_eq_nil_iff]
  intro row member
  rcases List.mem_append.mp member with more | close
  · simp [FlatRow.isNodeRow, moreRow?_kind more]
  · simp [FlatRow.isNodeRow, closeRow?_kind close]

theorem filter_endRows_more (p : Place (JsonLeaf N) JsonContainer) :
    (endRows expanded limits p).filter (fun row => row.kind = .showMore) =
      (moreRow? expanded limits p).toList := by
  rw [endRows, List.filter_append, List.filter_eq_self.mpr, List.filter_eq_nil_iff.mpr,
    List.append_nil]
  · intro row close
    simp [closeRow?_kind close]
  · intro row more
    simp [moreRow?_kind more]

theorem filter_endRows_close (p : Place (JsonLeaf N) JsonContainer) :
    (endRows expanded limits p).filter (fun row => row.kind = .close) =
      (closeRow? expanded p).toList := by
  rw [endRows, List.filter_append, List.filter_eq_nil_iff.mpr, List.filter_eq_self.mpr,
    List.nil_append]
  · intro row close
    simp [closeRow?_kind close]
  · intro row more
    simp [moreRow?_kind more]

section Kinds

variable [JsNumber N]

theorem firstRow_isNodeRow (docIndex : Nat) (p : Place (JsonLeaf N) JsonContainer) :
    (firstRow expanded docIndex p).isNodeRow = true := by
  rw [FlatRow.isNodeRow, (firstRow_spec expanded docIndex p).1]
  split
  · rfl
  · split <;> rfl

theorem firstRow_kind (docIndex : Nat) (p : Place (JsonLeaf N) JsonContainer) :
    (firstRow expanded docIndex p).kind ≠ .showMore ∧
      (firstRow expanded docIndex p).kind ≠ .close := by
  rw [(firstRow_spec expanded docIndex p).1]
  split
  · simp
  · split <;> simp

theorem filter_documentRows_node (docIndex : Nat) (root : JsonTreeNode N) :
    (documentRows expanded limits docIndex root).filter FlatRow.isNodeRow =
      ((OrderedTree.preorder [] root).filter (isShown expanded limits)).map
        (firstRow expanded docIndex) := by
  have firsts : (fun p => [firstRow expanded docIndex p].filter FlatRow.isNodeRow) =
      fun p : Place (JsonLeaf N) JsonContainer => [firstRow expanded docIndex p] := by
    funext p
    rw [List.filter_singleton, firstRow_isNodeRow]
    rfl
  have lasts : (fun p => (endRows expanded limits p).filter FlatRow.isNodeRow) =
      fun _ : Place (JsonLeaf N) JsonContainer => [] :=
    funext (filter_endRows_node expanded limits)
  rw [documentRows, OrderedTree.filter_walk, firsts, lasts,
    OrderedTree.walk_first _ (nothing_above expanded limits), List.map_eq_flatMap]
  rfl

theorem filter_documentRows_last {q : FlatRow → Bool} (docIndex : Nat) (root : JsonTreeNode N)
    (firsts : ∀ p : Place (JsonLeaf N) JsonContainer, q (firstRow expanded docIndex p) = false) :
    (documentRows expanded limits docIndex root).filter q =
      ((OrderedTree.postorder [] root).filter (isShown expanded limits)).flatMap fun p =>
        (endRows expanded limits p).filter q := by
  have firsts' : (fun p => [firstRow expanded docIndex p].filter q) =
      fun _ : Place (JsonLeaf N) JsonContainer => [] := by
    funext p
    rw [List.filter_singleton, firsts p]
    rfl
  rw [documentRows, OrderedTree.filter_walk, firsts',
    OrderedTree.walk_last _ (nothing_above expanded limits)]
  rfl

theorem firstRow_kind_ne {kind : FlatRowKind} (ends : kind = .showMore ∨ kind = .close)
    (docIndex : Nat) (p : Place (JsonLeaf N) JsonContainer) :
    decide ((firstRow expanded docIndex p).kind = kind) = false := by
  obtain ⟨more, close⟩ := firstRow_kind expanded docIndex p
  rcases ends with rfl | rfl
  · simpa using more
  · simpa using close

/-! ## Brackets -/

theorem firstRow_enter (docIndex : Nat) (p : Place (JsonLeaf N) JsonContainer)
    (s : RowBrackets) (hs : s.ending = false) :
    Machine.run RowBrackets.step s [firstRow expanded docIndex p] =
      some ⟨if isOpen expanded p.tree then
        (JsonTreeNode.id p.tree, JsonTreeNode.depth p.tree) :: s.stack else s.stack, false⟩ := by
  obtain ⟨stack, ending⟩ := s
  obtain rfl : ending = false := hs
  obtain ⟨kind, id, depth, -⟩ := firstRow_spec expanded docIndex p
  rw [Machine.run_cons, RowBrackets.step, kind, id, depth]
  cases isOpen expanded p.tree with
  | true => rfl
  | false =>
    by_cases children : 0 < JsonTreeNode.childCount p.tree
    · simp [children]
    · simp [children]

omit [JsNumber N] in
theorem endRows_leave (p : Place (JsonLeaf N) JsonContainer) (stack : List (Nat × Nat)) :
    Machine.run RowBrackets.step ⟨if isOpen expanded p.tree then
      (JsonTreeNode.id p.tree, JsonTreeNode.depth p.tree) :: stack else stack, false⟩
      (endRows expanded limits p) = some ⟨stack, false⟩ := by
  rw [endRows]
  cases hopen : isOpen expanded p.tree with
  | false =>
    have noMore : moreRow? expanded limits p = none := by
      simpa [hopen] using moreRow?_isSome_iff expanded limits p
    have noClose : closeRow? expanded p = none := by
      simpa [hopen] using closeRow?_isSome_iff expanded p
    rw [noMore, noClose]
    rfl
  | true =>
    obtain ⟨row, close⟩ := Option.isSome_iff_exists.mp ((closeRow?_isSome_iff expanded p).mpr hopen)
    obtain ⟨-, kind, id, depth, -⟩ := closeRow?_spec close
    have closes : ∀ ending, Machine.run RowBrackets.step
        ⟨(JsonTreeNode.id p.tree, JsonTreeNode.depth p.tree) :: stack, ending⟩ [row] =
          some ⟨stack, false⟩ := by
      intro ending
      simp [RowBrackets.step, kind, id, depth]
    rw [close]
    cases hmore : moreRow? expanded limits p with
    | none => exact closes false
    | some more =>
      obtain ⟨-, mkind, mid, mdepth, -⟩ := moreRow?_spec hmore
      have ends : RowBrackets.step
          ⟨(JsonTreeNode.id p.tree, JsonTreeNode.depth p.tree) :: stack, false⟩ more =
            some ⟨(JsonTreeNode.id p.tree, JsonTreeNode.depth p.tree) :: stack, true⟩ := by
        simp [RowBrackets.step, mkind, mid, mdepth]
      rw [Option.toList_some, Option.toList_some, List.singleton_append, Machine.run_cons,
        if_pos rfl, ends]
      exact closes true

theorem run_documentRows (docIndex : Nat) (root : JsonTreeNode N) :
    Machine.run RowBrackets.step .start (documentRows expanded limits docIndex root) =
      some .start := by
  have balanced : OrderedTree.Balanced RowBrackets.step (fun s => s.ending = false)
      (fun p s => ⟨if isOpen expanded p.tree then
        (JsonTreeNode.id p.tree, JsonTreeNode.depth p.tree) :: s.stack else s.stack, false⟩)
      (fun p : Place (JsonLeaf N) JsonContainer => [firstRow expanded docIndex p])
      (endRows expanded limits) := by
    constructor
    · intro p s hs
      exact ⟨firstRow_enter expanded docIndex p s hs, rfl⟩
    · rintro p ⟨stack, ending⟩ rfl
      exact endRows_leave expanded limits p stack
  exact OrderedTree.run_walk balanced [] root .start rfl

theorem run_flattenForest (roots : List (JsonTreeNode N)) :
    Machine.run RowBrackets.step .start (flattenForest roots expanded limits) = some .start := by
  rw [flattenForest_eq]
  induction roots.zipIdx with
  | nil => rfl
  | cons document documents ih =>
    rw [List.flatMap_cons, Machine.run_append, run_documentRows]
    exact ih

/-! ## The specification -/

/-- The nodes with a row, in preorder. -/
theorem filter_flattenForest_node (roots : List (JsonTreeNode N)) :
    (flattenForest roots expanded limits).filter FlatRow.isNodeRow =
      ((forestPreorder roots).filter fun d => isShown expanded limits d.2).map
        fun d => firstRow expanded d.1 d.2 := by
  rw [flattenForest_eq, List.filter_flatMap, forestPreorder, List.filter_flatMap, List.map_flatMap]
  refine List.flatMap_congr fun d _ => ?_
  rw [filter_documentRows_node, List.filter_map, List.map_map]
  rfl

/-- The rows of a kind with which nodes end, in postorder. -/
theorem filter_flattenForest_end {kind : FlatRowKind} (ends : kind = .showMore ∨ kind = .close)
    {row? : Place (JsonLeaf N) JsonContainer → Option FlatRow}
    (each : ∀ p, (endRows expanded limits p).filter (fun row => row.kind = kind) =
      (row? p).toList) (roots : List (JsonTreeNode N)) :
    (flattenForest roots expanded limits).filter (fun row => row.kind = kind) =
      ((forestPostorder roots).filter (isShown expanded limits)).filterMap row? := by
  rw [flattenForest_eq, List.filter_flatMap, forestPostorder, List.filter_flatMap,
    List.filterMap_flatMap, ← flatMap_zipIdx _ roots]
  refine List.flatMap_congr fun d _ => ?_
  rw [filter_documentRows_last expanded limits d.2 d.1 (firstRow_kind_ne expanded ends d.2),
    List.filterMap_eq_flatMap_toList]
  exact List.flatMap_congr fun p _ => each p

/-- What the rows of a forest are: one for each node that is shown, in preorder, and
those with which the open containers end, in postorder, between balanced brackets. -/
theorem flattenForest_visible (roots : List (JsonTreeNode N)) :
    ((flattenForest roots expanded limits).filter FlatRow.isNodeRow =
        ((forestPreorder roots).filter fun d => isShown expanded limits d.2).map
          (fun d => firstRow expanded d.1 d.2) ∧
      ∀ (docIndex : Nat) (p : Place (JsonLeaf N) JsonContainer),
        (firstRow expanded docIndex p).nodeId = JsonTreeNode.id p.tree ∧
        ((firstRow expanded docIndex p).kind = .open ↔ isOpen expanded p.tree = true) ∧
        (firstRow expanded docIndex p).depth = JsonTreeNode.depth p.tree ∧
        (firstRow expanded docIndex p).hasComma = (!isOpen expanded p.tree && !isLast p) ∧
        (firstRow expanded docIndex p).docIndex = if p.above.isEmpty then some docIndex else none) ∧
    ((flattenForest roots expanded limits).filter (fun row => row.kind = .showMore) =
        ((forestPostorder roots).filter (isShown expanded limits)).filterMap
          (moreRow? expanded limits) ∧
      ∀ p : Place (JsonLeaf N) JsonContainer,
        ((moreRow? expanded limits p).isSome = true ↔ isOpen expanded p.tree = true ∧
          shownCount limits p.tree < JsonTreeNode.childCount p.tree) ∧
        ∀ row, moreRow? expanded limits p = some row → row.nodeId = JsonTreeNode.id p.tree ∧
          row.shownCount = some (shownCount limits p.tree) ∧
          row.childCount = some (JsonTreeNode.childCount p.tree) ∧
          row.hasComma = false ∧ row.docIndex = none) ∧
    ((flattenForest roots expanded limits).filter (fun row => row.kind = .close) =
        ((forestPostorder roots).filter (isShown expanded limits)).filterMap
          (closeRow? expanded) ∧
      ∀ p : Place (JsonLeaf N) JsonContainer,
        ((closeRow? expanded p).isSome = true ↔ isOpen expanded p.tree = true) ∧
        ∀ row, closeRow? expanded p = some row → row.nodeId = JsonTreeNode.id p.tree ∧
          row.depth = JsonTreeNode.depth p.tree ∧ row.hasComma = !isLast p ∧
          row.docIndex = none) ∧
    Machine.run RowBrackets.step .start (flattenForest roots expanded limits) = some .start := by
  refine ⟨⟨filter_flattenForest_node expanded limits roots, fun docIndex p => ?_⟩,
    ⟨filter_flattenForest_end expanded limits (.inl rfl) (filter_endRows_more expanded limits) roots,
      fun p => ⟨moreRow?_isSome_iff expanded limits p, fun row more => ?_⟩⟩,
    ⟨filter_flattenForest_end expanded limits (.inr rfl) (filter_endRows_close expanded limits)
      roots, fun p => ⟨closeRow?_isSome_iff expanded p, fun row close => ?_⟩⟩,
    run_flattenForest expanded limits roots⟩
  · obtain ⟨kind, id, depth, comma, -, doc⟩ := firstRow_spec expanded docIndex p
    refine ⟨id, ?_, depth, comma, doc⟩
    rw [kind]
    cases isOpen expanded p.tree with
    | true => simp
    | false =>
      by_cases children : 0 < JsonTreeNode.childCount p.tree
      · simp [children]
      · simp [children]
  · obtain ⟨-, -, id, -, shown, total, comma, -, doc⟩ := moreRow?_spec more
    exact ⟨id, shown, total, comma, doc⟩
  · obtain ⟨-, -, id, depth, comma, -, doc⟩ := closeRow?_spec close
    exact ⟨id, depth, comma, doc⟩

end Kinds

end Rows

end Protospy
