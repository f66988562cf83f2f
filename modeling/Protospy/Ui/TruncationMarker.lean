import Protospy.Ui.JsonWorker
import Protospy.Ui.VisibleRows

/-!
# The row where a document was cut

Of the trees of a body that was cut, only the end of the last document's path of last
children is marked. Its row is among the first rows unless a container on the way has
more children than an expanded container shows.
-/

namespace Protospy

open OrderedTree (Place)

variable {N : Type*}

/-! ## The path of last children -/

namespace JsonValue

mutual

/-- A value, its last item or the value of its last entry, and so on. -/
def rightSpine : JsonValue N → List (JsonValue N)
  | .primitive p => [.primitive p]
  | .array items => .array items :: rightSpineOfItems items
  | .object entries => .object entries :: rightSpineOfEntries entries

def rightSpineOfItems : List (JsonValue N) → List (JsonValue N)
  | [] => []
  | [v] => rightSpine v
  | _ :: v :: items => rightSpineOfItems (v :: items)

def rightSpineOfEntries : List (JsString × JsonValue N) → List (JsonValue N)
  | [] => []
  | [(_, v)] => rightSpine v
  | _ :: (k, v) :: entries => rightSpineOfEntries ((k, v) :: entries)

end

def childCount : JsonValue N → Nat
  | .primitive _ => 0
  | .array items => items.length
  | .object entries => entries.length

end JsonValue

mutual

/-- A value and its tree have the same path of last children. -/
theorem rightSpine_buildNode : ∀ (v : JsonValue N) (key : Option JsString)
    (path : List PathSegment) (depth next : Nat),
    (OrderedTree.rightSpine (buildNode v key path depth next).1).map JsonTreeNode.childCount =
      v.rightSpine.map JsonValue.childCount
  | .primitive _, _, _, _, _ => rfl
  | .array items, key, path, depth, next => by
    rw [buildNode, OrderedTree.rightSpine, List.map_cons, rightSpine_buildItems, JsonValue.rightSpine,
      List.map_cons]
    exact congrArg (· :: _) (buildItems_length items path (depth + 1) 0 (next + 1))
  | .object entries, key, path, depth, next => by
    rw [buildNode, OrderedTree.rightSpine, List.map_cons, rightSpine_buildEntries,
      JsonValue.rightSpine, List.map_cons]
    exact congrArg (· :: _) (buildEntries_length entries path (depth + 1) (next + 1))

theorem rightSpine_buildItems : ∀ (items : List (JsonValue N)) (path : List PathSegment)
    (depth i next : Nat),
    (OrderedTree.rightSpineOf (buildItems items path depth i next).1).map JsonTreeNode.childCount =
      (JsonValue.rightSpineOfItems items).map JsonValue.childCount
  | [], _, _, _, _ => rfl
  | [v], _, depth, _, next => rightSpine_buildNode v none _ depth next
  | _ :: v :: items, path, depth, i, _ =>
    rightSpine_buildItems (v :: items) path depth (i + 1) _

theorem rightSpine_buildEntries : ∀ (entries : List (JsString × JsonValue N))
    (path : List PathSegment) (depth next : Nat),
    (OrderedTree.rightSpineOf (buildEntries entries path depth next).1).map
        JsonTreeNode.childCount =
      (JsonValue.rightSpineOfEntries entries).map JsonValue.childCount
  | [], _, _, _ => rfl
  | [(k, v)], _, depth, next => rightSpine_buildNode v (some k) _ depth next
  | _ :: (k, v) :: entries, path, depth, _ =>
    rightSpine_buildEntries ((k, v) :: entries) path depth _

end

/-! ## The marked node -/

@[simp] theorem markTruncated_children (node : JsonTreeNode N) :
    node.markTruncated.children = node.children := by
  cases node <;> rfl

@[simp] theorem markTruncated_info (node : JsonTreeNode N) :
    node.markTruncated.info = { node.info with truncated := true } := by
  cases node <;> rfl

/-- A container without a limit shows its last child if it fits the window. -/
theorem shows_last {expanded : Finset Nat} {c : JsonContainer} (hexpanded : c.id ∈ expanded)
    (children : List (JsonTreeNode N)) (child : JsonTreeNode N) :
    shows expanded noLimits (.branch c (children ++ [child])) children.length = true ↔
      children.length + 1 ≤ containerWindow := by
  have count : JsonTreeNode.childCount (.branch c (children ++ [child])) = children.length + 1 := by
    simp [JsonTreeNode.childCount]
  simp only [shows, shownCount, count, noLimits, Option.getD_none, Bool.and_eq_true,
    decide_eq_true_eq]
  constructor
  · rintro ⟨-, inside⟩
    split at inside <;> omega
  · intro fits
    refine ⟨hexpanded, ?_⟩
    rw [if_pos fits]
    omega

/-- The only marked place of a tree, and when it is shown. -/
structure IsMarker (expanded : Finset Nat) (above : List (JsonTreeNode N × Nat))
    (t : JsonTreeNode N) (q : Place (JsonLeaf N) JsonContainer) : Prop where
  only : (OrderedTree.preorder above (markTruncationPoint t).1).filter
    (fun p => JsonTreeNode.truncated p.tree) = [q]
  last : ∃ node, (OrderedTree.rightSpine t).getLast? = some node ∧
    q.tree = JsonTreeNode.markTruncated node ∧ JsonTreeNode.childCount node = 0
  shown : isShown expanded noLimits q = true ↔
    (∀ a ∈ above, shows expanded noLimits a.1 a.2 = true) ∧
      ∀ sub ∈ OrderedTree.rightSpine t, JsonTreeNode.childCount sub ≤ containerWindow

theorem isMarker_childless {expanded : Finset Nat} (above : List (JsonTreeNode N × Nat))
    {t : JsonTreeNode N} (childless : JsonTreeNode.childCount t = 0)
    (marked : (markTruncationPoint t).1 = JsonTreeNode.markTruncated t)
    (spine : OrderedTree.rightSpine t = [t])
    (places : OrderedTree.preorder above (JsonTreeNode.markTruncated t) =
      [⟨above, JsonTreeNode.markTruncated t⟩]) :
    IsMarker expanded above t ⟨above, JsonTreeNode.markTruncated t⟩ := by
  constructor
  · rw [marked, places]
    simp [JsonTreeNode.truncated]
  · exact ⟨t, by rw [spine]; rfl, rfl, childless⟩
  · simp [isShown, OrderedTree.Place.reached, spine, childless]

theorem markTruncationPoint_isMarker {expanded : Finset Nat} (t : JsonTreeNode N)
    (unmarked : Unmarked t) (hexpanded : ∀ id ∈ (markTruncationPoint t).2, id ∈ expanded) :
    ∀ above, ∃ q, IsMarker expanded above t q := by
  induction t using OrderedTree.lastInduct with
  | leaf l => exact fun above => ⟨_, isMarker_childless above rfl rfl rfl rfl⟩
  | empty c => exact fun above => ⟨_, isMarker_childless above rfl rfl rfl rfl⟩
  | last c children child ih =>
    intro above
    rw [markTruncationPoint_concat] at hexpanded
    obtain ⟨here, below⟩ := List.forall_mem_cons.mp hexpanded
    set marked := (markTruncationPoint child).1
    set parent : JsonTreeNode N := .branch c (children ++ [marked]) with hparent
    obtain ⟨q, only, ⟨node, last, tree, childless⟩, shown⟩ :=
      ih (unmarked.child child (by simp)) below ((parent, children.length) :: above)
    refine ⟨q, ?_, ⟨node, ?_, tree, childless⟩, ?_⟩
    · have self : c.truncated = false :=
        unmarked _ (OrderedTree.self_mem_subtrees _)
      have before : (OrderedTree.preorderChildren above parent 0 children).filter
          (fun p => JsonTreeNode.truncated p.tree) = [] := by
        rw [List.filter_eq_nil_iff]
        intro p member
        obtain ⟨j, sibling, found, inside⟩ := OrderedTree.mem_preorderChildren.mp member
        have sibling_unmarked :=
          unmarked.child sibling (List.mem_append_left _ (List.mem_of_getElem? found))
        simp [sibling_unmarked _ (OrderedTree.tree_mem_subtrees inside)]
      rw [markTruncationPoint_concat, OrderedTree.preorder, List.filter_cons_of_neg (Bool.not_eq_true _ ▸ self),
        OrderedTree.preorderChildren_append, List.filter_append, before, List.nil_append, Nat.zero_add,
        OrderedTree.preorderChildren, OrderedTree.preorderChildren, List.append_nil]
      exact only
    · rw [OrderedTree.rightSpine_concat, List.getLast?_cons, last]
      rfl
    · have count : JsonTreeNode.childCount (.branch c (children ++ [child])) =
          children.length + 1 := by
        simp [JsonTreeNode.childCount]
      rw [shown, List.forall_mem_cons, shows_last here, OrderedTree.rightSpine_concat,
        List.forall_mem_cons, count]
      tauto

/-! ## The marked row -/

section Rows

variable [JsNumber N]

/-- The kind of a row and the node it is of. -/
def FlatRow.origin (row : FlatRow) : FlatRowKind × Nat × List PathSegment :=
  (row.kind, row.nodeId, row.path)

theorem firstRow_path (expanded : Finset Nat) (docIndex : Nat)
    (p : Place (JsonLeaf N) JsonContainer) :
    (firstRow expanded docIndex p).path = JsonTreeNode.path p.tree := by
  have row : (nodeRow expanded p).path = JsonTreeNode.path p.tree := by
    rw [nodeRow]
    split
    · simp_all [leafRow, JsonTreeNode.path, JsonTreeNode.info]
    · rename_i c children tree
      rw [tree]
      split
      · rfl
      · split <;> rfl
  rw [firstRow]
  split
  · exact row
  · exact row

theorem firstRow_origin {expanded : Finset Nat} {docIndex : Nat}
    {q : Place (JsonLeaf N) JsonContainer} {node : JsonTreeNode N}
    (tree : q.tree = JsonTreeNode.markTruncated node)
    (childless : JsonTreeNode.childCount node = 0) :
    (firstRow expanded docIndex q).origin =
      (.leaf, JsonTreeNode.id node, JsonTreeNode.path node) := by
  obtain ⟨kind, id, -, -, -, -⟩ := firstRow_spec expanded docIndex q
  have count : JsonTreeNode.childCount q.tree = 0 := by
    rw [tree, JsonTreeNode.childCount, markTruncated_children]
    exact childless
  have same : JsonTreeNode.info q.tree = { JsonTreeNode.info node with truncated := true } := by
    rw [tree, markTruncated_info]
  rw [FlatRow.origin, kind, id, firstRow_path, JsonTreeNode.id, JsonTreeNode.path, same]
  simp [isOpen, count, JsonTreeNode.id, JsonTreeNode.path]

/-- The rows marked as truncated in a tree whose marked nodes have no children. -/
theorem filter_documentRows_truncated {expanded : Finset Nat} {root : JsonTreeNode N}
    (childless : ∀ p ∈ OrderedTree.preorder [] root, JsonTreeNode.truncated p.tree = true →
      JsonTreeNode.childCount p.tree = 0) (docIndex : Nat) :
    (documentRows expanded noLimits docIndex root).filter FlatRow.truncated =
      (((OrderedTree.preorder [] root).filter fun p => JsonTreeNode.truncated p.tree).filter
        (isShown expanded noLimits)).map (firstRow expanded docIndex) := by
  have rows : ∀ p ∈ OrderedTree.preorder [] root,
      [firstRow expanded docIndex p].filter FlatRow.truncated =
        (if JsonTreeNode.truncated p.tree then [firstRow expanded docIndex p] else []) ∧
      (endRows expanded noLimits p).filter FlatRow.truncated = [] := by
    intro p member
    obtain ⟨-, -, -, -, truncated, -⟩ := firstRow_spec expanded docIndex p
    constructor
    · rw [List.filter_singleton, truncated]
      cases JsonTreeNode.truncated p.tree <;> rfl
    · rw [List.filter_eq_nil_iff]
      intro row ends
      rcases List.mem_append.mp ends with more | close
      · obtain ⟨-, -, -, -, -, -, -, unmarked, -⟩ := moreRow?_spec (Option.mem_toList.mp more)
        simp [unmarked]
      · obtain ⟨isOpen_, -, -, -, -, truncated, -⟩ := closeRow?_spec (Option.mem_toList.mp close)
        rw [truncated]
        intro marked
        simp [isOpen, childless p member marked] at isOpen_
  have keep : ∀ places : List (Place (JsonLeaf N) JsonContainer),
      (places.flatMap fun p =>
        if JsonTreeNode.truncated p.tree then [firstRow expanded docIndex p] else []) =
      (places.filter fun p => JsonTreeNode.truncated p.tree).map (firstRow expanded docIndex) := by
    intro places
    induction places with
    | nil => rfl
    | cons p places ih =>
      rw [List.flatMap_cons, ih, List.filter_cons]
      split <;> rfl
  rw [documentRows, OrderedTree.filter_walk, OrderedTree.walk_congr _ _ rows,
    OrderedTree.walk_first _ (nothing_above expanded noLimits), keep, List.filter_comm]
  rfl

theorem filter_documentRows_unmarked {expanded : Finset Nat} {root : JsonTreeNode N}
    (unmarked : Unmarked root) (docIndex : Nat) :
    (documentRows expanded noLimits docIndex root).filter FlatRow.truncated = [] := by
  have none : (OrderedTree.preorder [] root).filter
      (fun p => JsonTreeNode.truncated p.tree) = [] := by
    rw [List.filter_eq_nil_iff]
    intro p member
    simp [unmarked _ (OrderedTree.tree_mem_subtrees member)]
  rw [filter_documentRows_truncated, none]
  · rfl
  · intro p member marked
    rw [unmarked _ (OrderedTree.tree_mem_subtrees member)] at marked
    cases marked

theorem filter_documentRows_marked {expanded : Finset Nat} {root : JsonTreeNode N}
    {q : Place (JsonLeaf N) JsonContainer} (marker : IsMarker expanded [] root q) (docIndex : Nat) :
    (documentRows expanded noLimits docIndex (markTruncationPoint root).1).filter
        FlatRow.truncated = ([q].filter (isShown expanded noLimits)).map
          (firstRow expanded docIndex) := by
  obtain ⟨only, ⟨node, -, tree, childless⟩, -⟩ := marker
  rw [filter_documentRows_truncated, only]
  intro p member marked
  have marker : p ∈ [q] := only ▸ List.mem_filter.mpr ⟨member, marked⟩
  rw [List.mem_singleton.mp marker, tree, JsonTreeNode.childCount, markTruncated_children]
  exact childless

/-! ## The last document -/

omit [JsNumber N] in
theorem buildRoots_concat (values : List (JsonValue N)) (value : JsonValue N) (next : Nat) :
    ∃ roots next', (∀ root ∈ roots, Unmarked root) ∧
      buildRoots (values ++ [value]) next = roots ++ [(buildNode value none [] 0 next').1] := by
  induction values generalizing next with
  | nil => exact ⟨[], next, by simp, rfl⟩
  | cons v values ih =>
    obtain ⟨roots, next', unmarked, eq⟩ := ih (buildNode v none [] 0 next).2
    refine ⟨(buildNode v none [] 0 next).1 :: roots, next', ?_, ?_⟩
    · exact List.forall_mem_cons.mpr ⟨buildNode_unmarked v none [] 0 next, unmarked⟩
    · rw [List.cons_append, buildRoots, eq, List.cons_append]

omit [JsNumber N] in
theorem markRoot_concat (roots : List (JsonTreeNode N)) (root : JsonTreeNode N) :
    markRoot (roots ++ [root]) ((roots ++ [root]).length - 1) =
      (roots ++ [(markTruncationPoint root).1], (markTruncationPoint root).2) := by
  have index : (roots ++ [root]).length - 1 = roots.length := by simp
  rw [markRoot, index, List.getElem?_concat_length]
  simp

theorem filter_flattenForest_concat {expanded : Finset Nat} {roots : List (JsonTreeNode N)}
    (unmarked : ∀ root ∈ roots, Unmarked root) (last : JsonTreeNode N) :
    (flattenForest (roots ++ [last]) expanded noLimits).filter FlatRow.truncated =
      (documentRows expanded noLimits roots.length last).filter FlatRow.truncated := by
  have before : (roots.zipIdx.flatMap fun d =>
      documentRows expanded noLimits d.2 d.1).filter FlatRow.truncated = [] := by
    rw [List.filter_flatMap, List.flatMap_eq_nil_iff]
    intro d member
    exact filter_documentRows_unmarked (unmarked d.1 (List.fst_mem_of_mem_zipIdx member)) d.2
  rw [flattenForest_eq, List.zipIdx_append, List.flatMap_append, List.filter_append]
  change (roots.zipIdx.flatMap fun d => documentRows expanded noLimits d.2 d.1).filter _ ++ _ = _
  rw [before, List.nil_append, List.zipIdx_singleton, List.flatMap_singleton, Nat.zero_add]

/-- The index of a document does not change what is marked. -/
theorem filter_modifyHead_tag (rows : List FlatRow) (docIndex : Nat) :
    ((rows.modifyHead (FlatRow.tag docIndex)).filter FlatRow.truncated).map FlatRow.origin =
      (rows.filter FlatRow.truncated).map FlatRow.origin := by
  cases rows with
  | nil => rfl
  | cons row rows =>
    change ((row.tag docIndex :: rows).filter _).map _ = _
    rw [List.filter_cons, List.filter_cons]
    cases marked : row.truncated with
    | true => rw [show (row.tag docIndex).truncated = true from marked]; rfl
    | false => rw [show (row.tag docIndex).truncated = false from marked]; rfl

/-- One row is marked as truncated, that of the end of the path of last children of the
last document. -/
def MarkerShown (message : WorkerMessage N) : Prop :=
  ∃ root ∈ (buildJsonForest message.values).getLast?,
    ∃ node ∈ (OrderedTree.rightSpine root).getLast?,
      (message.rows.filter FlatRow.truncated).map FlatRow.origin =
        [(.leaf, JsonTreeNode.id node, JsonTreeNode.path node)]

/-- No container on the last document's path of last children is larger than the window. -/
def LastPathFits (values : List (JsonValue N)) : Prop :=
  ∀ v ∈ values.getLast?, ∀ sub ∈ v.rightSpine, sub.childCount ≤ containerWindow

omit [JsNumber N] in
/-- The last path of the last document fits just where it does in the tree. -/
theorem lastPathFits_concat (values : List (JsonValue N)) (value : JsonValue N) (next : Nat) :
    LastPathFits (values ++ [value]) ↔
      ∀ sub ∈ OrderedTree.rightSpine (buildNode value none [] 0 next).1,
        JsonTreeNode.childCount sub ≤ containerWindow := by
  have last : LastPathFits (values ++ [value]) ↔
      ∀ sub ∈ value.rightSpine, sub.childCount ≤ containerWindow := by
    rw [LastPathFits, List.getLast?_concat]
    simp
  have same : (∀ n ∈ value.rightSpine.map JsonValue.childCount, n ≤ containerWindow) ↔
      ∀ n ∈ (OrderedTree.rightSpine (buildNode value none [] 0 next).1).map
        JsonTreeNode.childCount, n ≤ containerWindow := by
    rw [rightSpine_buildNode value none [] 0 next]
  rw [last]
  simpa only [List.forall_mem_map] using same

/-- The row where a body was cut is among the first rows exactly if every container on
the way to it fits the window. -/
theorem markerShown_iff (bestEffortParse : Text → Option (JsonValue N)) (mode : ParseMode)
    (text : Text) (message : WorkerMessage N)
    (accepted : runWorker bestEffortParse mode text = some message)
    (cut : message.truncated = true) : MarkerShown message ↔ LastPathFits message.values := by
  obtain ⟨nonempty, -, ancestors, rows⟩ := runWorker_forest bestEffortParse accepted
  obtain ⟨values, value, hvalues⟩ := (List.eq_nil_or_concat' message.values).resolve_left nonempty
  obtain ⟨roots, next, unmarked, hroots⟩ := buildRoots_concat values value 0
  set root := (buildNode value none [] 0 next).1 with hroot
  have trees : buildJsonForest message.values = roots ++ [root] := by
    rw [hvalues]
    exact hroots
  have forest : buildForest (.documents message.values) message.truncated =
      ⟨roots ++ [(markTruncationPoint root).1], (markTruncationPoint root).2⟩ := by
    simp only [buildForest, cut, trees, markRoot_concat]
    simp
  rw [forest] at ancestors rows
  obtain ⟨q, marker⟩ :=
    markTruncationPoint_isMarker root (buildNode_unmarked value none [] 0 next) ancestors []
  have marked : (message.rows.filter FlatRow.truncated).map
      FlatRow.origin =
        (([q].filter (isShown message.defaultExpandedIds noLimits)).map
          (firstRow message.defaultExpandedIds roots.length)).map FlatRow.origin := by
    rw [← filter_documentRows_marked marker, ← filter_flattenForest_concat unmarked, rows]
    split
    · exact (filter_modifyHead_tag _ _).symm
    · rfl
  obtain ⟨-, ⟨node, hnode, tree, childless⟩, shown⟩ := marker
  have visible : MarkerShown message ↔ isShown message.defaultExpandedIds noLimits q = true := by
    constructor
    · rintro ⟨root', -, node', -, one⟩
      by_contra hidden
      rw [marked, List.filter_cons_of_neg hidden] at one
      cases one
    · intro hshown
      refine ⟨root, ?_, node, hnode, ?_⟩
      · rw [trees, List.getLast?_concat]
        rfl
      · rw [marked, List.filter_cons_of_pos hshown]
        exact congrArg (fun origin => [origin]) (firstRow_origin tree childless)
  have fits : LastPathFits message.values ↔
      ∀ sub ∈ OrderedTree.rightSpine root, JsonTreeNode.childCount sub ≤ containerWindow := by
    rw [hvalues]
    exact lastPathFits_concat values value next
  rw [visible, shown, fits]
  simp

end Rows

theorem markerShown_iff_list : ∃ message,
    runWorker recoverList .ndjson "1\n[2".toList = some message ∧ message.truncated = true ∧
    (MarkerShown message ↔ LastPathFits message.values) :=
  ⟨_, rfl, rfl, markerShown_iff recoverList .ndjson "1\n[2".toList _ rfl rfl⟩

/-! ## A list that is larger than the window -/

/-- A list of 101 numbers that is cut before its bracket. -/
def cutList : Text := '[' :: (List.replicate 101 ",0".toList).flatten.tail

def recoverZeros (text : Text) : Option (JsonValue Int) :=
  if text = cutList then some (.array (List.replicate 101 (.primitive (.number 0)))) else none

theorem marker_hidden : ∃ message, runWorker recoverZeros .json cutList = some message ∧
    message.truncated = true ∧ message.rows.filter FlatRow.truncated = [] ∧
    ¬MarkerShown message := by
  have runs : (runWorker recoverZeros .json cutList).any (fun message =>
      message.truncated && (message.rows.filter FlatRow.truncated).isEmpty) = true := by
    decide +kernel
  obtain ⟨message, accepted, holds⟩ := (Option.any_eq_true _ _).mp runs
  rw [Bool.and_eq_true, List.isEmpty_iff] at holds
  refine ⟨message, accepted, holds.1, holds.2, ?_⟩
  rintro ⟨root, -, node, -, one⟩
  rw [holds.2] at one
  cases one

end Protospy
