import Protospy.Lib.Numbering
import Protospy.Ui.JsonWorker
import Protospy.Ui.VisibleRows

/-!
# The JSON viewer (`json-tree/json-tree-viewer.tsx`)

The state of the viewer and what clicks on its rows do to it. A container whose limit
was raised stays expanded with everything above it, and one that is expanded again
shows no more than a window of its children.
-/

namespace Protospy

open OrderedTree (Place)

variable {N : Type*}

/-! ## Finding nodes -/

mutual

def findNodeInSubtree (targetId : Nat) : JsonTreeNode N → Option (JsonTreeNode N)
  | .leaf l => if l.id = targetId then some (.leaf l) else none
  | .branch c children =>
    if c.id = targetId then some (.branch c children) else findNodeById targetId children

/-- The first node with the id. The loop over the children is that over the roots. -/
def findNodeById (targetId : Nat) : List (JsonTreeNode N) → Option (JsonTreeNode N)
  | [] => none
  | root :: roots =>
    match findNodeInSubtree targetId root with
    | some found => some found
    | none => findNodeById targetId roots

end

mutual

def collectDescendantIds (out : Finset Nat) : JsonTreeNode N → Finset Nat
  | .leaf _ => out
  | .branch _ children => collectDescendantIdsOf out children

def collectDescendantIdsOf (out : Finset Nat) : List (JsonTreeNode N) → Finset Nat
  | [] => out
  | child :: children =>
    collectDescendantIdsOf (collectDescendantIds (insert (JsonTreeNode.id child) out) child) children

end

/-! ## The viewer -/

structure ViewerProps (N : Type*) where
  input : ViewerInput N
  initialRows : Option (List FlatRow)
  initialExpanded : Option (Finset Nat)
  truncated : Bool

def ViewerInput.isForest : ViewerInput N → Bool
  | .value _ => false
  | .documents _ => true

def ViewerProps.forest (props : ViewerProps N) : BuiltForest N :=
  buildForest props.input props.truncated

def defaultExpandedFor (built : BuiltForest N) (isForest : Bool) : Finset Nat :=
  (if isForest then computeForestDefaultExpanded built.roots none
    else (built.roots.head?.map computeDefaultExpanded).getD ∅) ∪ built.expandAncestors.toFinset

structure Viewer (N : Type*) where
  lazyForest : Option (List (JsonTreeNode N))
  treeReady : Bool
  expanded : Finset Nat
  limits : Limits

namespace Viewer

def mount (props : ViewerProps N) : Viewer N :=
  let treeReady := props.initialRows.isNone
  { lazyForest := if treeReady then some props.forest.roots else none
    treeReady
    expanded := props.initialExpanded.getD
      (if treeReady then defaultExpandedFor props.forest props.input.isForest else ∅)
    limits := noLimits }

/-- The state when a different body is rendered. -/
def reset (props : ViewerProps N) : Viewer N :=
  match props.initialRows, props.initialExpanded with
  | some _, some initialExpanded => ⟨none, false, initialExpanded, noLimits⟩
  | _, _ =>
    ⟨some props.forest.roots, true, defaultExpandedFor props.forest props.input.isForest, noLimits⟩

def rows [JsNumber N] (props : ViewerProps N) (s : Viewer N) : List FlatRow :=
  match s.treeReady, props.initialRows, s.lazyForest with
  | false, some initialRows, _ => initialRows
  | _, _, some roots => flattenForest roots s.expanded s.limits
  | _, _, none => []

def ensureForest (props : ViewerProps N) (s : Viewer N) : List (JsonTreeNode N) :=
  s.lazyForest.getD props.forest.roots

/-- The limits without those of a node and its descendants. -/
def forgetLimits (forest : List (JsonTreeNode N)) (nodeId : Nat) (limits : Limits) : Limits :=
  match findNodeById nodeId forest with
  | none => limits
  | some node => fun id => if id ∈ collectDescendantIds {nodeId} node then none else limits id

def toggle (props : ViewerProps N) (s : Viewer N) (nodeId : Nat) : Viewer N :=
  let forest := s.ensureForest props
  { lazyForest := some forest
    treeReady := true
    expanded := if nodeId ∈ s.expanded then s.expanded.erase nodeId else insert nodeId s.expanded
    limits := if nodeId ∈ s.expanded then forgetLimits forest nodeId s.limits else s.limits }

/-- Reveal `limit` children of a node. -/
def setLimit (props : ViewerProps N) (s : Viewer N) (nodeId limit : Nat) : Viewer N :=
  { s with
    lazyForest := some (s.ensureForest props)
    treeReady := true
    limits := fun id => if id = nodeId then some limit else s.limits id }

def showMore (props : ViewerProps N) (s : Viewer N) (nodeId total : Nat) : Viewer N :=
  let current := (s.limits nodeId).getD containerWindow
  s.setLimit props nodeId (min (current + containerWindow) total)

def showAll (props : ViewerProps N) (s : Viewer N) (nodeId total : Nat) : Viewer N :=
  s.setLimit props nodeId total

end Viewer

inductive ViewerAction where
  | toggle (nodeId : Nat)
  | showMore (nodeId total : Nat)
  | showAll (nodeId total : Nat)
  deriving DecidableEq, Repr

/-- What a row can be clicked for. -/
def FlatRow.actions (row : FlatRow) : List ViewerAction :=
  match row.kind with
  | .open => [.toggle row.nodeId]
  | .collapsed => [.toggle row.nodeId]
  | .showMore =>
    let total := row.childCount.getD 0
    [.showMore row.nodeId total, .showAll row.nodeId total]
  | .close => []
  | .leaf => []

theorem FlatRow.mem_actions {row : FlatRow} {action : ViewerAction} :
    action ∈ row.actions ↔
      (row.kind = .open ∨ row.kind = .collapsed) ∧ action = .toggle row.nodeId ∨
      row.kind = .showMore ∧ (action = .showMore row.nodeId (row.childCount.getD 0) ∨
        action = .showAll row.nodeId (row.childCount.getD 0)) := by
  rw [FlatRow.actions]
  cases row.kind <;> simp

namespace Viewer

def act (props : ViewerProps N) (s : Viewer N) : ViewerAction → Viewer N
  | .toggle nodeId => s.toggle props nodeId
  | .showMore nodeId total => s.showMore props nodeId total
  | .showAll nodeId total => s.showAll props nodeId total

/-- A click on one of the rows that are shown. -/
def step [JsNumber N] (props : ViewerProps N) (s : Viewer N) (action : ViewerAction) :
    Option (Viewer N) :=
  if (s.rows props).any fun row => action ∈ row.actions then some (s.act props action) else none

end Viewer

/-! ## Ids -/

mutual

/-- The nodes of a tree are numbered in preorder. -/
theorem ids_buildNode : ∀ (v : JsonValue N) (key : Option JsString) (path : List PathSegment)
    (depth next : Nat), ∃ n,
    (OrderedTree.subtrees (buildNode v key path depth next).1).map JsonTreeNode.id =
      List.range' next n ∧ (buildNode v key path depth next).2 = next + n
  | .primitive _, _, _, _, _ => ⟨1, rfl, rfl⟩
  | .array items, _, path, depth, next => by
    obtain ⟨n, ids, after⟩ := ids_buildItems items path (depth + 1) 0 (next + 1)
    refine ⟨n + 1, ?_, ?_⟩
    · rw [buildNode, OrderedTree.subtrees, List.map_cons, ids, List.range'_succ]
      rfl
    · rw [buildNode, after]
      omega
  | .object entries, _, path, depth, next => by
    obtain ⟨n, ids, after⟩ := ids_buildEntries entries path (depth + 1) (next + 1)
    refine ⟨n + 1, ?_, ?_⟩
    · rw [buildNode, OrderedTree.subtrees, List.map_cons, ids, List.range'_succ]
      rfl
    · rw [buildNode, after]
      omega

theorem ids_buildItems : ∀ (items : List (JsonValue N)) (path : List PathSegment)
    (depth i next : Nat), ∃ n,
    (OrderedTree.subtreesOf (buildItems items path depth i next).1).map JsonTreeNode.id =
      List.range' next n ∧ (buildItems items path depth i next).2 = next + n
  | [], _, _, _, _ => ⟨0, rfl, rfl⟩
  | item :: items, path, depth, i, next => by
    obtain ⟨n, ids, after⟩ := ids_buildNode item none (path ++ [.index i]) depth next
    obtain ⟨m, ids', after'⟩ := ids_buildItems items path depth (i + 1) (next + n)
    refine ⟨n + m, ?_, ?_⟩
    · rw [buildItems, OrderedTree.subtreesOf, List.map_append, ids, after, ids',
        List.range'_append_1]
    · rw [buildItems, after, after', Nat.add_assoc]

theorem ids_buildEntries : ∀ (entries : List (JsString × JsonValue N)) (path : List PathSegment)
    (depth next : Nat), ∃ n,
    (OrderedTree.subtreesOf (buildEntries entries path depth next).1).map JsonTreeNode.id =
      List.range' next n ∧ (buildEntries entries path depth next).2 = next + n
  | [], _, _, _ => ⟨0, rfl, rfl⟩
  | (k, v) :: entries, path, depth, next => by
    obtain ⟨n, ids, after⟩ := ids_buildNode v (some k) (path ++ [.key k]) depth next
    obtain ⟨m, ids', after'⟩ := ids_buildEntries entries path depth (next + n)
    refine ⟨n + m, ?_, ?_⟩
    · rw [buildEntries, OrderedTree.subtreesOf, List.map_append, ids, after, ids',
        List.range'_append_1]
    · rw [buildEntries, after, after', Nat.add_assoc]

end

theorem ids_buildRoots (values : List (JsonValue N)) (next : Nat) : ∃ n,
    (OrderedTree.subtreesOf (buildRoots values next)).map JsonTreeNode.id = List.range' next n := by
  induction values generalizing next with
  | nil => exact ⟨0, rfl⟩
  | cons value values ih =>
    obtain ⟨n, ids, after⟩ := ids_buildNode value none [] 0 next
    obtain ⟨m, ids'⟩ := ih (next + n)
    refine ⟨n + m, ?_⟩
    rw [buildRoots, OrderedTree.subtreesOf, List.map_append, ids, after, ids',
      List.range'_append_1]

theorem ids_markTruncationPoint (t : JsonTreeNode N) :
    (OrderedTree.subtrees (markTruncationPoint t).1).map JsonTreeNode.id =
      (OrderedTree.subtrees t).map JsonTreeNode.id := by
  induction t using OrderedTree.lastInduct with
  | leaf l => rfl
  | empty c => rfl
  | last c children child ih =>
    rw [markTruncationPoint_concat]
    simp only [OrderedTree.subtrees, OrderedTree.subtreesOf_eq, List.flatMap_append,
      List.flatMap_singleton, List.map_cons, List.map_append, ih]
    rfl

theorem ids_markRoot (roots : List (JsonTreeNode N)) (i : Nat) :
    (OrderedTree.subtreesOf (markRoot roots i).1).map JsonTreeNode.id =
      (OrderedTree.subtreesOf roots).map JsonTreeNode.id := by
  rw [markRoot]
  cases found : roots[i]? with
  | none => rfl
  | some root =>
    obtain ⟨before, after, rfl, rfl⟩ : ∃ before after, roots = before ++ root :: after ∧
        before.length = i := by
      obtain ⟨inside, rfl⟩ := List.getElem?_eq_some_iff.mp found
      exact ⟨roots.take i, roots.drop (i + 1), by simp, by simp; omega⟩
    simp only [List.set_append_right _ _ (Nat.le_refl _), Nat.sub_self, List.set_cons_zero,
      OrderedTree.subtreesOf_eq, List.flatMap_append, List.flatMap_cons, List.map_append,
      ids_markTruncationPoint]

/-- No two nodes have the same id. -/
def UniqueIds (roots : List (JsonTreeNode N)) : Prop :=
  ((OrderedTree.subtreesOf roots).map JsonTreeNode.id).Nodup

theorem numbered_buildJsonForest (values : List (JsonValue N)) :
    OrderedTree.Numbered JsonTreeNode.id 0 (buildJsonForest values) := by
  obtain ⟨n, ids⟩ := ids_buildRoots values 0
  exact OrderedTree.numbered_of_range' ids

/-- The mark leaves the numbers of the forest as they were. -/
theorem forest_numbered (props : ViewerProps N) :
    OrderedTree.Numbered JsonTreeNode.id 0 props.forest.roots := by
  rw [ViewerProps.forest, buildForest_values, buildForest]
  dsimp only
  split
  · have numbers := (ids_markRoot (buildJsonForest props.input.values)
      ((buildJsonForest props.input.values).length - 1)).trans (numbered_buildJsonForest _)
    exact OrderedTree.numbered_of_range' numbers
  · exact numbered_buildJsonForest _

theorem forest_uniqueIds (props : ViewerProps N) : UniqueIds props.forest.roots :=
  (forest_numbered props).distinct

section Unique

variable {roots : List (JsonTreeNode N)}

theorem map_id_forestPreorder (roots : List (JsonTreeNode N)) :
    (forestPreorder roots).map (fun d => JsonTreeNode.id d.2.tree) =
      (OrderedTree.subtreesOf roots).map JsonTreeNode.id := by
  rw [forestPreorder, List.map_flatMap, OrderedTree.subtreesOf_eq, List.map_flatMap,
    ← flatMap_zipIdx _ roots]
  refine List.flatMap_congr fun d _ => ?_
  rw [← OrderedTree.map_tree_preorder [] d.1, List.map_map, List.map_map]
  rfl

theorem place_unique (unique : UniqueIds roots) {d d' : Nat × Place (JsonLeaf N) JsonContainer}
    (hd : d ∈ forestPreorder roots) (hd' : d' ∈ forestPreorder roots)
    (same : JsonTreeNode.id d.2.tree = JsonTreeNode.id d'.2.tree) : d = d' := by
  rw [UniqueIds, ← map_id_forestPreorder] at unique
  exact List.inj_on_of_nodup_map unique hd hd' same

mutual

theorem findNodeInSubtree_eq (targetId : Nat) : ∀ node : JsonTreeNode N,
    findNodeInSubtree targetId node =
      (OrderedTree.subtrees node).find? fun n => JsonTreeNode.id n = targetId
  | .leaf l => by
    rw [findNodeInSubtree, OrderedTree.subtrees, List.find?_singleton]
    simp only [JsonTreeNode.id, JsonTreeNode.info]
    by_cases here : l.id = targetId
    · simp [here]
    · simp [here]
  | .branch c children => by
    rw [findNodeInSubtree, OrderedTree.subtrees, List.find?_cons, findNodeById_eq targetId children]
    simp only [JsonTreeNode.id, JsonTreeNode.info]
    by_cases here : c.id = targetId
    · simp [here]
    · simp [here]

theorem findNodeById_eq (targetId : Nat) : ∀ roots : List (JsonTreeNode N),
    findNodeById targetId roots =
      (OrderedTree.subtreesOf roots).find? fun n => JsonTreeNode.id n = targetId
  | [] => rfl
  | root :: roots => by
    rw [findNodeById, findNodeInSubtree_eq targetId root, findNodeById_eq targetId roots,
      OrderedTree.subtreesOf, List.find?_append]
    cases (OrderedTree.subtrees root).find? fun n => JsonTreeNode.id n = targetId <;> rfl

end

/-- A node is found by its id. -/
theorem findNodeById_of_mem (unique : UniqueIds roots) {node : JsonTreeNode N}
    (member : node ∈ OrderedTree.subtreesOf roots) :
    findNodeById (JsonTreeNode.id node) roots = some node := by
  rw [findNodeById_eq]
  exact Keyed.find?_key unique member

end Unique

mutual

theorem mem_collectDescendantIds {id : Nat} : ∀ (out : Finset Nat) (node : JsonTreeNode N),
    id ∈ collectDescendantIds out node ↔
      id ∈ out ∨ ∃ sub ∈ OrderedTree.subtreesOf node.children, JsonTreeNode.id sub = id
  | out, .leaf l => by simp [collectDescendantIds, OrderedTree.subtreesOf]
  | out, .branch c children => by
    rw [collectDescendantIds, mem_collectDescendantIdsOf out children]
    rfl

theorem mem_collectDescendantIdsOf {id : Nat} : ∀ (out : Finset Nat)
    (children : List (JsonTreeNode N)), id ∈ collectDescendantIdsOf out children ↔
      id ∈ out ∨ ∃ sub ∈ OrderedTree.subtreesOf children, JsonTreeNode.id sub = id
  | out, [] => by simp [collectDescendantIdsOf, OrderedTree.subtreesOf]
  | out, child :: children => by
    have self : ∀ P : JsonTreeNode N → Prop, (∃ sub ∈ OrderedTree.subtrees child, P sub) ↔
        P child ∨ ∃ sub ∈ OrderedTree.subtreesOf child.children, P sub := by
      intro P
      cases child with
      | leaf l => simp [OrderedTree.subtrees, OrderedTree.subtreesOf]
      | branch c cs => simp [OrderedTree.subtrees]
    rw [collectDescendantIdsOf, mem_collectDescendantIdsOf _ children,
      mem_collectDescendantIds _ child, OrderedTree.subtreesOf]
    simp only [List.mem_append, or_and_right, exists_or, self, Finset.mem_insert, @eq_comm _ id,
      or_assoc]
    exact or_left_comm

end

/-! ## The limits -/

/-- A node is expanded with everything above it. -/
def ExpandedAt (expanded : Finset Nat) (p : Place (JsonLeaf N) JsonContainer) : Prop :=
  JsonTreeNode.id p.tree ∈ expanded ∧ ∀ a ∈ p.above, JsonTreeNode.id a.1 ∈ expanded

/-- A limit is that of a node that is expanded with everything above it, and reveals
more than a window of its children. -/
structure LimitsOk (roots : List (JsonTreeNode N)) (expanded : Finset Nat) (limits : Limits) :
    Prop where
  known : ∀ id limit, limits id = some limit →
    ∃ d ∈ forestPreorder roots, JsonTreeNode.id d.2.tree = id
  entry : ∀ d ∈ forestPreorder roots, ∀ limit, limits (JsonTreeNode.id d.2.tree) = some limit →
    ExpandedAt expanded d.2 ∧ containerWindow < limit ∧
      limit ≤ JsonTreeNode.childCount d.2.tree

section Limits

variable {roots : List (JsonTreeNode N)} {expanded : Finset Nat} {limits : Limits}
  {d : Nat × Place (JsonLeaf N) JsonContainer}

theorem limitsOk_noLimits (roots : List (JsonTreeNode N)) (expanded : Finset Nat) :
    LimitsOk roots expanded noLimits := by
  constructor
  · intro id limit set
    cases set
  · intro d _ limit set
    cases set

theorem tree_mem_forest (hd : d ∈ forestPreorder roots) :
    ∃ root ∈ roots, d.2 ∈ OrderedTree.preorder [] root ∧
      OrderedTree.subtrees root ⊆ OrderedTree.subtreesOf roots := by
  obtain ⟨root, member, inside⟩ := mem_forestPreorder.mp hd
  have hroot := List.fst_mem_of_mem_zipIdx member
  refine ⟨root, hroot, inside, fun s hs => ?_⟩
  rw [OrderedTree.subtreesOf_eq]
  exact List.mem_flatMap.mpr ⟨root, hroot, hs⟩

theorem findNodeById_place (unique : UniqueIds roots) (hd : d ∈ forestPreorder roots) :
    findNodeById (JsonTreeNode.id d.2.tree) roots = some d.2.tree := by
  obtain ⟨root, -, inside, subset⟩ := tree_mem_forest hd
  exact findNodeById_of_mem unique (subset (OrderedTree.tree_mem_subtrees inside))

theorem LimitsOk.expand (ok : LimitsOk roots expanded limits) {expanded' : Finset Nat}
    (grows : expanded ⊆ expanded') : LimitsOk roots expanded' limits := by
  constructor
  · exact ok.known
  · intro d hd limit set
    obtain ⟨⟨here, above⟩, bounds⟩ := ok.entry d hd limit set
    exact ⟨⟨grows here, fun a ha => grows (above a ha)⟩, bounds⟩

/-- Collapsing a node forgets the limits of all nodes that are no longer expanded with
everything above them. -/
theorem LimitsOk.collapse (unique : UniqueIds roots) (ok : LimitsOk roots expanded limits)
    (hd : d ∈ forestPreorder roots) :
    LimitsOk roots (expanded.erase (JsonTreeNode.id d.2.tree))
      (Viewer.forgetLimits roots (JsonTreeNode.id d.2.tree) limits) := by
  have kept : ∀ id limit,
      Viewer.forgetLimits roots (JsonTreeNode.id d.2.tree) limits id = some limit →
        limits id = some limit ∧ id ≠ JsonTreeNode.id d.2.tree ∧
          ∀ sub ∈ OrderedTree.subtreesOf d.2.tree.children, JsonTreeNode.id sub ≠ id := by
    intro id limit set
    simp only [Viewer.forgetLimits, findNodeById_place unique hd, mem_collectDescendantIds,
      Finset.mem_singleton, Option.ite_none_left_eq_some] at set
    obtain ⟨outside, set⟩ := set
    exact ⟨set, fun same => outside (.inl same), fun sub below same => outside (.inr ⟨sub, below, same⟩)⟩
  constructor
  · intro id limit set
    exact ok.known id limit (kept id limit set).1
  · intro d' hd' limit set
    obtain ⟨set, other, outside⟩ := kept _ limit set
    obtain ⟨⟨here, above⟩, bounds⟩ := ok.entry d' hd' limit set
    refine ⟨⟨Finset.mem_erase.mpr ⟨other, here⟩, fun a ha => ?_⟩, bounds⟩
    refine Finset.mem_erase.mpr ⟨fun same => ?_, above a ha⟩
    obtain ⟨root, -, inside, subset⟩ := tree_mem_forest hd
    obtain ⟨root', -, inside', subset'⟩ := tree_mem_forest hd'
    obtain ⟨hsub, below⟩ := (OrderedTree.above_mem inside' a ha).resolve_left (by simp)
    have collapsed : a.1 = d.2.tree := List.inj_on_of_nodup_map unique (subset' hsub)
      (subset (OrderedTree.tree_mem_subtrees inside)) same
    exact outside d'.2.tree (collapsed ▸ below) rfl

theorem LimitsOk.set (unique : UniqueIds roots) (ok : LimitsOk roots expanded limits)
    (hd : d ∈ forestPreorder roots) (hexpanded : ExpandedAt expanded d.2) {limit : Nat}
    (more : containerWindow < limit) (bounded : limit ≤ JsonTreeNode.childCount d.2.tree) :
    LimitsOk roots expanded fun id =>
      if id = JsonTreeNode.id d.2.tree then some limit else limits id := by
  constructor
  · intro id limit' set
    split at set
    · rename_i same
      exact ⟨d, hd, same.symm⟩
    · exact ok.known id limit' set
  · intro d' hd' limit' set
    split at set
    · rename_i same
      obtain rfl := place_unique unique hd' hd same
      obtain rfl := Option.some.inj set
      exact ⟨hexpanded, more, bounded⟩
    · exact ok.entry d' hd' limit' set

/-- A node that is not expanded has no limits in it. -/
theorem LimitsOk.closed (ok : LimitsOk roots expanded limits)
    (hd : d ∈ forestPreorder roots) (closed : JsonTreeNode.id d.2.tree ∉ expanded) :
    ∀ sub ∈ OrderedTree.subtrees d.2.tree, limits (JsonTreeNode.id sub) = none := by
  intro sub hsub
  rw [Option.eq_none_iff_forall_ne_some]
  intro limit set
  obtain ⟨root, member, inside⟩ := mem_forestPreorder.mp hd
  obtain ⟨p, below, rfl⟩ := OrderedTree.exists_place d.2.above hsub
  have hp : (d.1, p) ∈ forestPreorder roots :=
    mem_forestPreorder.mpr ⟨root, member, OrderedTree.preorder_trans inside below⟩
  obtain ⟨⟨here, above⟩, -⟩ := ok.entry (d.1, p) hp limit set
  rcases OrderedTree.eq_or_above below with same | ⟨i, hi⟩
  · rw [same] at here
    exact closed here
  · exact closed (above _ hi)

end Limits

/-! ## Rows and their nodes -/

section Rows

variable [JsNumber N] {roots : List (JsonTreeNode N)} {expanded : Finset Nat} {limits : Limits}
  {row : FlatRow}

omit [JsNumber N] in
/-- What is shown is under expanded nodes only. -/
theorem expanded_above {p : Place (JsonLeaf N) JsonContainer}
    (shown : isShown expanded limits p = true) :
    ∀ a ∈ p.above, JsonTreeNode.id a.1 ∈ expanded := by
  intro a ha
  have shows_ := List.all_eq_true.mp shown a ha
  rw [shows, Bool.and_eq_true] at shows_
  exact of_decide_eq_true shows_.1

theorem toggle_row (member : row ∈ flattenForest roots expanded limits)
    (node : row.isNodeRow = true) :
    ∃ d ∈ forestPreorder roots, row.nodeId = JsonTreeNode.id d.2.tree ∧
      (row.kind = .open → JsonTreeNode.id d.2.tree ∈ expanded) ∧
      (row.kind = .collapsed → JsonTreeNode.id d.2.tree ∉ expanded) := by
  have inside := List.mem_filter.mpr ⟨member, node⟩
  rw [filter_flattenForest_node] at inside
  obtain ⟨d, hd, rfl⟩ := List.mem_map.mp inside
  obtain ⟨kind, id, -⟩ := firstRow_spec expanded d.1 d.2
  refine ⟨d, (List.mem_filter.mp hd).1, id, ?_, ?_⟩
  · intro opened
    rw [kind] at opened
    split at opened
    · rename_i isOpen_
      rw [isOpen, Bool.and_eq_true] at isOpen_
      exact of_decide_eq_true isOpen_.2
    · split at opened <;> cases opened
  · intro collapsed hexpanded
    rw [kind] at collapsed
    split at collapsed
    · cases collapsed
    · rename_i closed
      split at collapsed
      · rename_i children
        simp [isOpen, children, hexpanded] at closed
      · cases collapsed

theorem showMore_row (member : row ∈ flattenForest roots expanded limits)
    (more : row.kind = .showMore) :
    ∃ d ∈ forestPreorder roots, row.nodeId = JsonTreeNode.id d.2.tree ∧
      ExpandedAt expanded d.2 ∧ row.childCount = some (JsonTreeNode.childCount d.2.tree) ∧
      containerWindow < JsonTreeNode.childCount d.2.tree := by
  have inside : row ∈ (flattenForest roots expanded limits).filter (fun row => row.kind = .showMore) :=
    List.mem_filter.mpr ⟨member, decide_eq_true more⟩
  rw [filter_flattenForest_end expanded limits (.inl rfl) (filter_endRows_more expanded limits)]
    at inside
  obtain ⟨p, hp, hrow⟩ := List.mem_filterMap.mp inside
  obtain ⟨hpost, shown⟩ := List.mem_filter.mp hp
  obtain ⟨root, hroot, place⟩ := List.mem_flatMap.mp hpost
  obtain ⟨i, hi⟩ := List.getElem?_of_mem hroot
  obtain ⟨⟨isOpen_, hidden⟩, -, id, -, -, total, -⟩ := moreRow?_spec hrow
  refine ⟨(i, p), mem_forestPreorder.mpr ⟨root, List.mk_mem_zipIdx_iff_getElem?.mpr hi,
    (OrderedTree.postorder_perm [] root).mem_iff.mp place⟩, id, ⟨?_, expanded_above shown⟩, total, ?_⟩
  · rw [isOpen, Bool.and_eq_true] at isOpen_
    exact of_decide_eq_true isOpen_.2
  · by_contra small
    rw [shownCount, if_pos (Nat.not_lt.mp small)] at hidden
    exact Nat.lt_irrefl _ hidden

mutual

/-- The rows of a node depend on the limits in it only. -/
theorem flattenNode_congr {limits' : Limits} : ∀ (isLast : Bool) (out : List FlatRow)
    (node : JsonTreeNode N),
    (∀ sub ∈ OrderedTree.subtrees node,
      limits (JsonTreeNode.id sub) = limits' (JsonTreeNode.id sub)) →
    flattenNode isLast expanded limits out node = flattenNode isLast expanded limits' out node
  | _, _, .leaf _, _ => rfl
  | isLast, out, .branch c children, same => by
    have here : limits c.id = limits' c.id := same _ (OrderedTree.self_mem_subtrees _)
    have below := fun i total shown out => flattenChildren_congr i total shown out
      children fun sub hsub => same sub (List.mem_cons_of_mem _ hsub)
    simp only [flattenNode, here, below]

theorem flattenChildren_congr {limits' : Limits} : ∀ (i total shown : Nat) (out : List FlatRow)
    (children : List (JsonTreeNode N)),
    (∀ sub ∈ OrderedTree.subtreesOf children,
      limits (JsonTreeNode.id sub) = limits' (JsonTreeNode.id sub)) →
    flattenChildren i total shown expanded limits out children =
      flattenChildren i total shown expanded limits' out children
  | _, _, _, _, [], _ => rfl
  | i, total, shown, out, child :: children, same => by
    rw [flattenChildren, flattenChildren,
      flattenNode_congr _ out child fun sub hsub => same sub (List.mem_append_left _ hsub),
      flattenChildren_congr (i + 1) total shown _ children fun sub hsub =>
        same sub (List.mem_append_right _ hsub)]

end

end Rows

/-! ## Runs -/

/-- What the viewer is given: rows from the worker, or none. -/
inductive ViewerProps.Rendered [JsNumber N] (bestEffortParse : Text → Option (JsonValue N)) :
    ViewerProps N → Prop where
  | built (input : ViewerInput N) (initialExpanded : Option (Finset Nat)) (truncated : Bool) :
    Rendered bestEffortParse ⟨input, none, initialExpanded, truncated⟩
  | posted {mode : ParseMode} {text : Text} {message : WorkerMessage N} {input : ViewerInput N}
    (accepted : runWorker bestEffortParse mode text = some message)
    (shown : message.viewerInput? = some input) :
    Rendered bestEffortParse
      ⟨input, some message.rows, some message.defaultExpandedIds, message.truncated⟩

namespace Viewer

variable [JsNumber N] {props : ViewerProps N} {s t : Viewer N}

/-- Under the node no limit is left, and its rows are those without limits. -/
def DefaultWindows (props : ViewerProps N) (s : Viewer N) (nodeId : Nat) : Prop :=
  ∃ node, findNodeById nodeId props.forest.roots = some node ∧
    (∀ sub ∈ OrderedTree.subtrees node, s.limits (JsonTreeNode.id sub) = none) ∧
    ∀ isLast out, flattenNode isLast s.expanded s.limits out node =
      flattenNode isLast s.expanded noLimits out node

/-- The rows are those of the viewer's trees, but for the index of a single document. -/
structure Consistent (props : ViewerProps N) (s : Viewer N) : Prop where
  limits : LimitsOk props.forest.roots s.expanded s.limits
  forest : s.ensureForest props = props.forest.roots
  rows : ∀ row ∈ s.rows props,
    row ∈ flattenForest props.forest.roots s.expanded s.limits ∨
      row.tag 0 ∈ flattenForest props.forest.roots s.expanded s.limits

theorem consistent_ready (limits : LimitsOk props.forest.roots s.expanded s.limits)
    (forest : s.lazyForest = some props.forest.roots) (ready : s.treeReady = true) :
    s.Consistent props := by
  constructor
  · exact limits
  · rw [ensureForest, forest]
    rfl
  · intro row member
    rw [rows, ready, forest] at member
    exact .inl member

/-- The worker's rows are those of the viewer's trees. -/
theorem consistent_posted {bestEffortParse : Text → Option (JsonValue N)} {mode : ParseMode}
    {text : Text} {message : WorkerMessage N} {input : ViewerInput N}
    (accepted : runWorker bestEffortParse mode text = some message)
    (shown : message.viewerInput? = some input) :
    Consistent ⟨input, some message.rows, some message.defaultExpandedIds, message.truncated⟩
      ⟨none, false, message.defaultExpandedIds, noLimits⟩ := by
  obtain ⟨-, -, -, rows_⟩ := runWorker_forest bestEffortParse accepted
  rw [← values_of_viewerInput? shown, ← buildForest_values] at rows_
  constructor
  · exact limitsOk_noLimits _ _
  · rfl
  · intro row member
    change row ∈ message.rows at member
    simp only [ViewerProps.forest, rows_]
    split
    · cases hrows : message.rows with
      | nil => simp [hrows] at member
      | cons first rest =>
        rw [hrows] at member
        rcases List.mem_cons.mp member with rfl | later
        · exact .inr List.mem_cons_self
        · exact .inl (List.mem_cons_of_mem _ later)
    · exact .inl member

theorem consistent_mount {bestEffortParse : Text → Option (JsonValue N)}
    (rendered : props.Rendered bestEffortParse) : (mount props).Consistent props := by
  cases rendered with
  | built input initialExpanded truncated =>
    exact consistent_ready (limitsOk_noLimits _ _) rfl rfl
  | posted accepted shown => exact consistent_posted accepted shown

theorem consistent_reset {bestEffortParse : Text → Option (JsonValue N)}
    (rendered : props.Rendered bestEffortParse) : (reset props).Consistent props := by
  cases rendered with
  | built input initialExpanded truncated =>
    exact consistent_ready (limitsOk_noLimits _ _) rfl rfl
  | posted accepted shown => exact consistent_posted accepted shown

theorem toggle_eq (consistent : s.Consistent props) (nodeId : Nat) :
    s.toggle props nodeId =
      ⟨some props.forest.roots, true,
        if nodeId ∈ s.expanded then s.expanded.erase nodeId else insert nodeId s.expanded,
        if nodeId ∈ s.expanded then forgetLimits props.forest.roots nodeId s.limits
          else s.limits⟩ := by
  rw [toggle, consistent.forest]

theorem toggle_consistent (consistent : s.Consistent props)
    {d : Nat × Place (JsonLeaf N) JsonContainer} (hd : d ∈ forestPreorder props.forest.roots) :
    (s.toggle props (JsonTreeNode.id d.2.tree)).Consistent props := by
  rw [toggle_eq consistent]
  refine consistent_ready ?_ rfl rfl
  by_cases hexpanded : JsonTreeNode.id d.2.tree ∈ s.expanded
  · simp only [hexpanded, if_true]
    exact consistent.limits.collapse (forest_uniqueIds props) hd
  · simp only [hexpanded, if_false]
    exact consistent.limits.expand (Finset.subset_insert _ _)

theorem setLimit_consistent (consistent : s.Consistent props)
    {d : Nat × Place (JsonLeaf N) JsonContainer} (hd : d ∈ forestPreorder props.forest.roots)
    (hexpanded : ExpandedAt s.expanded d.2) {limit : Nat} (more : containerWindow < limit)
    (bounded : limit ≤ JsonTreeNode.childCount d.2.tree) :
    (s.setLimit props (JsonTreeNode.id d.2.tree) limit).Consistent props := by
  refine consistent_ready ?_ ?_ rfl
  · exact consistent.limits.set (forest_uniqueIds props) hd hexpanded more bounded
  · rw [setLimit, consistent.forest]

/-- A row that is shown is one of the viewer's trees, up to its index. -/
theorem Consistent.row (consistent : s.Consistent props) {row : FlatRow}
    (member : row ∈ s.rows props) :
    ∃ row' ∈ flattenForest props.forest.roots s.expanded s.limits, row'.kind = row.kind ∧
      row'.nodeId = row.nodeId ∧ row'.childCount = row.childCount := by
  rcases consistent.rows row member with same | tagged
  · exact ⟨row, same, rfl, rfl, rfl⟩
  · exact ⟨row.tag 0, tagged, rfl, rfl, rfl⟩

theorem Consistent.toggle_row (consistent : s.Consistent props) {row : FlatRow}
    (member : row ∈ s.rows props) (kind : row.kind = .open ∨ row.kind = .collapsed) :
    ∃ d ∈ forestPreorder props.forest.roots, row.nodeId = JsonTreeNode.id d.2.tree ∧
      (row.kind = .open → JsonTreeNode.id d.2.tree ∈ s.expanded) ∧
      (row.kind = .collapsed → JsonTreeNode.id d.2.tree ∉ s.expanded) := by
  obtain ⟨row', member', same, id, -⟩ := consistent.row member
  have node : row'.isNodeRow = true := by
    rw [FlatRow.isNodeRow, same]
    rcases kind with kind | kind <;> simp [kind]
  rw [← id, ← same]
  exact Protospy.toggle_row member' node

/-- The row of a container that shows only some of its children. -/
theorem Consistent.showMore_row (consistent : s.Consistent props) {row : FlatRow}
    (member : row ∈ s.rows props) (kind : row.kind = .showMore) :
    ∃ d ∈ forestPreorder props.forest.roots, row.nodeId = JsonTreeNode.id d.2.tree ∧
      row.childCount.getD 0 = JsonTreeNode.childCount d.2.tree ∧ ExpandedAt s.expanded d.2 ∧
      containerWindow < JsonTreeNode.childCount d.2.tree := by
  obtain ⟨row', member', same, id, total⟩ := consistent.row member
  obtain ⟨d, hd, id', hexpanded, total', large⟩ :=
    Protospy.showMore_row member' (same.trans kind)
  refine ⟨d, hd, id.symm.trans id', ?_, hexpanded, large⟩
  rw [← total, total', Option.getD_some]

theorem step_consistent {action : ViewerAction} (consistent : s.Consistent props)
    (stepped : s.step props action = some t) : t.Consistent props := by
  rw [step, Option.ite_none_right_eq_some] at stepped
  obtain ⟨offered, hstep⟩ := stepped
  obtain rfl := Option.some.inj hstep
  obtain ⟨row, member, offers⟩ := List.any_eq_true.mp offered
  rcases FlatRow.mem_actions.mp (of_decide_eq_true offers) with ⟨kind, rfl⟩ | ⟨kind, reveals⟩
  · obtain ⟨d, hd, id, -⟩ := consistent.toggle_row member kind
    rw [act, id]
    exact toggle_consistent consistent hd
  · obtain ⟨d, hd, id, total, hexpanded, large⟩ := consistent.showMore_row member kind
    rw [id, total] at reveals
    rcases reveals with rfl | rfl
    · have current : containerWindow ≤
          (s.limits (JsonTreeNode.id d.2.tree)).getD containerWindow := by
        cases set : s.limits (JsonTreeNode.id d.2.tree) with
        | none => exact Nat.le_refl _
        | some limit => exact Nat.le_of_lt (consistent.limits.entry d hd limit set).2.1
      have window : 0 < containerWindow := by decide
      exact setLimit_consistent consistent hd hexpanded (lt_min (by omega) large) (min_le_right _ _)
    · exact setLimit_consistent consistent hd hexpanded large (Nat.le_refl _)

theorem run_consistent {start : Viewer N} {actions : List ViewerAction}
    (consistent : start.Consistent props)
    (ran : Machine.run (step props) start actions = some s) : s.Consistent props :=
  Machine.run_invariant (fun _ _ _ kept stepped => step_consistent kept stepped) consistent ran

/-- A node that is expanded begins with default windows. -/
theorem toggle_defaultWindows (consistent : s.Consistent props)
    {d : Nat × Place (JsonLeaf N) JsonContainer} (hd : d ∈ forestPreorder props.forest.roots)
    (closed : JsonTreeNode.id d.2.tree ∉ s.expanded) :
    DefaultWindows props (s.toggle props (JsonTreeNode.id d.2.tree)) (JsonTreeNode.id d.2.tree) := by
  have none_ := consistent.limits.closed hd closed
  rw [toggle_eq consistent]
  simp only [closed, if_false]
  exact ⟨d.2.tree, findNodeById_place (forest_uniqueIds props) hd, none_,
    fun isLast out => flattenNode_congr isLast out d.2.tree none_⟩

/-- After any clicks, a limit is that of an expanded node under expanded nodes and is
within its bounds, and a node shows default windows when it is expanded, be it at once
after it was collapsed or later. -/
theorem reveal_limits (bestEffortParse : Text → Option (JsonValue N)) (props : ViewerProps N)
    (rendered : props.Rendered bestEffortParse) (start s : Viewer N)
    (starts : start = mount props ∨ start = reset props) (actions : List ViewerAction)
    (ran : Machine.run (step props) start actions = some s) :
    UniqueIds props.forest.roots ∧ LimitsOk props.forest.roots s.expanded s.limits ∧
    ∀ row ∈ s.rows props,
      (row.kind = .open → DefaultWindows props
        ((s.toggle props row.nodeId).toggle props row.nodeId) row.nodeId) ∧
      (row.kind = .collapsed → DefaultWindows props (s.toggle props row.nodeId) row.nodeId) := by
  have begins : start.Consistent props := by
    rcases starts with rfl | rfl
    · exact consistent_mount rendered
    · exact consistent_reset rendered
  have consistent := run_consistent begins ran
  refine ⟨forest_uniqueIds props, consistent.limits, fun row member => ⟨fun kind => ?_, fun kind => ?_⟩⟩
  · obtain ⟨d, hd, id, opened, -⟩ := consistent.toggle_row member (.inl kind)
    rw [id]
    refine toggle_defaultWindows (toggle_consistent consistent hd) hd ?_
    rw [toggle_eq consistent]
    simp only [opened kind, if_true]
    exact Finset.notMem_erase _ _
  · obtain ⟨d, hd, id, -, collapsed⟩ := consistent.toggle_row member (.inr kind)
    rw [id]
    exact toggle_defaultWindows consistent hd (collapsed kind)

/-- A list of 101 numbers. -/
def longList : ViewerProps Int :=
  ⟨.value (.array (List.replicate 101 (.primitive (.number 0)))), none, none, false⟩

theorem reveal_limits_longList : ∃ s,
    Machine.run (step longList) (mount longList) [.toggle 0, .showMore 0 101] = some s ∧
    s.limits 0 = some 101 ∧ LimitsOk longList.forest.roots s.expanded s.limits := by
  have runs : (Machine.run (step longList) (mount longList) [.toggle 0, .showMore 0 101]).any
      (fun s => s.limits 0 = some 101) = true := by
    decide +kernel
  obtain ⟨s, ran, set⟩ := (Option.any_eq_true _ _).mp runs
  exact ⟨s, ran, of_decide_eq_true set, (reveal_limits (fun _ => none) longList
    (.built _ none false) (mount longList) s (.inl rfl) _ ran).2.1⟩

end Viewer

end Protospy
