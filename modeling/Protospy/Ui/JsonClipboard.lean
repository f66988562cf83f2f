import Protospy.Ui.JsonNumbering
import Protospy.Ui.JsonPath

/-!
# The context menu of the viewer (`json-tree-viewer.tsx`)

A right click keeps the row for the menu, and the menu copies the value of its node or its path.
-/

namespace Protospy

open OrderedTree (Place)

structure CopyMenu (N : Type*) where
  viewer : Viewer N
  menuRow : Option FlatRow
  clipboard : Option JsString

inductive CopyAction where
  | click (action : ViewerAction)
  /-- A right click on the row at an index, or beside the rows. -/
  | contextMenu (target : Option Nat)
  | copyValue (written : Bool)
  | copyPath (written : Bool)
  deriving DecidableEq, Repr

namespace CopyMenu

variable {N : Type*}

def copyToClipboard (s : CopyMenu N) (text : JsString) (written : Bool) : CopyMenu N :=
  if written then { s with clipboard := some text } else s

def copyValue (props : ViewerProps N) [JsNumber N] (s : CopyMenu N) (nodeId : Nat)
    (written : Bool) : CopyMenu N :=
  let forest := s.viewer.ensureForest props
  let s := { s with viewer := { s.viewer with lazyForest := some forest } }
  match findNodeById nodeId forest with
  | none => s
  | some node => s.copyToClipboard (JSON.stringify (nodeToValue node) 2) written

def copyPath (s : CopyMenu N) (row : FlatRow) (written : Bool) : CopyMenu N :=
  s.copyToClipboard (formatPath row.path) written

def step [JsNumber N] (props : ViewerProps N) (s : CopyMenu N) : CopyAction → Option (CopyMenu N)
  | .click action => (s.viewer.step props action).map fun viewer => { s with viewer }
  | .contextMenu none => some { s with menuRow := none }
  | .contextMenu (some i) => ((s.viewer.rows props)[i]?).map fun row =>
      { s with menuRow := if row.kind = .showMore then none else some row }
  | .copyValue written => s.menuRow.map fun row => s.copyValue props row.nodeId written
  | .copyPath written => s.menuRow.map fun row => s.copyPath row written

end CopyMenu

section Nodes

variable {N : Type*}

/-! ## Nodes of a tree that may be marked -/

/-- What copying reads of a node. -/
def copied (node : JsonTreeNode N) : Nat × List PathSegment × JsonValue N :=
  (JsonTreeNode.id node, JsonTreeNode.path node, nodeToValue node)

theorem keyedValues_append (children children' : List (JsonTreeNode N)) :
    keyedValues (children ++ children') = keyedValues children ++ keyedValues children' := by
  induction children with
  | nil => rfl
  | cons child children ih => rw [List.cons_append, keyedValues, keyedValues, ih, List.cons_append]

theorem copied_mark (t : JsonTreeNode N) :
    JsonTreeNode.key (markTruncationPoint t).1 = JsonTreeNode.key t ∧
      copied (markTruncationPoint t).1 = copied t := by
  induction t using OrderedTree.lastInduct with
  | leaf l => exact ⟨rfl, rfl⟩
  | empty c => exact ⟨rfl, rfl⟩
  | last c children child ih =>
    obtain ⟨key, same⟩ := ih
    have value : nodeToValue (markTruncationPoint child).1 = nodeToValue child :=
      congrArg (fun x => x.2.2) same
    have values : keyedValues [(markTruncationPoint child).1] = keyedValues [child] := by
      simp only [keyedValues, key, value]
    rw [markTruncationPoint_concat]
    refine ⟨rfl, ?_⟩
    rw [copied, copied, nodeToValue, nodeToValue, keyedValues_append, keyedValues_append, values]
    rfl

theorem copied_subtrees_mark (t : JsonTreeNode N) :
    (OrderedTree.subtrees (markTruncationPoint t).1).map copied =
      (OrderedTree.subtrees t).map copied := by
  induction t using OrderedTree.lastInduct with
  | leaf l => rfl
  | empty c => rfl
  | last c children child ih =>
    have root := (copied_mark (.branch c (children ++ [child]))).2
    rw [markTruncationPoint_concat] at root ⊢
    simp only [OrderedTree.subtrees, OrderedTree.subtreesOf_eq, List.flatMap_append,
      List.flatMap_singleton, List.map_cons, List.map_append, ih, root]

/-- The tree of a document, marked or not. -/
def RootOf (root : JsonTreeNode N) (doc : JsonValue N) (next : Nat) : Prop :=
  root = (buildNode doc none [] 0 next).1 ∨
    root = (markTruncationPoint (buildNode doc none [] 0 next).1).1

theorem RootOf.node {root : JsonTreeNode N} {doc : JsonValue N} {next : Nat}
    (rootOf : RootOf root doc next) {node : JsonTreeNode N}
    (member : node ∈ OrderedTree.subtrees root) :
    ∃ built ∈ OrderedTree.subtrees (buildNode doc none [] 0 next).1, copied built = copied node := by
  rcases rootOf with rfl | rfl
  · exact ⟨node, member, rfl⟩
  · have inside := List.mem_map_of_mem (f := copied) member
    rw [copied_subtrees_mark] at inside
    exact List.mem_map.mp inside

theorem forest_root {props : ViewerProps N} {i : Nat} {root : JsonTreeNode N}
    (found : props.forest.roots[i]? = some root) :
    ∃ doc next, props.input.values[i]? = some doc ∧ RootOf root doc next := by
  rw [ViewerProps.forest, buildForest_values, buildForest] at found
  dsimp only at found
  split at found
  · rw [markRoot] at found
    split at found
    · rename_i last here
      rw [List.getElem?_set] at found
      split at found
      · rename_i same
        obtain ⟨doc, next, at_, rfl⟩ := buildRoots_getElem? here
        split at found
        · obtain rfl := Option.some.inj found
          exact ⟨doc, next, same ▸ at_, .inr rfl⟩
        · cases found
      · obtain ⟨doc, next, at_, rfl⟩ := buildRoots_getElem? found
        exact ⟨doc, next, at_, .inl rfl⟩
    · obtain ⟨doc, next, at_, rfl⟩ := buildRoots_getElem? found
      exact ⟨doc, next, at_, .inl rfl⟩
  · obtain ⟨doc, next, at_, rfl⟩ := buildRoots_getElem? found
    exact ⟨doc, next, at_, .inl rfl⟩

/-! ## The node at a path -/

theorem mem_subtrees_branch {c : JsonContainer} {children : List (JsonTreeNode N)}
    {node : JsonTreeNode N} :
    node ∈ OrderedTree.subtrees (.branch c children) ↔
      node = .branch c children ∨ ∃ child ∈ children, node ∈ OrderedTree.subtrees child := by
  rw [OrderedTree.subtrees, List.mem_cons, OrderedTree.subtreesOf_eq, List.mem_flatMap]

theorem path_of_subtree {v : JsonValue N} (wf : v.WellFormed) {key : Option JsString}
    {path : List PathSegment} {depth next : Nat} {node : JsonTreeNode N}
    (member : node ∈ OrderedTree.subtrees (buildNode v key path depth next).1) :
    ∃ rest, JsonTreeNode.path node = path ++ rest := by
  obtain ⟨p, inside, rfl⟩ := OrderedTree.exists_place [] member
  obtain ⟨rest, sub, key', next', -, -, same⟩ := place_buildNode wf inside
  refine ⟨rest, ?_⟩
  rw [same, JsonTreeNode.path, buildNode_info]

/-- Where the paths in each child continue its own, and those of the children differ. -/
theorem eq_of_path_branch {c : JsonContainer} {children : List (JsonTreeNode N)}
    (below : ∀ child ∈ children, (JsonTreeNode.path child).length = c.path.length + 1 ∧
      ∀ node ∈ OrderedTree.subtrees child,
        ∃ rest, JsonTreeNode.path node = JsonTreeNode.path child ++ rest)
    (apart : ∀ child ∈ children, ∀ child' ∈ children,
      JsonTreeNode.path child = JsonTreeNode.path child' → child = child')
    (each : ∀ child ∈ children, ∀ node ∈ OrderedTree.subtrees child,
      ∀ node' ∈ OrderedTree.subtrees child,
        JsonTreeNode.path node = JsonTreeNode.path node' → node = node')
    {node node' : JsonTreeNode N} (member : node ∈ OrderedTree.subtrees (.branch c children))
    (member' : node' ∈ OrderedTree.subtrees (.branch c children))
    (same : JsonTreeNode.path node = JsonTreeNode.path node') : node = node' := by
  have longer {child node : JsonTreeNode N} (hchild : child ∈ children)
      (inside : node ∈ OrderedTree.subtrees child) :
      JsonTreeNode.path (.branch c children : JsonTreeNode N) ≠ JsonTreeNode.path node := by
    obtain ⟨one, continues⟩ := below child hchild
    obtain ⟨rest, leads⟩ := continues node inside
    intro equal
    have lengths := congrArg List.length (equal.trans leads)
    rw [List.length_append, one] at lengths
    change c.path.length = _ at lengths
    omega
  rcases mem_subtrees_branch.mp member with rfl | ⟨child, hchild, inside⟩
  · rcases mem_subtrees_branch.mp member' with rfl | ⟨child', hchild', inside'⟩
    · rfl
    · exact absurd same (longer hchild' inside')
  · rcases mem_subtrees_branch.mp member' with rfl | ⟨child', hchild', inside'⟩
    · exact absurd same.symm (longer hchild inside)
    · obtain ⟨one, continues⟩ := below child hchild
      obtain ⟨one', continues'⟩ := below child' hchild'
      obtain ⟨rest, leads⟩ := continues node inside
      obtain ⟨rest', leads'⟩ := continues' node' inside'
      have starts : JsonTreeNode.path child = JsonTreeNode.path child' :=
        (List.append_inj (leads.symm.trans (same.trans leads')) (one.trans one'.symm)).1
      obtain rfl := apart child hchild child' hchild' starts
      exact each child hchild node inside node' inside' same

theorem path_buildNode (v : JsonValue N) (key : Option JsString) (path : List PathSegment)
    (depth next : Nat) : JsonTreeNode.path (buildNode v key path depth next).1 = path := by
  rw [JsonTreeNode.path, buildNode_info]

theorem path_continues {v : JsonValue N} (wf : v.WellFormed) (key : Option JsString)
    (path : List PathSegment) (seg : PathSegment) (depth next : Nat) :
    (JsonTreeNode.path (buildNode v key (path ++ [seg]) depth next).1).length = path.length + 1 ∧
      ∀ node ∈ OrderedTree.subtrees (buildNode v key (path ++ [seg]) depth next).1, ∃ rest,
        JsonTreeNode.path node =
          JsonTreeNode.path (buildNode v key (path ++ [seg]) depth next).1 ++ rest := by
  rw [path_buildNode]
  exact ⟨by simp, fun node inside => path_of_subtree wf inside⟩

/-- No two nodes of a document have the same path. -/
theorem eq_of_path {v : JsonValue N} (wf : v.WellFormed) {key : Option JsString}
    {path : List PathSegment} {depth next : Nat} {node node' : JsonTreeNode N}
    (member : node ∈ OrderedTree.subtrees (buildNode v key path depth next).1)
    (member' : node' ∈ OrderedTree.subtrees (buildNode v key path depth next).1)
    (same : JsonTreeNode.path node = JsonTreeNode.path node') : node = node' := by
  induction v generalizing key path depth next node node' with
  | primitive q =>
    exact (List.mem_singleton.mp member).trans (List.mem_singleton.mp member').symm
  | array items ih =>
    have each := JsonValue.wellFormed_array.mp wf
    refine eq_of_path_branch ?_ ?_ ?_ member member' same
    · intro child hchild
      obtain ⟨i, found⟩ := List.getElem?_of_mem hchild
      obtain ⟨item, next', at_, rfl⟩ := buildItems_getElem? found
      exact path_continues (each item (List.mem_of_getElem? at_)) none _ _ _ next'
    · intro child hchild child' hchild' equal
      obtain ⟨i, found⟩ := List.getElem?_of_mem hchild
      obtain ⟨j, found'⟩ := List.getElem?_of_mem hchild'
      obtain ⟨item, next', at_, rfl⟩ := buildItems_getElem? found
      obtain ⟨item', next'', at_', rfl⟩ := buildItems_getElem? found'
      rw [path_buildNode, path_buildNode, List.append_cancel_left_eq] at equal
      have index := PathSegment.index.inj (List.singleton_inj.mp equal)
      obtain rfl : i = j := by omega
      exact Option.some.inj (found.symm.trans found')
    · intro child hchild node inside node' inside' equal
      obtain ⟨i, found⟩ := List.getElem?_of_mem hchild
      obtain ⟨item, next', at_, rfl⟩ := buildItems_getElem? found
      have hitem := List.mem_of_getElem? at_
      exact ih item hitem (each item hitem) inside inside' equal
  | object entries ih =>
    obtain ⟨ordered, each⟩ := JsonValue.wellFormed_object.mp wf
    have distinct : (entries.map Prod.fst).Nodup := List.pairwise_map.mpr ordered.keys_ne
    refine eq_of_path_branch ?_ ?_ ?_ member member' same
    · intro child hchild
      obtain ⟨i, found⟩ := List.getElem?_of_mem hchild
      obtain ⟨e, next', at_, rfl⟩ := buildEntries_getElem? found
      exact path_continues (each e (List.mem_of_getElem? at_)) _ _ _ _ next'
    · intro child hchild child' hchild' equal
      obtain ⟨i, found⟩ := List.getElem?_of_mem hchild
      obtain ⟨j, found'⟩ := List.getElem?_of_mem hchild'
      obtain ⟨e, next', at_, rfl⟩ := buildEntries_getElem? found
      obtain ⟨e', next'', at_', rfl⟩ := buildEntries_getElem? found'
      rw [path_buildNode, path_buildNode, List.append_cancel_left_eq] at equal
      have keys := PathSegment.key.inj (List.singleton_inj.mp equal)
      obtain ⟨bound, -⟩ := List.getElem?_eq_some_iff.mp at_
      obtain rfl : i = j := by
        refine (List.getElem?_inj (by simpa using bound) distinct).mp ?_
        rw [List.getElem?_map, List.getElem?_map, at_, at_', Option.map_some, Option.map_some, keys]
      exact Option.some.inj (found.symm.trans found')
    · intro child hchild node inside node' inside' equal
      obtain ⟨i, found⟩ := List.getElem?_of_mem hchild
      obtain ⟨e, next', at_, rfl⟩ := buildEntries_getElem? found
      have hentry := List.mem_of_getElem? at_
      exact ih e hentry (each e hentry) inside inside' equal

/-! ## Values that are copied -/

variable [JsNumber N]

theorem numbersKept_at {path : List PathSegment} {v sub : JsonValue N}
    (kept : JSON.NumbersKept v) (leads : v.at? path = some sub) : JSON.NumbersKept sub := by
  induction path generalizing v with
  | nil =>
    obtain rfl := Option.some.inj leads
    exact kept
  | cons seg path ih =>
    obtain ⟨child, found, leads⟩ := Option.bind_eq_some_iff.mp leads
    refine ih ?_ leads
    cases v with
    | primitive p => cases seg <;> cases found
    | array items =>
      cases seg with
      | index i => exact JSON.numbersKept_array.mp kept child (List.mem_of_getElem? found)
      | key key => cases found
    | object entries =>
      cases seg with
      | index i => cases found
      | key key =>
        obtain ⟨e, member, rfl⟩ := Option.map_eq_some_iff.mp found
        exact JSON.numbersKept_object.mp kept e (List.mem_of_find?_eq_some member)

omit [JsNumber N] in
theorem mem_dropProtoItems {items : List (JsonValue N)} {v : JsonValue N}
    (member : v ∈ dropProtoItems items) : ∃ w ∈ items, v = dropProto w := by
  induction items with
  | nil => cases member
  | cons item items ih =>
    rcases List.mem_cons.mp member with rfl | later
    · exact ⟨item, List.mem_cons_self, rfl⟩
    · obtain ⟨w, hw, same⟩ := ih later
      exact ⟨w, List.mem_cons_of_mem item hw, same⟩

omit [JsNumber N] in
theorem mem_dropProtoEntries {entries : List (JsString × JsonValue N)}
    {e : JsString × JsonValue N} (member : e ∈ dropProtoEntries entries) :
    ∃ d ∈ entries, e.2 = dropProto d.2 := by
  induction entries with
  | nil => cases member
  | cons d entries ih =>
    obtain ⟨key, v⟩ := d
    rw [dropProtoEntries] at member
    split at member
    · obtain ⟨d, hd, same⟩ := ih member
      exact ⟨d, List.mem_cons_of_mem _ hd, same⟩
    · rcases List.mem_cons.mp member with rfl | later
      · exact ⟨(key, v), List.mem_cons_self, rfl⟩
      · obtain ⟨d, hd, same⟩ := ih later
        exact ⟨d, List.mem_cons_of_mem _ hd, same⟩

/-- A copy is a value as JavaScript makes them, with no new numbers. -/
theorem dropProto_kept {v : JsonValue N} (wf : v.WellFormed) (kept : JSON.NumbersKept v) :
    (dropProto v).WellFormed ∧ JSON.NumbersKept (dropProto v) := by
  induction v with
  | primitive p => exact ⟨wf, kept⟩
  | array items ih =>
    have each : ∀ v ∈ dropProtoItems items, v.WellFormed ∧ JSON.NumbersKept v := by
      intro v member
      obtain ⟨w, hw, rfl⟩ := mem_dropProtoItems member
      exact ih w hw (JsonValue.wellFormed_array.mp wf w hw) (JSON.numbersKept_array.mp kept w hw)
    exact ⟨JsonValue.wellFormed_array.mpr fun v member => (each v member).1,
      JSON.numbersKept_array.mpr fun v member => (each v member).2⟩
  | object entries ih =>
    obtain ⟨ordered, inner⟩ := JsonValue.wellFormed_object.mp wf
    have each : ∀ e ∈ dropProtoEntries entries, e.2.WellFormed ∧ JSON.NumbersKept e.2 := by
      intro e member
      obtain ⟨d, hd, same⟩ := mem_dropProtoEntries member
      rw [same]
      exact ih d hd (inner d hd) (JSON.numbersKept_object.mp kept d hd)
    exact ⟨JsonValue.wellFormed_object.mpr
        ⟨dropProtoEntries_ownOrder ordered, fun e member => (each e member).1⟩,
      JSON.numbersKept_object.mpr fun e member => (each e member).2⟩

/-! ## Rows and their nodes -/

/-- The row is of a node of document `i`. -/
def InDocument (props : ViewerProps N) (i : Nat) (row : FlatRow) : Prop :=
  ∃ root node, props.forest.roots[i]? = some root ∧ node ∈ OrderedTree.subtrees root ∧
    row.nodeId = JsonTreeNode.id node ∧ row.path = JsonTreeNode.path node

theorem nodeRow_path (expanded : Finset Nat) (p : Place (JsonLeaf N) JsonContainer) :
    (nodeRow expanded p).path = JsonTreeNode.path p.tree := by
  obtain ⟨above, tree⟩ := p
  cases tree with
  | leaf l => rfl
  | branch c children =>
    rw [nodeRow]
    dsimp only
    split
    · rfl
    · split <;> rfl

omit [JsNumber N] in
theorem closeRow?_path {expanded : Finset Nat} {p : Place (JsonLeaf N) JsonContainer}
    {row : FlatRow} (close : closeRow? expanded p = some row) :
    row.path = JsonTreeNode.path p.tree := by
  obtain ⟨above, tree⟩ := p
  cases tree with
  | leaf l => cases close
  | branch c children =>
    simp only [closeRow?, Option.ite_none_right_eq_some, Option.some.injEq] at close
    obtain ⟨-, rfl⟩ := close
    rfl

omit [JsNumber N] in
theorem inDocument_of_place {props : ViewerProps N} {d : Nat × Place (JsonLeaf N) JsonContainer}
    (hd : d ∈ forestPreorder props.forest.roots) {row : FlatRow}
    (id : row.nodeId = JsonTreeNode.id d.2.tree) (path : row.path = JsonTreeNode.path d.2.tree) :
    InDocument props d.1 row := by
  obtain ⟨root, here, inside⟩ := mem_forestPreorder.mp hd
  exact ⟨root, d.2.tree, List.mk_mem_zipIdx_iff_getElem?.mp here,
    OrderedTree.tree_mem_subtrees inside, id, path⟩

theorem row_inDocument {props : ViewerProps N} {expanded : Finset Nat} {limits : Limits}
    {row : FlatRow} (member : row ∈ flattenForest props.forest.roots expanded limits)
    (node : row.kind ≠ .showMore) : ∃ i, InDocument props i row := by
  by_cases close : row.kind = .close
  · have inside : row ∈ (flattenForest props.forest.roots expanded limits).filter
        (fun row => row.kind = .close) := List.mem_filter.mpr ⟨member, decide_eq_true close⟩
    rw [filter_flattenForest_end expanded limits (.inr rfl) (filter_endRows_close expanded limits)]
      at inside
    obtain ⟨p, hp, hrow⟩ := List.mem_filterMap.mp inside
    obtain ⟨root, hroot, place⟩ := List.mem_flatMap.mp (List.mem_filter.mp hp).1
    obtain ⟨i, hi⟩ := List.getElem?_of_mem hroot
    exact ⟨i, inDocument_of_place (d := (i, p)) (mem_forestPreorder.mpr
      ⟨root, List.mk_mem_zipIdx_iff_getElem?.mpr hi,
        (OrderedTree.postorder_perm [] root).mem_iff.mp place⟩)
      (closeRow?_spec hrow).2.2.1 (closeRow?_path hrow)⟩
  · have first : row.isNodeRow = true := by
      rw [FlatRow.isNodeRow]
      cases kind : row.kind <;> simp_all
    have inside := List.mem_filter.mpr ⟨member, first⟩
    rw [filter_flattenForest_node] at inside
    obtain ⟨d, hd, rfl⟩ := List.mem_map.mp inside
    have path : (firstRow expanded d.1 d.2).path = JsonTreeNode.path d.2.tree := by
      rw [firstRow, ← nodeRow_path expanded]
      split <;> rfl
    exact ⟨d.1, inDocument_of_place (List.mem_filter.mp hd).1 (firstRow_spec expanded d.1 d.2).2.1
      path⟩

end Nodes

namespace CopyMenu

section Runs

variable {N : Type*} [JsNumber N] {props : ViewerProps N} {s t : CopyMenu N}

/-! ## Runs -/

/-- What holds after some actions while one body is shown. A row that the menu keeps from the
body before is gone with the first right click. -/
structure Consistent (props : ViewerProps N) (actions : List CopyAction) (s : CopyMenu N) : Prop where
  viewer : s.viewer.Consistent props
  menu : (∃ target, .contextMenu target ∈ actions) →
    ∀ row, s.menuRow = some row → ∃ i, InDocument props i row

/-- All but a right click leaves the row of the menu as it is. -/
theorem Consistent.keep {actions : List CopyAction} (consistent : s.Consistent props actions)
    (viewer : t.viewer.Consistent props) (same : t.menuRow = s.menuRow) {action : CopyAction}
    (other : ∀ target, action ≠ .contextMenu target) : t.Consistent props (actions ++ [action]) := by
  refine ⟨viewer, fun ⟨target, member⟩ => ?_⟩
  rw [same]
  rcases List.mem_append.mp member with old | new
  · exact consistent.menu ⟨target, old⟩
  · exact absurd (List.mem_singleton.mp new).symm (other target)

theorem row_of_viewer {viewer : Viewer N} (consistent : viewer.Consistent props) {row : FlatRow}
    (member : row ∈ viewer.rows props) (node : row.kind ≠ .showMore) :
    ∃ i, InDocument props i row := by
  rcases consistent.rows row member with same | tagged
  · exact row_inDocument same node
  · have node' : (row.tag 0).kind ≠ .showMore := node
    obtain ⟨i, here⟩ := row_inDocument tagged node'
    exact ⟨i, here⟩

/-- Copying builds the trees if they are not there; the rows stay those of the trees. -/
theorem forest_built {viewer : Viewer N} (consistent : viewer.Consistent props) :
    Viewer.Consistent props { viewer with lazyForest := some (viewer.ensureForest props) } := by
  constructor
  · exact consistent.limits
  · exact consistent.forest
  · intro row member
    have whole := consistent.forest
    obtain ⟨lazyForest, treeReady, expanded, limits⟩ := viewer
    rw [Viewer.rows, whole] at member
    cases treeReady with
    | true => exact .inl member
    | false =>
      cases initial : props.initialRows with
      | none =>
        rw [initial] at member
        exact .inl member
      | some initialRows =>
        refine consistent.rows row ?_
        rw [initial] at member
        rw [Viewer.rows, initial]
        exact member

theorem copyValue_viewer (consistent : s.viewer.Consistent props) (nodeId : Nat) (written : Bool) :
    (s.copyValue props nodeId written).viewer.Consistent props ∧
      (s.copyValue props nodeId written).menuRow = s.menuRow := by
  have viewer := forest_built consistent
  rw [copyValue]
  dsimp only
  split
  · exact ⟨viewer, rfl⟩
  · rw [copyToClipboard]
    split
    · exact ⟨viewer, rfl⟩
    · exact ⟨viewer, rfl⟩

theorem step_consistent {actions : List CopyAction} (consistent : s.Consistent props actions)
    {action : CopyAction} (stepped : s.step props action = some t) :
    t.Consistent props (actions ++ [action]) := by
  cases action with
  | click action =>
    obtain ⟨viewer, clicked, rfl⟩ := Option.map_eq_some_iff.mp stepped
    refine consistent.keep (Viewer.step_consistent consistent.viewer clicked) ?_ ?_
    · rfl
    · rintro target ⟨⟩
  | contextMenu target =>
    cases target with
    | none =>
      obtain rfl := Option.some.inj stepped
      exact ⟨consistent.viewer, fun _ row kept => by cases kept⟩
    | some i =>
      obtain ⟨row, found, rfl⟩ := Option.map_eq_some_iff.mp stepped
      refine ⟨consistent.viewer, fun _ row' kept => ?_⟩
      dsimp only at kept
      split at kept
      · cases kept
      · rename_i node
        obtain rfl := Option.some.inj kept
        exact row_of_viewer consistent.viewer (List.mem_of_getElem? found) node
  | copyValue written =>
    obtain ⟨row, -, rfl⟩ := Option.map_eq_some_iff.mp stepped
    obtain ⟨viewer, same⟩ := copyValue_viewer consistent.viewer row.nodeId written
    refine consistent.keep viewer same ?_
    rintro target ⟨⟩
  | copyPath written =>
    obtain ⟨row, -, rfl⟩ := Option.map_eq_some_iff.mp stepped
    have same : (s.copyPath row written).viewer = s.viewer ∧
        (s.copyPath row written).menuRow = s.menuRow := by cases written <;> exact ⟨rfl, rfl⟩
    refine consistent.keep (same.1 ▸ consistent.viewer) same.2 ?_
    rintro target ⟨⟩

/-- The viewer when a body is first shown, or when another one has been. The menu may still
keep a row of that one. -/
def Starts (props : ViewerProps N) (s : CopyMenu N) : Prop :=
  s.viewer = .mount props ∨ s.viewer = .reset props

theorem run_consistent {bestEffortParse : Text → Option (JsonValue N)}
    (rendered : props.Rendered bestEffortParse) {start : CopyMenu N} (starts : Starts props start)
    {actions : List CopyAction} (ran : Machine.run (step props) start actions = some s) :
    s.Consistent props actions := by
  have viewer : start.viewer.Consistent props := by
    rcases starts with same | same
    · rw [same]
      exact Viewer.consistent_mount rendered
    · rw [same]
      exact Viewer.consistent_reset rendered
  refine Machine.run_history (P := fun actions (s : CopyMenu N) => s.Consistent props actions) ?_
    (fun _ _ _ _ _ kept stepped => step_consistent kept stepped) ran
  exact ⟨viewer, fun ⟨target, member⟩ => by cases member⟩

/-- In every run of clicks and copies in which the menu was opened, the path of its row leads in its
document to a value, and the text that is copied for the row is read back as that value, less the
properties named `__proto__`. -/
theorem copied_value_read {bestEffortParse : Text → Option (JsonValue N)}
    (rendered : props.Rendered bestEffortParse)
    (values : ∀ v ∈ props.input.values, v.WellFormed ∧ JSON.NumbersKept v)
    {start : CopyMenu N} (starts : Starts props start) {actions : List CopyAction}
    (ran : Machine.run (step props) start actions = some s)
    (opened : ∃ target, .contextMenu target ∈ actions) {row : FlatRow}
    (menu : s.menuRow = some row) :
    ∃ i doc sub, InDocument props i row ∧ props.input.values[i]? = some doc ∧
      doc.at? row.path = some sub ∧ (dropProto sub = sub ↔ sub.Without protoKey) ∧
      ∃ t text, s.step props (.copyValue true) = some t ∧
        t.clipboard = some (JsString.ofText text) ∧ JSON.parse text = some (dropProto sub) := by
  have consistent := run_consistent rendered starts ran
  obtain ⟨i, here⟩ := consistent.menu opened row menu
  obtain ⟨root, node, found, inside, id, path⟩ := id here
  obtain ⟨doc, next, at_, rootOf⟩ := forest_root found
  obtain ⟨wf, kept⟩ := values doc (List.mem_of_getElem? at_)
  obtain ⟨built, member, same⟩ := rootOf.node inside
  obtain ⟨p, place, rfl⟩ := OrderedTree.exists_place [] member
  obtain ⟨rest, sub, key, next', leads, hsub, is⟩ := place_buildNode wf place
  have paths : row.path = rest := by
    have nodePath : JsonTreeNode.path p.tree = JsonTreeNode.path node :=
      congrArg (fun x => x.2.1) same
    rw [path, ← nodePath, is, path_buildNode, List.nil_append]
  have value : nodeToValue node = dropProto sub := by
    have nodeValue : nodeToValue p.tree = nodeToValue node := congrArg (fun x => x.2.2) same
    rw [← nodeValue, is, nodeToValue_buildNode sub _ _ _ _ hsub]
  obtain ⟨copyWf, copyKept⟩ := dropProto_kept hsub (numbersKept_at kept leads)
  obtain ⟨text, written, parsed⟩ := JSON.parse_stringify copyWf copyKept 2
  have inForest : node ∈ OrderedTree.subtreesOf props.forest.roots := by
    rw [OrderedTree.subtreesOf_eq]
    exact List.mem_flatMap.mpr ⟨root, List.mem_of_getElem? found, inside⟩
  have located := findNodeById_of_mem (forest_uniqueIds props) inForest
  refine ⟨i, doc, sub, here, at_, paths ▸ leads, dropProto_eq_self_iff sub,
    s.copyValue props row.nodeId true, text, ?_, ?_, parsed⟩
  · rw [step, menu, Option.map_some]
  · rw [copyValue, consistent.viewer.forest, id, located, written, ← value]
    rfl

omit [JsNumber N] in
theorem path_iff {i : Nat} (values : ∀ v ∈ props.input.values, v.WellFormed)
    {row row' : FlatRow} (here : InDocument props i row) (here' : InDocument props i row') :
    formatPath row.path = formatPath row'.path ↔ row.nodeId = row'.nodeId := by
  obtain ⟨root, node, found, inside, id, path⟩ := here
  obtain ⟨root', node', found', inside', id', path'⟩ := here'
  obtain rfl := Option.some.inj (found.symm.trans found')
  rw [path, path', id, id']
  constructor
  · intro text
    obtain ⟨doc, next, at_, rootOf⟩ := forest_root found
    obtain ⟨built, member, same⟩ := rootOf.node inside
    obtain ⟨built', member', same'⟩ := rootOf.node inside'
    have paths : JsonTreeNode.path built = JsonTreeNode.path built' := by
      have first : JsonTreeNode.path built = JsonTreeNode.path node :=
        congrArg (fun x => x.2.1) same
      have second : JsonTreeNode.path built' = JsonTreeNode.path node' :=
        congrArg (fun x => x.2.1) same'
      rw [first, second, formatPath_injective text]
    obtain rfl := eq_of_path (values doc (List.mem_of_getElem? at_)) member member' paths
    exact congrArg Prod.fst (same.symm.trans same')
  · intro ids
    have inForest {n : JsonTreeNode N} (member : n ∈ OrderedTree.subtrees root) :
        n ∈ OrderedTree.subtreesOf props.forest.roots := by
      rw [OrderedTree.subtreesOf_eq]
      exact List.mem_flatMap.mpr ⟨root, List.mem_of_getElem? found, member⟩
    have unique := forest_uniqueIds props
    rw [UniqueIds] at unique
    rw [List.inj_on_of_nodup_map unique (inForest inside) (inForest inside') ids]

/-- Two rows of a document have one text for their paths just when they are rows of one node. -/
theorem copied_path_tells {bestEffortParse : Text → Option (JsonValue N)}
    (rendered : props.Rendered bestEffortParse)
    (values : ∀ v ∈ props.input.values, v.WellFormed)
    {start start' : CopyMenu N} (starts : Starts props start) (starts' : Starts props start')
    {actions actions' : List CopyAction} (ran : Machine.run (step props) start actions = some s)
    (ran' : Machine.run (step props) start' actions' = some t)
    (opened : ∃ target, .contextMenu target ∈ actions)
    (opened' : ∃ target, .contextMenu target ∈ actions') {row row' : FlatRow}
    (menu : s.menuRow = some row) (menu' : t.menuRow = some row') :
    (∃ i, InDocument props i row) ∧ (∃ i, InDocument props i row') ∧
      ∀ i, InDocument props i row → InDocument props i row' →
        ∃ s' t' text text', s.step props (.copyPath true) = some s' ∧ s'.clipboard = some text ∧
          t.step props (.copyPath true) = some t' ∧ t'.clipboard = some text' ∧
          (text = text' ↔ row.nodeId = row'.nodeId) := by
  have consistent := run_consistent rendered starts ran
  have consistent' := run_consistent rendered starts' ran'
  refine ⟨consistent.menu opened row menu, consistent'.menu opened' row' menu', fun i here here' => ?_⟩
  refine ⟨s.copyPath row true, t.copyPath row' true, formatPath row.path, formatPath row'.path, ?_,
    rfl, ?_, rfl, path_iff values here here'⟩
  · rw [step, menu, Option.map_some]
  · rw [step, menu', Option.map_some]

end Runs

section Example

/-- The viewer of `{"a": [1]}`. -/
private def plainProps : ViewerProps Int := ⟨.value plainDocument, none, none, false⟩

private def plainMenu : CopyMenu Int := ⟨.mount plainProps, none, none⟩

private theorem starts_plain : Starts plainProps plainMenu := .inl rfl

private theorem rendered_plain : plainProps.Rendered fun _ => none := .built _ none false

theorem plainDocument_kept :
    plainDocument.WellFormed ∧ JSON.NumbersKept plainDocument := by
  have parsed : JSON.parse "\x7b\"a\": [1]\x7d".toList = some plainDocument := by rfl
  refine ⟨JSON.parse_wellFormed parsed, fun n member => ?_⟩
  obtain rfl : n = 1 := by simpa [plainDocument] using member
  exact ⟨rfl, "1".toList, by rfl, by rfl, by rfl⟩

theorem menu_plain (i : Nat) (inside : i < 5) : ∃ s row,
    Machine.run (step plainProps) plainMenu [.contextMenu (some i)] = some s ∧
      s.menuRow = some row := by
  have each : ∀ i < 5, (Machine.run (step plainProps) plainMenu [.contextMenu (some i)]).any
      (fun s => s.menuRow.isSome) = true := by
    decide +kernel
  obtain ⟨s, ran, kept⟩ := (Option.any_eq_true _ _).mp (each i inside)
  obtain ⟨row, menu⟩ := Option.isSome_iff_exists.mp kept
  exact ⟨s, row, ran, menu⟩

/-- A right click on the row of the array. -/
theorem copied_value_plain : ∃ s row i doc sub,
    Machine.run (step plainProps) plainMenu [.contextMenu (some 1)] = some s ∧
    InDocument plainProps i row ∧ plainProps.input.values[i]? = some doc ∧
      doc.at? row.path = some sub ∧ ∃ t text, s.step plainProps (.copyValue true) = some t ∧
        t.clipboard = some (JsString.ofText text) ∧ JSON.parse text = some (dropProto sub) := by
  have values : ∀ v ∈ plainProps.input.values, v.WellFormed ∧ JSON.NumbersKept v := by
    intro v member
    rw [List.mem_singleton.mp member]
    exact plainDocument_kept
  obtain ⟨s, row, ran, menu⟩ := menu_plain 1 (by decide)
  obtain ⟨i, doc, sub, here, at_, leads, -, copy⟩ := copied_value_read
    rendered_plain values starts_plain ran ⟨_, List.mem_cons_self⟩ menu
  exact ⟨s, row, i, doc, sub, ran, here, at_, leads, copy⟩

/-- Right clicks on the rows of the array and of its item. -/
theorem copied_path_plain : ∃ s t row row',
    Machine.run (step plainProps) plainMenu [.contextMenu (some 1)] = some s ∧
    Machine.run (step plainProps) plainMenu [.contextMenu (some 2)] = some t ∧
    (∃ i, InDocument plainProps i row) ∧ (∃ i, InDocument plainProps i row') ∧
      ∀ i, InDocument plainProps i row → InDocument plainProps i row' →
        ∃ s' t' text text', s.step plainProps (.copyPath true) = some s' ∧
          s'.clipboard = some text ∧ t.step plainProps (.copyPath true) = some t' ∧
          t'.clipboard = some text' ∧ (text = text' ↔ row.nodeId = row'.nodeId) := by
  have values : ∀ v ∈ plainProps.input.values, v.WellFormed := by
    intro v member
    rw [List.mem_singleton.mp member]
    exact plainDocument_kept.1
  obtain ⟨s, row, ran, menu⟩ := menu_plain 1 (by decide)
  obtain ⟨t, row', ran', menu'⟩ := menu_plain 2 (by decide)
  exact ⟨s, t, row, row', ran, ran', copied_path_tells
    rendered_plain values starts_plain starts_plain ran ran' ⟨_, List.mem_cons_self⟩
    ⟨_, List.mem_cons_self⟩ menu menu'⟩

end Example

end CopyMenu

end Protospy
