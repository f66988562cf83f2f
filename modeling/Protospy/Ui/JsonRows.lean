import Protospy.Ui.JsonTree

/-!
# Rows (`json-tree/flatten.ts`)

The rows of a tree whose containers are expanded or not, in the order in which they
are shown.
-/

namespace Protospy

open OrderedTree (Place)

def containerWindow : Nat := largeContainerChildCount

inductive FlatRowKind where
  | «open»
  | close
  | collapsed
  | leaf
  | showMore
  deriving DecidableEq, Repr

structure FlatRow where
  kind : FlatRowKind
  nodeId : Nat
  depth : Nat
  path : List PathSegment
  key : Option JsString := none
  containerType : Option ContainerType := none
  childCount : Option Nat := none
  shownCount : Option Nat := none
  valueText : Option JsString := none
  valueCls : Option String := none
  hasComma : Bool
  truncated : Bool
  docIndex : Option Nat := none
  deriving DecidableEq

/-- For some containers, how many of their children are revealed. -/
abbrev Limits := Nat → Option Nat

def noLimits : Limits := fun _ => none

section Rows

variable {N : Type*} [JsNumber N]

/-- The text of a value and its class. -/
def formatPrimitive : JsonPrimitive N → JsString × String
  | .null => (js "null", "text-json-null")
  | .boolean b => (js (if b then "true" else "false"), "text-json-boolean")
  | .number n => (JsNumber.toText n, "text-json-number")
  | .string s => (JSON.quote s, "text-json-string")

def leafRow (l : JsonLeaf N) (isLast : Bool) : FlatRow where
  kind := .leaf
  nodeId := l.id
  depth := l.depth
  path := l.path
  key := l.key
  valueText := some (formatPrimitive l.value).1
  valueCls := some (formatPrimitive l.value).2
  hasComma := !isLast
  truncated := l.truncated

def emptyRow (c : JsonContainer) (isLast : Bool) : FlatRow where
  kind := .leaf
  nodeId := c.id
  depth := c.depth
  path := c.path
  key := c.key
  valueText := some (if c.type = .object then js "{}" else js "[]")
  valueCls := some "text-json-punct"
  hasComma := !isLast
  truncated := c.truncated

def collapsedRow (c : JsonContainer) (childCount : Nat) (isLast : Bool) : FlatRow where
  kind := .collapsed
  nodeId := c.id
  depth := c.depth
  path := c.path
  key := c.key
  containerType := some c.type
  childCount := some childCount
  hasComma := !isLast
  truncated := c.truncated

def openRow (c : JsonContainer) (childCount : Nat) : FlatRow where
  kind := .open
  nodeId := c.id
  depth := c.depth
  path := c.path
  key := c.key
  containerType := some c.type
  childCount := some childCount
  hasComma := false
  truncated := c.truncated

def showMoreRow (c : JsonContainer) (total shown : Nat) : FlatRow where
  kind := .showMore
  nodeId := c.id
  depth := c.depth + 1
  path := c.path
  containerType := some c.type
  childCount := some total
  shownCount := some shown
  hasComma := false
  truncated := false

def closeRow (c : JsonContainer) (isLast : Bool) : FlatRow where
  kind := .close
  nodeId := c.id
  depth := c.depth
  path := c.path
  containerType := some c.type
  hasComma := !isLast
  truncated := c.truncated

mutual

def flattenNode (isLast : Bool) (expanded : Finset Nat) (limits : Limits) (out : List FlatRow) :
    JsonTreeNode N → List FlatRow
  | .leaf l => out ++ [leafRow l isLast]
  | .branch c children =>
    if children.isEmpty then out ++ [emptyRow c isLast]
    else if c.id ∉ expanded then out ++ [collapsedRow c children.length isLast]
    else
      let total := children.length
      let shown := if total > containerWindow then min ((limits c.id).getD containerWindow) total
        else total
      let out := flattenChildren 0 total shown expanded limits (out ++ [openRow c total]) children
      let out := if shown < total then out ++ [showMoreRow c total shown] else out
      out ++ [closeRow c isLast]

/-- The loop over the children from child `i` on, of which `shown` are revealed. -/
def flattenChildren (i total shown : Nat) (expanded : Finset Nat) (limits : Limits)
    (out : List FlatRow) : List (JsonTreeNode N) → List FlatRow
  | [] => out
  | child :: children =>
    if i < shown then
      flattenChildren (i + 1) total shown expanded limits
        (flattenNode (i + 1 = total) expanded limits out child) children
    else out

end

def flattenTree (root : JsonTreeNode N) (expanded : Finset Nat) (limits : Limits) :
    List FlatRow :=
  flattenNode true expanded limits [] root

def FlatRow.tag (docIndex : Nat) (row : FlatRow) : FlatRow := { row with docIndex := some docIndex }

def flattenForest (roots : List (JsonTreeNode N)) (expanded : Finset Nat) (limits : Limits) :
    List FlatRow :=
  roots.zipIdx.foldl (fun rows (root, docIndex) =>
    let start := rows.length
    let rows := flattenNode true expanded limits rows root
    if rows.length > start then rows.modify start (FlatRow.tag docIndex) else rows) []

/-! ## Rows as a walk -/

/-- How many children of a container are shown when it is expanded. -/
def shownCount (limits : Limits) (node : JsonTreeNode N) : Nat :=
  if node.childCount ≤ containerWindow then node.childCount
  else min node.childCount ((limits node.id).getD containerWindow)

/-- Whether child `i` of a node is shown. -/
def shows (expanded : Finset Nat) (limits : Limits) (node : JsonTreeNode N) (i : Nat) : Bool :=
  node.id ∈ expanded && i < shownCount limits node

/-- A place without a parent, or whose parent has no child after it. -/
def isLast (p : Place (JsonLeaf N) JsonContainer) : Bool :=
  match p.above with
  | [] => true
  | (parent, i) :: _ => i + 1 = JsonTreeNode.childCount parent

/-- The row with which a node begins. -/
def nodeRow (expanded : Finset Nat) (p : Place (JsonLeaf N) JsonContainer) : FlatRow :=
  match p.tree with
  | .leaf l => leafRow l (isLast p)
  | .branch c children =>
    if children.isEmpty then emptyRow c (isLast p)
    else if c.id ∉ expanded then collapsedRow c children.length (isLast p)
    else openRow c children.length

/-- A container with an open row. -/
def isOpen (expanded : Finset Nat) (node : JsonTreeNode N) : Bool :=
  0 < node.childCount && node.id ∈ expanded

def moreRow? (expanded : Finset Nat) (limits : Limits) (p : Place (JsonLeaf N) JsonContainer) :
    Option FlatRow :=
  match p.tree with
  | .leaf _ => none
  | .branch c children =>
    let shown := shownCount limits p.tree
    if isOpen expanded p.tree && shown < children.length then
      some (showMoreRow c children.length shown)
    else none

def closeRow? (expanded : Finset Nat) (p : Place (JsonLeaf N) JsonContainer) : Option FlatRow :=
  match p.tree with
  | .leaf _ => none
  | .branch c _ => if isOpen expanded p.tree then some (closeRow c (isLast p)) else none

/-- The rows after those of the children that are shown. -/
def endRows (expanded : Finset Nat) (limits : Limits) (p : Place (JsonLeaf N) JsonContainer) :
    List FlatRow :=
  (moreRow? expanded limits p).toList ++ (closeRow? expanded p).toList

/-- The rows of a node at its place. -/
def treeRows (expanded : Finset Nat) (limits : Limits)
    (above : List (JsonTreeNode N × Nat)) (node : JsonTreeNode N) : List FlatRow :=
  OrderedTree.walk (fun p => [nodeRow expanded p]) (endRows expanded limits)
    (shows expanded limits) above node

omit [JsNumber N] in
theorem shownCount_branch (limits : Limits) (c : JsonContainer)
    (children : List (JsonTreeNode N)) :
    shownCount limits (.branch c children) =
      if children.length > containerWindow then
        min ((limits c.id).getD containerWindow) children.length
      else children.length := by
  change (if children.length ≤ containerWindow then children.length
    else min children.length ((limits c.id).getD containerWindow)) = _
  by_cases large : children.length > containerWindow
  · rw [if_neg (Nat.not_le.mpr large), if_pos large, min_comm]
  · rw [if_pos (Nat.not_lt.mp large), if_neg large]

mutual

theorem flattenNode_eq (expanded : Finset Nat) (limits : Limits) :
    ∀ (above : List (JsonTreeNode N × Nat)) (out : List FlatRow) (node : JsonTreeNode N),
      flattenNode (isLast ⟨above, node⟩) expanded limits out node =
        out ++ treeRows expanded limits above node
  | above, out, .leaf l => rfl
  | above, out, .branch c [] => rfl
  | above, out, .branch c (child :: children) => by
    by_cases hexpanded : c.id ∈ expanded
    · have parent : JsonTreeNode.id (.branch c (child :: children) : JsonTreeNode N) ∈ expanded :=
        hexpanded
      have rows := flattenChildren_eq expanded limits above parent 0 (child :: children)
        (out ++ [openRow c (child :: children).length])
      change flattenChildren 0 (child :: children).length _ _ _ _ _ = _ at rows
      have open_ : isOpen expanded (.branch c (child :: children) : JsonTreeNode N) = true := by
        simp [isOpen, JsonTreeNode.childCount, JsonTreeNode.id, JsonTreeNode.info, hexpanded]
      rw [flattenNode, if_neg (by simp), if_neg (not_not_intro hexpanded)]
      simp only [← shownCount_branch, rows]
      simp only [treeRows, OrderedTree.walk, endRows, moreRow?, closeRow?, open_, nodeRow,
        Bool.true_and, decide_eq_true_eq, if_true, hexpanded, not_true_eq_false, if_false,
        List.isEmpty_cons, Bool.false_eq_true]
      split <;> simp
    · have closed : ∀ j, 0 ≤ j → shows expanded limits (.branch c (child :: children)) j = false := by
        intro j _
        simp [shows, JsonTreeNode.id, JsonTreeNode.info, hexpanded]
      rw [treeRows, OrderedTree.walk, OrderedTree.walkChildren_closed above 0 _ closed]
      simp [flattenNode, hexpanded, nodeRow, endRows, moreRow?, closeRow?, isOpen, JsonTreeNode.id,
        JsonTreeNode.info]

theorem flattenChildren_eq (expanded : Finset Nat) (limits : Limits)
    (above : List (JsonTreeNode N × Nat)) {parent : JsonTreeNode N}
    (hexpanded : parent.id ∈ expanded) :
    ∀ (i : Nat) (children : List (JsonTreeNode N)) (out : List FlatRow),
      flattenChildren i parent.childCount (shownCount limits parent) expanded limits out children =
        out ++ OrderedTree.walkChildren (fun p => [nodeRow expanded p]) (endRows expanded limits)
          (shows expanded limits) above parent i children
  | _, [], out => (List.append_nil out).symm
  | i, child :: children, out => by
    rw [flattenChildren]
    split
    · rename_i inside
      have last : decide (i + 1 = parent.childCount) = isLast ⟨(parent, i) :: above, child⟩ := rfl
      have shown : shows expanded limits parent i = true := by simp [shows, hexpanded, inside]
      rw [last, flattenNode_eq expanded limits _ out child, flattenChildren_eq expanded limits above
        hexpanded (i + 1) children, OrderedTree.walkChildren, if_pos shown, List.append_assoc]
      rfl
    · rename_i outside
      have closed : ∀ j, i ≤ j → shows expanded limits parent j = false := by
        intro j hj
        simp only [shows, hexpanded, decide_true, Bool.true_and, decide_eq_false_iff_not]
        omega
      rw [OrderedTree.walkChildren_closed above i _ closed, List.append_nil]

end

theorem flattenTree_eq (root : JsonTreeNode N) (expanded : Finset Nat) (limits : Limits) :
    flattenTree root expanded limits = treeRows expanded limits [] root :=
  flattenNode_eq expanded limits [] [] root

/-! ## Forests -/

/-- The row with which a node of a document begins. -/
def firstRow (expanded : Finset Nat) (docIndex : Nat) (p : Place (JsonLeaf N) JsonContainer) :
    FlatRow :=
  if p.above.isEmpty then (nodeRow expanded p).tag docIndex else nodeRow expanded p

def documentRows (expanded : Finset Nat) (limits : Limits) (docIndex : Nat)
    (root : JsonTreeNode N) : List FlatRow :=
  OrderedTree.walk (fun p => [firstRow expanded docIndex p]) (endRows expanded limits)
    (shows expanded limits) [] root

/-- Only the first row of a document has its index. -/
theorem documentRows_eq (expanded : Finset Nat) (limits : Limits) (docIndex : Nat)
    (root : JsonTreeNode N) : documentRows expanded limits docIndex root =
      (treeRows expanded limits [] root).modifyHead (FlatRow.tag docIndex) := by
  cases root with
  | leaf l => rfl
  | branch c children =>
    have below : ∀ p ∈ OrderedTree.preorderChildren [] (.branch c children) 0 children,
        [nodeRow expanded p] = [firstRow expanded docIndex p] ∧
          endRows expanded limits p = endRows expanded limits p := by
      intro p member
      obtain ⟨j, child, -, inside⟩ := OrderedTree.mem_preorderChildren.mp member
      have above := (OrderedTree.above_suffix inside).subset List.mem_cons_self
      have nonempty : p.above.isEmpty = false := by
        cases habove : p.above with
        | nil => simp [habove] at above
        | cons a rest => rfl
      simp [firstRow, nonempty]
    rw [documentRows, treeRows, OrderedTree.walk, OrderedTree.walk,
      OrderedTree.walkChildren_congr _ _ _ _ below]
    rfl

theorem flattenForest_eq (roots : List (JsonTreeNode N)) (expanded : Finset Nat)
    (limits : Limits) : flattenForest roots expanded limits =
      roots.zipIdx.flatMap fun (root, docIndex) => documentRows expanded limits docIndex root := by
  have step : ∀ (rows : List FlatRow) (root : JsonTreeNode N) (docIndex : Nat),
      (if (flattenNode true expanded limits rows root).length > rows.length then
        (flattenNode true expanded limits rows root).modify rows.length (FlatRow.tag docIndex)
      else flattenNode true expanded limits rows root) =
        rows ++ documentRows expanded limits docIndex root := by
    intro rows root docIndex
    have eq : flattenNode true expanded limits rows root = rows ++ treeRows expanded limits [] root :=
      flattenNode_eq expanded limits [] rows root
    rw [eq, documentRows_eq, List.modify_eq_take_drop, List.take_left, List.drop_left]
    split
    · rfl
    · rename_i none
      have empty : treeRows expanded limits [] root = [] := by
        rw [List.length_append] at none
        exact List.length_eq_zero_iff.mp (by omega)
      rw [empty]
      rfl
  simp only [flattenForest, step, List.foldl_append_eq_append, List.nil_append, List.flatMap_def]

theorem flattenForest_singleton (root : JsonTreeNode N) (expanded : Finset Nat) (limits : Limits) :
    flattenForest [root] expanded limits =
      (flattenTree root expanded limits).modifyHead (FlatRow.tag 0) := by
  rw [flattenForest_eq, flattenTree_eq, ← documentRows_eq]
  exact List.flatMap_singleton _ _

end Rows

end Protospy
