import Protospy.Lib.OrderedTree
import Protospy.Ui.Json
import Mathlib.Data.Finset.Basic

/-!
# The tree of a JSON document (`json-tree/model.ts`, `json-tree/expand.ts`)
-/

namespace Protospy

inductive PathSegment where
  | key (key : JsString)
  | index (i : Nat)
  deriving DecidableEq

inductive ContainerType where
  | object
  | array
  deriving DecidableEq, Repr

/-- What leaves and containers have in common. -/
structure JsonNodeInfo where
  id : Nat
  path : List PathSegment
  depth : Nat
  key : Option JsString
  truncated : Bool
  deriving DecidableEq

structure JsonLeaf (N : Type*) extends JsonNodeInfo where
  value : JsonPrimitive N

structure JsonContainer extends JsonNodeInfo where
  type : ContainerType
  totalNodes : Nat

/-- A node whose type is a primitive has a value and no children, and every other
node has children and no value. -/
abbrev JsonTreeNode (N : Type*) := OrderedTree (JsonLeaf N) JsonContainer

namespace JsonTreeNode

variable {N : Type*}

def info : JsonTreeNode N → JsonNodeInfo
  | .leaf l => l.toJsonNodeInfo
  | .branch c _ => c.toJsonNodeInfo

def id (node : JsonTreeNode N) : Nat := node.info.id

def path (node : JsonTreeNode N) : List PathSegment := node.info.path

def depth (node : JsonTreeNode N) : Nat := node.info.depth

def key (node : JsonTreeNode N) : Option JsString := node.info.key

def truncated (node : JsonTreeNode N) : Bool := node.info.truncated

def childCount (node : JsonTreeNode N) : Nat := node.children.length

/-- The count that is stored with a node; that of a leaf is always 1. -/
def totalNodes : JsonTreeNode N → Nat
  | .leaf _ => 1
  | .branch c _ => c.totalNodes

mutual

def countNodes : JsonTreeNode N → Nat
  | .leaf _ => 1
  | .branch _ children => countChildren 1 children

/-- The loop in `countNodes`. -/
def countChildren (total : Nat) : List (JsonTreeNode N) → Nat
  | [] => total
  | child :: children => countChildren (total + countNodes child) children

end

end JsonTreeNode

/-! ## Building -/

section Build

variable {N : Type*}

/-- The total of a container over its children. -/
def sumTotalNodes (children : List (JsonTreeNode N)) : Nat :=
  children.foldl (fun s c => s + c.totalNodes) 1

mutual

/-- Build the tree of a value; `next` is the next id that is free, before and after. -/
def buildNode (value : JsonValue N) (key : Option JsString) (path : List PathSegment)
    (depth next : Nat) : JsonTreeNode N × Nat :=
  match value with
  | .primitive p => (.leaf ⟨⟨next, path, depth, key, false⟩, p⟩, next + 1)
  | .array items =>
    let built := buildItems items path (depth + 1) 0 (next + 1)
    (.branch ⟨⟨next, path, depth, key, false⟩, .array, sumTotalNodes built.1⟩ built.1, built.2)
  | .object entries =>
    let built := buildEntries entries path (depth + 1) (next + 1)
    (.branch ⟨⟨next, path, depth, key, false⟩, .object, sumTotalNodes built.1⟩ built.1, built.2)

def buildItems (items : List (JsonValue N)) (path : List PathSegment) (depth i next : Nat) :
    List (JsonTreeNode N) × Nat :=
  match items with
  | [] => ([], next)
  | item :: items =>
    let child := buildNode item none (path ++ [.index i]) depth next
    let rest := buildItems items path depth (i + 1) child.2
    (child.1 :: rest.1, rest.2)

def buildEntries (entries : List (JsString × JsonValue N)) (path : List PathSegment)
    (depth next : Nat) : List (JsonTreeNode N) × Nat :=
  match entries with
  | [] => ([], next)
  | (k, v) :: entries =>
    let child := buildNode v (some k) (path ++ [.key k]) depth next
    let rest := buildEntries entries path depth child.2
    (child.1 :: rest.1, rest.2)

end

@[simp] theorem buildNode_info (value : JsonValue N) (key : Option JsString)
    (path : List PathSegment) (depth next : Nat) :
    JsonTreeNode.info (buildNode value key path depth next).1 = ⟨next, path, depth, key, false⟩ := by
  cases value <;> rfl

def buildJsonTree (value : JsonValue N) : JsonTreeNode N := (buildNode value none [] 0 0).1

def buildRoots (values : List (JsonValue N)) (next : Nat) : List (JsonTreeNode N) :=
  match values with
  | [] => []
  | value :: values =>
    let root := buildNode value none [] 0 next
    root.1 :: buildRoots values root.2

/-- One tree for each value, with ids from one counter. -/
def buildJsonForest (values : List (JsonValue N)) : List (JsonTreeNode N) := buildRoots values 0

/-! ## The nodes of a tree that was built -/

theorem buildItems_length (items : List (JsonValue N)) (path : List PathSegment)
    (depth i next : Nat) : (buildItems items path depth i next).1.length = items.length := by
  induction items generalizing i next with
  | nil => rfl
  | cons item items ih => rw [buildItems, List.length_cons, List.length_cons, ih]

theorem buildEntries_length (entries : List (JsString × JsonValue N)) (path : List PathSegment)
    (depth next : Nat) : (buildEntries entries path depth next).1.length = entries.length := by
  induction entries generalizing next with
  | nil => rfl
  | cons entry entries ih =>
    obtain ⟨key, value⟩ := entry
    rw [buildEntries, List.length_cons, List.length_cons, ih]

theorem buildItems_getElem? {items : List (JsonValue N)} {path : List PathSegment}
    {depth i next j : Nat} {node : JsonTreeNode N}
    (found : (buildItems items path depth i next).1[j]? = some node) :
    ∃ item next', items[j]? = some item ∧
      node = (buildNode item none (path ++ [.index (i + j)]) depth next').1 := by
  induction items generalizing i next j with
  | nil => simp [buildItems] at found
  | cons item items ih =>
    rw [buildItems] at found
    cases j with
    | zero =>
      obtain rfl := Option.some.inj found
      exact ⟨item, next, rfl, rfl⟩
    | succ j =>
      obtain ⟨item', next', at_, rfl⟩ := ih found
      exact ⟨item', next', at_, by rw [show i + 1 + j = i + (j + 1) by omega]⟩

theorem buildEntries_getElem? {entries : List (JsString × JsonValue N)}
    {path : List PathSegment} {depth next j : Nat} {node : JsonTreeNode N}
    (found : (buildEntries entries path depth next).1[j]? = some node) :
    ∃ e next', entries[j]? = some e ∧
      node = (buildNode e.2 (some e.1) (path ++ [.key e.1]) depth next').1 := by
  induction entries generalizing next j with
  | nil => simp [buildEntries] at found
  | cons e entries ih =>
    obtain ⟨k, v⟩ := e
    rw [buildEntries] at found
    cases j with
    | zero =>
      obtain rfl := Option.some.inj found
      exact ⟨(k, v), next, rfl, rfl⟩
    | succ j => exact ih found

/-- Every node was built by `buildNode`. -/
theorem subtrees_built {v : JsonValue N} {key : Option JsString} {path : List PathSegment}
    {depth next : Nat} {node : JsonTreeNode N}
    (member : node ∈ OrderedTree.subtrees (buildNode v key path depth next).1) :
    ∃ sub key' path' depth' next', node = (buildNode sub key' path' depth' next').1 := by
  induction v generalizing key path depth next with
  | primitive q =>
    obtain rfl := List.mem_singleton.mp member
    exact ⟨.primitive q, key, path, depth, next, rfl⟩
  | array items ih =>
    rw [buildNode, OrderedTree.subtrees, OrderedTree.subtreesOf_eq] at member
    rcases List.mem_cons.mp member with rfl | below
    · exact ⟨.array items, key, path, depth, next, rfl⟩
    · obtain ⟨child, hchild, inside⟩ := List.mem_flatMap.mp below
      obtain ⟨j, found⟩ := List.getElem?_of_mem hchild
      obtain ⟨item, next', at_, rfl⟩ := buildItems_getElem? found
      exact ih item (List.mem_of_getElem? at_) inside
  | object entries ih =>
    rw [buildNode, OrderedTree.subtrees, OrderedTree.subtreesOf_eq] at member
    rcases List.mem_cons.mp member with rfl | below
    · exact ⟨.object entries, key, path, depth, next, rfl⟩
    · obtain ⟨child, hchild, inside⟩ := List.mem_flatMap.mp below
      obtain ⟨j, found⟩ := List.getElem?_of_mem hchild
      obtain ⟨e, next', at_, rfl⟩ := buildEntries_getElem? found
      exact ih e (List.mem_of_getElem? at_) inside

/-- No node is marked as truncated. -/
def Unmarked (t : JsonTreeNode N) : Prop :=
  ∀ node ∈ OrderedTree.subtrees t, JsonTreeNode.truncated node = false

theorem buildNode_unmarked (v : JsonValue N) (key : Option JsString) (path : List PathSegment)
    (depth next : Nat) : Unmarked (buildNode v key path depth next).1 := by
  intro node member
  obtain ⟨sub, key', path', depth', next', rfl⟩ := subtrees_built member
  rw [JsonTreeNode.truncated, buildNode_info]

theorem Unmarked.child {c : JsonContainer} {children : List (JsonTreeNode N)}
    (unmarked : Unmarked (.branch c children)) : ∀ child ∈ children, Unmarked child :=
  fun _ hchild node member => unmarked node (OrderedTree.subtrees_of_child hchild member)

/-! ## Marking where a document was cut -/

def JsonTreeNode.markTruncated : JsonTreeNode N → JsonTreeNode N
  | .leaf l => .leaf { l with truncated := true }
  | .branch c children => .branch { c with truncated := true } children

mutual

/-- Mark the node at the end of the path of last children. The ids are those of the
containers on the way, from the root down. -/
def markTruncationPoint : JsonTreeNode N → JsonTreeNode N × List Nat
  | .leaf l => (JsonTreeNode.markTruncated (.leaf l), [])
  | .branch c children =>
    if children.isEmpty then (JsonTreeNode.markTruncated (.branch c children), [])
    else
      let marked := markLast children
      (.branch c marked.1, c.id :: marked.2)

def markLast : List (JsonTreeNode N) → List (JsonTreeNode N) × List Nat
  | [] => ([], [])
  | [child] =>
    let marked := markTruncationPoint child
    ([marked.1], marked.2)
  | child :: next :: children =>
    let marked := markLast (next :: children)
    (child :: marked.1, marked.2)

end

theorem markLast_concat (children : List (JsonTreeNode N)) (child : JsonTreeNode N) :
    markLast (children ++ [child]) =
      (children ++ [(markTruncationPoint child).1], (markTruncationPoint child).2) := by
  induction children with
  | nil => rfl
  | cons c children ih =>
    cases children with
    | nil => rfl
    | cons d children =>
      change (c :: (markLast (d :: children ++ [child])).1, (markLast (d :: children ++ [child])).2) = _
      rw [ih]
      rfl

theorem markTruncationPoint_concat (c : JsonContainer) (children : List (JsonTreeNode N))
    (child : JsonTreeNode N) :
    markTruncationPoint (.branch c (children ++ [child])) =
      (.branch c (children ++ [(markTruncationPoint child).1]),
        c.id :: (markTruncationPoint child).2) := by
  rw [markTruncationPoint, if_neg (by simp), markLast_concat]

end Build

/-! ## Default expansion -/

def defaultExpandDepth : Nat := 4

def largeContainerChildCount : Nat := 100

def smallTreeNodeCount : Nat := 50

def forestExpandBudget : Nat := 32768

section Expand

variable {N : Type*}

/-- Without a limit, `maxDepth` is none. -/
def withinDepth (depth : Nat) : Option Nat → Bool
  | some maxDepth => depth ≤ maxDepth
  | none => true

mutual

def collectExpanded (maxDepth : Option Nat) (maxChildren : Nat) (out : Finset Nat) :
    JsonTreeNode N → Finset Nat
  | .leaf _ => out
  | .branch c children =>
    if children.isEmpty then out
    else collectExpandedOf maxDepth maxChildren
      (if withinDepth c.depth maxDepth && children.length ≤ maxChildren then insert c.id out
        else out) children

def collectExpandedOf (maxDepth : Option Nat) (maxChildren : Nat) (out : Finset Nat) :
    List (JsonTreeNode N) → Finset Nat
  | [] => out
  | child :: children =>
    collectExpandedOf maxDepth maxChildren (collectExpanded maxDepth maxChildren out child) children

end

def computeDefaultExpanded (root : JsonTreeNode N) : Finset Nat :=
  collectExpanded (if root.totalNodes ≤ smallTreeNodeCount then none else some defaultExpandDepth)
    largeContainerChildCount ∅ root

/-- The ids to expand and what is left of the budget, after one more document. A
document without a known size is over every budget. -/
def expandDocument (state : Finset Nat × Nat) (root : JsonTreeNode N) (size : Option Nat) :
    Finset Nat × Nat :=
  let expanded := state.1 ∪ computeDefaultExpanded root
  match size with
  | none => (expanded.erase root.id, state.2)
  | some size =>
    if size > state.2 then (expanded.erase root.id, state.2) else (expanded, state.2 - size)

def computeForestDefaultExpanded (roots : List (JsonTreeNode N))
    (documentSizes : Option (List Nat)) : Finset Nat :=
  (roots.zipIdx.foldl (fun state (root, i) =>
    expandDocument state root (documentSizes.bind fun sizes => sizes[i]?))
    (∅, forestExpandBudget)).1

end Expand

end Protospy
