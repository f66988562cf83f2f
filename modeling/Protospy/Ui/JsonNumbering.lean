import Protospy.Ui.JsonCopy
import Protospy.Ui.JsonViewer

/-!
# The ids, counts and paths of a forest (`json-tree/model.ts`)

The ids of a forest are the numbers of its nodes in preorder, and the count that is
stored with a node is the length of the interval of ids below it.
-/

namespace Protospy

variable {N : Type*}

/-! ## What a node stands for -/

namespace JsonTreeNode

mutual

/-- The value that a node stands for, with all that is below it. -/
def meaning : JsonTreeNode N → JsonValue N
  | .leaf l => .primitive l.value
  | .branch c children =>
    match c.type with
    | .array => .array ((members children).map Prod.snd)
    | .object => .object (members children)

def members : List (JsonTreeNode N) → List (JsString × JsonValue N)
  | [] => []
  | child :: children => (child.key.getD [], meaning child) :: members children

end

end JsonTreeNode

mutual

theorem meaning_buildNode : ∀ (v : JsonValue N) (key : Option JsString) (path : List PathSegment)
    (depth next : Nat), JsonTreeNode.meaning (buildNode v key path depth next).1 = v
  | .primitive _, _, _, _, _ => rfl
  | .array items, _, path, depth, next => by
    rw [buildNode, JsonTreeNode.meaning]
    simp only [members_buildItems items path (depth + 1) 0 (next + 1)]
  | .object entries, _, path, depth, next => by
    rw [buildNode, JsonTreeNode.meaning]
    simp only [members_buildEntries entries path (depth + 1) (next + 1)]

theorem members_buildItems : ∀ (items : List (JsonValue N)) (path : List PathSegment)
    (depth i next : Nat),
    (JsonTreeNode.members (buildItems items path depth i next).1).map Prod.snd = items
  | [], _, _, _, _ => rfl
  | item :: items, path, depth, i, next => by
    rw [buildItems, JsonTreeNode.members, List.map_cons, meaning_buildNode item,
      members_buildItems items]

theorem members_buildEntries : ∀ (entries : List (JsString × JsonValue N))
    (path : List PathSegment) (depth next : Nat),
    JsonTreeNode.members (buildEntries entries path depth next).1 = entries
  | [], _, _, _ => rfl
  | (k, v) :: entries, path, depth, next => by
    rw [buildEntries, JsonTreeNode.members, meaning_buildNode v, members_buildEntries entries]
    rw [JsonTreeNode.key, buildNode_info, Option.getD_some]

end

/-! ## Counts -/

mutual

theorem countNodes_eq : ∀ node : JsonTreeNode N,
    JsonTreeNode.countNodes node = (OrderedTree.subtrees node).length
  | .leaf _ => rfl
  | .branch c children => by
    rw [JsonTreeNode.countNodes, countChildren_eq 1 children, OrderedTree.subtrees,
      List.length_cons, Nat.add_comm]

theorem countChildren_eq : ∀ (total : Nat) (children : List (JsonTreeNode N)),
    JsonTreeNode.countChildren total children =
      total + (OrderedTree.subtreesOf children).length
  | _, [] => rfl
  | total, child :: children => by
    rw [JsonTreeNode.countChildren, countChildren_eq _ children, countNodes_eq child,
      OrderedTree.subtreesOf, List.length_append, Nat.add_assoc]

end

theorem sumTotalNodes_eq {children : List (JsonTreeNode N)}
    (each : ∀ c ∈ children, JsonTreeNode.totalNodes c = (OrderedTree.subtrees c).length) :
    sumTotalNodes children = (OrderedTree.subtreesOf children).length + 1 := by
  have total (s : Nat) : children.foldl (fun s c => s + JsonTreeNode.totalNodes c) s =
      s + (OrderedTree.subtreesOf children).length := by
    induction children generalizing s with
    | nil => rfl
    | cons c children ih =>
      rw [List.foldl_cons, ih fun c' member => each c' (List.mem_cons_of_mem _ member),
        each c List.mem_cons_self, OrderedTree.subtreesOf, List.length_append, Nat.add_assoc]
  rw [Nat.add_comm]
  exact total 1

theorem totalNodes_buildNode (v : JsonValue N) (key : Option JsString) (path : List PathSegment)
    (depth next : Nat) :
    JsonTreeNode.totalNodes (buildNode v key path depth next).1 =
      (OrderedTree.subtrees (buildNode v key path depth next).1).length := by
  induction v generalizing key path depth next with
  | primitive p => rfl
  | array items ih =>
    rw [buildNode, JsonTreeNode.totalNodes, OrderedTree.subtrees, List.length_cons]
    refine sumTotalNodes_eq fun child member => ?_
    obtain ⟨j, found⟩ := List.getElem?_of_mem member
    obtain ⟨item, next', at_, rfl⟩ := buildItems_getElem? found
    exact ih item (List.mem_of_getElem? at_) _ _ _ _
  | object entries ih =>
    rw [buildNode, JsonTreeNode.totalNodes, OrderedTree.subtrees, List.length_cons]
    refine sumTotalNodes_eq fun child member => ?_
    obtain ⟨j, found⟩ := List.getElem?_of_mem member
    obtain ⟨e, next', at_, rfl⟩ := buildEntries_getElem? found
    exact ih e (List.mem_of_getElem? at_) _ _ _ _

/-! ## The forest -/

theorem buildRoots_getElem? {values : List (JsonValue N)} {next i : Nat} {root : JsonTreeNode N}
    (found : (buildRoots values next)[i]? = some root) :
    ∃ v next', values[i]? = some v ∧ root = (buildNode v none [] 0 next').1 := by
  induction values generalizing next i with
  | nil => simp [buildRoots] at found
  | cons value values ih =>
    rw [buildRoots] at found
    cases i with
    | zero =>
      obtain rfl := Option.some.inj found
      exact ⟨value, next, rfl, rfl⟩
    | succ i => exact ih found

theorem totalNodes_of_mem {values : List (JsonValue N)} {node : JsonTreeNode N}
    (member : node ∈ OrderedTree.subtreesOf (buildJsonForest values)) :
    JsonTreeNode.totalNodes node = (OrderedTree.subtrees node).length := by
  rw [OrderedTree.subtreesOf_eq] at member
  obtain ⟨root, hroot, inside⟩ := List.mem_flatMap.mp member
  obtain ⟨i, found⟩ := List.getElem?_of_mem hroot
  obtain ⟨v, next, -, rfl⟩ := buildRoots_getElem? found
  obtain ⟨sub, key, path, depth, next', rfl⟩ := subtrees_built inside
  exact totalNodes_buildNode sub key path depth next'

/-- The path of a node leads from its document to what the node stands for. -/
theorem path_of_mem {v : JsonValue N} (wf : v.WellFormed) {next : Nat} {node : JsonTreeNode N}
    (member : node ∈ OrderedTree.subtrees (buildNode v none [] 0 next).1) :
    v.at? (JsonTreeNode.path node) = some (JsonTreeNode.meaning node) ∧
      JsonTreeNode.depth node = (JsonTreeNode.path node).length := by
  obtain ⟨p, inside, rfl⟩ := OrderedTree.exists_place [] member
  obtain ⟨rest, sub, key, next', leads, -, same⟩ := place_buildNode wf inside
  rw [same, meaning_buildNode, JsonTreeNode.path, JsonTreeNode.depth, buildNode_info,
    List.nil_append, Nat.zero_add]
  exact ⟨leads, rfl⟩

/-- What holds between some documents and the forest that is built for them. -/
structure ForestNumbering (values : List (JsonValue N)) (forest : List (JsonTreeNode N)) :
    Prop where
  ids : (OrderedTree.subtreesOf forest).map JsonTreeNode.id =
    List.range (OrderedTree.subtreesOf forest).length
  totalNodes : ∀ node ∈ OrderedTree.subtreesOf forest,
    JsonTreeNode.totalNodes node = (OrderedTree.subtrees node).length ∧
      JsonTreeNode.countNodes node = (OrderedTree.subtrees node).length
  descendants : ∀ node ∈ OrderedTree.subtreesOf forest,
    (OrderedTree.subtrees node).map JsonTreeNode.id =
      List.range' (JsonTreeNode.id node) (JsonTreeNode.totalNodes node) ∧
    ∀ other ∈ OrderedTree.subtreesOf forest, other ∈ OrderedTree.subtrees node ↔
      JsonTreeNode.id node ≤ JsonTreeNode.id other ∧
        JsonTreeNode.id other < JsonTreeNode.id node + JsonTreeNode.totalNodes node
  documents : forest.length = values.length
  paths : ∀ (i : Nat) (v : JsonValue N) (root : JsonTreeNode N), values[i]? = some v →
    forest[i]? = some root → ∀ node ∈ OrderedTree.subtrees root,
      v.at? (JsonTreeNode.path node) = some (JsonTreeNode.meaning node) ∧
        JsonTreeNode.depth node = (JsonTreeNode.path node).length
  found : ∀ id < (OrderedTree.subtreesOf forest).length,
    ∃ node, findNodeById id forest = some node ∧
      ∀ other, other ∈ OrderedTree.subtreesOf forest ∧ JsonTreeNode.id other = id ↔ other = node
  absent : ∀ id, (OrderedTree.subtreesOf forest).length ≤ id → findNodeById id forest = none

theorem buildJsonForest_numbering (values : List (JsonValue N))
    (wf : ∀ v ∈ values, v.WellFormed) : ForestNumbering values (buildJsonForest values) := by
  have numbered := numbered_buildJsonForest values
  constructor
  case ids =>
    rw [List.range_eq_range']
    exact numbered
  case totalNodes => exact fun node member => ⟨totalNodes_of_mem member, countNodes_eq node⟩
  case descendants =>
    intro node member
    rw [totalNodes_of_mem member]
    exact ⟨numbered.map_subtrees member, fun other hother => numbered.mem_subtrees_iff member hother⟩
  case documents => exact buildJsonForest_length values
  case paths =>
    intro i v root hv hroot node member
    obtain ⟨v', next, hv', rfl⟩ := buildRoots_getElem? hroot
    obtain rfl := Option.some.inj (hv.symm.trans hv')
    exact path_of_mem (wf v (List.mem_of_getElem? hv)) member
  case found =>
    intro id below
    have member := List.getElem_mem below
    have here := (numbered.find?_eq id).trans (List.getElem?_eq_getElem below)
    have same := List.find?_some here
    refine ⟨(OrderedTree.subtreesOf (buildJsonForest values))[id], ?_, fun other => ⟨?_, ?_⟩⟩
    · rw [findNodeById_eq]
      exact here
    · rintro ⟨hother, rfl⟩
      exact List.inj_on_of_nodup_map numbered.distinct hother member (of_decide_eq_true same).symm
    · rintro rfl
      exact ⟨member, of_decide_eq_true same⟩
  case absent =>
    intro id above
    rw [findNodeById_eq, numbered.find?_eq, List.getElem?_eq_none above]

theorem buildJsonForest_numbering_two :
    ForestNumbering [plainDocument, .null] (buildJsonForest [plainDocument, .null]) := by
  have parsed : JSON.parse "\x7b\"a\": [1]\x7d".toList = some plainDocument := by rfl
  have parsed' : JSON.parse "null".toList = some (JsonValue.null : JsonValue Int) := by rfl
  refine buildJsonForest_numbering _ fun v member => ?_
  rcases List.mem_cons.mp member with rfl | last
  · exact JSON.parse_wellFormed parsed
  · rw [List.mem_singleton.mp last]
    exact JSON.parse_wellFormed parsed'

end Protospy
