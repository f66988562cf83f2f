import Protospy.Lib.Keyed
import Protospy.Ui.JsonParse
import Protospy.Ui.JsonTree

/-!
# Copying a node (`nodeToValue` of `json-tree/model.ts`)

The value of a node is put together from its children. A property is assigned to an
ordinary object, so the name `__proto__` sets the prototype and no own property.
-/

namespace Protospy

open OrderedTree (Place)

def protoKey : JsString := js "__proto__"

/-- `obj[key] = value` as far as own properties go. -/
def assignProperty {V : Type*} (entries : List (JsString × V)) (key : JsString) (value : V) :
    List (JsString × V) :=
  if key = protoKey then entries else setProperty entries key value

/-- The loop over the children of an object. -/
def assignEntry {V : Type*} (obj : List (JsString × V)) (child : Option JsString × V) :
    List (JsString × V) :=
  assignProperty obj (child.1.getD []) child.2

section Copy

variable {N : Type*}

mutual

def nodeToValue : JsonTreeNode N → JsonValue N
  | .leaf l => .primitive l.value
  | .branch c children =>
    let values := keyedValues children
    match c.type with
    | .array => .array (values.map Prod.snd)
    | .object => .object (values.foldl assignEntry [])

/-- The values of some children with their keys. -/
def keyedValues : List (JsonTreeNode N) → List (Option JsString × JsonValue N)
  | [] => []
  | child :: children => (child.key, nodeToValue child) :: keyedValues children

end

/-! ## Values at paths -/

namespace JsonValue

def child? : JsonValue N → PathSegment → Option (JsonValue N)
  | .array items, .index i => items[i]?
  | .object entries, .key k => (entries.find? fun e => e.1 = k).map Prod.snd
  | _, _ => none

/-- The part of a value that a path leads to. -/
def at? (v : JsonValue N) : List PathSegment → Option (JsonValue N)
  | [] => some v
  | segment :: path => (v.child? segment).bind fun c => c.at? path

/-- No object has a property of that name. -/
def Without (key : JsString) (v : JsonValue N) : Prop :=
  ∀ entries, .object entries ∈ v.subvalues → key ∉ entries.map Prod.fst

theorem without_array {key : JsString} {items : List (JsonValue N)} :
    (array items).Without key ↔ ∀ v ∈ items, v.Without key := by
  simp only [Without, subvalues_array, List.mem_cons, reduceCtorEq, false_or, List.mem_flatMap]
  constructor
  · intro h v hv entries inside
    exact h entries ⟨v, hv, inside⟩
  · rintro h entries ⟨v, hv, inside⟩
    exact h v hv entries inside

theorem without_object {key : JsString} {entries : List (JsString × JsonValue N)} :
    (object entries).Without key ↔
      key ∉ entries.map Prod.fst ∧ ∀ e ∈ entries, e.2.Without key := by
  simp only [Without, subvalues_object, List.mem_cons, object.injEq, List.mem_flatMap]
  constructor
  · intro h
    exact ⟨h entries (.inl rfl), fun e he inner inside => h inner (.inr ⟨e, he, inside⟩)⟩
  · rintro ⟨here, h⟩ inner (rfl | ⟨e, he, inside⟩)
    · exact here
    · exact h e he inner inside

end JsonValue

/-! ## What is copied -/

mutual

/-- A value without the properties named `__proto__`. -/
def dropProto : JsonValue N → JsonValue N
  | .primitive p => .primitive p
  | .array items => .array (dropProtoItems items)
  | .object entries => .object (dropProtoEntries entries)

def dropProtoItems : List (JsonValue N) → List (JsonValue N)
  | [] => []
  | v :: items => dropProto v :: dropProtoItems items

def dropProtoEntries : List (JsString × JsonValue N) → List (JsString × JsonValue N)
  | [] => []
  | (k, v) :: entries =>
    if k = protoKey then dropProtoEntries entries else (k, dropProto v) :: dropProtoEntries entries

end

theorem keys_dropProtoEntries (entries : List (JsString × JsonValue N)) :
    (dropProtoEntries entries).map Prod.fst = (entries.map Prod.fst).filter (· ≠ protoKey) := by
  induction entries with
  | nil => rfl
  | cons e entries ih =>
    obtain ⟨k, v⟩ := e
    by_cases proto : k = protoKey
    · simp [dropProtoEntries, proto, ih]
    · simp [dropProtoEntries, proto, ih]

theorem ownOrder_iff_keys {V : Type*} {entries : List (JsString × V)} :
    OwnOrder entries ↔ (entries.map Prod.fst).Pairwise KeyBefore := List.pairwise_map.symm

theorem dropProtoEntries_ownOrder {entries : List (JsString × JsonValue N)}
    (ordered : OwnOrder entries) : OwnOrder (dropProtoEntries entries) := by
  rw [ownOrder_iff_keys, keys_dropProtoEntries]
  exact (ownOrder_iff_keys.mp ordered).filter _

/-- Assigning properties in order puts each behind those before it. -/
theorem foldl_assignEntry {entries : List (JsString × JsonValue N)} :
    ∀ {obj : List (JsString × JsonValue N)}, OwnOrder (obj ++ dropProtoEntries entries) →
      (entries.map fun e => (some e.1, dropProto e.2)).foldl assignEntry obj =
        obj ++ dropProtoEntries entries := by
  induction entries with
  | nil => simp [dropProtoEntries]
  | cons e entries ih =>
    obtain ⟨k, v⟩ := e
    intro obj ordered
    rw [List.map_cons, List.foldl_cons]
    by_cases proto : k = protoKey
    · rw [dropProtoEntries, if_pos proto] at ordered ⊢
      rw [assignEntry, assignProperty, Option.getD_some, if_pos proto]
      exact ih ordered
    · rw [dropProtoEntries, if_neg proto, List.append_cons] at ordered ⊢
      have here : OwnOrder (obj ++ [(k, dropProto v)]) := (List.pairwise_append.mp ordered).1
      rw [assignEntry, assignProperty, Option.getD_some, if_neg proto, setProperty_concat here]
      exact ih ordered

mutual

theorem nodeToValue_buildNode : ∀ (v : JsonValue N) (key : Option JsString)
    (path : List PathSegment) (depth next : Nat), v.WellFormed →
    nodeToValue (buildNode v key path depth next).1 = dropProto v
  | .primitive p, _, _, _, _, _ => rfl
  | .array items, key, path, depth, next, wf => by
    have values := keyedValues_buildItems items path (depth + 1) 0 (next + 1)
      (JsonValue.wellFormed_array.mp wf)
    rw [buildNode, nodeToValue, dropProto, ← values]
  | .object entries, key, path, depth, next, wf => by
    obtain ⟨ordered, each⟩ := JsonValue.wellFormed_object.mp wf
    have values := keyedValues_buildEntries entries path (depth + 1) (next + 1) each
    rw [buildNode, nodeToValue, dropProto]
    simp only [values]
    rw [foldl_assignEntry (by simpa using dropProtoEntries_ownOrder ordered), List.nil_append]

theorem keyedValues_buildItems : ∀ (items : List (JsonValue N)) (path : List PathSegment)
    (depth i next : Nat), (∀ v ∈ items, v.WellFormed) →
    (keyedValues (buildItems items path depth i next).1).map Prod.snd = dropProtoItems items
  | [], _, _, _, _, _ => rfl
  | item :: items, path, depth, i, next, wf => by
    rw [buildItems, keyedValues, List.map_cons, dropProtoItems,
      nodeToValue_buildNode item _ _ _ _ (wf item List.mem_cons_self),
      keyedValues_buildItems items _ _ _ _ fun v hv => wf v (List.mem_cons_of_mem _ hv)]

theorem keyedValues_buildEntries : ∀ (entries : List (JsString × JsonValue N))
    (path : List PathSegment) (depth next : Nat), (∀ e ∈ entries, e.2.WellFormed) →
    keyedValues (buildEntries entries path depth next).1 =
      entries.map fun e => (some e.1, dropProto e.2)
  | [], _, _, _, _ => rfl
  | (k, v) :: entries, path, depth, next, wf => by
    rw [buildEntries, keyedValues, List.map_cons,
      nodeToValue_buildNode v _ _ _ _ (wf _ List.mem_cons_self),
      keyedValues_buildEntries entries _ _ _ fun e he => wf e (List.mem_cons_of_mem _ he)]
    rw [JsonTreeNode.key, buildNode_info]

end

mutual

theorem dropProto_eq_self_iff : ∀ v : JsonValue N, dropProto v = v ↔ v.Without protoKey
  | .primitive p => by simp [dropProto, JsonValue.Without]
  | .array items => by
    rw [dropProto, JsonValue.array.injEq, JsonValue.without_array, dropProtoItems_eq_self_iff items]
  | .object entries => by
    rw [dropProto, JsonValue.object.injEq, JsonValue.without_object,
      dropProtoEntries_eq_self_iff entries]

theorem dropProtoItems_eq_self_iff : ∀ items : List (JsonValue N),
    dropProtoItems items = items ↔ ∀ v ∈ items, v.Without protoKey
  | [] => by simp [dropProtoItems]
  | v :: items => by
    rw [dropProtoItems, List.cons.injEq, dropProto_eq_self_iff v, dropProtoItems_eq_self_iff items,
      List.forall_mem_cons]

theorem dropProtoEntries_eq_self_iff : ∀ entries : List (JsString × JsonValue N),
    dropProtoEntries entries = entries ↔
      protoKey ∉ entries.map Prod.fst ∧ ∀ e ∈ entries, e.2.Without protoKey
  | [] => by simp [dropProtoEntries]
  | (k, v) :: entries => by
    by_cases proto : k = protoKey
    · -- what is dropped is missing from the length
      have shorter : dropProtoEntries entries ≠ (k, v) :: entries := by
        intro same
        have keys := congrArg List.length (congrArg (List.map Prod.fst) same)
        rw [keys_dropProtoEntries, List.map_cons, List.length_cons] at keys
        have bound := List.length_filter_le (· ≠ protoKey) (entries.map Prod.fst)
        omega
      rw [dropProtoEntries, if_pos proto]
      simp [shorter, ← proto]
    · rw [dropProtoEntries, if_neg proto, List.cons.injEq, Prod.mk.injEq, dropProto_eq_self_iff v,
        dropProtoEntries_eq_self_iff entries, List.map_cons, List.mem_cons, not_or,
        List.forall_mem_cons]
      simp [Ne.symm proto, and_left_comm]

end

/-! ## The nodes of a tree and the parts of its value -/

theorem child?_key {entries : List (JsString × JsonValue N)} (ordered : OwnOrder entries)
    {e : JsString × JsonValue N} (member : e ∈ entries) :
    (JsonValue.object entries).child? (.key e.1) = some e.2 := by
  have distinct : (entries.map Prod.fst).Nodup := List.pairwise_map.mpr ordered.keys_ne
  have found : entries.find? (fun e' => e'.1 = e.1) = some e := Keyed.find?_key distinct member
  rw [JsonValue.child?, found]
  rfl

/-- Every node is built from the part of the value that its path leads to. -/
theorem place_buildNode {v : JsonValue N} (wf : v.WellFormed) {key : Option JsString}
    {path : List PathSegment} {depth next : Nat} {above : List (JsonTreeNode N × Nat)}
    {p : Place (JsonLeaf N) JsonContainer}
    (member : p ∈ OrderedTree.preorder above (buildNode v key path depth next).1) :
    ∃ rest sub key' next', v.at? rest = some sub ∧ sub.WellFormed ∧
      p.tree = (buildNode sub key' (path ++ rest) (depth + rest.length) next').1 := by
  induction v generalizing key path depth next above with
  | primitive q =>
    obtain rfl := List.mem_singleton.mp member
    exact ⟨[], _, key, next, rfl, wf, by rw [List.append_nil]; rfl⟩
  | array items ih =>
    rcases OrderedTree.mem_preorder_branch.mp member with rfl | ⟨j, child, found, inside⟩
    · exact ⟨[], _, key, next, rfl, wf, by rw [List.append_nil]; rfl⟩
    · obtain ⟨item, next', at_, rfl⟩ := buildItems_getElem? found
      have hitem := List.mem_of_getElem? at_
      obtain ⟨rest, sub, key', next'', leads, hsub, same⟩ :=
        ih item hitem (JsonValue.wellFormed_array.mp wf item hitem) inside
      refine ⟨.index j :: rest, sub, key', next'', ?_, hsub, ?_⟩
      · rw [JsonValue.at?, JsonValue.child?, at_]
        exact leads
      · rw [same, Nat.zero_add, List.append_assoc, List.singleton_append, List.length_cons,
          Nat.add_right_comm, Nat.add_assoc]
  | object entries ih =>
    obtain ⟨ordered, each⟩ := JsonValue.wellFormed_object.mp wf
    rcases OrderedTree.mem_preorder_branch.mp member with rfl | ⟨j, child, found, inside⟩
    · exact ⟨[], _, key, next, rfl, wf, by rw [List.append_nil]; rfl⟩
    · obtain ⟨e, next', at_, rfl⟩ := buildEntries_getElem? found
      have he := List.mem_of_getElem? at_
      obtain ⟨rest, sub, key', next'', leads, hsub, same⟩ := ih e he (each e he) inside
      refine ⟨.key e.1 :: rest, sub, key', next'', ?_, hsub, ?_⟩
      · rw [JsonValue.at?, child?_key ordered he]
        exact leads
      · rw [same, List.append_assoc, List.singleton_append, List.length_cons,
          Nat.add_right_comm, Nat.add_assoc]

/-- Copying a node gives back the part of the value at its path exactly when no object
in it has a property named `__proto__`. -/
theorem nodeToValue_iff [JsNumber N] (text : Text) (v : JsonValue N)
    (parsed : JSON.parse text = some v) (p : Place (JsonLeaf N) JsonContainer)
    (member : p ∈ OrderedTree.preorder [] (buildJsonTree v)) :
    ∃ sub, v.at? (JsonTreeNode.path p.tree) = some sub ∧
      (nodeToValue p.tree = sub ↔ sub.Without protoKey) := by
  obtain ⟨rest, sub, key, next, leads, wf, same⟩ :=
    place_buildNode (JSON.parse_wellFormed parsed) member
  refine ⟨sub, ?_, ?_⟩
  · rw [same, JsonTreeNode.path, buildNode_info]
    exact leads
  · rw [same, nodeToValue_buildNode sub _ _ _ _ wf]
    exact dropProto_eq_self_iff sub

/-- The document `{"__proto__": 1}`. -/
def protoDocument : JsonValue Int := .object [(protoKey, .primitive (.number 1))]

/-- The document `{"a": [1]}`. -/
def plainDocument : JsonValue Int := .object [(js "a", .array [.primitive (.number 1)])]

theorem nodeToValue_iff_plain : ∃ sub, plainDocument.at? [] = some sub ∧
    (nodeToValue (buildJsonTree plainDocument) = sub ↔ sub.Without protoKey) :=
  nodeToValue_iff "\x7b\"a\": [1]\x7d".toList plainDocument (by rfl) ⟨[], buildJsonTree plainDocument⟩
    (OrderedTree.self_mem_preorder _ _)

/-- A copy of `{"__proto__": 1}` is `{}`. -/
theorem nodeToValue_proto : JSON.parse "\x7b\"__proto__\": 1\x7d".toList = some protoDocument ∧
    nodeToValue (buildJsonTree protoDocument) = .object [] ∧
    protoDocument.at? (JsonTreeNode.path (buildJsonTree protoDocument)) = some protoDocument ∧
    nodeToValue (buildJsonTree protoDocument) ≠ protoDocument := by
  have copied : nodeToValue (buildJsonTree protoDocument) = .object [] := by rfl
  refine ⟨by rfl, copied, by rfl, ?_⟩
  rw [copied]
  intro same
  cases same

end Copy

end Protospy
