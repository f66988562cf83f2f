import Protospy.Ui.JsonRows

/-!
# Rows as text (`JsonTreeRow` and `JsonTreeRowValue` of `json-tree-viewer.tsx`)

The text of the rows of a tree with everything expanded, against `JSON.stringify`.
-/

namespace Protospy

open OrderedTree (Place)

/-! ## The text of a row -/

def openBracket (type : Option ContainerType) : JsString :=
  js (if type = some .object then "\x7b" else "[")

def closeBracket (type : Option ContainerType) : JsString :=
  js (if type = some .object then "\x7d" else "]")

/-- A count with its noun. -/
def countText (count : Nat) (one many : String) : JsString :=
  JsString.decimal count ++ js " " ++ js (if count = 1 then one else many)

/-- The value of a row: a bracket, a preview with the number of children, the text of a
leaf, or how many children there are more. -/
def rowValueText (row : FlatRow) : JsString :=
  match row.kind with
  | .open => openBracket row.containerType
  | .close => closeBracket row.containerType
  | .collapsed =>
    js (if row.containerType = some .array then "[" else "\x7b") ++ js "…" ++
      js (if row.containerType = some .array then "]" else "\x7d") ++
      (if row.containerType = some .array then countText (row.childCount.getD 0) "item" "items"
        else countText (row.childCount.getD 0) "key" "keys")
  | .leaf => row.valueText.getD []
  | .showMore =>
    let remaining := row.childCount.getD 0 - row.shownCount.getD 0
    JsString.decimal remaining ++ js " more " ++
      (if row.containerType = some .array then js (if remaining = 1 then "item" else "items")
        else js (if remaining = 1 then "key" else "keys"))

def keyText : Option JsString → JsString
  | some key => JSON.quote key ++ js ": "
  | none => []

/-- Two spaces for each level. -/
def indentText (depth : Nat) : JsString := List.replicate (2 * depth) 32

def rowText (row : FlatRow) : JsString :=
  indentText row.depth ++ keyText row.key ++ rowValueText row ++
    (if row.hasComma then js "," else []) ++ (if row.truncated then js "truncated here" else [])

/-- The rows with a line feed after each. -/
def linesText (rows : List FlatRow) : JsString := rows.flatMap fun row => rowText row ++ js "\n"

@[simp] theorem linesText_append (rows rows' : List FlatRow) :
    linesText (rows ++ rows') = linesText rows ++ linesText rows' := List.flatMap_append

@[simp] theorem linesText_singleton (row : FlatRow) : linesText [row] = rowText row ++ js "\n" :=
  List.flatMap_singleton _ _

theorem intercalate_rowText {rows : List FlatRow} (some : rows ≠ []) :
    (js "\n").intercalate (rows.map rowText) ++ js "\n" = linesText rows := by
  induction rows with
  | nil => exact absurd rfl some
  | cons row rows ih =>
    cases rows with
    | nil => simp [linesText]
    | cons next rows =>
      rw [List.map_cons, List.map_cons, List.intercalate_cons_cons, ← List.map_cons,
        List.append_assoc, List.append_assoc, ih (by simp)]
      simp [linesText]

/-- The members of a container as lines: every one but the last with a comma. -/
theorem memberLines_cons (indent s t : JsString) (members : List JsString) :
    indent ++ s ++ js "," ++ js "\n" ++
        (indent ++ (js ",\n" ++ indent).intercalate (t :: members) ++ js "\n") =
      indent ++ (js ",\n" ++ indent).intercalate (s :: t :: members) ++ js "\n" := by
  have comma : js ",\n" = js "," ++ js "\n" := by decide
  rw [List.intercalate_cons_cons, comma]
  simp only [List.append_assoc]

theorem indentText_succ (depth : Nat) :
    indentText depth ++ List.replicate 2 32 = indentText (depth + 1) := by
  rw [indentText, indentText, List.replicate_append_replicate]
  rfl

section Render

variable {N : Type*}

variable {expanded : Finset Nat} {limits : Limits}

/-- A container with children is expanded and its limit is no smaller than their number. -/
def Revealed (expanded : Finset Nat) (limits : Limits) (node : JsonTreeNode N) : Prop :=
  0 < node.childCount →
    node.id ∈ expanded ∧ node.childCount ≤ (limits node.id).getD containerWindow

theorem Revealed.shownCount {node : JsonTreeNode N} (revealed : Revealed expanded limits node)
    (children : 0 < node.childCount) : shownCount limits node = node.childCount := by
  rw [Protospy.shownCount]
  split
  · rfl
  · exact min_eq_left (revealed children).2

theorem Revealed.shows {node : JsonTreeNode N} (revealed : Revealed expanded limits node)
    {i : Nat} (inside : i < node.childCount) : shows expanded limits node i = true := by
  have children : 0 < node.childCount := Nat.zero_lt_of_lt inside
  rw [Protospy.shows, revealed.shownCount children]
  simp [(revealed children).1, inside]

variable [JsNumber N]

theorem treeRows_revealed {above : List (JsonTreeNode N × Nat)} {c : JsonContainer}
    {children : List (JsonTreeNode N)} (some : children ≠ [])
    (revealed : Revealed expanded limits (.branch c children)) :
    treeRows expanded limits above (.branch c children) = [openRow c children.length] ++
      (OrderedTree.walkChildren (fun p => [nodeRow expanded p]) (endRows expanded limits)
        (shows expanded limits) above (.branch c children) 0 children ++
      [closeRow c (isLast ⟨above, .branch c children⟩)]) := by
  have nonempty : 0 < JsonTreeNode.childCount (.branch c children : JsonTreeNode N) :=
    List.length_pos_iff.mpr some
  have hexpanded : c.id ∈ expanded := (revealed nonempty).1
  have all := revealed.shownCount nonempty
  have first : nodeRow expanded ⟨above, .branch c children⟩ = openRow c children.length := by
    simp [nodeRow, some, hexpanded]
  have open_ : isOpen expanded (.branch c children : JsonTreeNode N) = true := by
    simp only [isOpen, nonempty, decide_true, Bool.true_and, decide_eq_true_eq]
    exact hexpanded
  have last : endRows expanded limits ⟨above, .branch c children⟩ =
      [closeRow c (isLast ⟨above, .branch c children⟩)] := by
    have none : ¬ JsonTreeNode.childCount (.branch c children : JsonTreeNode N) <
        children.length := Nat.lt_irrefl _
    simp [endRows, moreRow?, closeRow?, open_, all, none]
  rw [treeRows, OrderedTree.walk, first, last]

theorem formatPrimitive_text {p : JsonPrimitive N}
    (finite : ∀ n, p = .number n → JsNumber.isFinite n = true) :
    (formatPrimitive p).1 = JSON.serializePrimitive p := by
  cases p with
  | null => rfl
  | boolean b => rfl
  | number n => rw [JSON.serializePrimitive, if_pos (finite n rfl)]; rfl
  | string s => rfl

/-- All numbers in a value are finite. -/
def FiniteNumbers (v : JsonValue N) : Prop :=
  ∀ n, .primitive (.number n) ∈ v.subvalues → JsNumber.isFinite n = true

theorem finiteNumbers_array {items : List (JsonValue N)} (finite : FiniteNumbers (.array items)) :
    ∀ v ∈ items, FiniteNumbers v := by
  intro v hv n hn
  refine finite n ?_
  rw [JsonValue.subvalues_array]
  exact List.mem_cons_of_mem _ (List.mem_flatMap.mpr ⟨v, hv, hn⟩)

theorem finiteNumbers_object {entries : List (JsString × JsonValue N)}
    (finite : FiniteNumbers (.object entries)) : ∀ e ∈ entries, FiniteNumbers e.2 := by
  intro e he n hn
  refine finite n ?_
  rw [JsonValue.subvalues_object]
  exact List.mem_cons_of_mem _ (List.mem_flatMap.mpr ⟨e, he, hn⟩)

/-! ## The lines of a tree with everything expanded -/

/-- A comma unless nothing follows. -/
def commaText (last : Bool) : JsString := if !last then js "," else []

theorem lines_empty (above : List (JsonTreeNode N × Nat)) (c : JsonContainer)
    (whole : c.truncated = false) :
    linesText (treeRows expanded limits above (.branch c [] : JsonTreeNode N)) =
      indentText c.depth ++ keyText c.key ++ (if c.type = .object then js "{}" else js "[]") ++
        commaText (isLast ⟨above, (.branch c [] : JsonTreeNode N)⟩) ++ js "\n" := by
  change linesText [emptyRow c (isLast ⟨above, (.branch c [] : JsonTreeNode N)⟩)] = _
  simp [rowText, emptyRow, rowValueText, commaText, whole]

/-- The lines of a container are those of its children between its brackets. -/
theorem lines_container {above : List (JsonTreeNode N × Nat)} {c : JsonContainer}
    {children : List (JsonTreeNode N)} {members : List JsString} (whole : c.truncated = false)
    (someChild : children ≠ []) (someMember : members ≠ [])
    (revealed : Revealed expanded limits (.branch c children))
    (inner : linesText (OrderedTree.walkChildren (fun p => [nodeRow expanded p])
      (endRows expanded limits) (shows expanded limits) above (.branch c children) 0 children) =
        indentText (c.depth + 1) ++
          (js ",\n" ++ indentText (c.depth + 1)).intercalate members ++ js "\n") :
    linesText (treeRows expanded limits above (.branch c children)) =
      indentText c.depth ++ keyText c.key ++
        JSON.bracketed (if c.type = .object then "\x7b" else "[") (if c.type = .object then "\x7d" else "]")
          (List.replicate 2 32) (indentText c.depth) members ++
        commaText (isLast ⟨above, .branch c children⟩) ++ js "\n" := by
  have indented : (List.replicate 2 32 : JsString) ≠ [] := by simp
  rw [treeRows_revealed someChild revealed, linesText_append, linesText_append, inner,
    JSON.bracketed, if_neg someMember, if_neg indented, indentText_succ]
  simp [rowText, openRow, closeRow, rowValueText, openBracket, closeBracket, keyText, commaText,
    whole]

mutual

theorem lines_node : ∀ (v : JsonValue N) (key : Option JsString) (path : List PathSegment)
    (depth next : Nat) (above : List (JsonTreeNode N × Nat)),
    (∀ p ∈ OrderedTree.preorder above (buildNode v key path depth next).1,
      Revealed expanded limits p.tree) → FiniteNumbers v →
    linesText (treeRows expanded limits above (buildNode v key path depth next).1) =
      indentText depth ++ keyText key ++
        JSON.serialize (List.replicate 2 32) (indentText depth) v ++
        commaText (isLast ⟨above, (buildNode v key path depth next).1⟩) ++ js "\n"
  | .primitive p, key, path, depth, next, above, _, finite => by
    have text := formatPrimitive_text (p := p) fun n number => finite n (by simp [number])
    change linesText [leafRow _ _] = _
    rw [linesText_singleton, rowText, JSON.serialize, ← text]
    simp [leafRow, rowValueText, commaText, buildNode]
  | .array [], key, path, depth, next, above, _, _ =>
    lines_empty above ⟨⟨next, path, depth, key, false⟩, .array, 1⟩ rfl
  | .array (item :: items), key, path, depth, next, above, revealed, finite => by
    have here := revealed _ (OrderedTree.self_mem_preorder above _)
    rw [JSON.serialize, indentText_succ]
    exact lines_container (c := ⟨⟨next, path, depth, key, false⟩, .array, _⟩) rfl
      (by simp [buildItems]) (by simp [JSON.serializeItems]) here
      (lines_items (item :: items) path (depth + 1) 0 (next + 1) above _ here
        (fun p member => revealed p (List.mem_cons_of_mem _ member))
        ((buildItems_length _ _ _ _ _).trans (Nat.zero_add _).symm) (finiteNumbers_array finite)
        (List.cons_ne_nil _ _))
  | .object [], key, path, depth, next, above, _, _ =>
    lines_empty above ⟨⟨next, path, depth, key, false⟩, .object, 1⟩ rfl
  | .object (entry :: entries), key, path, depth, next, above, revealed, finite => by
    have here := revealed _ (OrderedTree.self_mem_preorder above _)
    rw [JSON.serialize, indentText_succ]
    exact lines_container (c := ⟨⟨next, path, depth, key, false⟩, .object, _⟩) rfl
      (by simp [buildEntries]) (by simp [JSON.serializeEntries]) here
      (lines_entries (entry :: entries) path (depth + 1) 0 (next + 1) above _ here
        (fun p member => revealed p (List.mem_cons_of_mem _ member))
        ((buildEntries_length _ _ _ _).trans (Nat.zero_add _).symm) (finiteNumbers_object finite)
        (List.cons_ne_nil _ _))

theorem lines_items : ∀ (items : List (JsonValue N)) (path : List PathSegment)
    (depth i next : Nat) (above : List (JsonTreeNode N × Nat)) (parent : JsonTreeNode N),
    Revealed expanded limits parent →
    (∀ p ∈ OrderedTree.preorderChildren above parent i (buildItems items path depth i next).1,
      Revealed expanded limits p.tree) →
    parent.childCount = i + items.length → (∀ v ∈ items, FiniteNumbers v) → items ≠ [] →
    linesText (OrderedTree.walkChildren (fun p => [nodeRow expanded p]) (endRows expanded limits)
        (shows expanded limits) above parent i (buildItems items path depth i next).1) =
      indentText depth ++ (js ",\n" ++ indentText depth).intercalate
        (JSON.serializeItems (List.replicate 2 32) (indentText depth) items) ++ js "\n"
  | [], _, _, _, _, _, _, _, _, _, _, empty => absurd rfl empty
  | item :: items, path, depth, i, next, above, parent, hparent, revealed, count, finite, _ => by
    rw [List.length_cons] at count
    have child := lines_node item none (path ++ [.index i]) depth next ((parent, i) :: above)
      (fun p member => revealed p (List.mem_append_left _ member)) (finite item List.mem_cons_self)
    have rest := lines_items items path depth (i + 1)
      (buildNode item none (path ++ [.index i]) depth next).2 above parent hparent
      (fun p member => revealed p (List.mem_append_right _ member)) (by rw [count]; omega)
      (fun v hv => finite v (List.mem_cons_of_mem _ hv))
    have last : isLast ⟨(parent, i) :: above,
        (buildNode item none (path ++ [.index i]) depth next).1⟩ = decide (items = []) := by
      change decide (i + 1 = parent.childCount) = _
      rw [count, decide_eq_decide, ← List.length_eq_zero_iff]
      omega
    rw [last, treeRows] at child
    rw [buildItems, OrderedTree.walkChildren, if_pos (hparent.shows (by omega)), linesText_append,
      child]
    cases items with
    | nil => simp [buildItems, OrderedTree.walkChildren, linesText, JSON.serializeItems, commaText,
        keyText]
    | cons item' items =>
      rw [rest (List.cons_ne_nil _ _), JSON.serializeItems, JSON.serializeItems,
        JSON.serializeItems, ← memberLines_cons]
      simp [keyText, commaText]

theorem lines_entries : ∀ (entries : List (JsString × JsonValue N)) (path : List PathSegment)
    (depth i next : Nat) (above : List (JsonTreeNode N × Nat)) (parent : JsonTreeNode N),
    Revealed expanded limits parent →
    (∀ p ∈ OrderedTree.preorderChildren above parent i (buildEntries entries path depth next).1,
      Revealed expanded limits p.tree) →
    parent.childCount = i + entries.length → (∀ e ∈ entries, FiniteNumbers e.2) → entries ≠ [] →
    linesText (OrderedTree.walkChildren (fun p => [nodeRow expanded p]) (endRows expanded limits)
        (shows expanded limits) above parent i (buildEntries entries path depth next).1) =
      indentText depth ++ (js ",\n" ++ indentText depth).intercalate
        (JSON.serializeEntries (List.replicate 2 32) (indentText depth) entries) ++ js "\n"
  | [], _, _, _, _, _, _, _, _, _, _, empty => absurd rfl empty
  | (key, v) :: entries, path, depth, i, next, above, parent, hparent, revealed, count, finite,
      _ => by
    rw [List.length_cons] at count
    have child := lines_node v (some key) (path ++ [.key key]) depth next ((parent, i) :: above)
      (fun p member => revealed p (List.mem_append_left _ member)) (finite _ List.mem_cons_self)
    have rest := lines_entries entries path depth (i + 1)
      (buildNode v (some key) (path ++ [.key key]) depth next).2 above parent hparent
      (fun p member => revealed p (List.mem_append_right _ member)) (by rw [count]; omega)
      (fun e he => finite e (List.mem_cons_of_mem _ he))
    have last : isLast ⟨(parent, i) :: above,
        (buildNode v (some key) (path ++ [.key key]) depth next).1⟩ = decide (entries = []) := by
      change decide (i + 1 = parent.childCount) = _
      rw [count, decide_eq_decide, ← List.length_eq_zero_iff]
      omega
    rw [last, treeRows] at child
    rw [buildEntries, OrderedTree.walkChildren, if_pos (hparent.shows (by omega)),
      linesText_append, child]
    cases entries with
    | nil => simp [buildEntries, OrderedTree.walkChildren, linesText, JSON.serializeEntries,
        commaText, keyText]
    | cons entry' entries =>
      obtain ⟨key', v'⟩ := entry'
      rw [rest (List.cons_ne_nil _ _), JSON.serializeEntries, JSON.serializeEntries,
        JSON.serializeEntries, ← memberLines_cons]
      simp [keyText, commaText]

end

/-- With everything expanded the rows are the lines of the document as `JSON.stringify`
writes it. -/
theorem flattenTree_stringify (v : JsonValue N) (finite : FiniteNumbers v) (expanded : Finset Nat)
    (limits : Limits) (revealed : ∀ p ∈ OrderedTree.preorder [] (buildJsonTree v),
      0 < JsonTreeNode.childCount p.tree → JsonTreeNode.id p.tree ∈ expanded ∧
        JsonTreeNode.childCount p.tree ≤ (limits (JsonTreeNode.id p.tree)).getD containerWindow) :
    (js "\n").intercalate ((flattenTree (buildJsonTree v) expanded limits).map rowText) =
      JSON.stringify v 2 := by
  have lines := lines_node v none [] 0 0 [] revealed finite
  have some : flattenTree (buildJsonTree v) expanded limits ≠ [] := by
    rw [flattenTree_eq]
    cases buildJsonTree v <;> simp [treeRows, OrderedTree.walk]
  rw [← List.append_left_inj (js "\n"), intercalate_rowText some, flattenTree_eq]
  refine lines.trans ?_
  simp [indentText, keyText, commaText, isLast, JSON.stringify]

end Render

/-- The document `{"a": [1, "x"], "b": {}}`. -/
def smallDocument : JsonValue Int :=
  .object [(js "a", .array [.primitive (.number 1), .string (js "x")]), (js "b", .object [])]

theorem flattenTree_stringify_small :
    (js "\n").intercalate ((flattenTree (buildJsonTree smallDocument) {0, 1} noLimits).map rowText) =
      JSON.stringify smallDocument 2 :=
  flattenTree_stringify smallDocument (fun _ _ => rfl) {0, 1} noLimits (by decide)

end Protospy
