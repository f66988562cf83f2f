import Protospy.Ui.JsonParse
import Protospy.Ui.JsonRows

/-!
# The JSON worker (`body/json-parse-core.ts`, `body/json-parse.worker.ts`)

The worker parses a body, builds its trees and posts the first rows. The viewer builds
the trees again from the values that were posted (`buildForest` of
`json-tree-viewer.tsx`). The parser of truncated documents is a parameter.
-/

namespace Protospy

section Worker

variable {N : Type*} [JsNumber N]

/-! ## Parsing -/

structure ParseResult (N : Type*) where
  parsed : JsonValue N
  prettyText : JsString

def parseAndFormat (text : Text) : Option (ParseResult N) :=
  (JSON.parse text).map fun parsed => ⟨parsed, JSON.stringify parsed 2⟩

structure TruncatableParseResult (N : Type*) extends ParseResult N where
  truncated : Bool

/-- What is recovered of a truncated document counts only if it is a container. -/
def parseWithTruncation (bestEffortParse : Text → Option (JsonValue N)) (text : Text) :
    Option (TruncatableParseResult N) :=
  match parseAndFormat text with
  | some result => some { result with truncated := false }
  | none => (bestEffortParse text).bind fun recovered =>
    if recovered.isStructural then some ⟨⟨recovered, JSON.stringify recovered 2⟩, true⟩ else none

structure NdjsonParseResult (N : Type*) where
  documents : List (JsonValue N)
  truncatedDocIndex : Option Nat

/-- A line that does not parse is skipped, unless it is the last and can be recovered. -/
def parseLine (bestEffortParse : Text → Option (JsonValue N)) (result : NdjsonParseResult N)
    (line : Text) (isLast : Bool) : NdjsonParseResult N :=
  match JSON.parse line with
  | some value => { result with documents := result.documents ++ [value] }
  | none =>
    if !isLast then result
    else match parseWithTruncation bestEffortParse line with
      | some recovered =>
        let documents := result.documents ++ [recovered.parsed]
        ⟨documents, some (documents.length - 1)⟩
      | none => result

def parseNdjson (bestEffortParse : Text → Option (JsonValue N)) (text : Text) :
    NdjsonParseResult N :=
  let lines := ((text.splitOn '\n').map Text.trim).filter fun line => line ≠ []
  lines.zipIdx.foldl (fun result (line, i) =>
    parseLine bestEffortParse result line (i + 1 = lines.length)) ⟨[], none⟩

/-! ## The worker -/

inductive ParseMode where
  | json
  | ndjson
  deriving DecidableEq, Repr

structure WorkerMessage (N : Type*) where
  mode : ParseMode
  parsed : JsonValue N
  documents : Option (List (JsonValue N))
  prettyText : JsString
  rows : List FlatRow
  defaultExpandedIds : Finset Nat
  truncated : Bool

/-- Mark where document `i` was cut. The ids are those of the containers on the way. -/
def markRoot (roots : List (JsonTreeNode N)) (i : Nat) : List (JsonTreeNode N) × List Nat :=
  match roots[i]? with
  | some root =>
    let marked := markTruncationPoint root
    (roots.set i marked.1, marked.2)
  | none => (roots, [])

/-- The tree of a document, marked if it was cut. -/
def markedTree (result : TruncatableParseResult N) : JsonTreeNode N × List Nat :=
  let tree := buildJsonTree result.parsed
  if result.truncated then markTruncationPoint tree else (tree, [])

def buildJson (bestEffortParse : Text → Option (JsonValue N)) (text : Text) :
    Option (WorkerMessage N) :=
  (parseWithTruncation bestEffortParse text).map fun result =>
    let marked := markedTree result
    let defaultExpanded :=
      computeDefaultExpanded (buildJsonTree result.parsed) ∪ marked.2.toFinset
    { mode := .json
      parsed := result.parsed
      documents := none
      prettyText := result.prettyText
      rows := flattenTree marked.1 defaultExpanded noLimits
      defaultExpandedIds := defaultExpanded
      truncated := result.truncated }

def markedForest (result : NdjsonParseResult N) : List (JsonTreeNode N) × List Nat :=
  let roots := buildJsonForest result.documents
  match result.truncatedDocIndex with
  | some i => markRoot roots i
  | none => (roots, [])

def buildNdjson (bestEffortParse : Text → Option (JsonValue N)) (text : Text) :
    Option (WorkerMessage N) :=
  let result := parseNdjson bestEffortParse text
  if result.documents.isEmpty then none
  else
    let marked := markedForest result
    let documentSizes := result.documents.map fun doc => (JSON.stringify doc 0).length
    let defaultExpanded :=
      computeForestDefaultExpanded (buildJsonForest result.documents) (some documentSizes) ∪
        marked.2.toFinset
    some
      { mode := .ndjson
        parsed := .null
        documents := some result.documents
        prettyText := (js "\n\n").intercalate (result.documents.map fun doc => JSON.stringify doc 2)
        rows := flattenForest marked.1 defaultExpanded noLimits
        defaultExpandedIds := defaultExpanded
        truncated := result.truncatedDocIndex.isSome }

/-- Where it throws, the worker posts an error. -/
def runWorker (bestEffortParse : Text → Option (JsonValue N)) (mode : ParseMode) (text : Text) :
    Option (WorkerMessage N) :=
  match mode with
  | .json => buildJson bestEffortParse text
  | .ndjson => buildNdjson bestEffortParse text

/-- The trees whose rows the worker posts. -/
def workerRoots (bestEffortParse : Text → Option (JsonValue N)) (mode : ParseMode) (text : Text) :
    Option (List (JsonTreeNode N)) :=
  match mode with
  | .json => (parseWithTruncation bestEffortParse text).map fun result => [(markedTree result).1]
  | .ndjson => some (markedForest (parseNdjson bestEffortParse text)).1

/-! ## The viewer's trees -/

/-- What a viewer shows: a value or, with `documents`, a forest. -/
inductive ViewerInput (N : Type*) where
  | value (value : JsonValue N)
  | documents (documents : List (JsonValue N))

structure BuiltForest (N : Type*) where
  roots : List (JsonTreeNode N)
  expandAncestors : List Nat

def buildForest (input : ViewerInput N) (truncated : Bool) : BuiltForest N :=
  let roots := match input with
    | .value value => [buildJsonTree value]
    | .documents documents => buildJsonForest documents
  if truncated && 0 < roots.length then
    let marked := markRoot roots (roots.length - 1)
    ⟨marked.1, marked.2⟩
  else ⟨roots, []⟩

def ViewerInput.values : ViewerInput N → List (JsonValue N)
  | .value v => [v]
  | .documents vs => vs

/-- The documents of a message. -/
def WorkerMessage.values (message : WorkerMessage N) : List (JsonValue N) :=
  match message.mode with
  | .json => [message.parsed]
  | .ndjson => message.documents.getD []

/-- What the body pane gives the viewer of a message: no viewer shows null. -/
def WorkerMessage.viewerInput? (message : WorkerMessage N) : Option (ViewerInput N) :=
  match message.mode with
  | .json => match message.parsed with
    | .primitive .null => none
    | parsed => some (.value parsed)
  | .ndjson => message.documents.map .documents

/-! ## The document that was cut is the last -/

omit [JsNumber N] in
theorem buildJsonForest_length (values : List (JsonValue N)) :
    (buildJsonForest values).length = values.length := by
  have roots : ∀ next, (buildRoots values next).length = values.length := by
    induction values with
    | nil => exact fun _ => rfl
    | cons value values ih =>
      intro next
      rw [buildRoots, List.length_cons, List.length_cons, ih]
  exact roots 0

variable (bestEffortParse : Text → Option (JsonValue N))

theorem parseLine_inside (result : NdjsonParseResult N) (line : Text) :
    (parseLine bestEffortParse result line false).truncatedDocIndex = result.truncatedDocIndex := by
  rw [parseLine]
  cases JSON.parse line (N := N) <;> rfl

theorem parseLine_last {result : NdjsonParseResult N} (whole : result.truncatedDocIndex = none)
    {line : Text} {i : Nat}
    (cut : (parseLine bestEffortParse result line true).truncatedDocIndex = some i) :
    i + 1 = (parseLine bestEffortParse result line true).documents.length := by
  rw [parseLine] at cut ⊢
  cases strict : JSON.parse line (N := N) with
  | some value => simp [strict, whole] at cut
  | none =>
    cases recovered : parseWithTruncation bestEffortParse line with
    | none => simp [strict, recovered, whole] at cut
    | some recovered' =>
      simp only [strict, recovered, Bool.not_true, Bool.false_eq_true, if_false,
        Option.some.injEq] at cut ⊢
      rw [← cut, List.length_append, List.length_singleton]
      omega

theorem foldl_parseLine_inside {n : Nat} {lines : List (Text × Nat)}
    (inside : ∀ l ∈ lines, l.2 + 1 ≠ n) (result : NdjsonParseResult N) :
    (lines.foldl (fun result (line, i) => parseLine bestEffortParse result line (i + 1 = n))
      result).truncatedDocIndex = result.truncatedDocIndex := by
  induction lines generalizing result with
  | nil => rfl
  | cons l lines ih =>
    obtain ⟨line, i⟩ := l
    obtain ⟨here, rest⟩ := List.forall_mem_cons.mp inside
    rw [List.foldl_cons, ih rest]
    change (parseLine bestEffortParse result line (decide (i + 1 = n))).truncatedDocIndex = _
    rw [decide_eq_false here, parseLine_inside]

theorem truncatedDocIndex_last {text : Text} {i : Nat}
    (cut : (parseNdjson bestEffortParse text).truncatedDocIndex = some i) :
    i + 1 = (parseNdjson bestEffortParse text).documents.length := by
  rw [parseNdjson] at cut ⊢
  generalize ((text.splitOn '\n').map Text.trim).filter (fun line => line ≠ []) = lines at cut ⊢
  obtain rfl | ⟨init, last, rfl⟩ := List.eq_nil_or_concat' lines
  · cases cut
  · have before : ∀ l ∈ init.zipIdx, l.2 + 1 ≠ (init ++ [last]).length := by
      intro l member
      have small := List.snd_lt_of_mem_zipIdx member
      simp only [List.length_append, List.length_singleton]
      omega
    have whole := foldl_parseLine_inside bestEffortParse before ⟨[], none⟩
    simp only [List.zipIdx_append, List.foldl_append, List.zipIdx_singleton, List.foldl_cons,
      List.foldl_nil] at cut ⊢
    rw [decide_eq_true (by simp)] at cut ⊢
    exact parseLine_last bestEffortParse whole cut

/-! ## The worker and the viewer agree -/

omit [JsNumber N] in
theorem buildForest_values (input : ViewerInput N) (truncated : Bool) :
    buildForest input truncated = buildForest (.documents input.values) truncated := by
  cases input <;> rfl

omit [JsNumber N] in
theorem values_of_viewerInput? {message : WorkerMessage N} {input : ViewerInput N}
    (shown : message.viewerInput? = some input) : input.values = message.values := by
  rw [WorkerMessage.viewerInput?] at shown
  rw [WorkerMessage.values]
  cases mode : message.mode with
  | json =>
    simp only [mode] at shown ⊢
    split at shown
    · cases shown
    · rw [← Option.some.inj shown, ViewerInput.values]
  | ndjson =>
    simp only [mode] at shown ⊢
    obtain ⟨documents, present, rfl⟩ := Option.map_eq_some_iff.mp shown
    rw [present]
    rfl

omit [JsNumber N] in
theorem markedTree_eq (result : TruncatableParseResult N) :
    ⟨[(markedTree result).1], (markedTree result).2⟩ =
      buildForest (.documents [result.parsed]) result.truncated := by
  rw [markedTree, buildForest]
  cases result.truncated <;> rfl

theorem markedForest_eq (text : Text) :
    ⟨(markedForest (parseNdjson bestEffortParse text)).1,
        (markedForest (parseNdjson bestEffortParse text)).2⟩ =
      buildForest (.documents (parseNdjson bestEffortParse text).documents)
        (parseNdjson bestEffortParse text).truncatedDocIndex.isSome := by
  rw [markedForest, buildForest]
  have length := buildJsonForest_length (parseNdjson bestEffortParse text).documents
  cases cut : (parseNdjson bestEffortParse text).truncatedDocIndex with
  | none => rfl
  | some i =>
    have last := truncatedDocIndex_last bestEffortParse cut
    have index : (buildJsonForest (parseNdjson bestEffortParse text).documents).length - 1 = i := by
      omega
    have nonempty : 0 < (buildJsonForest (parseNdjson bestEffortParse text).documents).length := by
      omega
    simp [index, nonempty]

/-- The worker's trees, its expanded ids and its rows are those of the forest that is
built again from its documents. -/
theorem runWorker_forest {mode : ParseMode} {text : Text} {message : WorkerMessage N}
    (accepted : runWorker bestEffortParse mode text = some message) :
    message.values ≠ [] ∧
    workerRoots bestEffortParse mode text =
      some (buildForest (.documents message.values) message.truncated).roots ∧
    (∀ id ∈ (buildForest (.documents message.values) message.truncated).expandAncestors,
      id ∈ message.defaultExpandedIds) ∧
    flattenForest (buildForest (.documents message.values) message.truncated).roots
        message.defaultExpandedIds noLimits =
      if mode = .json then message.rows.modifyHead (FlatRow.tag 0) else message.rows := by
  cases mode with
  | json =>
    obtain ⟨result, parsed, rfl⟩ := Option.map_eq_some_iff.mp accepted
    have forest := markedTree_eq result
    refine ⟨List.cons_ne_nil _ _, ?_, fun id member => ?_, ?_⟩
    · rw [workerRoots, parsed]
      exact congrArg (fun built : BuiltForest N => some built.roots) forest
    · have inside : id ∈ (markedTree result).2 := by
        rw [show (markedTree result).2 = _ from congrArg BuiltForest.expandAncestors forest]
        exact member
      exact Finset.mem_union_right _ (List.mem_toFinset.mpr inside)
    · refine (congrArg (fun built => flattenForest built.roots _ _) forest.symm).trans ?_
      exact flattenForest_singleton _ _ _
  | ndjson =>
    rw [runWorker, buildNdjson] at accepted
    split at accepted
    · cases accepted
    · rename_i nonempty
      obtain rfl := Option.some.inj accepted
      have forest := markedForest_eq bestEffortParse text
      refine ⟨fun empty => nonempty (List.isEmpty_iff.mpr empty), ?_, fun id member => ?_, ?_⟩
      · exact congrArg (fun built : BuiltForest N => some built.roots) forest
      · have inside : id ∈ (markedForest (parseNdjson bestEffortParse text)).2 := by
          rw [show (markedForest (parseNdjson bestEffortParse text)).2 = _ from
            congrArg BuiltForest.expandAncestors forest]
          exact member
        exact Finset.mem_union_right _ (List.mem_toFinset.mpr inside)
      · exact congrArg (fun built => flattenForest built.roots _ _) forest.symm

/-- Before and after the viewer builds its trees it shows the same rows, but for the
index of a single document, and the same id is the same node. -/
theorem worker_view_eq (mode : ParseMode) (text : Text) (message : WorkerMessage N)
    (accepted : runWorker bestEffortParse mode text = some message) (input : ViewerInput N)
    (shown : message.viewerInput? = some input) :
    workerRoots bestEffortParse mode text = some (buildForest input message.truncated).roots ∧
    flattenForest (buildForest input message.truncated).roots message.defaultExpandedIds noLimits =
      if mode = .json then message.rows.modifyHead (FlatRow.tag 0) else message.rows := by
  rw [buildForest_values, values_of_viewerInput? shown]
  obtain ⟨-, roots, -, rows⟩ := runWorker_forest bestEffortParse accepted
  exact ⟨roots, rows⟩

end Worker

/-- The text `[2` is recovered as `[2]`. -/
def recoverList (text : Text) : Option (JsonValue Int) :=
  if text = "[2".toList then some (.array [.primitive (.number 2)]) else none

theorem worker_view_eq_cut : ∃ message input,
    runWorker recoverList .ndjson "1\n[2".toList = some message ∧
    message.truncated = true ∧ message.viewerInput? = some input ∧
    workerRoots recoverList .ndjson "1\n[2".toList =
      some (buildForest input message.truncated).roots ∧
    flattenForest (buildForest input message.truncated).roots message.defaultExpandedIds noLimits =
      if ParseMode.ndjson = .json then message.rows.modifyHead (FlatRow.tag 0) else message.rows :=
  ⟨_, _, rfl, rfl, rfl, worker_view_eq recoverList .ndjson "1\n[2".toList _ rfl _ rfl⟩

end Protospy
