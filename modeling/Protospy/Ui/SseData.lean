import Protospy.Ui.SseFormat

/-!
# What the parser keeps of the data of an event

An event is written as its fields in any order, one line for each. The parser takes
all white space from the front of a value, where the format has one space, and
from the end of the block.
-/

namespace Protospy

inductive SseFieldName where
  | event
  | data
  | id
  deriving DecidableEq, Repr

def SseFieldName.text : SseFieldName → String
  | .event => "event"
  | .data => "data"
  | .id => "id"

structure SseField where
  name : SseFieldName
  value : Text

namespace SseField

def line (field : SseField) : Text := ServerSentEvent.field field.name.text field.value

/-- The lines of an event and a blank line, each with its line feed. -/
def encode (fields : List SseField) : Text := (fields.map line ++ [[]]).flatMap (· ++ ['\n'])

/-- The data lines of an event, in order. -/
def dataLines (fields : List SseField) : List Text :=
  (fields.filter fun field => field.name = .data).map SseField.value

end SseField

open SSE (Fields)

namespace SSE

/-- One field as it is read. -/
def Fields.set (f : Fields) (name : SseFieldName) (value : Text) : Fields :=
  match name with
  | .event => { f with type := value }
  | .data => { f with dataLines := f.dataLines ++ [value] }
  | .id => { f with id := some value }

theorem readLine_set (f : Fields) (name : SseFieldName) (value : Text) :
    f.readLine (name.text.toList ++ ':' :: value) = f.set name (Text.trimStart value) := by
  cases name <;> rw [readLine_field f (by decide) (by decide)] <;> rfl

theorem dataLines_set (f : Fields) (name : SseFieldName) (value : Text) :
    (f.set name value).dataLines = f.dataLines ++ if name = .data then [value] else [] := by
  cases name <;> simp [Fields.set]

end SSE

namespace SseField

theorem startsBlank_line (field : SseField) (rest : Text) :
    ¬ Text.StartsBlank (field.line ++ rest) := by
  obtain ⟨name, value⟩ := field
  rintro ⟨c, first, blank⟩
  have letter : c ∈ ['e', 'd', 'i'] := by
    cases name <;> simp [line, ServerSentEvent.field, SseFieldName.text] at first <;> simp [← first]
  have solid : ∀ c ∈ ['e', 'd', 'i'], Text.isWhitespace c = false := by
    intro c member
    simp only [List.mem_cons, List.not_mem_nil, or_false] at member
    rcases member with rfl | rfl | rfl <;> rfl
  rw [solid c letter] at blank
  contradiction

theorem line_solid {field : SseField} (oneLine : '\n' ∉ field.value) :
    field.line ≠ [] ∧ '\n' ∉ field.line := by
  have name : '\n' ∉ field.name.text.toList := by cases field.name <;> decide
  constructor
  · simp [line, ServerSentEvent.field]
  · simp [line, ServerSentEvent.field, name, oneLine]

theorem startsBlank_lines (init : List SseField) (last : SseField) :
    ¬ Text.StartsBlank (['\n'].intercalate (init.map line ++ [last.line])) := by
  rw [SSE.intercalate_concat, List.flatMap_map]
  cases init with
  | nil => simpa using startsBlank_line last []
  | cons first init =>
    rw [List.flatMap_cons, List.append_assoc, List.append_assoc]
    exact startsBlank_line first _

/-- The fields of a block after it was read. -/
def readFields (init : List SseField) (last : SseField) : Fields :=
  (init.foldl (fun f field => f.set field.name (Text.trimStart field.value)) Fields.initial).set
    last.name (Text.trimStart (Text.trimEnd last.value))

theorem parseSSEBlock_fields {init : List SseField} {last : SseField}
    (oneLine : ∀ field ∈ init ++ [last], '\n' ∉ field.value) (index : Nat) :
    parseSSEBlock (['\n'].intercalate ((init ++ [last]).map line)) index =
      if (readFields init last).dataLines = [] then none
      else some ⟨(readFields init last).type, ['\n'].intercalate (readFields init last).dataLines,
        (readFields init last).id, index⟩ := by
  have lines : ∀ text ∈ init.map line ++ [last.line], '\n' ∉ text := by
    intro text member
    rw [← List.map_singleton, ← List.map_append] at member
    obtain ⟨field, inside, rfl⟩ := List.mem_map.mp member
    exact (line_solid (oneLine field inside)).2
  have fold : (init.map line).foldl Fields.readLine Fields.initial =
      init.foldl (fun f field => f.set field.name (Text.trimStart field.value)) Fields.initial := by
    rw [List.foldl_map]
    congr 1
    funext f field
    exact SSE.readLine_set f field.name (' ' :: field.value)
  rw [List.map_append, List.map_singleton]
  refine (SSE.parseSSEBlock_lines (startsBlank_lines init last) lines index).trans ?_
  simp only [fold, SSE.readLine_set, Text.trimStart_trimEnd_cons last.value
    (show Text.isWhitespace ' ' = true by decide)]
  rfl

/-! ## The data that is read -/

theorem foldl_set_dataLines (f : Fields) (fields : List SseField) :
    (fields.foldl (fun f field => f.set field.name (Text.trimStart field.value)) f).dataLines =
      f.dataLines ++ (dataLines fields).map Text.trimStart := by
  induction fields generalizing f with
  | nil => simp [dataLines]
  | cons field fields ih =>
    rw [List.foldl_cons, ih, SSE.dataLines_set]
    by_cases hdata : field.name = .data
    · simp [dataLines, hdata]
    · simp [dataLines, hdata]

theorem readFields_dataLines (init : List SseField) (last : SseField) :
    (readFields init last).dataLines = (dataLines init).map Text.trimStart ++
      (dataLines [last]).map fun value => Text.trimStart (Text.trimEnd value) := by
  rw [readFields, SSE.dataLines_set, foldl_set_dataLines]
  by_cases hdata : last.name = .data
  · simp [dataLines, hdata]
  · simp [dataLines, hdata]

theorem dataLines_concat (init : List SseField) (last : SseField) :
    dataLines (init ++ [last]) = dataLines init ++ dataLines [last] := by
  simp [dataLines]

/-- Lines without line feeds can be read off what they are joined to. -/
theorem intercalate_inj {xs ys : List Text} (hx : ∀ x ∈ xs, '\n' ∉ x) (hy : ∀ y ∈ ys, '\n' ∉ y)
    (hxs : xs ≠ []) (hys : ys ≠ []) :
    ['\n'].intercalate xs = ['\n'].intercalate ys ↔ xs = ys := by
  constructor
  · intro joined
    have split := congrArg (List.splitOn '\n') joined
    rwa [List.splitOn_intercalate _ hx hxs, List.splitOn_intercalate _ hy hys] at split
  · intro same
    rw [same]

theorem readFields_dataLines_eq_iff (init : List SseField) (last : SseField) :
    (readFields init last).dataLines = dataLines (init ++ [last]) ↔
      (∀ value ∈ dataLines (init ++ [last]), ¬ Text.StartsBlank value) ∧
        (last.name = .data → ¬ Text.EndsBlank last.value) := by
  have before : (dataLines init).map Text.trimStart = dataLines init ↔
      ∀ value ∈ dataLines init, ¬ Text.StartsBlank value := by
    nth_rewrite 2 [← List.map_id (dataLines init)]
    rw [List.map_inj_left]
    exact forall₂_congr fun value _ => Text.trimStart_eq_self_iff value
  have finish : (dataLines [last]).map (fun value => Text.trimStart (Text.trimEnd value)) =
      dataLines [last] ↔ (∀ value ∈ dataLines [last], ¬ Text.StartsBlank value) ∧
        (last.name = .data → ¬ Text.EndsBlank last.value) := by
    by_cases hdata : last.name = .data
    · simp [dataLines, hdata, Text.trimStart_trimEnd_eq_self_iff]
    · simp [dataLines, hdata]
  have parts : (dataLines init).map Text.trimStart ++
      (dataLines [last]).map (fun value => Text.trimStart (Text.trimEnd value)) =
        dataLines init ++ dataLines [last] ↔ (dataLines init).map Text.trimStart = dataLines init ∧
          (dataLines [last]).map (fun value => Text.trimStart (Text.trimEnd value)) =
            dataLines [last] := by
    constructor
    · intro same
      exact List.append_inj same (List.length_map _)
    · rintro ⟨first, second⟩
      rw [first, second]
  rw [readFields_dataLines, dataLines_concat, parts, before, finish, List.forall_mem_append,
    and_assoc]

theorem readFields_oneLine {init : List SseField} {last : SseField}
    (oneLine : ∀ field ∈ init ++ [last], '\n' ∉ field.value) :
    ∀ value ∈ (readFields init last).dataLines, '\n' ∉ value := by
  have kept : ∀ value ∈ dataLines (init ++ [last]), '\n' ∉ value := by
    intro value member
    obtain ⟨field, inside, rfl⟩ := List.mem_map.mp member
    exact oneLine field (List.mem_of_mem_filter inside)
  rw [dataLines_concat] at kept
  intro value member inside
  rw [readFields_dataLines, List.mem_append, List.mem_map, List.mem_map] at member
  rcases member with ⟨whole, hwhole, rfl⟩ | ⟨whole, hwhole, rfl⟩
  · exact kept whole (List.mem_append_left _ hwhole)
      ((List.dropWhile_sublist _).subset inside)
  · exact kept whole (List.mem_append_right _ hwhole) ((List.rdropWhile_prefix _ _).subset
      ((List.dropWhile_sublist _).subset inside))

/-! ## Feeding an event -/

theorem encode_eq (init : List SseField) (last : SseField) :
    encode (init ++ [last]) =
      ['\n'].intercalate ((init ++ [last]).map line) ++ '\n' :: '\n' :: [] := by
  rw [encode, List.map_append, List.map_singleton, SSE.intercalate_concat]
  simp

theorem feedChunk_encode {prev : SSEStreamState} (between : prev.parserRemainder = [])
    {init : List SseField} {last : SseField}
    (oneLine : ∀ field ∈ init ++ [last], '\n' ∉ field.value) :
    (feedChunk prev (encode (init ++ [last]))).events = prev.events ++
      (parseSSEBlock (['\n'].intercalate ((init ++ [last]).map line))
        prev.totalEventCount).toList := by
  have each : ∀ text ∈ (init ++ [last]).map line, text ≠ [] ∧ '\n' ∉ text := by
    intro text member
    obtain ⟨field, inside, rfl⟩ := List.mem_map.mp member
    exact line_solid (oneLine field inside)
  have parts := SSE.splitBlankLine_lines (by simp) each []
  rw [← encode_eq] at parts
  have blocks : (SSE.splitBlankLine (prev.parserRemainder ++ encode (init ++ [last]))).dropLast =
      [['\n'].intercalate ((init ++ [last]).map line)] := by
    rw [between, List.nil_append, parts]
    rfl
  rw [feedChunk, blocks, parseBlocks]
  cases parseSSEBlock (['\n'].intercalate ((init ++ [last]).map line)) prev.totalEventCount with
  | none => rfl
  | some event => rfl

/-- The event is reported, and its data is the lines as they were sent. -/
def KeepsData (prev : SSEStreamState) (fields : List SseField) : Prop :=
  ∃ event, (feedChunk prev (encode fields)).events = prev.events ++ [event] ∧
    event.data = ['\n'].intercalate (dataLines fields)

/-- White space is lost at the front of every data line, and at the end of the
line with which an event ends. -/
theorem keepsData_iff {prev : SSEStreamState} (between : prev.parserRemainder = [])
    {fields : List SseField} (data : dataLines fields ≠ [])
    (oneLine : ∀ field ∈ fields, OneLine field.value) :
    KeepsData prev fields ↔ (∀ value ∈ dataLines fields, ¬ Text.StartsBlank value) ∧
      ∀ last ∈ fields.getLast?, last.name = .data → ¬ Text.EndsBlank last.value := by
  obtain rfl | ⟨init, last, rfl⟩ := List.eq_nil_or_concat' fields
  · exact absurd rfl data
  have lineFeeds : ∀ field ∈ init ++ [last], '\n' ∉ field.value :=
    fun field member => (oneLine field member).1
  have some : (readFields init last).dataLines ≠ [] := by
    intro none
    have lengths := congrArg List.length none
    rw [readFields_dataLines, List.length_append, List.length_map, List.length_map,
      ← List.length_append, ← dataLines_concat] at lengths
    exact data (List.length_eq_zero_iff.mp lengths)
  have sent : ∀ value ∈ dataLines (init ++ [last]), '\n' ∉ value := by
    intro value member
    obtain ⟨field, inside, rfl⟩ := List.mem_map.mp member
    exact lineFeeds field (List.mem_of_mem_filter inside)
  rw [KeepsData, feedChunk_encode between lineFeeds, parseSSEBlock_fields lineFeeds]
  simp only [some, if_false, Option.toList_some, List.append_cancel_left_eq, List.cons.injEq,
    and_true, exists_eq_left', intercalate_inj (readFields_oneLine lineFeeds) sent some data,
    readFields_dataLines_eq_iff, List.getLast?_concat, Option.mem_some_iff, forall_eq']

def dataField (value : String) : SseField := ⟨.data, value.toList⟩

theorem keepsData_iff_indented :
    KeepsData createSSEStreamState [dataField "a", dataField "  b"] ↔
      (∀ value ∈ dataLines [dataField "a", dataField "  b"], ¬ Text.StartsBlank value) ∧
        ∀ last ∈ [dataField "a", dataField "  b"].getLast?,
          last.name = .data → ¬ Text.EndsBlank last.value :=
  keepsData_iff rfl (by decide) (by unfold OneLine; decide)

/-- A second space after the colon is lost, and so is one at the end of an event. -/
theorem spaces_not_kept :
    ¬ KeepsData createSSEStreamState [dataField " x"] ∧
      ¬ KeepsData createSSEStreamState [dataField "x "] := by
  have read : ∀ value ∈ [" x", "x "], (feedChunk createSSEStreamState
      (encode [dataField value])).events.map SSEEvent.data = ["x".toList] := by
    decide
  have longer : ∀ value ∈ [" x", "x "],
      ['\n'].intercalate (dataLines [dataField value]) ≠ "x".toList := by
    decide
  have lost : ∀ value ∈ [" x", "x "], ¬ KeepsData createSSEStreamState [dataField value] := by
    rintro value member ⟨event, events, data⟩
    have only := read value member
    rw [events, createSSEStreamState, List.nil_append, List.map_singleton, data] at only
    exact longer value member (List.singleton_inj.mp only)
  exact ⟨lost _ (by simp), lost _ (by simp)⟩

end SseField

end Protospy
