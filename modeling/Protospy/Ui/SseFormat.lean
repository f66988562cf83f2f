import Protospy.Ui.SseParse
import Mathlib.Data.List.DropRight
import Mathlib.Data.List.TakeDrop

/-!
# The wire format of event streams

An event is written as one line for each field, with a blank line after them. The
format lets every line end in a line feed, in a carriage return, or in both.
-/

namespace Protospy

/-! ## White space at the ends of a text -/

namespace Text

def StartsBlank (t : Text) : Prop := ∃ c ∈ t.head?, isWhitespace c = true

def EndsBlank (t : Text) : Prop := ∃ c ∈ t.getLast?, isWhitespace c = true

theorem trimStart_eq_self_iff (t : Text) : trimStart t = t ↔ ¬ t.StartsBlank := by
  cases t with
  | nil => simp [trimStart, StartsBlank]
  | cons c t => simp [trimStart, StartsBlank, List.dropWhile_eq_self_iff]

theorem trimEnd_eq_self_iff (t : Text) : trimEnd t = t ↔ ¬ t.EndsBlank := by
  have same : trimEnd t = t.rdropWhile isWhitespace := rfl
  rw [same, List.rdropWhile_eq_self_iff, EndsBlank]
  by_cases empty : t = []
  · simp [empty]
  · simp [empty, List.getLast?_eq_some_getLast empty]

theorem trimStart_trimEnd_eq_self_iff (t : Text) :
    trimStart (trimEnd t) = t ↔ ¬ t.StartsBlank ∧ ¬ t.EndsBlank := by
  rw [← trimStart_eq_self_iff, ← trimEnd_eq_self_iff]
  constructor
  · intro both
    have start := (List.dropWhile_sublist isWhitespace (l := trimEnd t)).length_le
    have finish := (List.rdropWhile_prefix isWhitespace t).length_le
    have kept : trimEnd t = t := by
      refine (List.rdropWhile_prefix isWhitespace t).eq_of_length (le_antisymm finish ?_)
      have length := congrArg List.length both
      change (List.dropWhile isWhitespace (trimEnd t)).length = t.length at length
      change t.length ≤ (trimEnd t).length
      omega
    exact ⟨by rwa [kept] at both, kept⟩
  · rintro ⟨start, finish⟩
    rw [finish, start]

/-- A character that is no white space keeps what stands before it. -/
theorem trimEnd_append_cons {c : Char} (x w : Text) (solid : isWhitespace c = false) :
    trimEnd (x ++ c :: w) = x ++ c :: trimEnd w := by
  have keep : ∀ v : Text, (v ++ c :: x.reverse).dropWhile isWhitespace =
      v.dropWhile isWhitespace ++ c :: x.reverse := by
    intro v
    rw [List.dropWhile_append]
    split
    · rename_i blank
      rw [List.isEmpty_iff.mp blank, List.dropWhile_cons_of_neg (by simp [solid])]
      rfl
    · rfl
  rw [trimEnd, trimEnd, List.reverse_append, List.reverse_cons, List.append_assoc,
    List.singleton_append, keep]
  simp

theorem trimStart_trimEnd_cons {c : Char} (v : Text) (blank : isWhitespace c = true) :
    trimStart (trimEnd (c :: v)) = trimStart (trimEnd v) := by
  rw [trimEnd, trimEnd, List.reverse_cons, List.dropWhile_append]
  split
  · rename_i empty
    rw [List.isEmpty_iff.mp empty]
    simp [blank]
  · rw [List.reverse_append, List.reverse_singleton, List.singleton_append, trimStart,
      List.dropWhile_cons_of_pos blank]
    rfl

end Text

/-! ## Lines and blank lines -/

namespace SSE

theorem splitBlankLine_append_of_notMem {x : Text} (oneLine : '\n' ∉ x) (y : Text) :
    splitBlankLine (x ++ y) = (splitBlankLine y).modifyHead (x ++ ·) := by
  induction x with
  | nil => exact (congrFun List.modifyHead_id _).symm
  | cons c x ih =>
    rw [List.mem_cons, not_or] at oneLine
    rw [List.cons_append, splitBlankLine_cons (by simp [Ne.symm oneLine.1]), ih oneLine.2,
      List.modifyHead_modifyHead]
    rfl

/-- Lines joined by single line feeds, before a blank line, are one block. -/
theorem splitBlankLine_lines {lines : List Text} (some : lines ≠ [])
    (each : ∀ line ∈ lines, line ≠ [] ∧ '\n' ∉ line) (rest : Text) :
    splitBlankLine (['\n'].intercalate lines ++ '\n' :: '\n' :: rest) =
      ['\n'].intercalate lines :: splitBlankLine rest := by
  induction lines with
  | nil => exact absurd rfl some
  | cons line lines ih =>
    obtain ⟨-, oneLine⟩ := each line List.mem_cons_self
    cases lines with
    | nil =>
      rw [List.intercalate_singleton, splitBlankLine_append_of_notMem oneLine]
      simp [splitBlankLine]
    | cons next lines =>
      obtain ⟨solid, oneLine'⟩ := each next (by simp)
      have tail := ih (by simp) fun l hl => each l (List.mem_cons_of_mem _ hl)
      have single : ¬ ('\n' = '\n' ∧
          (['\n'].intercalate (next :: lines) ++ '\n' :: '\n' :: rest).head? = Option.some '\n') := by
        rintro ⟨-, second⟩
        obtain ⟨c, next, rfl⟩ := List.exists_cons_of_ne_nil solid
        cases lines <;> simp at second oneLine' <;> exact oneLine'.1 second.symm
      rw [List.intercalate_cons_cons, List.append_assoc, List.append_assoc,
        splitBlankLine_append_of_notMem oneLine, List.singleton_append, splitBlankLine_cons single,
        tail]
      simp

/-- Where every line feed follows a carriage return there is no blank line. -/
theorem splitBlankLine_crlf {lines : List Text} (each : ∀ line ∈ lines, '\n' ∉ line) :
    splitBlankLine (lines.flatMap (· ++ ['\r', '\n'])) =
      [lines.flatMap (· ++ ['\r', '\n'])] := by
  induction lines with
  | nil => rfl
  | cons line lines ih =>
    have oneLine := each line List.mem_cons_self
    have single : ¬ ('\n' = '\n' ∧
        (lines.flatMap (· ++ ['\r', '\n'])).head? = some '\n') := by
      rintro ⟨-, second⟩
      cases lines with
      | nil => simp at second
      | cons next lines =>
        cases next with
        | nil => simp at second
        | cons c next =>
          have solid := each (c :: next) (by simp)
          simp at second solid
          exact solid.1 second.symm
    rw [List.flatMap_cons, List.append_assoc, splitBlankLine_append_of_notMem oneLine,
      List.cons_append, splitBlankLine_cons (by simp), List.singleton_append,
      splitBlankLine_cons single, ih fun l hl => each l (List.mem_cons_of_mem _ hl)]
    rfl

end SSE

/-! ## Encoding -/

inductive LineEnd where
  | lf
  | crlf
  | cr
  deriving DecidableEq, Repr

def LineEnd.chars : LineEnd → Text
  | .lf => ['\n']
  | .crlf => ['\r', '\n']
  | .cr => ['\r']

/-- An event as its sender means it. -/
structure ServerSentEvent where
  type : Text
  data : List Text
  id : Option Text

def OneLine (t : Text) : Prop := '\n' ∉ t ∧ '\r' ∉ t

namespace ServerSentEvent

structure WellFormed (e : ServerSentEvent) : Prop where
  type_nonempty : e.type ≠ []
  type_oneLine : OneLine e.type
  data_nonempty : e.data ≠ []
  data_lines : ∀ line ∈ e.data, OneLine line ∧ ¬ Text.StartsBlank line ∧ ¬ Text.EndsBlank line
  id_oneLine : ∀ id ∈ e.id, OneLine id

def field (name : String) (value : Text) : Text := name.toList ++ ':' :: ' ' :: value

def lines (e : ServerSentEvent) : List Text :=
  field "event" e.type :: e.data.map (field "data") ++ (e.id.map (field "id")).toList

/-- The lines and a blank line, each with its line end. -/
def encode (lineEnd : LineEnd) (e : ServerSentEvent) : Text :=
  (e.lines ++ [[]]).flatMap (· ++ lineEnd.chars)

/-- Type, data and id as the parser should report them. -/
def reported (e : ServerSentEvent) : Text × Text × Option Text :=
  (e.type, ['\n'].intercalate e.data, e.id)

theorem lines_solid {e : ServerSentEvent} (wf : e.WellFormed) :
    ∀ line ∈ e.lines, line ≠ [] ∧ '\n' ∉ line := by
  have each : ∀ name value, '\n' ∉ name.toList → '\n' ∉ value →
      field name value ≠ [] ∧ '\n' ∉ field name value := by
    intro name value hname hvalue
    simp [field, hname, hvalue]
  intro line member
  simp only [lines, List.mem_append, List.mem_cons, List.mem_map, Option.mem_toList,
    Option.map_eq_some_iff] at member
  rcases member with (rfl | ⟨value, data, rfl⟩) | ⟨id, some, rfl⟩
  · exact each _ _ (by decide) wf.type_oneLine.1
  · exact each _ _ (by decide) (wf.data_lines value data).1.1
  · exact each _ _ (by decide) (wf.id_oneLine id some).1

end ServerSentEvent

def encodeEvents (lineEnd : LineEnd) (events : List ServerSentEvent) : Text :=
  events.flatMap (ServerSentEvent.encode lineEnd)

/-! ## Reading one block -/

namespace SSE

/-- A field whose name is `name` and whose value is `value` after the colon. -/
theorem readLine_field (f : Fields) {name value : Text} (named : name ≠ []) (colon : ':' ∉ name) :
    f.readLine (name ++ ':' :: value) =
      if Text.trim name = "event".toList then { f with type := Text.trimStart value }
      else if Text.trim name = "data".toList then
        { f with dataLines := f.dataLines ++ [Text.trimStart value] }
      else if Text.trim name = "id".toList then { f with id := some (Text.trimStart value) }
      else f := by
  have cut : (name ++ ':' :: value).span (· ≠ ':') = (name, ':' :: value) := by
    have before : ∀ c ∈ name, decide (c ≠ ':') = true := by
      intro c hc
      simpa using ne_of_mem_of_not_mem hc colon
    rw [List.span_eq_takeWhile_dropWhile, List.takeWhile_append_of_pos before,
      List.dropWhile_append_of_pos before]
    simp
  rw [Fields.readLine, cut]
  cases name with
  | nil => exact absurd rfl named
  | cons c name => rfl

/-- The fields of a block after its lines, of which the last may have lost the
white space at its end. -/
theorem readLine_event (f : Fields) (value : Text) :
    f.readLine (ServerSentEvent.field "event" value) = { f with type := Text.trimStart value } := by
  rw [ServerSentEvent.field, readLine_field f (by decide) (by decide)]
  rfl

theorem readLine_data (f : Fields) (value : Text) :
    f.readLine ("data".toList ++ ':' :: value) =
      { f with dataLines := f.dataLines ++ [Text.trimStart value] } := by
  rw [readLine_field f (by decide) (by decide)]
  rfl

theorem readLine_id (f : Fields) (value : Text) :
    f.readLine ("id".toList ++ ':' :: value) = { f with id := some (Text.trimStart value) } := by
  rw [readLine_field f (by decide) (by decide)]
  rfl

theorem foldl_readLine_data (f : Fields) {values : List Text}
    (solid : ∀ v ∈ values, ¬ Text.StartsBlank v) :
    (values.map (ServerSentEvent.field "data")).foldl Fields.readLine f =
      { f with dataLines := f.dataLines ++ values } := by
  induction values generalizing f with
  | nil => simp
  | cons v values ih =>
    have kept := (Text.trimStart_eq_self_iff v).mpr (solid v List.mem_cons_self)
    have value : Text.trimStart (' ' :: v) = v := kept
    rw [List.map_cons, List.foldl_cons, ServerSentEvent.field, readLine_data, value,
      ih _ fun w hw => solid w (List.mem_cons_of_mem _ hw)]
    simp

end SSE

namespace ServerSentEvent

/-- What is left of an event on the other side. -/
def received (e : ServerSentEvent) : ServerSentEvent where
  type := Text.trimStart e.type
  data := e.data
  id := e.id.map fun id => Text.trimStart (Text.trimEnd id)

def block (e : ServerSentEvent) : Text := ['\n'].intercalate e.lines

end ServerSentEvent

namespace SSE

theorem intercalate_concat (init : List Text) (last : Text) :
    ['\n'].intercalate (init ++ [last]) = init.flatMap (· ++ ['\n']) ++ last := by
  induction init with
  | nil => simp
  | cons line init ih =>
    rw [List.cons_append, List.intercalate_cons_of_ne_nil (by simp), ih]
    simp

/-- Only the last line of a block loses white space, and only after its colon. -/
theorem parseSSEBlock_lines {init : List Text} {name value : Text}
    (solid : ¬ Text.StartsBlank (['\n'].intercalate (init ++ [name ++ ':' :: value])))
    (oneLine : ∀ line ∈ init ++ [name ++ ':' :: value], '\n' ∉ line) (index : Nat) :
    parseSSEBlock (['\n'].intercalate (init ++ [name ++ ':' :: value])) index =
      let f := (init.foldl Fields.readLine Fields.initial).readLine
        (name ++ ':' :: Text.trimEnd value)
      if f.dataLines = [] then none
      else some ⟨f.type, ['\n'].intercalate f.dataLines, f.id, index⟩ := by
  have trimmed : Text.trim (['\n'].intercalate (init ++ [name ++ ':' :: value])) =
      ['\n'].intercalate (init ++ [name ++ ':' :: Text.trimEnd value]) := by
    rw [Text.trim, (Text.trimStart_eq_self_iff _).mpr solid, intercalate_concat, intercalate_concat,
      ← List.append_assoc, Text.trimEnd_append_cons _ _ (by decide), List.append_assoc]
  have lines : (['\n'].intercalate (init ++ [name ++ ':' :: Text.trimEnd value])).splitOn '\n' =
      init ++ [name ++ ':' :: Text.trimEnd value] := by
    refine List.splitOn_intercalate _ (fun line member => ?_) (by simp)
    rcases List.mem_append.mp member with before | last
    · exact oneLine line (List.mem_append_left _ before)
    · obtain rfl := List.mem_singleton.mp last
      have whole := oneLine _ (List.mem_append_right _ (List.mem_singleton_self _))
      have part : Text.trimEnd value ⊆ value := (List.rdropWhile_prefix _ _).subset
      simp only [List.mem_append, List.mem_cons, not_or] at whole ⊢
      exact ⟨whole.1, whole.2.1, fun inside => whole.2.2 (part inside)⟩
  have nonempty : ['\n'].intercalate (init ++ [name ++ ':' :: Text.trimEnd value]) ≠ [] := by
    rw [intercalate_concat]
    simp
  rw [parseSSEBlock, trimmed]
  simp only [nonempty, if_false, lines, List.foldl_append, List.foldl_cons, List.foldl_nil]

end SSE

open SSE

namespace ServerSentEvent

theorem parseSSEBlock_block {e : ServerSentEvent} (wf : e.WellFormed) (index : Nat) :
    parseSSEBlock e.block index =
      some ⟨e.received.type, ['\n'].intercalate e.data, e.received.id, index⟩ := by
  have oneLine : ∀ line ∈ e.lines, '\n' ∉ line := fun line h => (lines_solid wf line h).2
  have first : ∀ more : List Text,
      ¬ Text.StartsBlank (['\n'].intercalate (field "event" e.type :: more)) := by
    intro more
    cases more <;> simp [Text.StartsBlank, field, List.intercalate_cons_of_ne_nil] <;> decide
  have solid : ∀ v ∈ e.data, ¬ Text.StartsBlank v := fun v h => (wf.data_lines v h).2.1
  cases present : e.id with
  | some id =>
    have lines_eq : e.lines = (field "event" e.type :: e.data.map (field "data")) ++
        ["id".toList ++ ':' :: ' ' :: id] := by
      simp [lines, present, field]
    rw [lines_eq] at oneLine
    rw [block, lines_eq, parseSSEBlock_lines (first _) oneLine]
    simp only [List.foldl_cons, readLine_event, foldl_readLine_data _ solid, readLine_id,
      Text.trimStart_trimEnd_cons id (show Text.isWhitespace ' ' = true by decide)]
    simp [wf.data_nonempty, received, present]
  | none =>
    obtain empty | ⟨init, last, split⟩ := List.eq_nil_or_concat' e.data
    · exact absurd empty wf.data_nonempty
    have lines_eq : e.lines = (field "event" e.type :: init.map (field "data")) ++
        ["data".toList ++ ':' :: ' ' :: last] := by
      simp [lines, present, split, field]
    have member : last ∈ e.data := by simp [split]
    have kept := (Text.trimStart_trimEnd_eq_self_iff last).mpr (wf.data_lines last member).2
    have initSolid : ∀ v ∈ init, ¬ Text.StartsBlank v := fun v h => solid v (by simp [split, h])
    rw [lines_eq] at oneLine
    rw [block, lines_eq, parseSSEBlock_lines (first _) oneLine]
    simp only [List.foldl_cons, readLine_event, readLine_data,
      foldl_readLine_data _ initSolid,
      Text.trimStart_trimEnd_cons last (show Text.isWhitespace ' ' = true by decide), kept]
    simp [split, received, present]

theorem encode_lf (e : ServerSentEvent) : e.encode .lf = e.block ++ ['\n', '\n'] := by
  obtain ⟨init, last, split⟩ : ∃ init last, e.lines = init ++ [last] := by
    rcases List.eq_nil_or_concat' e.lines with empty | split
    · simp [lines] at empty
    · exact split
  rw [encode, block, split, intercalate_concat]
  simp [LineEnd.chars]

end ServerSentEvent

/-! ## What is recognized -/

theorem splitBlankLine_encodeEvents {events : List ServerSentEvent}
    (wf : ∀ e ∈ events, e.WellFormed) :
    splitBlankLine (encodeEvents .lf events) = events.map ServerSentEvent.block ++ [[]] := by
  induction events with
  | nil => rfl
  | cons e events ih =>
    have solid := ServerSentEvent.lines_solid (wf e List.mem_cons_self)
    rw [encodeEvents, List.flatMap_cons, ServerSentEvent.encode_lf, List.append_assoc,
      ServerSentEvent.block]
    change splitBlankLine (_ ++ '\n' :: '\n' :: encodeEvents .lf events) = _
    rw [splitBlankLine_lines (by simp [ServerSentEvent.lines]) solid,
      ih fun e' h => wf e' (List.mem_cons_of_mem _ h)]
    rfl

theorem parseBlocks_blocks {events : List ServerSentEvent} (wf : ∀ e ∈ events, e.WellFormed)
    (index : Nat) :
    (parseBlocks index (events.map ServerSentEvent.block)).map
        (fun event => (event.type, event.data, event.id)) =
      events.map fun e => e.received.reported := by
  induction events generalizing index with
  | nil => rfl
  | cons e events ih =>
    rw [List.map_cons, parseBlocks, ServerSentEvent.parseSSEBlock_block (wf e List.mem_cons_self),
      List.map_cons, List.map_cons, ih fun e' h => wf e' (List.mem_cons_of_mem _ h)]
    rfl

/-- The parser gives exactly the events that were sent and nothing is left over. -/
def Recognized (lineEnd : LineEnd) (events : List ServerSentEvent) : Prop :=
  let state := feedChunk createSSEStreamState (encodeEvents lineEnd events)
  state.events.map (fun event => (event.type, event.data, event.id)) =
      events.map ServerSentEvent.reported ∧ state.parserRemainder = []

theorem recognized_lf {events : List ServerSentEvent} (wf : ∀ e ∈ events, e.WellFormed) :
    Recognized .lf events ↔ ∀ e ∈ events, ¬ Text.StartsBlank e.type ∧
      ∀ id ∈ e.id, ¬ Text.StartsBlank id ∧ ¬ Text.EndsBlank id := by
  have parts := splitBlankLine_encodeEvents wf
  have complete : (feedChunk createSSEStreamState (encodeEvents .lf events)).events =
      parseBlocks 0 (events.map ServerSentEvent.block) := by
    change parseBlocks 0 (splitBlankLine (encodeEvents .lf events)).dropLast = _
    rw [parts, List.dropLast_concat]
  have rest : (feedChunk createSSEStreamState (encodeEvents .lf events)).parserRemainder = [] := by
    change (splitBlankLine (encodeEvents .lf events)).getLastD [] = []
    rw [parts, List.getLastD_concat]
  rw [Recognized, complete, rest, parseBlocks_blocks wf, List.map_inj_left]
  simp only [and_true, ServerSentEvent.reported, ServerSentEvent.received, Prod.mk.injEq, true_and,
    Text.trimStart_eq_self_iff]
  refine forall₂_congr fun e _ => and_congr_right fun _ => ?_
  cases e.id with
  | none => simp
  | some id => simp [Text.trimStart_trimEnd_eq_self_iff]

/-- Without a pair of line feeds the whole encoding waits for its first event to end. -/
theorem feedChunk_encode_cr {lineEnd : LineEnd} (cr : lineEnd ≠ .lf)
    {events : List ServerSentEvent} (wf : ∀ e ∈ events, e.WellFormed) :
    feedChunk createSSEStreamState (encodeEvents lineEnd events) =
      ⟨[], 0, encodeEvents lineEnd events⟩ := by
  have whole : encodeEvents lineEnd events =
      (events.flatMap fun e => e.lines ++ [[]]).flatMap (· ++ lineEnd.chars) := by
    rw [List.flatMap_assoc]
    rfl
  have oneLine : ∀ line ∈ events.flatMap fun e => e.lines ++ [[]], '\n' ∉ line := by
    intro line member
    obtain ⟨e, he, inside⟩ := List.mem_flatMap.mp member
    rcases List.mem_append.mp inside with field | blank
    · exact (ServerSentEvent.lines_solid (wf e he) line field).2
    · simp [List.mem_singleton.mp blank]
  have one : splitBlankLine (encodeEvents lineEnd events) = [encodeEvents lineEnd events] := by
    rw [whole]
    cases lineEnd with
    | lf => exact absurd rfl cr
    | crlf => exact splitBlankLine_crlf oneLine
    | cr =>
      have noLineFeed : '\n' ∉ (events.flatMap fun e => e.lines ++ [[]]).flatMap
          (· ++ LineEnd.cr.chars) := by
        intro inside
        obtain ⟨line, member, inside⟩ := List.mem_flatMap.mp inside
        rcases List.mem_append.mp inside with text | finish
        · exact oneLine line member text
        · exact absurd finish (by decide)
      have split := splitBlankLine_append_of_notMem noLineFeed []
      rwa [List.append_nil, splitBlankLine, List.modifyHead_cons, List.append_nil] at split
  simp [feedChunk, createSSEStreamState, one, parseBlocks]

/-- With line feeds all events are recognized, but for white space around a type
or an id; with carriage returns none is. -/
theorem encodeEvents_recognized (events : List ServerSentEvent)
    (wf : ∀ e ∈ events, e.WellFormed) :
    (Recognized .lf events ↔ ∀ e ∈ events, ¬ Text.StartsBlank e.type ∧
      ∀ id ∈ e.id, ¬ Text.StartsBlank id ∧ ¬ Text.EndsBlank id) ∧
    ∀ lineEnd, lineEnd ≠ .lf → feedChunk createSSEStreamState (encodeEvents lineEnd events) =
      ⟨[], 0, encodeEvents lineEnd events⟩ :=
  ⟨recognized_lf wf, fun _ cr => feedChunk_encode_cr cr wf⟩

/-- An event with the data `1`. -/
def eventOf (type : String) (id : Option String) : ServerSentEvent :=
  ⟨type.toList, ["1".toList], id.map String.toList⟩

theorem eventOf_wellFormed {type : String} {id : Option String} (typed : type.toList ≠ [])
    (oneLine : OneLine type.toList) (ids : ∀ t ∈ id, OneLine t.toList) :
    (eventOf type id).WellFormed where
  type_nonempty := typed
  type_oneLine := oneLine
  data_nonempty := by simp [eventOf]
  data_lines := by
    intro line member
    obtain rfl := List.mem_singleton.mp member
    exact ⟨⟨by decide, by decide⟩, by simp [Text.StartsBlank, Text.isWhitespace],
      by simp [Text.EndsBlank, Text.isWhitespace]⟩
  id_oneLine := by
    intro line member
    obtain ⟨t, present, rfl⟩ := Option.map_eq_some_iff.mp member
    exact ids t present

theorem tick_wellFormed : ∀ e ∈ [eventOf "tick" none], e.WellFormed := by
  intro e member
  obtain rfl := List.mem_singleton.mp member
  exact eventOf_wellFormed (by decide) ⟨by decide, by decide⟩ (by simp)

theorem encodeEvents_recognized_tick :
    (Recognized .lf [eventOf "tick" none] ↔ ∀ e ∈ [eventOf "tick" none],
      ¬ Text.StartsBlank e.type ∧ ∀ id ∈ e.id, ¬ Text.StartsBlank id ∧ ¬ Text.EndsBlank id) ∧
    ∀ lineEnd, lineEnd ≠ .lf →
      feedChunk createSSEStreamState (encodeEvents lineEnd [eventOf "tick" none]) =
        ⟨[], 0, encodeEvents lineEnd [eventOf "tick" none]⟩ :=
  encodeEvents_recognized _ tick_wellFormed

/-- Both ends with carriage returns fail, and so does white space that is cut off. -/
theorem tick_not_recognized :
    (∀ lineEnd, lineEnd ≠ .lf → ¬ Recognized lineEnd [eventOf "tick" none]) ∧
    ((eventOf " tick" none).WellFormed ∧ ¬ Recognized .lf [eventOf " tick" none]) ∧
    ((eventOf "tick" (some " 7")).WellFormed ∧ ¬ Recognized .lf [eventOf "tick" (some " 7")]) ∧
    (eventOf "tick" (some "7 ")).WellFormed ∧ ¬ Recognized .lf [eventOf "tick" (some "7 ")] := by
  have padded : ∀ (type : String) (id : Option String), (eventOf type id).WellFormed →
      (Text.StartsBlank type.toList ∨ ∃ t ∈ id, Text.StartsBlank t.toList ∨
        Text.EndsBlank t.toList) → ¬ Recognized .lf [eventOf type id] := by
    intro type id wf blank recognized
    have kept := (recognized_lf (by simpa using wf)).mp recognized _ (List.mem_singleton_self _)
    rcases blank with start | ⟨t, rfl, blank⟩
    · exact kept.1 start
    · exact blank.elim (kept.2 t.toList rfl).1 (kept.2 t.toList rfl).2
  have wf : (eventOf " tick" none).WellFormed :=
    eventOf_wellFormed (by decide) ⟨by decide, by decide⟩ (by simp)
  have wf' : ∀ id : String, OneLine id.toList → (eventOf "tick" (some id)).WellFormed := by
    intro id oneLine
    exact eventOf_wellFormed (by decide) ⟨by decide, by decide⟩ (by simpa using oneLine)
  have before := wf' " 7" ⟨by decide, by decide⟩
  have after := wf' "7 " ⟨by decide, by decide⟩
  refine ⟨?_, ⟨wf, padded _ _ wf ?_⟩, ⟨before, padded _ _ before ?_⟩, after, padded _ _ after ?_⟩
  · intro lineEnd cr recognized
    rw [Recognized, feedChunk_encode_cr cr tick_wellFormed] at recognized
    simp at recognized
  · exact .inl ⟨' ', rfl, by decide⟩
  · exact .inr ⟨" 7", rfl, .inl ⟨' ', rfl, by decide⟩⟩
  · exact .inr ⟨"7 ", rfl, .inr ⟨' ', rfl, by decide⟩⟩

end Protospy
