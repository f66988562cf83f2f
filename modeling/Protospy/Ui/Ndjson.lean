import Protospy.Ui.JsonWorker
import Protospy.Ui.SseFormat

/-!
# Documents on lines and their prefixes

A text of documents, each serialized on a line of its own between white space, is read
back by `parseNdjson`. Of a prefix it reads the documents that are whole and what is
recovered of the one that the cut goes through.
-/

namespace Protospy

/-! ## Trimming -/

namespace Text

/-- White space only. -/
def Blank (t : Text) : Prop := ∀ c ∈ t, isWhitespace c = true

instance (t : Text) : Decidable t.Blank :=
  inferInstanceAs (Decidable (∀ c ∈ t, isWhitespace c = true))

theorem Blank.take {t : Text} (blank : Blank t) (n : Nat) : Blank (t.take n) :=
  fun c member => blank c (List.mem_of_mem_take member)

theorem trimEnd_append_blank {pad : Text} (blank : Blank pad) (t : Text) :
    trimEnd (t ++ pad) = trimEnd t := by
  have reversed : ∀ c ∈ pad.reverse, isWhitespace c = true :=
    fun c member => blank c (List.mem_reverse.mp member)
  rw [trimEnd, trimEnd, List.reverse_append, List.dropWhile_append_of_pos reversed]

theorem trim_blank {t : Text} (blank : Blank t) : trim t = [] := by
  have nothing : trimStart t = [] := List.dropWhile_eq_nil_iff.mpr blank
  rw [trim, nothing]
  rfl

theorem trim_padded {before t after : Text} (first : Blank before) (last : Blank after)
    (nonempty : t ≠ []) (solid : ¬ t.StartsBlank) :
    trim (before ++ t ++ after) = trimEnd t := by
  obtain ⟨c, rest, rfl⟩ := List.exists_cons_of_ne_nil nonempty
  have kept : trimStart (c :: rest ++ after) = c :: rest ++ after :=
    (trimStart_eq_self_iff _).mpr solid
  have skipped : trimStart (before ++ (c :: rest ++ after)) = trimStart (c :: rest ++ after) :=
    List.dropWhile_append_of_pos first
  rw [trim, List.append_assoc, skipped, kept, trimEnd_append_blank last]

/-- Trimming the end of a text keeps its first characters. -/
theorem trimEnd_eq_take (t : Text) : trimEnd t = t.take (trimEnd t).length :=
  List.prefix_iff_eq_take.mp (List.rdropWhile_prefix isWhitespace t)

theorem trimEnd_length_le (t : Text) : (trimEnd t).length ≤ t.length :=
  (List.rdropWhile_prefix isWhitespace t).length_le

theorem trimEnd_ne_nil {t : Text} (nonempty : t ≠ []) (solid : ¬ t.StartsBlank) :
    trimEnd t ≠ [] := by
  obtain ⟨c, rest, rfl⟩ := List.exists_cons_of_ne_nil nonempty
  intro empty
  have all := List.dropWhile_eq_nil_iff.mp (List.reverse_eq_nil_iff.mp empty)
  exact solid ⟨c, rfl, all c (by simp)⟩

end Text

section Ndjson

variable {N : Type*} [JsNumber N]

/-! ## Texts of documents -/

/-- An object or an array serialized on one line. -/
structure Serialized (N : Type*) [JsNumber N] where
  text : Text
  value : JsonValue N
  structural : value.isStructural = true
  parses : JSON.parse text = some value
  oneLine : '\n' ∉ text
  opens : text.head? = some '\x7b' ∨ text.head? = some '['
  closes : text.getLast? = some '\x7d' ∨ text.getLast? = some ']'

/-- White space around a document or, on a blank line, around nothing. A line that ends
in CRLF has the CR in its white space. -/
structure NdjsonLine (N : Type*) [JsNumber N] where
  before : Text
  document : Option (Serialized N)
  after : Text
  blankBefore : before.Blank
  blankAfter : after.Blank
  oneLine : '\n' ∉ before ++ after

def NdjsonLine.content (line : NdjsonLine N) : Text :=
  match line.document with
  | some document => document.text
  | none => []

def NdjsonLine.text (line : NdjsonLine N) : Text := line.before ++ line.content ++ line.after

def ndjsonText (lines : List (NdjsonLine N)) : Text :=
  ['\n'].intercalate (lines.map NdjsonLine.text)

/-- A document and the offset at which it starts in the text. -/
structure Placed (N : Type*) [JsNumber N] where
  start : Nat
  document : Serialized N

namespace Placed

def stop (placed : Placed N) : Nat := placed.start + placed.document.text.length

/-- The document lies in the first `n` characters. -/
def Whole (n : Nat) (placed : Placed N) : Prop := placed.stop ≤ n

/-- The end of the first `n` characters falls strictly inside the document. -/
def Cut (n : Nat) (placed : Placed N) : Prop := placed.start < n ∧ n < placed.stop

instance (n : Nat) (placed : Placed N) : Decidable (placed.Whole n) :=
  inferInstanceAs (Decidable (_ ≤ _))

instance (n : Nat) (placed : Placed N) : Decidable (placed.Cut n) :=
  inferInstanceAs (Decidable (_ ∧ _))

/-- What the first `n` characters have of the document, without white space at its end. -/
def readable (n : Nat) (placed : Placed N) : Text :=
  Text.trimEnd (placed.document.text.take (n - placed.start))

end Placed

def placedFrom : Nat → List (NdjsonLine N) → List (Placed N)
  | _, [] => []
  | start, line :: rest =>
    (line.document.toList.map fun document => ⟨start + line.before.length, document⟩) ++
      placedFrom (start + line.text.length + 1) rest

/-! ## Documents in their order -/

theorem Serialized.text_ne_nil (document : Serialized N) : document.text ≠ [] := by
  rintro empty
  have opens := document.opens
  rw [empty] at opens
  rcases opens with opens | opens <;> cases opens

theorem Serialized.not_startsBlank (document : Serialized N) :
    ¬ Text.StartsBlank document.text := by
  rintro ⟨c, first, blank⟩
  rcases document.opens with opens | opens
  · rw [opens] at first
    obtain rfl := Option.some.inj first
    exact absurd blank (by decide)
  · rw [opens] at first
    obtain rfl := Option.some.inj first
    exact absurd blank (by decide)

theorem Serialized.not_endsBlank (document : Serialized N) : ¬ Text.EndsBlank document.text := by
  rintro ⟨c, last, blank⟩
  rcases document.closes with closes | closes
  · rw [closes] at last
    obtain rfl := Option.some.inj last
    exact absurd blank (by decide)
  · rw [closes] at last
    obtain rfl := Option.some.inj last
    exact absurd blank (by decide)

theorem Placed.start_lt_stop (placed : Placed N) : placed.start < placed.stop := by
  have nonempty := List.length_pos_iff.mpr placed.document.text_ne_nil
  simp only [Placed.stop]
  omega

theorem NdjsonLine.length_text (line : NdjsonLine N) :
    line.text.length = line.before.length + line.content.length + line.after.length := by
  rw [NdjsonLine.text, List.length_append, List.length_append]

theorem placedFrom_le (start : Nat) (lines : List (NdjsonLine N)) :
    ∀ placed ∈ placedFrom start lines, start ≤ placed.start := by
  induction lines generalizing start with
  | nil => simp [placedFrom]
  | cons line lines ih =>
    intro placed member
    rw [placedFrom] at member
    rcases List.mem_append.mp member with here | later
    · obtain ⟨document, -, rfl⟩ := List.mem_map.mp here
      exact Nat.le_add_right _ _
    · have := ih _ placed later
      omega

/-- The documents follow one another. -/
theorem placedFrom_pairwise (start : Nat) (lines : List (NdjsonLine N)) :
    (placedFrom start lines).Pairwise fun a b => a.stop ≤ b.start := by
  induction lines generalizing start with
  | nil => exact List.Pairwise.nil
  | cons line lines ih =>
    rw [placedFrom]
    refine List.pairwise_append.mpr ⟨?_, ih _, ?_⟩
    · cases line.document with
      | none => exact List.Pairwise.nil
      | some document => exact List.pairwise_singleton _ _
    · intro a here b later
      obtain ⟨document, present, rfl⟩ := List.mem_map.mp here
      have content : line.content = document.text := by
        rw [NdjsonLine.content, Option.mem_toList.mp present]
      have far := placedFrom_le _ lines b later
      rw [line.length_text, content] at far
      simp only [Placed.stop]
      omega

theorem ndjsonText_singleton (line : NdjsonLine N) : ndjsonText [line] = line.text := by
  rw [ndjsonText, List.map_singleton, List.intercalate_singleton]

theorem ndjsonText_cons {line : NdjsonLine N} {lines : List (NdjsonLine N)} (more : lines ≠ []) :
    ndjsonText (line :: lines) = line.text ++ '\n' :: ndjsonText lines := by
  rw [ndjsonText, List.map_cons, List.intercalate_cons_of_ne_nil (by simpa using more)]
  simp [ndjsonText]

theorem placedFrom_stop_le (start : Nat) (lines : List (NdjsonLine N)) :
    ∀ placed ∈ placedFrom start lines, placed.stop ≤ start + (ndjsonText lines).length := by
  induction lines generalizing start with
  | nil => simp [placedFrom]
  | cons line lines ih =>
    intro placed member
    have text : line.text.length ≤ (ndjsonText (line :: lines)).length ∧
        (lines ≠ [] → (ndjsonText (line :: lines)).length =
          line.text.length + 1 + (ndjsonText lines).length) := by
      by_cases only : lines = []
      · subst only
        exact ⟨by rw [ndjsonText_singleton], fun more => absurd rfl more⟩
      · rw [ndjsonText_cons only, List.length_append, List.length_cons]
        exact ⟨by omega, fun _ => by omega⟩
    rw [placedFrom] at member
    rcases List.mem_append.mp member with here | later
    · obtain ⟨document, present, rfl⟩ := List.mem_map.mp here
      have content : line.content = document.text := by
        rw [NdjsonLine.content, Option.mem_toList.mp present]
      have length := line.length_text
      rw [content] at length
      simp only [Placed.stop]
      omega
    · have more : lines ≠ [] := by
        rintro rfl
        cases later
      have inside := ih _ placed later
      have := text.2 more
      omega

theorem document_of_mem_placedFrom {start : Nat} {lines : List (NdjsonLine N)} {placed : Placed N}
    (member : placed ∈ placedFrom start lines) :
    ∃ line ∈ lines, line.document = some placed.document := by
  induction lines generalizing start with
  | nil => cases member
  | cons line lines ih =>
    rw [placedFrom] at member
    rcases List.mem_append.mp member with here | later
    · obtain ⟨document, present, rfl⟩ := List.mem_map.mp here
      exact ⟨line, List.mem_cons_self, Option.mem_toList.mp present⟩
    · obtain ⟨line', inside, present⟩ := ih later
      exact ⟨line', List.mem_cons_of_mem _ inside, present⟩

theorem map_document_placedFrom (start : Nat) (lines : List (NdjsonLine N)) :
    (placedFrom start lines).map Placed.document = lines.filterMap NdjsonLine.document := by
  induction lines generalizing start with
  | nil => rfl
  | cons line lines ih =>
    rw [placedFrom, List.map_append, ih, List.filterMap_cons]
    cases line.document <;> rfl

/-- No other document is cut where one is. -/
theorem filter_cut {n : Nat} {all : List (Placed N)}
    (ordered : all.Pairwise fun a b => a.stop ≤ b.start) {placed : Placed N}
    (member : placed ∈ all) (cut : placed.Cut n) :
    all.filter (fun other => other.Cut n) = [placed] := by
  induction all with
  | nil => cases member
  | cons first rest ih =>
    obtain ⟨before, ordered'⟩ := List.pairwise_cons.mp ordered
    rcases List.mem_cons.mp member with same | later
    · have none : rest.filter (fun other => other.Cut n) = [] := by
        rw [List.filter_eq_nil_iff]
        intro other inside cut'
        have after := before other inside
        have early : other.start < n := (of_decide_eq_true cut').1
        have late : n < first.stop := same ▸ cut.2
        omega
      rw [List.filter_cons, none, if_pos (by simpa [same] using cut), same]
    · have apart : ¬ first.Cut n := by
        have := before placed later
        have := first.start_lt_stop
        simp only [Placed.Cut] at cut ⊢
        omega
      rw [List.filter_cons, if_neg (mt of_decide_eq_true apart), ih ordered' later]

/-! ## The lines of a prefix -/

/-- The lines that `parseNdjson` parses. -/
def nonBlankLines (text : Text) : List Text :=
  ((text.splitOn '\n').map Text.trim).filter fun line => line ≠ []

theorem nonBlankLines_cons {line : Text} (oneLine : '\n' ∉ line) (rest : Text) :
    nonBlankLines (line ++ '\n' :: rest) = nonBlankLines line ++ nonBlankLines rest := by
  rw [nonBlankLines, List.splitOn_append_cons_self_of_not_mem oneLine, nonBlankLines,
    List.splitOn_eq_singleton oneLine, List.map_cons, ← List.singleton_append, List.filter_append]
  rfl

theorem nonBlankLines_blank {line : Text} (oneLine : '\n' ∉ line) (blank : line.trim = []) :
    nonBlankLines line = [] := by
  rw [nonBlankLines, List.splitOn_eq_singleton oneLine, List.map_singleton, blank]
  rfl

theorem nonBlankLines_solid {line : Text} (oneLine : '\n' ∉ line) (solid : line.trim ≠ []) :
    nonBlankLines line = [line.trim] := by
  rw [nonBlankLines, List.splitOn_eq_singleton oneLine, List.map_singleton,
    List.filter_cons_of_pos (by simpa using solid), List.filter_nil]

theorem NdjsonLine.notMem_text (line : NdjsonLine N) : '\n' ∉ line.text := by
  have oneLine := line.oneLine
  rw [List.mem_append, not_or] at oneLine
  rw [NdjsonLine.text, List.mem_append, List.mem_append, not_or, not_or]
  refine ⟨⟨oneLine.1, ?_⟩, oneLine.2⟩
  rw [NdjsonLine.content]
  cases line.document with
  | none => exact List.not_mem_nil
  | some document => exact document.oneLine

/-- What is read of a document in the first `n` characters. -/
def Placed.read (n : Nat) (placed : Placed N) : Option Text :=
  if placed.Whole n then some placed.document.text
  else if placed.Cut n then some (placed.readable n)
  else none

theorem Placed.read_of_le {n : Nat} {placed : Placed N} (outside : n ≤ placed.start) :
    placed.read n = none := by
  have := placed.start_lt_stop
  rw [Placed.read, if_neg (by simp only [Placed.Whole]; omega),
    if_neg (by simp only [Placed.Cut]; omega)]

theorem filterMap_read_of_le {n start : Nat} (outside : n ≤ start) (lines : List (NdjsonLine N)) :
    (placedFrom start lines).filterMap (Placed.read n) = [] := by
  rw [List.filterMap_eq_nil_iff]
  intro placed member
  have := placedFrom_le start lines placed member
  exact Placed.read_of_le (by omega)

/-- A prefix of a line that holds one document. -/
theorem NdjsonLine.take_text {line : NdjsonLine N} {document : Serialized N}
    (present : line.document = some document) (m : Nat) :
    line.text.take m = line.before.take m ++ document.text.take (m - line.before.length) ++
      line.after.take (m - line.before.length - document.text.length) := by
  have content : line.content = document.text := by rw [NdjsonLine.content, present]
  rw [NdjsonLine.text, content, List.take_append, List.take_append, List.length_append,
    Nat.sub_add_eq]

theorem NdjsonLine.blank_text {line : NdjsonLine N} (absent : line.document = none) :
    line.text.Blank := by
  intro c member
  rw [NdjsonLine.text, NdjsonLine.content, absent, List.append_nil] at member
  rcases List.mem_append.mp member with first | last
  · exact line.blankBefore c first
  · exact line.blankAfter c last

theorem NdjsonLine.notMem_take (line : NdjsonLine N) (m : Nat) : '\n' ∉ line.text.take m :=
  fun member => line.notMem_text (List.mem_of_mem_take member)

/-- A cut in the white space before the document leaves nothing to read. -/
theorem NdjsonLine.nonBlankLines_before {line : NdjsonLine N} {document : Serialized N}
    (present : line.document = some document) {m : Nat} (early : m ≤ line.before.length) :
    nonBlankLines (line.text.take m) = [] := by
  have text := line.take_text present m
  rw [Nat.sub_eq_zero_of_le early, Nat.zero_sub, List.take_zero, List.take_zero,
    List.append_nil, List.append_nil] at text
  rw [nonBlankLines_blank (line.notMem_take m)]
  rw [text]
  exact Text.trim_blank (line.blankBefore.take _)

/-- A later cut leaves the document's part before it, without the blanks at its end. -/
theorem NdjsonLine.nonBlankLines_within {line : NdjsonLine N} {document : Serialized N}
    (present : line.document = some document) {m : Nat} (late : line.before.length < m) :
    nonBlankLines (line.text.take m) =
      [Text.trimEnd (document.text.take (m - line.before.length))] := by
  have text := line.take_text present m
  rw [List.take_of_length_le (Nat.le_of_lt late)] at text
  have part : document.text.take (m - line.before.length) ≠ [] := by
    rw [ne_eq, List.take_eq_nil_iff, not_or]
    exact ⟨by omega, document.text_ne_nil⟩
  have solid : ¬ Text.StartsBlank (document.text.take (m - line.before.length)) := by
    rintro ⟨c, first, blank⟩
    rw [List.head?_take, if_neg (by omega)] at first
    exact document.not_startsBlank ⟨c, first, blank⟩
  have trimmed := Text.trim_padded line.blankBefore
    (line.blankAfter.take (m - line.before.length - document.text.length)) part solid
  rw [← text] at trimmed
  rw [nonBlankLines_solid (line.notMem_take m) (trimmed ▸ Text.trimEnd_ne_nil part solid), trimmed]

/-- The text that the cut leaves of a document is the one that is read. -/
theorem Placed.read_of_lt {n start : Nat} {document : Serialized N} (late : start < n) :
    Placed.read n ⟨start, document⟩ =
      some (Text.trimEnd (document.text.take (n - start))) := by
  by_cases whole : (⟨start, document⟩ : Placed N).Whole n
  · have fits : start + document.text.length ≤ n := whole
    rw [List.take_of_length_le (by omega : document.text.length ≤ n - start),
      (Text.trimEnd_eq_self_iff _).mpr document.not_endsBlank, Placed.read, if_pos whole]
  · rw [Placed.read, if_neg whole, if_pos ⟨late, Nat.lt_of_not_le whole⟩]
    rfl

theorem nonBlankLines_take (line : NdjsonLine N) (start n : Nat) :
    nonBlankLines (line.text.take (n - start)) =
      (placedFrom start [line]).filterMap (Placed.read n) := by
  cases present : line.document with
  | none =>
    rw [nonBlankLines_blank (line.notMem_take _)
      (Text.trim_blank ((NdjsonLine.blank_text present).take _)), placedFrom, present]
    rfl
  | some document =>
    have placed : placedFrom start [line] = [⟨start + line.before.length, document⟩] := by
      rw [placedFrom, present]
      rfl
    rw [placed]
    by_cases early : n ≤ start + line.before.length
    · rw [NdjsonLine.nonBlankLines_before present (by omega),
        List.filterMap_cons_none (Placed.read_of_le early), List.filterMap_nil]
    · have late : start + line.before.length < n := Nat.lt_of_not_le early
      rw [NdjsonLine.nonBlankLines_within present (by omega),
        List.filterMap_cons_some (Placed.read_of_lt late), List.filterMap_nil, Nat.sub_add_eq]

theorem nonBlankLines_take_ndjsonText (lines : List (NdjsonLine N)) (start n : Nat) :
    nonBlankLines ((ndjsonText lines).take (n - start)) =
      (placedFrom start lines).filterMap (Placed.read n) := by
  induction lines generalizing start with
  | nil => rw [ndjsonText, List.map_nil, List.intercalate_nil, List.take_nil]; rfl
  | cons line lines ih =>
    by_cases only : lines = []
    · rw [only, ndjsonText_singleton, nonBlankLines_take]
    · have split : placedFrom start (line :: lines) =
          placedFrom start [line] ++ placedFrom (start + line.text.length + 1) lines := by
        rw [placedFrom, placedFrom, placedFrom, List.append_nil]
      rw [ndjsonText_cons only, split, List.filterMap_append, List.take_append,
        ← nonBlankLines_take]
      by_cases inside : n ≤ start + line.text.length
      · rw [show n - start - line.text.length = 0 by omega, List.take_zero, List.append_nil,
          filterMap_read_of_le (by omega), List.append_nil]
      · rw [List.take_of_length_le (by omega : line.text.length ≤ n - start),
          show n - start - line.text.length = n - (start + line.text.length + 1) + 1 by omega,
          List.take_succ_cons, nonBlankLines_cons line.notMem_text, ih]

theorem filterMap_read {n : Nat} {all : List (Placed N)}
    (ordered : all.Pairwise fun a b => a.stop ≤ b.start) :
    all.filterMap (Placed.read n) =
      (all.filter fun placed => placed.Whole n).map (fun placed => placed.document.text) ++
        (all.filter fun placed => placed.Cut n).map (Placed.readable n) := by
  induction all with
  | nil => rfl
  | cons first rest ih =>
    obtain ⟨before, ordered'⟩ := List.pairwise_cons.mp ordered
    rw [List.filterMap_cons, ih ordered', Placed.read]
    by_cases whole : first.Whole n
    · have apart : ¬ first.Cut n := fun cut => absurd cut.2 (Nat.not_lt.mpr whole)
      rw [if_pos whole, List.filter_cons, if_pos (decide_eq_true whole), List.filter_cons,
        if_neg (mt of_decide_eq_true apart)]
      rfl
    · have later : rest.filter (fun placed => placed.Whole n) = [] := by
        rw [List.filter_eq_nil_iff]
        intro placed inside whole'
        have after := before placed inside
        have := placed.start_lt_stop
        have fits : placed.stop ≤ n := of_decide_eq_true whole'
        exact whole (show first.stop ≤ n by omega)
      rw [if_neg whole, List.filter_cons, if_neg (mt of_decide_eq_true whole), later]
      by_cases cut : first.Cut n
      · have alone := filter_cut ordered List.mem_cons_self cut
        have others := alone
        rw [List.filter_cons, if_pos (decide_eq_true cut)] at others
        rw [if_pos cut, alone, (List.cons.inj others).2]
        rfl
      · rw [if_neg cut, List.filter_cons, if_neg (mt of_decide_eq_true cut)]

/-! ## Parsing the lines -/

variable (bestEffortParse : Text → Option (JsonValue N))

theorem parseNdjson_eq (text : Text) :
    parseNdjson bestEffortParse text =
      (nonBlankLines text).zipIdx.foldl (fun result (line, i) =>
        parseLine bestEffortParse result line (i + 1 = (nonBlankLines text).length)) ⟨[], none⟩ :=
  rfl

/-- Whole lines are parsed wherever they stand. -/
theorem foldl_parseLine_whole (documents : List (Serialized N)) (n k : Nat)
    (result : NdjsonParseResult N) :
    ((documents.map Serialized.text).zipIdx k).foldl (fun result (line, i) =>
        parseLine bestEffortParse result line (i + 1 = n)) result =
      { result with documents := result.documents ++ documents.map Serialized.value } := by
  induction documents generalizing k result with
  | nil => rw [List.map_nil, List.map_nil, List.append_nil]; rfl
  | cons document documents ih =>
    have first (last : Bool) : parseLine bestEffortParse result document.text last =
        { result with documents := result.documents ++ [document.value] } := by
      rw [parseLine, document.parses]
    simp only [List.map_cons, List.zipIdx_cons, List.foldl_cons, first]
    rw [ih, List.append_assoc]
    rfl

theorem parseNdjson_whole {text : Text} {documents : List (Serialized N)}
    (lines : nonBlankLines text = documents.map Serialized.text) :
    parseNdjson bestEffortParse text = ⟨documents.map Serialized.value, none⟩ := by
  rw [parseNdjson_eq, lines, foldl_parseLine_whole]
  rfl

theorem parseNdjson_cut {text cut : Text} {documents : List (Serialized N)}
    (lines : nonBlankLines text = documents.map Serialized.text ++ [cut])
    (rejected : JSON.parse cut = (none : Option (JsonValue N))) {recovered : JsonValue N}
    (recovers : bestEffortParse cut = some recovered) (structural : recovered.isStructural = true) :
    parseNdjson bestEffortParse text =
      ⟨documents.map Serialized.value ++ [recovered], some documents.length⟩ := by
  have last : parseWithTruncation bestEffortParse cut =
      some ⟨⟨recovered, JSON.stringify recovered 2⟩, true⟩ := by
    rw [parseWithTruncation, parseAndFormat, rejected, Option.map_none, recovers]
    exact if_pos structural
  rw [parseNdjson_eq, lines, List.zipIdx_append, List.foldl_append, foldl_parseLine_whole,
    List.zipIdx_singleton, List.foldl_cons, List.foldl_nil]
  change parseLine bestEffortParse _ cut (decide _) = _
  rw [decide_eq_true (by simp), parseLine, rejected, last]
  simp

/-! ## Prefixes -/

/-- `JSON.parse` takes no shorter text. -/
def Serialized.RejectedCut (document : Serialized N) : Prop :=
  ∀ k, 0 < k → k < document.text.length →
    JSON.parse (document.text.take k) = (none : Option (JsonValue N))

/-- Of every shorter text an object or an array is recovered. -/
def Serialized.RecoveredCut (document : Serialized N) : Prop :=
  ∀ k, 0 < k → k < document.text.length → ∃ recovered,
    bestEffortParse (document.text.take k) = some recovered ∧ recovered.isStructural = true

/-- The values of the documents that lie in the first `n` characters. -/
def wholeValues (n : Nat) (lines : List (NdjsonLine N)) : List (JsonValue N) :=
  ((placedFrom 0 lines).filter fun placed => placed.Whole n).map fun placed => placed.document.value

theorem nonBlankLines_prefix (lines : List (NdjsonLine N)) (n : Nat) :
    nonBlankLines ((ndjsonText lines).take n) =
      (((placedFrom 0 lines).filter fun placed => placed.Whole n).map Placed.document).map
          Serialized.text ++
        ((placedFrom 0 lines).filter fun placed => placed.Cut n).map (Placed.readable n) := by
  have read := nonBlankLines_take_ndjsonText lines 0 n
  rw [Nat.sub_zero, filterMap_read (placedFrom_pairwise 0 lines)] at read
  rw [read, List.map_map]
  rfl

theorem parseNdjson_between (lines : List (NdjsonLine N)) {n : Nat}
    (between : ∀ placed ∈ placedFrom 0 lines, ¬ placed.Cut n) :
    parseNdjson bestEffortParse ((ndjsonText lines).take n) = ⟨wholeValues n lines, none⟩ := by
  have cutless : (placedFrom 0 lines).filter (fun placed => placed.Cut n) = [] := by
    rw [List.filter_eq_nil_iff]
    exact fun placed member cut => between placed member (of_decide_eq_true cut)
  have read := nonBlankLines_prefix lines n
  rw [cutless, List.map_nil, List.append_nil] at read
  rw [parseNdjson_whole bestEffortParse read, List.map_map]
  rfl

/-- What is left of a document that is cut is a shorter text of it. -/
theorem Placed.readable_eq_take {n : Nat} {placed : Placed N} (cut : placed.Cut n) :
    ∃ k, 0 < k ∧ k < placed.document.text.length ∧
      placed.readable n = placed.document.text.take k := by
  have early := cut.1
  have late : n < placed.start + placed.document.text.length := cut.2
  have part : placed.document.text.take (n - placed.start) ≠ [] := by
    rw [ne_eq, List.take_eq_nil_iff, not_or]
    exact ⟨by omega, placed.document.text_ne_nil⟩
  have solid : ¬ Text.StartsBlank (placed.document.text.take (n - placed.start)) := by
    rintro ⟨c, first, blank⟩
    rw [List.head?_take, if_neg (by omega)] at first
    exact placed.document.not_startsBlank ⟨c, first, blank⟩
  have nonempty := List.length_pos_iff.mpr (Text.trimEnd_ne_nil part solid)
  have short := Text.trimEnd_length_le (placed.document.text.take (n - placed.start))
  have same := Text.trimEnd_eq_take (placed.document.text.take (n - placed.start))
  rw [List.length_take] at short
  rw [List.take_take, Nat.min_eq_left (by omega)] at same
  exact ⟨_, nonempty, by omega, same⟩

theorem parseNdjson_inside {lines : List (NdjsonLine N)} {n : Nat} {placed : Placed N}
    (member : placed ∈ placedFrom 0 lines) (cut : placed.Cut n)
    (rejected : placed.document.RejectedCut)
    (recoverable : placed.document.RecoveredCut bestEffortParse) :
    ∃ recovered, bestEffortParse (placed.readable n) = some recovered ∧
      recovered.isStructural = true ∧
      parseNdjson bestEffortParse ((ndjsonText lines).take n) =
        ⟨wholeValues n lines ++ [recovered], some (wholeValues n lines).length⟩ := by
  obtain ⟨k, nonempty, shorter, part⟩ := Placed.readable_eq_take cut
  obtain ⟨recovered, recovers, structural⟩ := recoverable k nonempty shorter
  have read := nonBlankLines_prefix lines n
  rw [filter_cut (placedFrom_pairwise 0 lines) member cut, List.map_singleton] at read
  have strict : JSON.parse (placed.readable n) = (none : Option (JsonValue N)) := by
    rw [part, rejected k nonempty shorter]
  rw [← part] at recovers
  refine ⟨recovered, recovers, structural, ?_⟩
  rw [parseNdjson_cut bestEffortParse read strict recovers structural, wholeValues, List.map_map,
    List.length_map, List.length_map]
  rfl

/-- The documents of a text are read in their order. Of a prefix those that lie in it are
read, and after them, if and only if the prefix ends inside a document, what is recovered
of that one, marked as truncated. -/
theorem parseNdjson_take (lines : List (NdjsonLine N))
    (rejected : ∀ line ∈ lines, ∀ document ∈ line.document, document.RejectedCut)
    (recoverable : ∀ line ∈ lines, ∀ document ∈ line.document,
      document.RecoveredCut bestEffortParse) (n : Nat) :
    parseNdjson bestEffortParse (ndjsonText lines) =
      ⟨(lines.filterMap NdjsonLine.document).map Serialized.value, none⟩ ∧
    ((∀ placed ∈ placedFrom 0 lines, ¬ placed.Cut n) →
      parseNdjson bestEffortParse ((ndjsonText lines).take n) = ⟨wholeValues n lines, none⟩) ∧
    ∀ placed ∈ placedFrom 0 lines, placed.Cut n →
      ∃ recovered, bestEffortParse (placed.readable n) = some recovered ∧
        recovered.isStructural = true ∧
        parseNdjson bestEffortParse ((ndjsonText lines).take n) =
          ⟨wholeValues n lines ++ [recovered], some (wholeValues n lines).length⟩ := by
  refine ⟨?_, parseNdjson_between bestEffortParse lines, fun placed member cut => ?_⟩
  · have stops : ∀ placed ∈ placedFrom 0 lines, placed.stop ≤ (ndjsonText lines).length := by
      intro placed member
      have := placedFrom_stop_le 0 lines placed member
      omega
    have all : (placedFrom 0 lines).filter (fun placed => placed.Whole (ndjsonText lines).length) =
        placedFrom 0 lines := by
      rw [List.filter_eq_self]
      exact fun placed member => decide_eq_true (stops placed member)
    have read := parseNdjson_between bestEffortParse lines
      fun placed member cut => absurd cut.2 (Nat.not_lt.mpr (stops placed member))
    rw [List.take_length, wholeValues, all] at read
    rw [read, ← map_document_placedFrom 0, List.map_map]
    rfl
  · obtain ⟨line, inside, present⟩ := document_of_mem_placedFrom member
    exact parseNdjson_inside bestEffortParse member cut (rejected line inside _ present)
      (recoverable line inside _ present)

end Ndjson

/-- What is recovered of the text `[2]` when its end is cut off. -/
def recoverStart (text : Text) : Option (JsonValue Int) :=
  if text = "[".toList then some (.array [])
  else if text = "[2".toList then some (.array [.primitive (.number 2)])
  else none

def serializedTwo : Serialized Int where
  text := "[2]".toList
  value := .array [.primitive (.number 2)]
  structural := rfl
  parses := rfl
  oneLine := mt List.elem_eq_true_of_mem (ne_true_of_eq_false rfl)
  opens := .inr rfl
  closes := .inr rfl

/-- A document with a space before it and a CR after it, a blank line and the document again. -/
def linesOfTwo : List (NdjsonLine Int) :=
  [⟨[' '], some serializedTwo, ['\r'], List.all_eq_true.mp rfl, List.all_eq_true.mp rfl,
      mt List.elem_eq_true_of_mem (ne_true_of_eq_false rfl)⟩,
    ⟨[], none, [], List.forall_mem_nil _, List.forall_mem_nil _, List.not_mem_nil⟩,
    ⟨[], some serializedTwo, [], List.forall_mem_nil _, List.forall_mem_nil _, List.not_mem_nil⟩]

theorem parseNdjson_take_linesOfTwo :
    parseNdjson recoverStart " [2]\r\n\n[2]".toList =
      ⟨[serializedTwo.value, serializedTwo.value], none⟩ ∧
    parseNdjson recoverStart " [2]\r\n\n[2".toList =
      ⟨[serializedTwo.value, serializedTwo.value], some 1⟩ := by
  have only : ∀ line ∈ linesOfTwo, ∀ document ∈ line.document, document = serializedTwo := by
    intro line member document present
    simp only [linesOfTwo, List.mem_cons, List.not_mem_nil, or_false] at member
    rcases member with rfl | rfl | rfl
    · exact (Option.some.inj present).symm
    · cases present
    · exact (Option.some.inj present).symm
  have cuts : ∀ k, 0 < k → k < serializedTwo.text.length → k = 1 ∨ k = 2 := by
    intro k nonempty shorter
    have three : serializedTwo.text.length = 3 := rfl
    omega
  have law := parseNdjson_take recoverStart linesOfTwo
    (fun line member document present k nonempty shorter => by
      obtain rfl := only line member document present
      rcases cuts k nonempty shorter with rfl | rfl <;> rfl)
    (fun line member document present k nonempty shorter => by
      obtain rfl := only line member document present
      rcases cuts k nonempty shorter with rfl | rfl <;> exact ⟨_, rfl, rfl⟩) 9
  refine ⟨law.1, ?_⟩
  obtain ⟨recovered, recovers, -, read⟩ := law.2.2 ⟨7, serializedTwo⟩ (by
    rw [linesOfTwo]; exact List.mem_cons_of_mem _ List.mem_cons_self) (by decide)
  obtain rfl := Option.some.inj recovers
  exact read

end Protospy
