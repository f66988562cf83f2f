import Protospy.Lib.Paragraphs
import Protospy.Ui.JsonStringify
import Protospy.Ui.JsonWorker

/-!
# The text of the documents

The worker writes the documents of a body with an empty line between them. No line of a
document is empty, so the documents can be read back.
-/

namespace Protospy

namespace JSON

variable {N : Type*} [JsNumber N]

/-! ## What is written has no empty line -/

theorem lineFeed_not_mem_quoteUnit (u : UInt16) : (10 : UInt16) ∉ quoteUnit u := by
  have digits : ∀ n < 16, hexDigit n ≠ 10 := by decide
  have small := u.toNat_lt
  rw [quoteUnit]
  split_ifs with h₈ h₉ h₁₀ h₁₂ h₁₃ h₃₄ h₉₂ special
  all_goals try decide
  · have letters : js "\\u" = [92, 117] := by decide
    rw [unicodeEscape, letters]
    intro member
    rcases List.mem_append.mp member with sign | digit
    · exact absurd sign (by decide)
    · simp only [List.mem_cons, List.not_mem_nil, or_false] at digit
      rcases digit with h | h | h | h
      · exact digits _ (by omega) h.symm
      · exact digits _ (by omega) h.symm
      · exact digits _ (by omega) h.symm
      · exact digits _ (by omega) h.symm
  · exact fun member => h₁₀ (List.mem_singleton.mp member).symm

theorem lineFeed_not_mem_quoteUnits : ∀ s : JsString, (10 : UInt16) ∉ quoteUnits s
  | [] => List.not_mem_nil
  | [u] => lineFeed_not_mem_quoteUnit u
  | high :: low :: s => by
    rw [quoteUnits]
    split_ifs with pair
    · obtain ⟨isHigh, isLow⟩ := Bool.and_eq_true_iff.mp pair
      intro member
      rcases List.mem_cons.mp member with rfl | member
      · cases isHigh
      · rcases List.mem_cons.mp member with rfl | member
        · cases isLow
        · exact lineFeed_not_mem_quoteUnits s member
    · exact fun member => (List.mem_append.mp member).elim (lineFeed_not_mem_quoteUnit high)
        (lineFeed_not_mem_quoteUnits (low :: s))

theorem paragraph_quote (s : JsString) : Paragraph 10 (quote s) := by
  have mark : js "\"" = [34] := by decide
  refine .of_not_mem ?_ ?_
  · rw [quote, mark]
    exact List.cons_ne_nil _ _
  · rw [quote, mark]
    simp [lineFeed_not_mem_quoteUnits]

theorem lineFeed_not_mem_ofChar {c : Char} (number : IsNumberChar c) :
    (10 : UInt16) ∉ JsString.ofChar c := by
  rcases number with digit | rfl | rfl | rfl | rfl | rfl
  · simp only [Char.isDigit, Bool.and_eq_true, decide_eq_true_eq, UInt32.le_iff_toNat_le] at digit
    have low : 48 ≤ c.toNat := digit.1
    have high : c.toNat ≤ 57 := digit.2
    rw [JsString.ofChar]
    intro member
    simp only [show c.toNat < 0x10000 by omega, if_true, List.mem_singleton] at member
    have same := congrArg UInt16.toNat member
    rw [Nat.toUInt16, UInt16.toNat_ofNat', Nat.mod_eq_of_lt (by omega)] at same
    rw [← same] at low
    exact absurd low (by decide)
  all_goals decide

theorem paragraph_number {n : N} (kept : NumberKept n) : Paragraph 10 (JsNumber.toText n) := by
  obtain ⟨-, t, same, literal, -⟩ := kept
  obtain ⟨nonempty, chars⟩ := numberChars_literal literal
  rw [← same]
  refine .of_not_mem ?_ fun member => ?_
  · obtain ⟨c, t, rfl⟩ := List.exists_cons_of_ne_nil nonempty
    rw [JsString.ofText_cons]
    refine List.append_ne_nil_of_left_ne_nil ?_ _
    rw [JsString.ofChar]
    split <;> exact List.cons_ne_nil _ _
  · obtain ⟨c, inside, unit⟩ := List.mem_flatMap.mp member
    exact lineFeed_not_mem_ofChar (chars c inside) unit

theorem paragraph_primitive {p : JsonPrimitive N} (kept : ∀ n, p = .number n → NumberKept n) :
    Paragraph 10 (serializePrimitive p) := by
  have word (s : JsString) (nonempty : s ≠ []) (none : (10 : UInt16) ∉ s) : Paragraph 10 s :=
    .of_not_mem nonempty none
  cases p with
  | null => exact word (js "null") (by decide) (by decide)
  | boolean b =>
    cases b with
    | false => exact word (js "false") (by decide) (by decide)
    | true => exact word (js "true") (by decide) (by decide)
  | number n =>
    rw [serializePrimitive, if_pos (kept n rfl).1]
    exact paragraph_number (kept n rfl)
  | string s => exact paragraph_quote s

/-- Spaces before a text that has no empty line. -/
theorem paragraph_indent {s : JsString} (paragraph : Paragraph 10 s) (n : Nat) :
    Paragraph 10 (List.replicate n 32 ++ s) := by
  induction n with
  | zero => exact paragraph
  | succ n ih =>
    rw [List.replicate_succ, List.cons_append]
    exact (Paragraph.of_not_mem (s := [32]) (by decide) (by decide)).append ih

theorem paragraph_members {separator : JsString}
    (joins : ∀ s t, Paragraph 10 s → Paragraph 10 t → Paragraph 10 (s ++ separator ++ t)) :
    ∀ {members : List JsString}, members ≠ [] → (∀ s ∈ members, Paragraph 10 s) →
      Paragraph 10 (separator.intercalate members)
  | [s], _, each => by
    rw [List.intercalate_singleton]
    exact each s List.mem_cons_self
  | s :: t :: members, _, each => by
    obtain ⟨first, others⟩ := List.forall_mem_cons.mp each
    rw [List.intercalate_cons_cons]
    exact joins _ _ first (paragraph_members joins (List.cons_ne_nil _ _) others)

theorem paragraph_bracketed {openBracket closeBracket : String}
    (opens : Paragraph 10 (js openBracket)) (closes : Paragraph 10 (js closeBracket))
    (gap indent : Nat) {members : List JsString} (each : ∀ s ∈ members, Paragraph 10 s) :
    Paragraph 10 (bracketed openBracket closeBracket (List.replicate gap 32)
      (List.replicate indent 32) members) := by
  have comma : Paragraph 10 (js ",") := .of_not_mem (by decide) (by decide)
  have lineFeed : js "\n" = [10] := by decide
  have commaLine : js ",\n" = js "," ++ [10] := by decide
  rw [bracketed]
  split_ifs with none compact
  · exact opens.append closes
  · have body := paragraph_members (fun s t hs ht => (hs.append comma).append ht) none each
    exact (opens.append body).append closes
  · have joins (s t : JsString) (hs : Paragraph 10 s) (ht : Paragraph 10 t) :
        Paragraph 10 (s ++ (js ",\n" ++ (List.replicate indent 32 ++ List.replicate gap 32)) ++ t) := by
      have joined := (hs.append comma).line
        (paragraph_indent (paragraph_indent ht gap) indent)
      rw [commaLine]
      simpa only [List.append_assoc, List.cons_append, List.nil_append] using joined
    have body := paragraph_members joins none each
    have whole := opens.line
      ((paragraph_indent (paragraph_indent body gap) indent).line (paragraph_indent closes indent))
    rw [lineFeed]
    simpa only [List.append_assoc, List.cons_append, List.nil_append] using whole

mutual

theorem paragraph_serialize (gap : Nat) : ∀ (v : JsonValue N) (indent : Nat), NumbersKept v →
    Paragraph 10 (serialize (List.replicate gap 32) (List.replicate indent 32) v)
  | .primitive p, indent, kept => by
    refine paragraph_primitive fun n number => kept n ?_
    rw [number, JsonValue.subvalues_primitive]
    exact List.mem_cons_self
  | .array items, indent, kept => by
    have opens : Paragraph 10 (js "[") := .of_not_mem (by decide) (by decide)
    have closes : Paragraph 10 (js "]") := .of_not_mem (by decide) (by decide)
    rw [serialize, replicate_indent]
    exact paragraph_bracketed opens closes gap indent
      (paragraph_items gap items (indent + gap) (numbersKept_array.mp kept))
  | .object entries, indent, kept => by
    have opens : Paragraph 10 (js "\x7b") := .of_not_mem (by decide) (by decide)
    have closes : Paragraph 10 (js "\x7d") := .of_not_mem (by decide) (by decide)
    rw [serialize, replicate_indent]
    exact paragraph_bracketed opens closes gap indent
      (paragraph_entries gap entries (indent + gap) (numbersKept_object.mp kept))

theorem paragraph_items (gap : Nat) : ∀ (items : List (JsonValue N)) (indent : Nat),
    (∀ v ∈ items, NumbersKept v) →
    ∀ s ∈ serializeItems (List.replicate gap 32) (List.replicate indent 32) items, Paragraph 10 s
  | [], _, _ => by simp [serializeItems]
  | v :: items, indent, kept => by
    obtain ⟨first, others⟩ := List.forall_mem_cons.mp kept
    rw [serializeItems]
    exact List.forall_mem_cons.mpr
      ⟨paragraph_serialize gap v indent first, paragraph_items gap items indent others⟩

theorem paragraph_entries (gap : Nat) : ∀ (entries : List (JsString × JsonValue N)) (indent : Nat),
    (∀ e ∈ entries, NumbersKept e.2) →
    ∀ s ∈ serializeEntries (List.replicate gap 32) (List.replicate indent 32) entries,
      Paragraph 10 s
  | [], _, _ => by simp [serializeEntries]
  | (key, v) :: entries, indent, kept => by
    obtain ⟨first, others⟩ := List.forall_mem_cons.mp kept
    have colon : Paragraph 10 (js (if List.replicate gap (32 : UInt16) = [] then ":" else ": ")) := by
      split_ifs
      · exact .of_not_mem (by decide) (by decide)
      · exact .of_not_mem (by decide) (by decide)
    rw [serializeEntries]
    exact List.forall_mem_cons.mpr
      ⟨((paragraph_quote key).append colon).append (paragraph_serialize gap v indent first),
        paragraph_entries gap entries indent others⟩

end

end JSON

section Worker

variable {N : Type*} [JsNumber N] {bestEffortParse : Text → Option (JsonValue N)}

/-! ## The values of the worker -/

theorem parseWithTruncation_spec
    (recovered : ∀ t v, bestEffortParse t = some v → v.WellFormed) {text : Text}
    {result : TruncatableParseResult N}
    (parsed : parseWithTruncation bestEffortParse text = some result) :
    result.parsed.WellFormed ∧ result.prettyText = JSON.stringify result.parsed 2 := by
  rw [parseWithTruncation] at parsed
  split at parsed
  · rename_i strict found
    obtain ⟨v, value, rfl⟩ := Option.map_eq_some_iff.mp found
    obtain rfl := Option.some.inj parsed
    exact ⟨JSON.parse_wellFormed value, rfl⟩
  · obtain ⟨v, value, kept⟩ := Option.bind_eq_some_iff.mp parsed
    rw [Option.ite_none_right_eq_some] at kept
    obtain rfl := Option.some.inj kept.2
    exact ⟨recovered text v value, rfl⟩

theorem parseLine_wellFormed (recovered : ∀ t v, bestEffortParse t = some v → v.WellFormed)
    {result : NdjsonParseResult N} (wf : ∀ v ∈ result.documents, v.WellFormed) (line : Text)
    (isLast : Bool) : ∀ v ∈ (parseLine bestEffortParse result line isLast).documents, v.WellFormed := by
  rw [parseLine]
  split
  · rename_i value parsed
    intro v member
    rcases List.mem_append.mp member with old | new
    · exact wf v old
    · rw [List.mem_singleton.mp new]
      exact JSON.parse_wellFormed parsed
  · split_ifs
    · exact wf
    · split
      · rename_i found
        intro v member
        rcases List.mem_append.mp member with old | new
        · exact wf v old
        · rw [List.mem_singleton.mp new]
          exact (parseWithTruncation_spec recovered found).1
      · exact wf

theorem parseNdjson_wellFormed (recovered : ∀ t v, bestEffortParse t = some v → v.WellFormed)
    (text : Text) : ∀ v ∈ (parseNdjson bestEffortParse text).documents, v.WellFormed := by
  rw [parseNdjson]
  generalize ((text.splitOn '\n').map Text.trim).filter (fun line => line ≠ []) = lines
  refine List.foldlRecOn (motive := fun result : NdjsonParseResult N =>
    ∀ v ∈ result.documents, v.WellFormed) lines.zipIdx _ ?_ ?_
  · exact fun v member => by cases member
  · exact fun result wf d _ => parseLine_wellFormed recovered wf d.1 _

/-- What a message holds: some documents, and their texts with an empty line between them. -/
theorem runWorker_values (recovered : ∀ t v, bestEffortParse t = some v → v.WellFormed)
    {mode : ParseMode} {text : Text} {message : WorkerMessage N}
    (accepted : runWorker bestEffortParse mode text = some message) :
    message.values ≠ [] ∧ (∀ v ∈ message.values, v.WellFormed) ∧
      message.prettyText =
        [10, 10].intercalate (message.values.map fun v => JSON.stringify v 2) := by
  cases mode with
  | json =>
    obtain ⟨result, parsed, rfl⟩ := Option.map_eq_some_iff.mp accepted
    obtain ⟨wf, same⟩ := parseWithTruncation_spec recovered parsed
    refine ⟨List.cons_ne_nil _ _, ?_, ?_⟩
    · intro v member
      rw [List.mem_singleton.mp member]
      exact wf
    · exact same.trans List.intercalate_singleton.symm
  | ndjson =>
    rw [runWorker, buildNdjson] at accepted
    split at accepted
    · cases accepted
    · rename_i some
      obtain rfl := Option.some.inj accepted
      refine ⟨fun none => some (List.isEmpty_iff.mpr none), ?_, ?_⟩
      · exact parseNdjson_wellFormed recovered text
      · have gap : js "\n\n" = [10, 10] := by decide
        rw [← gap]
        rfl

theorem paragraphs_values {values : List (JsonValue N)} (some : values ≠ [])
    (wf : ∀ v ∈ values, v.WellFormed) (kept : ∀ v ∈ values, JSON.NumbersKept v) :
    List.Forall₂ (fun part v => ∃ t, JsString.ofText t = part ∧ JSON.parse t = Option.some v)
      (paragraphs 10 [] ([10, 10].intercalate (values.map fun v => JSON.stringify v 2))) values := by
  have each : ∀ s ∈ values.map fun v => JSON.stringify v 2, Paragraph (10 : UInt16) s := by
    intro s member
    obtain ⟨v, hv, rfl⟩ := List.mem_map.mp member
    exact JSON.paragraph_serialize 2 v 0 (kept v hv)
  rw [paragraphs_intercalate (by simpa using some) each, List.forall₂_map_left_iff]
  exact List.forall₂_same.mpr fun v hv => JSON.parse_stringify (wf v hv) (kept v hv) 2

/-- The text that the worker writes, cut at the empty lines, is read back as its values: whole
or recovered, one document or many. -/
theorem prettyText_read (recovered : ∀ t v, bestEffortParse t = some v → v.WellFormed)
    {mode : ParseMode} {text : Text} {message : WorkerMessage N}
    (accepted : runWorker bestEffortParse mode text = some message)
    (kept : ∀ v ∈ message.values, JSON.NumbersKept v) :
    List.Forall₂ (fun part v => ∃ t, JsString.ofText t = part ∧ JSON.parse t = some v)
      (paragraphs 10 [] message.prettyText) message.values := by
  obtain ⟨some, wf, same⟩ := runWorker_values recovered accepted
  rw [same]
  exact paragraphs_values some wf kept

end Worker

theorem recoverList_wellFormed (t : Text) (v : JsonValue Int) (found : recoverList t = some v) :
    v.WellFormed := by
  rw [recoverList, Option.ite_none_right_eq_some] at found
  obtain rfl := Option.some.inj found.2
  refine JsonValue.wellFormed_array.mpr fun w member => ?_
  rw [List.mem_singleton.mp member]
  intro entries inside
  simp at inside

/-- The second document is cut. -/
theorem prettyText_read_cut : ∃ message : WorkerMessage Int,
    runWorker recoverList .ndjson "1\n[2".toList = some message ∧ message.truncated = true ∧
    List.Forall₂ (fun part v => ∃ t, JsString.ofText t = part ∧ JSON.parse t = some v)
      (paragraphs 10 [] message.prettyText) message.values := by
  have accepted : runWorker recoverList .ndjson "1\n[2".toList = some _ := rfl
  refine ⟨_, accepted, rfl, prettyText_read recoverList_wellFormed accepted fun v member n inside => ?_⟩
  have documents : v = .primitive (.number 1) ∨ v = .array [.primitive (.number 2)] := by
    rcases List.mem_cons.mp member with first | second
    · exact .inl first
    · exact .inr (List.mem_singleton.mp second)
  rcases documents with rfl | rfl
  · obtain rfl : n = 1 := by simpa using inside
    exact ⟨rfl, "1".toList, by rfl, by rfl, by rfl⟩
  · obtain rfl : n = 2 := by simpa using inside
    exact ⟨rfl, "2".toList, by rfl, by rfl, by rfl⟩

end Protospy
