import Protospy.Lib.Lines
import Protospy.Ui.Text

/-!
# Lines of markup tokens (`body/markup-format-core.ts`)

The nested tokens of the highlighter are flattened, and their text is cut at line feeds.
The highlighter is a parameter.
-/

namespace Protospy

structure MarkupToken where
  type : Text
  text : Text
  deriving DecidableEq, Repr

abbrev MarkupLine := List MarkupToken

/-- `string | Prism.Token`. The content of a token is a string, an array or a token. -/
inductive PrismNode where
  | text (text : Text)
  | ofString (type : Text) (content : Text)
  | ofArray (type : Text) (content : List PrismNode)
  | ofToken (type : Text) (content : PrismNode)

/-- One round of the loop of `pushText`. -/
def pushPart (type : Text) (lines : List MarkupLine) (part : Text × Nat) : List MarkupLine :=
  let lines := if 0 < part.2 then lines ++ [[]] else lines
  if part.1 ≠ [] then Lines.appendLast lines [⟨type, part.1⟩] else lines

def pushText (lines : List MarkupLine) (type text : Text) : List MarkupLine :=
  (text.splitOn '\n').zipIdx.foldl (pushPart type) lines

/-- The type of a token, or else that of the token around it. -/
def typeOr (type inheritedType : Text) : Text := if type = [] then inheritedType else type

mutual

def walk (lines : List MarkupLine) (inheritedType : Text) : PrismNode → List MarkupLine
  | .text text => pushText lines inheritedType text
  | .ofString type content => pushText lines (typeOr type inheritedType) content
  | .ofArray type content => walkAll lines (typeOr type inheritedType) content
  | .ofToken type content => walk lines (typeOr type inheritedType) content

def walkAll (lines : List MarkupLine) (inheritedType : Text) : List PrismNode → List MarkupLine
  | [] => lines
  | node :: rest => walkAll (walk lines inheritedType node) inheritedType rest

end

def tokenizeMarkup (tokenize : Text → List PrismNode) (text : Text) : List MarkupLine :=
  walkAll [[]] [] (tokenize text)

/-! ## The leaves of a token stream -/

mutual

/-- The texts of the leaves, each with the types of the tokens around it, from the inside. -/
def PrismNode.leaves (types : List Text) : PrismNode → List (List Text × Text)
  | .text text => [(types, text)]
  | .ofString type content => [(type :: types, content)]
  | .ofArray type content => leavesAll (type :: types) content
  | .ofToken type content => content.leaves (type :: types)

def leavesAll (types : List Text) : List PrismNode → List (List Text × Text)
  | [] => []
  | node :: rest => node.leaves types ++ leavesAll types rest

end

/-- The nearest type that is not empty, or else the empty one. -/
def nearestType (types : List Text) : Text := (types.find? fun type => type ≠ []).getD []

/-- The characters of a text, each with the type. -/
def typed (type text : Text) : List (Char × Text) := text.map fun c => (c, type)

def MarkupLine.chars (line : MarkupLine) : List (Char × Text) :=
  line.flatMap fun token => typed token.type token.text

def MarkupLine.text (line : MarkupLine) : Text := line.flatMap MarkupToken.text

/-- The characters of the leaves, each with the type of its nearest token that has one. -/
def typedLeaves (leaves : List (List Text × Text)) : List (Char × Text) :=
  leaves.flatMap fun (types, text) => typed (nearestType types) text

def isLineFeed (c : Char × Text) : Bool := c.1 = '\n'

/-- The lines are those of the typed characters. -/
structure Renders (lines : List MarkupLine) (chars : List (Char × Text)) : Prop where
  chars : lines.map MarkupLine.chars = chars.splitOnP isLineFeed
  solid : ∀ line ∈ lines, ∀ token ∈ line, token.text ≠ [] ∧ '\n' ∉ token.text

theorem nearestType_cons (type : Text) (types : List Text) :
    nearestType (type :: types) = typeOr type (nearestType types) := by
  rw [nearestType, typeOr, List.find?_cons]
  by_cases empty : type = []
  · rw [if_pos empty, decide_eq_false (not_not_intro empty)]
    rfl
  · rw [if_neg empty, decide_eq_true empty]
    rfl

theorem typed_append (type x y : Text) : typed type (x ++ y) = typed type x ++ typed type y :=
  List.map_append

theorem Renders.newLine {lines : List MarkupLine} {chars : List (Char × Text)}
    (renders : Renders lines chars) (type : Text) :
    Renders (lines ++ [[]]) (chars ++ [('\n', type)]) := by
  refine ⟨?_, fun line member => ?_⟩
  · rw [Lines.splitOnP_concat _ rfl, List.map_append, renders.chars]
    rfl
  · rcases List.mem_append.mp member with old | new
    · exact renders.solid line old
    · rw [List.mem_singleton.mp new]
      exact fun token inside => absurd inside List.not_mem_nil

theorem Renders.push {lines : List MarkupLine} {chars : List (Char × Text)}
    (renders : Renders lines chars) {type part : Text} (nonempty : part ≠ [])
    (oneLine : '\n' ∉ part) :
    Renders (Lines.appendLast lines [⟨type, part⟩]) (chars ++ typed type part) := by
  have last : MarkupLine.chars (lines.getLastD [] ++ [⟨type, part⟩]) =
      (lines.map MarkupLine.chars).getLastD [] ++ typed type part := by
    rw [MarkupLine.chars, List.flatMap_append, List.getLastD_eq_getLast?,
      List.getLastD_eq_getLast?, List.getLast?_map]
    cases lines.getLast? <;> simp [MarkupLine.chars]
  refine ⟨?_, fun line member => ?_⟩
  · rw [Lines.map_appendLast _ last, renders.chars, Lines.splitOnP_append]
    intro c member
    obtain ⟨d, inside, rfl⟩ := List.mem_map.mp member
    exact decide_eq_false fun same => oneLine (same ▸ inside)
  · rcases List.mem_append.mp member with old | new
    · exact renders.solid line (List.dropLast_subset _ old)
    · rw [List.mem_singleton.mp new]
      intro token inside
      rcases List.mem_append.mp inside with before | here
      · rw [List.getLastD_eq_getLast?] at before
        cases final : lines.getLast? with
        | none => simp [final] at before
        | some line' =>
          rw [final] at before
          exact renders.solid line' (List.mem_of_getLast? final) token before
      · rw [List.mem_singleton.mp here]
        exact ⟨nonempty, oneLine⟩

/-- A part after the first is on a new line. -/
theorem Renders.pushPart {lines : List MarkupLine} {chars : List (Char × Text)}
    (renders : Renders lines chars) (type : Text) (part : Text × Nat) (oneLine : '\n' ∉ part.1) :
    Renders (pushPart type lines part)
      (chars ++ typed type (if 0 < part.2 then '\n' :: part.1 else part.1)) := by
  obtain ⟨part, i⟩ := part
  have here : ∀ {lines : List MarkupLine} {chars : List (Char × Text)}, Renders lines chars →
      Renders (if part ≠ [] then Lines.appendLast lines [⟨type, part⟩] else lines)
        (chars ++ typed type part) := by
    intro lines chars renders
    by_cases nonempty : part = []
    · rw [if_neg (not_not_intro nonempty), nonempty, typed, List.map_nil, List.append_nil]
      exact renders
    · rw [if_pos nonempty]
      exact renders.push nonempty oneLine
  by_cases later : 0 < i
  · have next := here (renders.newLine type)
    rw [List.append_assoc] at next
    simp only [Protospy.pushPart, later, if_true]
    exact next
  · simp only [Protospy.pushPart, later, if_false]
    exact here renders

theorem Renders.foldl_pushPart {type : Text} {parts : List Text}
    (oneLine : ∀ part ∈ parts, '\n' ∉ part) (i : Nat) {lines : List MarkupLine}
    {chars : List (Char × Text)} (renders : Renders lines chars) :
    Renders ((parts.zipIdx (i + 1)).foldl (Protospy.pushPart type) lines)
      (chars ++ typed type (parts.flatMap ('\n' :: ·))) := by
  induction parts generalizing i lines chars with
  | nil =>
    rw [List.flatMap_nil, typed, List.map_nil, List.append_nil]
    exact renders
  | cons part parts ih =>
    obtain ⟨first, rest⟩ := List.forall_mem_cons.mp oneLine
    have step := renders.pushPart type (part, i + 1) first
    rw [if_pos (Nat.succ_pos i)] at step
    rw [List.zipIdx_cons, List.foldl_cons, List.flatMap_cons, typed_append, ← List.append_assoc]
    exact ih rest (i + 1) step

theorem Renders.pushText {lines : List MarkupLine} {chars : List (Char × Text)}
    (renders : Renders lines chars) (type text : Text) :
    Renders (pushText lines type text) (chars ++ typed type text) := by
  have joined : ['\n'].intercalate (text.splitOn '\n') = text := List.intercalate_splitOn '\n'
  have oneLine : ∀ part ∈ text.splitOn '\n', '\n' ∉ part := by
    intro part member inside
    rw [List.splitOn_eq_splitOnP] at member
    simpa using Lines.not_sep_of_mem_splitOnP member _ inside
  obtain ⟨part, parts, split⟩ := List.exists_cons_of_ne_nil (List.splitOn_ne_nil '\n' text)
  rw [split] at joined oneLine
  obtain ⟨first, rest⟩ := List.forall_mem_cons.mp oneLine
  have step := renders.pushPart type (part, 0) first
  rw [if_neg (Nat.lt_irrefl 0)] at step
  rw [Protospy.pushText, split, List.zipIdx_cons, List.foldl_cons, ← joined,
    Lines.intercalate_cons, typed_append, ← List.append_assoc]
  exact step.foldl_pushPart rest 0

mutual

theorem Renders.walk {lines : List MarkupLine} {chars : List (Char × Text)}
    (renders : Renders lines chars) (types : List Text) :
    ∀ node : PrismNode, Renders (walk lines (nearestType types) node)
      (chars ++ typedLeaves (node.leaves types))
  | .text text => by
    rw [Protospy.walk, PrismNode.leaves, typedLeaves, List.flatMap_singleton]
    exact renders.pushText _ _
  | .ofString type content => by
    rw [Protospy.walk, PrismNode.leaves, typedLeaves, List.flatMap_singleton, ← nearestType_cons]
    exact renders.pushText _ _
  | .ofArray type content => by
    rw [Protospy.walk, PrismNode.leaves, ← nearestType_cons]
    exact renders.walkAll _ content
  | .ofToken type content => by
    rw [Protospy.walk, PrismNode.leaves, ← nearestType_cons]
    exact renders.walk _ content

theorem Renders.walkAll {lines : List MarkupLine} {chars : List (Char × Text)}
    (renders : Renders lines chars) (types : List Text) :
    ∀ nodes : List PrismNode, Renders (walkAll lines (nearestType types) nodes)
      (chars ++ typedLeaves (leavesAll types nodes))
  | [] => by
    rw [Protospy.walkAll, leavesAll, typedLeaves, List.flatMap_nil, List.append_nil]
    exact renders
  | node :: rest => by
    rw [Protospy.walkAll, leavesAll, typedLeaves, List.flatMap_append, ← List.append_assoc]
    exact (renders.walk types node).walkAll types rest

end

theorem tokenizeMarkup_renders (tokenize : Text → List PrismNode) (text : Text) :
    Renders (tokenizeMarkup tokenize text) (typedLeaves (leavesAll [] (tokenize text))) := by
  have start : Renders [[]] [] :=
    ⟨rfl, fun line member token inside => by rw [List.mem_singleton.mp member] at inside; cases inside⟩
  exact start.walkAll [] (tokenize text)

theorem map_fst_chars (line : MarkupLine) : line.chars.map Prod.fst = line.text := by
  rw [MarkupLine.chars, MarkupLine.text, List.map_flatMap]
  congr 1
  funext token
  rw [typed, List.map_map]
  exact List.map_id _

theorem map_fst_typedLeaves (leaves : List (List Text × Text)) :
    (typedLeaves leaves).map Prod.fst = leaves.flatMap Prod.snd := by
  rw [typedLeaves, List.map_flatMap]
  congr 1
  funext leaf
  simp only [typed, List.map_map]
  exact List.map_id _

/-- The lines hold the text of the leaves, no token is empty or goes over a line feed,
and every character has the type of the nearest token around it that has one. -/
theorem tokenizeMarkup_lossless (tokenize : Text → List PrismNode) (text : Text) :
    ['\n'].intercalate ((tokenizeMarkup tokenize text).map MarkupLine.text) =
      (leavesAll [] (tokenize text)).flatMap Prod.snd ∧
    (∀ line ∈ tokenizeMarkup tokenize text, ∀ token ∈ line, token.text ≠ [] ∧ '\n' ∉ token.text) ∧
    (tokenizeMarkup tokenize text).map MarkupLine.chars =
      (typedLeaves (leavesAll [] (tokenize text))).splitOnP isLineFeed := by
  have renders := tokenizeMarkup_renders tokenize text
  refine ⟨?_, renders.solid, renders.chars⟩
  have texts : (tokenizeMarkup tokenize text).map MarkupLine.text =
      ((typedLeaves (leavesAll [] (tokenize text))).map Prod.fst).splitOn '\n' := by
    rw [List.splitOn_eq_splitOnP, Lines.splitOnP_map]
    have lines := congrArg (List.map (List.map Prod.fst)) renders.chars
    rw [List.map_map] at lines
    exact (List.map_congr_left fun line _ => (map_fst_chars line).symm).trans lines
  rw [texts, map_fst_typedLeaves]
  exact List.intercalate_splitOn '\n'

end Protospy
