import Protospy.Lib.Splitter
import Protospy.Ui.SseStream
import Mathlib.Data.List.Induction

/-!
# Parsing an event stream in pieces and at once
-/

namespace Protospy

namespace SSE

/-! ## Blank lines -/

theorem splitBlankLine_ne_nil (x : Text) : splitBlankLine x ≠ [] := by
  fun_induction splitBlankLine x <;> simp

theorem splitBlankLine_cons {c : Char} {rest : Text}
    (single : ¬ (c = '\n' ∧ rest.head? = some '\n')) :
    splitBlankLine (c :: rest) = (splitBlankLine rest).modifyHead (c :: ·) := by
  rw [splitBlankLine]
  · cases parts : splitBlankLine rest with
    | nil => exact absurd parts (splitBlankLine_ne_nil rest)
    | cons part parts => rfl
  · rintro rest' rfl rfl
    exact single ⟨rfl, rfl⟩

theorem eq_of_splitBlankLine {x q : Text} (one : splitBlankLine x = [q]) : q = x := by
  fun_induction splitBlankLine x generalizing q
  case case1 => simpa using one.symm
  case case2 rest ih => simp [splitBlankLine_ne_nil] at one
  case case3 c rest pair part parts split ih => 
    simp at one
    obtain ⟨rfl, rfl⟩ := one
    rw [ih split]
  case case4 c rest pair empty ih => exact absurd empty (splitBlankLine_ne_nil rest)

theorem splitBlankLine_append (x y : Text) :
    splitBlankLine (x ++ y) =
      (splitBlankLine x).dropLast ++ splitBlankLine ((splitBlankLine x).getLastD [] ++ y) := by
  fun_induction splitBlankLine x
  case case1 => simp
  case case2 rest ih =>
    obtain ⟨part, parts, split⟩ := List.exists_cons_of_ne_nil (splitBlankLine_ne_nil rest)
    change [] :: splitBlankLine (rest ++ y) = _
    rw [ih, split]
    rfl
  case case3 c rest pair part parts split ih =>
    cases parts with
    | nil =>
      obtain rfl := eq_of_splitBlankLine split
      rfl
    | cons next parts =>
      -- `rest` is not empty, so appending to it does not bring a line feed after `c`
      obtain ⟨d, rest, rfl⟩ : ∃ d rest', rest = d :: rest' := by
        cases rest with
        | nil => simp [splitBlankLine] at split
        | cons d rest => exact ⟨d, rest, rfl⟩
      have single : ¬ (c = '\n' ∧ (d :: rest ++ y).head? = some '\n') := by
        rintro ⟨rfl, second⟩
        obtain rfl : d = '\n' := by simpa using second
        exact pair rest rfl rfl
      rw [List.cons_append, splitBlankLine_cons single, ih, split]
      rfl
  case case4 c rest pair empty ih => exact absurd empty (splitBlankLine_ne_nil rest)

def blankLines : Splitter Char where
  split := splitBlankLine
  split_ne_nil := splitBlankLine_ne_nil
  split_append := splitBlankLine_append

/-- `split(/\n\n+/)`: a run of line feeds separates only once. -/
def splitBlankLines : Text → List Text
  | [] => [[]]
  | '\n' :: '\n' :: rest => [] :: splitBlankLines (rest.dropWhile (· = '\n'))
  | c :: rest => match splitBlankLines rest with
    | part :: parts => (c :: part) :: parts
    | [] => [[c]]
termination_by t => t.length
decreasing_by
  · have shorter := (List.dropWhile_sublist (· = '\n') (l := rest)).length_le
    simp only [List.length_cons]
    omega
  · simp

end SSE

open SSE

def parseSSEBody (text : Text) : List SSEEvent := parseBlocks 0 (splitBlankLines text)

/-! ## The events of a list of blocks -/

theorem parseBlocks_append (index : Nat) (xs ys : List Text) :
    parseBlocks index (xs ++ ys) =
      parseBlocks index xs ++ parseBlocks (index + (parseBlocks index xs).length) ys := by
  induction xs generalizing index with
  | nil => rfl
  | cons x xs ih =>
    rw [List.cons_append, parseBlocks, parseBlocks]
    cases parseSSEBlock x index with
    | none => exact ih index
    | some event =>
      have shift : index + 1 + (parseBlocks (index + 1) xs).length =
          index + ((parseBlocks (index + 1) xs).length + 1) := by omega
      rw [ih (index + 1), List.cons_append, List.length_cons, shift]

theorem parseSSEBlock_index {block : Text} {index : Nat} {event : SSEEvent}
    (parsed : parseSSEBlock block index = some event) : event.index = index := by
  rw [parseSSEBlock] at parsed
  grind

/-- Events are numbered in the order of their blocks. -/
theorem parseBlocks_index (index : Nat) (blocks : List Text) :
    (parseBlocks index blocks).map SSEEvent.index =
      List.range' index (parseBlocks index blocks).length := by
  induction blocks generalizing index with
  | nil => rfl
  | cons block blocks ih =>
    rw [parseBlocks]
    cases parsed : parseSSEBlock block index with
    | none => exact ih index
    | some event =>
      rw [List.map_cons, List.length_cons, List.range'_succ, ih, parseSSEBlock_index parsed]

/-! ## Feeding in pieces -/

theorem feedChunk_eq (state : SSEStreamState) (x : Text) :
    feedChunk state x =
      ⟨state.events ++ parseBlocks state.totalEventCount
          (blankLines.complete state.parserRemainder x),
        state.totalEventCount + (parseBlocks state.totalEventCount
          (blankLines.complete state.parserRemainder x)).length,
        blankLines.remainder state.parserRemainder x⟩ := rfl

theorem feedChunk_append (state : SSEStreamState) (x y : Text) :
    feedChunk (feedChunk state x) y = feedChunk state (x ++ y) := by
  simp only [feedChunk_eq, blankLines.complete_append, blankLines.remainder_append,
    parseBlocks_append, List.append_assoc, List.length_append, Nat.add_assoc]

theorem applyRetention_eq (state : SSEStreamState) (max : Nat) :
    applyRetention state max =
      { state with events := state.events.drop (state.events.length - max) } := by
  rw [applyRetention]
  split
  · rename_i fits
    rw [show state.events.length - max = 0 by omega]
    rfl
  · rfl

/-- What does not fit now would not fit later. -/
theorem drop_excess_append {α : Type} (kept new : List α) (max : Nat) :
    (kept.drop (kept.length - max) ++ new).drop
        ((kept.drop (kept.length - max) ++ new).length - max) =
      (kept ++ new).drop ((kept ++ new).length - max) := by
  by_cases fits : kept.length ≤ max
  · rw [show kept.length - max = 0 by omega, List.drop_zero]
  · have excess : (kept.drop (kept.length - max) ++ new).length - max = new.length := by
      rw [List.length_append, List.length_drop]
      omega
    have whole : (kept ++ new).length - max = kept.length - max + new.length := by
      rw [List.length_append]
      omega
    have cut : (kept ++ new).drop (kept.length - max) = kept.drop (kept.length - max) ++ new :=
      List.drop_append_of_le_length (by omega)
    rw [excess, whole, ← List.drop_drop, cut]

/-- Retention drops nothing that a later retention would have kept. -/
theorem applyRetention_feedChunk (state : SSEStreamState) (max : Nat) (x : Text) :
    applyRetention (feedChunk (applyRetention state max) x) max =
      applyRetention (feedChunk state x) max := by
  simp only [applyRetention_eq, feedChunk_eq, drop_excess_append]

/-- Feed the pieces one after the other, enforcing the cap after each. -/
def feedChunks (max : Nat) (chunks : List Text) : SSEStreamState :=
  chunks.foldl (fun state chunk => applyRetention (feedChunk state chunk) max) createSSEStreamState

theorem feedChunks_flatten (max : Nat) (chunks : List Text) :
    feedChunks max chunks = applyRetention (feedChunk createSSEStreamState chunks.flatten) max := by
  induction chunks using List.reverseRecOn with
  | nil =>
    simp [feedChunks, applyRetention_eq, feedChunk, createSSEStreamState, splitBlankLine,
      parseBlocks]
  | append_singleton chunks chunk ih =>
    rw [feedChunks, List.foldl_append, ← feedChunks, ih, List.foldl_cons, List.foldl_nil,
      applyRetention_feedChunk, feedChunk_append, List.flatten_append]
    simp

/-! ## White space around a block -/

theorem trim_lineFeed_cons (block : Text) : Text.trim ('\n' :: block) = Text.trim block := by
  rw [Text.trim, Text.trim, Text.trimStart, List.dropWhile_cons_of_pos (by decide)]
  rfl

theorem trim_concat_lineFeed (block : Text) : Text.trim (block ++ ['\n']) = Text.trim block := by
  rw [Text.trim, Text.trim, Text.trimStart, Text.trimStart, List.dropWhile_append]
  split
  · rename_i blank
    rw [List.isEmpty_iff.mp blank]
    rfl
  · simp [Text.trimEnd, Text.isWhitespace]

theorem parseSSEBlock_congr {x y : Text} (same : Text.trim x = Text.trim y) (index : Nat) :
    parseSSEBlock x index = parseSSEBlock y index := by
  rw [parseSSEBlock, parseSSEBlock, same]

/-! ## Parsing the whole text -/

theorem parseBlocks_cons_congr {x y : Text} {xs ys : List Text}
    (head : ∀ index, parseSSEBlock x index = parseSSEBlock y index)
    (tail : ∀ index, parseBlocks index xs = parseBlocks index ys) (index : Nat) :
    parseBlocks index (x :: xs) = parseBlocks index (y :: ys) := by
  rw [parseBlocks, parseBlocks, head, tail, tail]

theorem parseBlocks_nil_cons (index : Nat) (blocks : List Text) :
    parseBlocks index ([] :: blocks) = parseBlocks index blocks := rfl

/-- A line feed in front adds at most an empty block. -/
theorem parseBlocks_lineFeed_cons (rest : Text) (index : Nat) :
    parseBlocks index (splitBlankLine ('\n' :: rest)) =
      parseBlocks index (splitBlankLine rest) := by
  induction rest with
  | nil => rfl
  | cons c rest ih =>
    by_cases pair : c = '\n'
    · subst pair
      rw [splitBlankLine, parseBlocks_nil_cons, ih]
    · obtain ⟨part, parts, split⟩ :=
        List.exists_cons_of_ne_nil (splitBlankLine_ne_nil (c :: rest))
      rw [splitBlankLine_cons (by simp [pair]), split]
      exact parseBlocks_cons_congr (parseSSEBlock_congr (trim_lineFeed_cons part))
        (fun _ => rfl) index

theorem parseBlocks_dropWhile_lineFeed (rest : Text) (index : Nat) :
    parseBlocks index (splitBlankLine (rest.dropWhile (· = '\n'))) =
      parseBlocks index (splitBlankLine rest) := by
  induction rest with
  | nil => rfl
  | cons c rest ih =>
    by_cases lineFeed : c = '\n'
    · rw [List.dropWhile_cons_of_pos (by simpa using lineFeed), ih, lineFeed,
        parseBlocks_lineFeed_cons]
    · rw [List.dropWhile_cons_of_neg (by simpa using lineFeed)]

/-- Both ways to split have the same first block and the same events after it. -/
theorem splitBlankLines_spec (t : Text) :
    ∃ part parts parts', splitBlankLine t = part :: parts ∧
      splitBlankLines t = part :: parts' ∧
      ∀ index, parseBlocks index parts = parseBlocks index parts' := by
  fun_induction splitBlankLines t
  case case1 => exact ⟨[], [], [], rfl, rfl, fun _ => rfl⟩
  case case2 rest ih =>
    obtain ⟨part, parts, parts', one, many, same⟩ := ih
    refine ⟨[], _, _, rfl, rfl, fun index => ?_⟩
    rw [← parseBlocks_dropWhile_lineFeed, one, many]
    exact parseBlocks_cons_congr (fun _ => rfl) same index
  case case3 c rest pair part' parts' split ih =>
    obtain ⟨part, parts, parts'', one, many, same⟩ := ih
    obtain ⟨rfl, rfl⟩ : part' = part ∧ parts' = parts'' := by
      simpa [split] using many
    have single : ¬ (c = '\n' ∧ rest.head? = some '\n') := by
      rintro ⟨rfl, second⟩
      obtain ⟨rest', rfl⟩ := List.head?_eq_some_iff.mp second
      exact pair rest' rfl rfl
    refine ⟨c :: part', parts, parts', ?_, rfl, same⟩
    rw [splitBlankLine_cons single, one]
    rfl
  case case4 c rest pair empty ih => 
    obtain ⟨part, parts, parts', one, many, same⟩ := ih
    rw [many] at empty
    cases empty

theorem parseSSEBody_eq (text : Text) (index : Nat) :
    parseBlocks index (splitBlankLines text) = parseBlocks index (splitBlankLine text) := by
  obtain ⟨part, parts, parts', one, many, same⟩ := splitBlankLines_spec text
  rw [one, many]
  exact (parseBlocks_cons_congr (fun _ => rfl) same index).symm

/-- A blank line after a last block completes it; a line feed at the end of the
block belongs to the separator. -/
theorem splitBlankLine_blankLine {q : Text} (last : splitBlankLine q = [q]) :
    ∃ block rest, splitBlankLine (q ++ ['\n', '\n']) = [block, rest] ∧
      (q = block ∨ q = block ++ ['\n']) := by
  induction q with
  | nil => exact ⟨[], [], rfl, .inl rfl⟩
  | cons c q ih =>
    by_cases empty : q = []
    · subst empty
      by_cases lineFeed : c = '\n'
      · subst lineFeed
        exact ⟨[], ['\n'], rfl, .inr rfl⟩
      · refine ⟨[c], [], ?_, .inl rfl⟩
        rw [List.singleton_append, splitBlankLine_cons (by simp [lineFeed])]
        rfl
    · have single : ¬ (c = '\n' ∧ q.head? = some '\n') := by
        rintro ⟨rfl, second⟩
        obtain ⟨rest, rfl⟩ := List.head?_eq_some_iff.mp second
        simp [splitBlankLine] at last
      have later : splitBlankLine q = [q] := by
        rw [splitBlankLine_cons single] at last
        obtain ⟨part, parts, split⟩ := List.exists_cons_of_ne_nil (splitBlankLine_ne_nil q)
        simpa [split] using last
      obtain ⟨block, rest, split, whole⟩ := ih later
      have single' : ¬ (c = '\n' ∧ (q ++ ['\n', '\n']).head? = some '\n') := by
        rwa [List.head?_append_of_ne_nil _ empty]
      refine ⟨c :: block, rest, ?_, ?_⟩
      · rw [List.cons_append, splitBlankLine_cons single', split]
        rfl
      · rcases whole with rfl | rfl
        · exact .inl rfl
        · exact .inr rfl

/-- The last part, which holds no blank line, after the complete ones. -/
theorem exists_last_part (text : Text) :
    ∃ parts q, splitBlankLine text = parts ++ [q] ∧ splitBlankLine q = [q] :=
  ⟨_, _, (blankLines.dropLast_append_remainder text).symm, blankLines.split_getLastD text⟩

theorem parseBlocks_blankLine (text : Text) (index : Nat) :
    parseBlocks index (splitBlankLine (text ++ ['\n', '\n'])).dropLast =
      parseBlocks index (splitBlankLine text) := by
  obtain ⟨parts, q, split, last⟩ := exists_last_part text
  obtain ⟨block, rest, split', whole⟩ := splitBlankLine_blankLine last
  have same : ∀ i, parseSSEBlock block i = parseSSEBlock q i := by
    intro i
    rcases whole with rfl | rfl
    · rfl
    · exact parseSSEBlock_congr (trim_concat_lineFeed block).symm i
  have complete : (splitBlankLine (text ++ ['\n', '\n'])).dropLast = parts ++ [block] := by
    rw [splitBlankLine_append, split, List.dropLast_concat, List.getLastD_concat, split',
      List.dropLast_append_of_ne_nil (by simp)]
    rfl
  rw [complete, split, parseBlocks_append, parseBlocks_append]
  congr 1
  exact parseBlocks_cons_congr same (fun _ => rfl) _

theorem feedChunk_create (text : Text) :
    (feedChunk createSSEStreamState text).totalEventCount =
        (feedChunk createSSEStreamState text).events.length ∧
      (feedChunk createSSEStreamState text).events.map SSEEvent.index =
        List.range' 0 (feedChunk createSSEStreamState text).events.length := by
  have numbered := parseBlocks_index 0 (blankLines.complete [] text)
  rw [feedChunk_eq]
  exact ⟨by simp [createSSEStreamState], by simpa [createSSEStreamState] using numbered⟩

/-- Retention keeps the newest events, whose numbers end at the total. -/
theorem applyRetention_spec {state : SSEStreamState} (max : Nat)
    (total : state.totalEventCount = state.events.length)
    (numbered : state.events.map SSEEvent.index = List.range' 0 state.events.length) :
    (applyRetention state max).parserRemainder = state.parserRemainder ∧
      (applyRetention state max).totalEventCount = state.totalEventCount ∧
      (applyRetention state max).events =
        state.events.drop (state.totalEventCount - min max state.totalEventCount) ∧
      ∀ i (h : i < (applyRetention state max).events.length),
        ((applyRetention state max).events[i]).index =
          state.totalEventCount - (applyRetention state max).events.length + i := by
  rw [applyRetention_eq, total]
  refine ⟨rfl, total.symm ▸ rfl, ?_, ?_⟩
  · change state.events.drop _ = _
    congr 1
    omega
  · intro i h
    simp only [List.length_drop, List.getElem_drop] at h ⊢
    have number : (state.events.map SSEEvent.index)[state.events.length - max + i]? =
        some (state.events.length - max + i) := by
      rw [numbered, List.getElem?_range' (by omega)]
      simp
    rw [List.getElem?_map, List.getElem?_eq_getElem (by omega)] at number
    have index := Option.some.inj number
    rw [index]
    omega

/-- Feeding an event stream in pieces gives the state of feeding it at once, of
which the newest events are retained, and a blank line after the text completes
the events of the batch parser. -/
theorem feedChunks_spec (max : Nat) (chunks : List Text) (text : Text) :
    (let whole := feedChunk createSSEStreamState chunks.flatten
     let state := feedChunks max chunks
     state = applyRetention whole max ∧
     state.parserRemainder = whole.parserRemainder ∧
     state.totalEventCount = whole.totalEventCount ∧
     whole.events.length = whole.totalEventCount ∧
     state.events = whole.events.drop (whole.totalEventCount - min max whole.totalEventCount) ∧
     ∀ i (h : i < state.events.length),
      (state.events[i]).index = state.totalEventCount - state.events.length + i) ∧
    (feedChunk createSSEStreamState (text ++ ['\n', '\n'])).events = parseSSEBody text := by
  obtain ⟨total, numbered⟩ := feedChunk_create chunks.flatten
  obtain ⟨remainder, count, events, index⟩ := applyRetention_spec max total numbered
  refine ⟨?_, ?_⟩
  · simp only [feedChunks_flatten]
    refine ⟨trivial, remainder, count, total.symm, events, ?_⟩
    rw [count]
    exact index
  · rw [parseSSEBody, parseSSEBody_eq, ← parseBlocks_blankLine]
    rfl

end Protospy
