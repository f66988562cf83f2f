import Protospy.Ui.Text

/-!
# Server-sent event streams (`body/sse.ts`, `body/sse-stream.ts`)
-/

namespace Protospy

/-- `parsedData` is what `JSON.parse` makes of `data`; its readers parse again. -/
structure SSEEvent where
  type : Text
  data : Text
  id : Option Text
  index : Nat
  deriving DecidableEq

structure SSEStreamState where
  events : List SSEEvent
  totalEventCount : Nat
  parserRemainder : Text
  deriving DecidableEq

def maxSseEvents : Nat := 10000

def createSSEStreamState : SSEStreamState := ⟨[], 0, []⟩

namespace SSE

/-- The fields of a block that have been read. -/
structure Fields where
  type : Text
  dataLines : List Text
  id : Option Text
  deriving DecidableEq

def Fields.initial : Fields := ⟨"message".toList, [], none⟩

@[simp] theorem Fields.initial_dataLines : Fields.initial.dataLines = [] := rfl

@[simp] theorem Fields.initial_id : Fields.initial.id = none := rfl

/-- A comment or a line without a colon changes nothing. -/
def Fields.readLine (f : Fields) (line : Text) : Fields :=
  match line.span (· ≠ ':') with
  | ([], _) => f
  | (_, []) => f
  | (name, _ :: rest) =>
    let field := Text.trim name
    let value := Text.trimStart rest
    if field = "event".toList then { f with type := value }
    else if field = "data".toList then { f with dataLines := f.dataLines ++ [value] }
    else if field = "id".toList then { f with id := some value }
    else f

/-- `split(/\n\n/)`: the parts between pairs of line feeds. -/
def splitBlankLine : Text → List Text
  | [] => [[]]
  | '\n' :: '\n' :: rest => [] :: splitBlankLine rest
  | c :: rest => match splitBlankLine rest with
    | part :: parts => (c :: part) :: parts
    | [] => [[c]]

end SSE

open SSE

/-- A block without a data line has no event. -/
def parseSSEBlock (block : Text) (index : Nat) : Option SSEEvent :=
  let trimmed := Text.trim block
  if trimmed = [] then none
  else
    let f := (trimmed.splitOn '\n').foldl Fields.readLine Fields.initial
    if f.dataLines = [] then none
    else some ⟨f.type, ['\n'].intercalate f.dataLines, f.id, index⟩

/-- Parse the blocks in order, numbering the events from `index`. -/
def parseBlocks (index : Nat) : List Text → List SSEEvent
  | [] => []
  | part :: parts => match parseSSEBlock part index with
    | some event => event :: parseBlocks (index + 1) parts
    | none => parseBlocks index parts

def chunkToText : BodyChunk → Text
  | .text s => s.toList
  | .binary bytes => textDecoderDecode bytes

/-- Parse the new text up to its last blank line; the rest is carried forward. -/
def feedChunk (prev : SSEStreamState) (chunkText : Text) : SSEStreamState :=
  let parts := splitBlankLine (prev.parserRemainder ++ chunkText)
  let newEvents := parseBlocks prev.totalEventCount parts.dropLast
  ⟨prev.events ++ newEvents, prev.totalEventCount + newEvents.length, parts.getLastD []⟩

/-- Keep the newest `max` events. -/
def applyRetention (state : SSEStreamState) (max : Nat) : SSEStreamState :=
  if state.events.length ≤ max then state
  else { state with events := state.events.drop (state.events.length - max) }

end Protospy
