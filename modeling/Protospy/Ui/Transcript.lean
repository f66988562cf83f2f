import Protospy.Ui.JsonCopy
import Protospy.Ui.SseParse

/-!
# Transcripts of Anthropic message streams (`anthropic/transcript.ts`)

A transcript is read from the events that are retained. The transcript of events that
come after others is put together from the transcripts of both, so retention changes
it exactly by what the dropped events say and no retained event says again.
-/

namespace Protospy

variable {N : Type*} [JsNumber N]

/-! ## Values as JavaScript sees them -/

namespace JsonValue

omit [JsNumber N] in
/-- `value?.name`; without the property, it is undefined. -/
def property (v : JsonValue N) (name : String) : Option (JsonValue N) := v.child? (.key (js name))

def truthy : JsonValue N → Bool
  | .primitive .null => false
  | .primitive (.boolean b) => b
  | .primitive (.number n) => JsNumber.toText n ≠ js "0" && JsNumber.toText n ≠ js "NaN"
  | .primitive (.string s) => s ≠ []
  | .array _ => true
  | .object _ => true

/-- `value === name` for a string. -/
def isString (name : String) : Option (JsonValue N) → Bool
  | some (.primitive (.string s)) => s = js name
  | _ => false

def primitiveText : JsonPrimitive N → JsString
  | .null => js "null"
  | .boolean b => js (if b then "true" else "false")
  | .number n => JsNumber.toText n
  | .string s => s

mutual

/-- The text of a value in a concatenation. An object with a property `toString`, which
is not a function, has none. -/
def toText? : JsonValue N → Option JsString
  | .primitive p => some (primitiveText p)
  | .array items => (itemTexts? items).map (js ",").intercalate
  | .object entries =>
    if entries.any fun e => e.1 = js "toString" then none else some (js "[object Object]")

/-- The texts that `join` puts together, where null is empty. -/
def itemTexts? : List (JsonValue N) → Option (List JsString)
  | [] => some []
  | .primitive .null :: items => (itemTexts? items).map ([] :: ·)
  | item :: items => (toText? item).bind fun text => (itemTexts? items).map (text :: ·)

end

end JsonValue

/-! ## Transcripts -/

structure Usage (N : Type*) where
  inputTokens : Option (JsonValue N)
  outputTokens : Option (JsonValue N)

structure Transcript (N : Type*) where
  text : JsString
  model : Option (JsonValue N)
  messageId : Option (JsonValue N)
  stopReason : Option (JsonValue N)
  usage : Option (Usage N)
  isComplete : Bool

namespace Transcript

omit [JsNumber N] in
def initial : Transcript N := ⟨[], none, none, none, none, false⟩

/-- `event.parsedData` if it is an object or an array. -/
def parsedObject? (event : SSEEvent) : Option (JsonValue N) :=
  (JSON.parse event.data).filter JsonValue.isStructural

/-- `message` of a `message_start` event. -/
def startedMessage? (event : SSEEvent) : Option (JsonValue N) :=
  if event.type = "message_start".toList then
    (parsedObject? event).bind fun d => (d.property "message").filter JsonValue.truthy
  else none

end Transcript

open Transcript

/-- The text that a delta adds; none where the concatenation throws. -/
def deltaText? (delta : Option (JsonValue N)) : Option JsString :=
  if JsonValue.isString "text_delta" (delta.bind fun d => d.property "type") then
    match delta.bind fun d => d.property "text" with
    | none => some []
    | some (.primitive .null) => some []
    | some text => text.toText?
  else some []

/-- One turn of the loop over the events; none where it throws. -/
def readEvent (t : Transcript N) (event : SSEEvent) : Option (Transcript N) :=
  match parsedObject? event with
  | none => some t
  | some d =>
    if event.type = "message_start".toList then
      match (d.property "message").filter JsonValue.truthy with
      | some msg => some { t with model := msg.property "model", messageId := msg.property "id" }
      | none => some t
    else if event.type = "content_block_delta".toList then
      (deltaText? (d.property "delta")).map fun text => { t with text := t.text ++ text }
    else if event.type = "message_delta".toList then
      let stopReason := ((d.property "delta").bind fun delta => delta.property "stop_reason").filter
        JsonValue.truthy
      let usage := ((d.property "usage").filter JsonValue.truthy).map fun u =>
        (⟨u.property "input_tokens", u.property "output_tokens"⟩ : Usage N)
      some { t with stopReason := stopReason.or t.stopReason, usage := usage.or t.usage }
    else if event.type = "message_stop".toList then some { t with isComplete := true }
    else some t

def extractAnthropicTranscript (events : List SSEEvent) : Option (Transcript N) :=
  events.foldlM readEvent initial

/-! ## Transcripts in pieces -/

namespace Transcript

/-- What the later events say of the message counts if one of them starts it. -/
def after (earlier later : Transcript N) (starts : Bool) : Transcript N where
  text := earlier.text ++ later.text
  model := if starts then later.model else earlier.model
  messageId := if starts then later.messageId else earlier.messageId
  stopReason := later.stopReason.or earlier.stopReason
  usage := later.usage.or earlier.usage
  isComplete := earlier.isComplete || later.isComplete

/-- Some event starts a message. -/
def starts (N : Type*) [JsNumber N] (events : List SSEEvent) : Bool :=
  events.any fun event => (startedMessage? event : Option (JsonValue N)).isSome

/-- One event says the same after any others. -/
theorem readEvent_eq (t : Transcript N) (event : SSEEvent) :
    readEvent t event =
      (readEvent initial event).map fun r => t.after r (starts N [event]) := by
  rw [readEvent, readEvent, starts, List.any_cons, List.any_nil, Bool.or_false, startedMessage?]
  generalize "message_start".toList = messageStart
  generalize "content_block_delta".toList = contentBlockDelta
  generalize "message_delta".toList = messageDelta
  generalize "message_stop".toList = messageStop
  cases parsed : (parsedObject? event : Option (JsonValue N)) with
  | none => simp [after, initial]
  | some d =>
    by_cases start : event.type = messageStart
    · simp only [if_pos start, Option.bind_some]
      cases (d.property "message").filter JsonValue.truthy <;> simp [after, initial]
    · by_cases block : event.type = contentBlockDelta
      · simp only [if_neg start, if_pos block]
        cases deltaText? (d.property "delta") <;> simp [after, initial]
      · by_cases delta : event.type = messageDelta
        · simp only [if_neg start, if_neg block, if_pos delta]
          simp [after, initial]
        · by_cases stop : event.type = messageStop
          · simp only [if_neg start, if_neg block, if_neg delta, if_pos stop]
            simp [after, initial]
          · simp only [if_neg start, if_neg block, if_neg delta, if_neg stop]
            simp [after, initial]

omit [JsNumber N] in
theorem after_initial (t : Transcript N) : t.after initial false = t := by
  simp [after, initial]

omit [JsNumber N] in
theorem after_assoc (t r u : Transcript N) (b c : Bool) :
    (t.after r b).after u c = t.after (r.after u c) (b || c) := by
  cases b <;> cases c <;> simp [after, Option.or_assoc, Bool.or_assoc]

theorem starts_cons (event : SSEEvent) (events : List SSEEvent) :
    starts N (event :: events) = (starts N [event] || starts N events) := by
  simp [starts]

/-- A run of the loop from any transcript is one from the start, put after it. -/
theorem foldlM_readEvent (t : Transcript N) (events : List SSEEvent) :
    events.foldlM readEvent t =
      (extractAnthropicTranscript events).map fun r => t.after r (starts N events) := by
  induction events generalizing t with
  | nil => exact congrArg some (after_initial t).symm
  | cons event events ih =>
    rw [List.foldlM_cons, extractAnthropicTranscript, List.foldlM_cons, readEvent_eq t event,
      starts_cons event events]
    cases (readEvent initial event : Option (Transcript N)) with
    | none => rfl
    | some r =>
      change events.foldlM readEvent (t.after r (starts N [event])) =
        (events.foldlM readEvent r).map _
      rw [ih, ih r, Option.map_map]
      congr 1
      funext u
      exact after_assoc t r u _ _

theorem extract_append (before later : List SSEEvent) :
    (extractAnthropicTranscript (before ++ later) : Option (Transcript N)) =
      (extractAnthropicTranscript before).bind fun earlier =>
        (extractAnthropicTranscript later).map fun r => earlier.after r (starts N later) := by
  rw [extractAnthropicTranscript, List.foldlM_append]
  exact congrArg _ (funext fun earlier => foldlM_readEvent earlier later)

/-- Events of which none starts a message say nothing of the message. -/
theorem header_of_not_starts {events : List SSEEvent} {r : Transcript N}
    (extracted : extractAnthropicTranscript events = some r) (silent : starts N events = false) :
    r.model = none ∧ r.messageId = none := by
  have again := foldlM_readEvent (initial : Transcript N) events
  rw [← extractAnthropicTranscript, extracted, silent] at again
  have same : r = initial.after r false := by simpa using again
  rw [same]
  exact ⟨rfl, rfl⟩

/-- What the earlier events say is nothing, or the later ones say it again. -/
structure SaidAgain (earlier later : Transcript N) (starts : Bool) : Prop where
  text : earlier.text = []
  message : starts = true ∨ earlier.model = none ∧ earlier.messageId = none
  stopReason : later.stopReason.isSome = true ∨ earlier.stopReason = none
  usage : later.usage.isSome = true ∨ earlier.usage = none
  isComplete : later.isComplete = true ∨ earlier.isComplete = false

omit [JsNumber N] in
theorem or_eq_left_iff {α : Type*} {a b : Option α} :
    a.or b = a ↔ a.isSome = true ∨ b = none := by
  cases a <;> simp

omit [JsNumber N] in
theorem after_eq_iff {earlier later : Transcript N} {starts : Bool}
    (silent : starts = false → later.model = none ∧ later.messageId = none) :
    earlier.after later starts = later ↔ SaidAgain earlier later starts := by
  have message : ((if starts then later.model else earlier.model) = later.model ∧
      (if starts then later.messageId else earlier.messageId) = later.messageId) ↔
      (starts = true ∨ earlier.model = none ∧ earlier.messageId = none) := by
    cases starts with
    | true => simp
    | false => simp [silent rfl]
  have complete : (earlier.isComplete || later.isComplete) = later.isComplete ↔
      (later.isComplete = true ∨ earlier.isComplete = false) := by
    cases earlier.isComplete <;> cases later.isComplete <;> simp
  have fields : earlier.after later starts = later ↔
      earlier.text ++ later.text = later.text ∧
      (if starts then later.model else earlier.model) = later.model ∧
      (if starts then later.messageId else earlier.messageId) = later.messageId ∧
      later.stopReason.or earlier.stopReason = later.stopReason ∧
      later.usage.or earlier.usage = later.usage ∧
      (earlier.isComplete || later.isComplete) = later.isComplete := by
    rw [after]
    cases later
    simp
  rw [fields, List.append_left_eq_self, or_eq_left_iff, or_eq_left_iff, complete]
  constructor
  · rintro ⟨text, model, messageId, stopReason, usage, isComplete⟩
    exact ⟨text, message.mp ⟨model, messageId⟩, stopReason, usage, isComplete⟩
  · rintro ⟨text, header, stopReason, usage, isComplete⟩
    obtain ⟨model, messageId⟩ := message.mpr header
    exact ⟨text, model, messageId, stopReason, usage, isComplete⟩

/-- What the dropped events say is nothing, or the retained ones say it again. Where a
dropped event throws, so does a retained one. -/
def NothingLost (N : Type*) [JsNumber N] (dropped retained : List SSEEvent) : Prop :=
  ∀ later : Transcript N, extractAnthropicTranscript retained = some later →
    ∃ earlier, extractAnthropicTranscript dropped = some earlier ∧
      SaidAgain earlier later (starts N retained)

theorem extract_retained_iff (dropped retained : List SSEEvent) :
    (extractAnthropicTranscript retained : Option (Transcript N)) =
        extractAnthropicTranscript (dropped ++ retained) ↔ NothingLost N dropped retained := by
  rw [extract_append, NothingLost]
  cases hlater : (extractAnthropicTranscript retained : Option (Transcript N)) with
  | none =>
    cases (extractAnthropicTranscript dropped : Option (Transcript N)) <;> simp
  | some later =>
    have same : ∀ earlier : Transcript N,
        later = earlier.after later (starts N retained) ↔
          SaidAgain earlier later (starts N retained) := by
      intro earlier
      rw [eq_comm]
      exact after_eq_iff (header_of_not_starts hlater)
    cases (extractAnthropicTranscript dropped : Option (Transcript N)) with
    | none => simp
    | some earlier => simpa using same earlier

end Transcript

/-! ## Retention -/

/-- The events of a text that is fed at once and of which all are kept. -/
def streamEvents (text : Text) : List SSEEvent := (feedChunk createSSEStreamState text).events

theorem feedChunks_events (max : Nat) (texts : List Text) :
    (feedChunks max texts).events =
      (streamEvents texts.flatten).drop ((streamEvents texts.flatten).length - max) := by
  rw [feedChunks_flatten, applyRetention_eq]
  rfl

/-- The transcript that is shown is that of all events exactly if the events before the
newest 10,000 say nothing that is not said again. -/
theorem transcript_retained_iff (chunks : List BodyChunk) :
    let texts := chunks.map chunkToText
    let events := streamEvents texts.flatten
    let retained := (feedChunks maxSseEvents texts).events
    retained = events.drop (events.length - maxSseEvents) ∧
    ((extractAnthropicTranscript retained : Option (Transcript N)) =
        extractAnthropicTranscript events ↔
      NothingLost N (events.take (events.length - maxSseEvents)) retained) ∧
    (events.length ≤ maxSseEvents →
      (extractAnthropicTranscript retained : Option (Transcript N)) =
        extractAnthropicTranscript events) := by
  intro texts events retained
  have kept : retained = events.drop (events.length - maxSseEvents) :=
    feedChunks_events maxSseEvents texts
  refine ⟨kept, ?_, fun short => ?_⟩
  · rw [← extract_retained_iff, kept, List.take_append_drop]
  · rw [kept, Nat.sub_eq_zero_of_le short, List.drop_zero]

/-! ## A stream that is longer than what is retained -/

def startBlock : String :=
  "event: message_start\ndata: \x7b\"message\": \x7b\"model\": \"m\", \"id\": \"i\"\x7d\x7d\n\n"

def pingBlock : String := "event: ping\ndata: {}\n\n"

def startEvent : SSEEvent :=
  ⟨"message_start".toList, "\x7b\"message\": \x7b\"model\": \"m\", \"id\": \"i\"\x7d\x7d".toList, none, 0⟩

def pingEvent (index : Nat) : SSEEvent := ⟨"ping".toList, "{}".toList, none, index⟩

theorem feedChunk_pings (events : List SSEEvent) (index count : Nat) :
    feedChunk ⟨events, index, []⟩ (List.replicate count pingBlock.toList).flatten =
      ⟨events ++ (List.range' index count).map pingEvent, index + count, []⟩ := by
  induction count generalizing events index with
  | zero => simp [feedChunk, SSE.splitBlankLine, parseBlocks]
  | succ count ih =>
    have one : feedChunk ⟨events, index, []⟩ pingBlock.toList =
        ⟨events ++ [pingEvent index], index + 1, []⟩ := rfl
    rw [List.replicate_succ, List.flatten_cons, ← feedChunk_append, one, ih, List.range'_succ,
      List.map_cons, List.append_assoc, List.singleton_append]
    congr 1
    omega

theorem foldlM_pings (t : Transcript Int) (indices : List Nat) :
    (indices.map pingEvent).foldlM readEvent t = some t := by
  induction indices with
  | nil => rfl
  | cons index indices ih =>
    have ignored : readEvent t (pingEvent index) = some t := rfl
    rw [List.map_cons, List.foldlM_cons, ignored]
    exact ih

/-- After a start, as many pings as are retained, each in a chunk of its own. -/
def longStream : List BodyChunk :=
  .text startBlock :: List.replicate maxSseEvents (.text pingBlock)

theorem streamEvents_longStream : streamEvents (longStream.map chunkToText).flatten =
    startEvent :: (List.range' 1 maxSseEvents).map pingEvent := by
  have texts : (longStream.map chunkToText).flatten =
      startBlock.toList ++ (List.replicate maxSseEvents pingBlock.toList).flatten := by
    rw [longStream, List.map_cons, List.map_replicate, List.flatten_cons]
    rfl
  have start : feedChunk createSSEStreamState startBlock.toList = ⟨[startEvent], 1, []⟩ := rfl
  rw [texts, streamEvents, ← feedChunk_append, start, feedChunk_pings]
  rfl

theorem transcript_start_lost :
    (extractAnthropicTranscript (feedChunks maxSseEvents (longStream.map chunkToText)).events :
      Option (Transcript Int)) ≠
      extractAnthropicTranscript (streamEvents (longStream.map chunkToText).flatten) := by
  have retained : (feedChunks maxSseEvents (longStream.map chunkToText)).events =
      (List.range' 1 maxSseEvents).map pingEvent := by
    have first : ∀ (n : Nat) (rest : List SSEEvent), rest.length = n →
        (startEvent :: rest).drop ((startEvent :: rest).length - n) = rest := by
      rintro n rest rfl
      simp
    rw [feedChunks_events, streamEvents_longStream]
    exact first _ _ (by rw [List.length_map, List.length_range'])
  have whole : ∀ indices : List Nat,
      extractAnthropicTranscript (startEvent :: indices.map pingEvent) =
        some { (initial : Transcript Int) with
          model := some (.string (js "m")), messageId := some (.string (js "i")) } := by
    intro indices
    exact foldlM_pings { initial with
      model := some (.string (js "m")), messageId := some (.string (js "i")) } indices
  rw [retained, streamEvents_longStream, whole, extractAnthropicTranscript, foldlM_pings]
  intro same
  have models := congrArg (Option.map Transcript.model) same
  simp [initial] at models

end Protospy
