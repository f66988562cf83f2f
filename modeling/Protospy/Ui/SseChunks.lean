import Protospy.Ui.Bodies
import Protospy.Ui.SseParse
import Protospy.Ui.Utf8

/-!
# Event streams published in chunks

The proxy sends a chunk as text if it is well-formed UTF-8 on its own, and the
store decodes each chunk on its own.
-/

namespace Protospy

open Event (BodyData InitialBody)
open Wire (ProxyHeaders)
open Utf8Decoder

/-! ## The text of a chunk -/

theorem encodeUtf8_eq (s : String) : encodeUtf8 s = utf8Encode s.toList := by
  rw [encodeUtf8, ← String.utf8Encode_toList, List.utf8Encode, List.toList_data_toByteArray]
  rfl

theorem decodeUtf8_encodeUtf8 (s : String) : decodeUtf8 (encodeUtf8 s) = some s := by
  have valid : ByteArray.IsValidUTF8 ⟨(encodeUtf8 s).toArray⟩ := s.isValidUTF8
  rw [decodeUtf8, String.fromUTF8?, dif_pos valid]
  rfl

theorem isSome_decodeUtf8_iff (bytes : Bytes) :
    (decodeUtf8 bytes).isSome = true ↔ ∃ t, bytes = utf8Encode t := by
  constructor
  · intro valid
    obtain ⟨s, decoded⟩ := Option.isSome_iff_exists.mp valid
    exact ⟨s.toList, by rw [← encodeUtf8_eq, encodeUtf8_of_decode decoded]⟩
  · rintro ⟨t, rfl⟩
    have whole : utf8Encode t = encodeUtf8 (String.ofList t) := by simp [encodeUtf8_eq]
    rw [whole, decodeUtf8_encodeUtf8]
    rfl

/-- What the store reads from the chunk that the proxy makes of some octets. -/
def chunkText (part : Bytes) : Text := chunkToText (.ofBytes part)

theorem chunkText_utf8Encode (t : Text) : chunkText (utf8Encode t) = t := by
  have whole : utf8Encode t = encodeUtf8 (String.ofList t) := by simp [encodeUtf8_eq]
  rw [chunkText, BodyChunk.ofBytes, whole, decodeUtf8_encodeUtf8]
  simp [chunkToText]

theorem replacements_textDecoderDecode (bytes : Bytes) :
    replacements (textDecoderDecode bytes) = replacements (start.decode bytes) := by
  rw [textDecoderDecode]
  cases start.decode bytes with
  | nil => rfl
  | cons c rest =>
    by_cases mark : c = Char.ofNat 0xFEFF
    · subst mark
      rfl
    · simp [mark]

theorem chunkText_cases (part : Bytes) :
    chunkText part = start.decode part ∨ chunkText part = textDecoderDecode part := by
  by_cases valid : ∃ t, part = utf8Encode t
  · obtain ⟨t, rfl⟩ := valid
    exact .inl ((chunkText_utf8Encode t).trans (decode_whole t).symm)
  · have binary : decodeUtf8 part = none := by
      rwa [← Option.not_isSome_iff_eq_none, isSome_decodeUtf8_iff]
    exact .inr (by rw [chunkText, BodyChunk.ofBytes, binary]; rfl)

theorem replacements_chunkText (part : Bytes) :
    replacements (chunkText part) = replacements (start.decode part) := by
  rcases chunkText_cases part with text | text
  · rw [text]
  · rw [text, replacements_textDecoderDecode]

/-- The text that the parser is fed for a body in parts. -/
def fedText (parts : List Bytes) : Text := (parts.map chunkText).flatten

theorem fedText_cons (p : Bytes) (parts : List Bytes) :
    fedText (p :: parts) = chunkText p ++ fedText parts := rfl

theorem fedText_whole (t : Text) : fedText [utf8Encode t] = t := by
  rw [fedText_cons, chunkText_utf8Encode]
  exact List.append_nil t

theorem fedText_of_valid {parts : List Bytes} (each : ∀ p ∈ parts, (decodeUtf8 p).isSome = true) :
    parts.flatten = utf8Encode (fedText parts) := by
  induction parts with
  | nil => rfl
  | cons p parts ih =>
    obtain ⟨t, rfl⟩ := (isSome_decodeUtf8_iff p).mp (each p List.mem_cons_self)
    rw [fedText_cons, chunkText_utf8Encode, List.flatten_cons,
      ih fun q hq => each q (List.mem_cons_of_mem _ hq), utf8Encode_append]

theorem replacements_fedText_ge (parts : List Bytes) :
    replacements (start.decode parts.flatten) ≤ replacements (fedText parts) := by
  induction parts with
  | nil => simp [fedText, decode, start]
  | cons p parts ih =>
    have both := replacements_decode_append start_regular p parts.flatten
    rw [fedText_cons, List.flatten_cons, replacements_append, replacements_chunkText]
    exact both.trans (Nat.add_le_add_left ih _)

/-- A part that is not well formed shows. -/
theorem replacements_fedText {t : Text} {parts : List Bytes} (whole : parts.flatten = utf8Encode t)
    (cut : ∃ p ∈ parts, ¬ (decodeUtf8 p).isSome = true) :
    replacements t < replacements (fedText parts) := by
  induction parts generalizing t with
  | nil => simp at cut
  | cons p parts ih =>
    rw [fedText_cons, replacements_append]
    by_cases valid : ∃ s, p = utf8Encode s
    · obtain ⟨s, rfl⟩ := valid
      obtain ⟨t', rfl, rest⟩ := utf8Encode_append_inv whole
      have later : ∃ q ∈ parts, ¬ (decodeUtf8 q).isSome = true := by
        obtain ⟨q, member, broken⟩ := cut
        rcases List.mem_cons.mp member with rfl | member
        · exact absurd ((isSome_decodeUtf8_iff _).mpr ⟨s, rfl⟩) broken
        · exact ⟨q, member, broken⟩
      have tail := ih rest later
      rw [chunkText_utf8Encode, replacements_append]
      omega
    · have here := replacements_cut whole fun s hs => valid ⟨s, hs⟩
      have rest := replacements_fedText_ge parts
      rw [replacements_chunkText]
      omega

/-- The parser is fed the text of the body exactly when no character is cut. -/
theorem fedText_eq_iff {t : Text} {parts : List Bytes} (whole : parts.flatten = utf8Encode t) :
    fedText parts = t ↔ ∀ p ∈ parts, (decodeUtf8 p).isSome = true := by
  constructor
  · intro same
    by_contra cut
    simp only [not_forall] at cut
    obtain ⟨p, member, broken⟩ := cut
    have more := replacements_fedText whole ⟨p, member, broken⟩
    rw [same] at more
    exact lt_irrefl _ more
  · intro each
    rw [← decode_whole t, ← whole, fedText_of_valid each, decode_whole]

/-- Decoding in parts keeps the line feeds. -/
theorem count_lineFeed_fedText (parts : List Bytes) :
    (fedText parts).count '\n' = parts.flatten.count 10 := by
  have mark : ∀ bytes, (textDecoderDecode bytes).count '\n' =
      (start.decode bytes).count '\n' := by
    intro bytes
    rw [textDecoderDecode]
    cases start.decode bytes with
    | nil => rfl
    | cons c rest =>
      by_cases mark : c = Char.ofNat 0xFEFF
      · subst mark
        rfl
      · simp [mark]
  induction parts with
  | nil => rfl
  | cons p parts ih =>
    have here : (chunkText p).count '\n' = p.count 10 := by
      rw [← count_decode start_regular p]
      rcases chunkText_cases p with text | text
      · rw [text]
      · rw [text, mark]
    rw [fedText_cons, List.flatten_cons, List.count_append, List.count_append, here, ih]

/-! ## What follows a line feed -/

/-- A chunk goes on after a line feed like a chunk that begins there. -/
theorem chunkText_lineFeed (u x : Bytes) :
    ∃ s, chunkText (u ++ 10 :: x) = s ++ '\n' :: start.decode x := by
  obtain ⟨s, decoded⟩ := decode_lineFeed start_regular u
  rcases chunkText_cases (u ++ 10 :: x) with text | text
  · exact ⟨s, by rw [text, decoded]⟩
  · rw [text, textDecoderDecode, decoded]
    cases s with
    | nil => exact ⟨[], rfl⟩
    | cons c s =>
      by_cases mark : c = Char.ofNat 0xFEFF
      · exact ⟨s, by simp [mark]⟩
      · exact ⟨c :: s, by simp [mark]⟩

theorem fedText_append (xs ys : List Bytes) : fedText (xs ++ ys) = fedText xs ++ fedText ys := by
  simp [fedText]

theorem fedText_endsIn {parts : List Bytes} (ends : EndsIn 10 parts.flatten) :
    EndsIn '\n' (fedText parts) := by
  induction parts using List.reverseRecOn with
  | nil => exact .inl rfl
  | append_singleton parts p ih =>
    rw [List.flatten_append, List.flatten_singleton] at ends
    rw [fedText_append]
    rcases List.eq_nil_or_concat' p with rfl | ⟨q, b, rfl⟩
    · rw [List.append_nil] at ends
      have empty : fedText [[]] = [] := fedText_whole []
      rw [empty, List.append_nil]
      exact ih ends
    · rw [← List.append_assoc] at ends
      obtain rfl := ends.eq_of_concat
      obtain ⟨s, text⟩ := chunkText_lineFeed q []
      exact .inr ⟨fedText parts ++ s, by simp [fedText, text, decode, start]⟩

/-- The text after a line feed, as if the parts were cut there as well. -/
theorem fedText_after {before : List Bytes} {u y : Bytes} (whole : before.flatten = u ++ y)
    (ends : EndsIn 10 u) (after : List Bytes) :
    ∃ head tail parts, fedText (before ++ after) = head ++ tail ∧ EndsIn '\n' head ∧
      parts.flatten = y ∧ tail.count '\n' = (parts ++ after).flatten.count 10 ∧
      replacements tail = replacements (fedText (parts ++ after)) := by
  rcases List.flatten_eq_append_iff.mp whole with
    ⟨as, bs, rfl, rfl, rfl⟩ | ⟨as, p, c, cs, bs, rfl, rfl, rfl⟩
  · refine ⟨fedText as, fedText (bs ++ after), bs, ?_, fedText_endsIn ends, rfl,
      count_lineFeed_fedText _, rfl⟩
    rw [List.append_assoc, fedText_append]
  · rcases List.eq_nil_or_concat' p with rfl | ⟨q, b, rfl⟩
    · rw [List.append_nil] at ends
      refine ⟨fedText as, fedText ((c :: cs) :: bs ++ after), (c :: cs) :: bs, ?_,
        fedText_endsIn ends, rfl, count_lineFeed_fedText _, rfl⟩
      rw [List.append_assoc, fedText_append]
      rfl
    · rw [← List.append_assoc] at ends
      obtain rfl := ends.eq_of_concat
      obtain ⟨s, text⟩ := chunkText_lineFeed q (c :: cs)
      refine ⟨fedText as ++ s ++ ['\n'], start.decode (c :: cs) ++ fedText (bs ++ after),
        (c :: cs) :: bs, ?_, .inr ⟨_, rfl⟩, rfl, ?_, ?_⟩
      · simp [fedText, text]
      · rw [List.count_append, count_decode start_regular, count_lineFeed_fedText,
          ← List.count_append]
        rfl
      · rw [List.cons_append, fedText_cons, replacements_append, replacements_append,
          replacements_chunkText]

/-! ## The state of the stream -/

/-- The stream after the parts of the body, each of them fed as one chunk. -/
def streamState (parts : List Bytes) : SSEStreamState :=
  feedChunks maxSseEvents (parts.map chunkText)

theorem streamState_eq (parts : List Bytes) :
    streamState parts =
      applyRetention (feedChunk createSSEStreamState (fedText parts)) maxSseEvents :=
  feedChunks_flatten _ _

theorem streamState_of_valid {parts : List Bytes}
    (each : ∀ p ∈ parts, (decodeUtf8 p).isSome = true) :
    streamState parts = streamState [parts.flatten] := by
  have whole := fedText_of_valid each
  have one : fedText [parts.flatten] = fedText parts := by rw [whole, fedText_whole]
  rw [streamState_eq, streamState_eq, one]

/-- What is left open begins after a blank line. -/
theorem exists_open (x : Text) :
    ∃ a, x = a ++ (SSE.splitBlankLine x).getLastD [] ∧
      (a = [] ∨ ∃ b, a = b ++ ['\n', '\n']) := by
  fun_induction SSE.splitBlankLine x
  case case1 => exact ⟨[], rfl, .inl rfl⟩
  case case2 rest ih =>
    obtain ⟨a, whole, ends⟩ := ih
    obtain ⟨part, parts, split⟩ := List.exists_cons_of_ne_nil (SSE.splitBlankLine_ne_nil rest)
    refine ⟨'\n' :: '\n' :: a, ?_, .inr ?_⟩
    · rw [split] at whole ⊢
      exact congrArg ('\n' :: '\n' :: ·) whole
    · rcases ends with rfl | ⟨b, rfl⟩
      · exact ⟨[], rfl⟩
      · exact ⟨'\n' :: '\n' :: b, rfl⟩
  case case3 c rest pair part parts split ih =>
    obtain ⟨a, whole, ends⟩ := ih
    rw [split] at whole
    cases parts with
    | nil => exact ⟨[], by rw [SSE.eq_of_splitBlankLine split]; rfl, .inl rfl⟩
    | cons next parts =>
      refine ⟨c :: a, congrArg (c :: ·) whole, .inr ?_⟩
      rcases ends with rfl | ⟨b, rfl⟩
      · -- the last part has no blank line, so it is not all of `rest`
        have last : SSE.splitBlankLine ((SSE.splitBlankLine rest).getLastD []) =
          [(SSE.splitBlankLine rest).getLastD []] := SSE.blankLines.split_getLastD rest
        rw [split, ← List.nil_append ((part :: next :: parts).getLastD []), ← whole, split] at last
        simp at last
      · exact ⟨c :: b, rfl⟩
  case case4 c rest pair empty ih => exact absurd empty (SSE.splitBlankLine_ne_nil rest)

/-- Before the end of a blank line a cut inside a character has all of it ahead. -/
theorem blankLine_ahead {b : Text} {x w : Bytes}
    (prior : utf8Encode (b ++ ['\n', '\n']) = x ++ w) (cut : ∀ s, x ≠ utf8Encode s) :
    ∃ w', w = w' ++ [10, 10] := by
  have lineFeeds : utf8Encode b ++ [10] ++ [10] = x ++ w := by
    rw [← prior, utf8Encode_append, List.append_assoc]
    rfl
  rcases List.eq_nil_or_concat' w with rfl | ⟨w, c, rfl⟩
  · exact absurd (by rw [prior, List.append_nil]) (cut (b ++ ['\n', '\n']))
  · rw [← List.append_assoc] at lineFeeds
    obtain ⟨lineFeed, rfl⟩ := List.append_singleton_inj.mp lineFeeds
    rcases List.eq_nil_or_concat' w with rfl | ⟨w, c, rfl⟩
    · refine absurd ?_ (cut (b ++ ['\n']))
      rw [utf8Encode_append, ← List.append_nil x, ← lineFeed]
      rfl
    · rw [← List.append_assoc] at lineFeed
      obtain ⟨-, rfl⟩ := List.append_singleton_inj.mp lineFeed
      exact ⟨w, by simp⟩

/-- A cut after the last blank line shows in what is left open. -/
theorem remainder_ne_of_cut {parts before after : List Bytes} {a rest : Text} {y : Bytes}
    (split : parts = before ++ after) (prior : before.flatten = utf8Encode a ++ y)
    (later : utf8Encode rest = y ++ after.flatten) (ends : a = [] ∨ ∃ b, a = b ++ ['\n', '\n'])
    (cut : ∀ s, before.flatten ≠ utf8Encode s) :
    (SSE.splitBlankLine (fedText parts)).getLastD [] ≠ rest := by
  intro remainder
  have endsIn : EndsIn 10 (utf8Encode a) := by
    rcases ends with rfl | ⟨b, rfl⟩
    · exact .inl rfl
    · exact .inr ⟨utf8Encode (b ++ ['\n']), by
        rw [utf8Encode_append, utf8Encode_append, List.append_assoc]
        rfl⟩
  obtain ⟨head, tail, ps, fed, headEnds, flat, count, shown⟩ := fedText_after prior endsIn after
  have broken : ∃ p ∈ ps ++ after, ¬ (decodeUtf8 p).isSome = true := by
    by_contra each
    have valid := fedText_of_valid fun p hp => by
      by_contra broken
      exact each ⟨p, List.mem_append_left after hp, broken⟩
    exact cut (a ++ fedText ps) (by rw [prior, utf8Encode_append, ← valid, flat])
  have whole : (ps ++ after).flatten = utf8Encode rest := by
    rw [List.flatten_append, flat, later]
  have more := replacements_fedText whole broken
  obtain ⟨a', opened, ends'⟩ := exists_open (fedText parts)
  rw [remainder, split, fed] at opened
  have endsIn' : EndsIn '\n' a' := by
    rcases ends' with rfl | ⟨b, rfl⟩
    · exact .inl rfl
    · exact .inr ⟨b ++ ['\n'], by simp⟩
  have counts : rest.count '\n' = tail.count '\n' := by
    rw [count, whole, ← count_decode start_regular, decode_whole]
  have same := eq_of_count_after opened.symm endsIn' headEnds counts
  rw [← shown, same] at more
  exact lt_irrefl _ more

/-- The state does not hide a cut inside a character before a blank line follows. -/
theorem blankLine_after_cut {parts : List Bytes} {t : Text}
    (whole : parts.flatten = utf8Encode t)
    (same : streamState parts = streamState [parts.flatten]) {before after : List Bytes}
    (split : parts = before ++ after) (cut : ¬ (decodeUtf8 before.flatten).isSome = true) :
    [10, 10] <:+: after.flatten := by
  have unread : ∀ s, before.flatten ≠ utf8Encode s := fun s text =>
    cut ((isSome_decodeUtf8_iff _).mpr ⟨s, text⟩)
  obtain ⟨a, opened, ends⟩ := exists_open t
  generalize rest_eq : (SSE.splitBlankLine t).getLastD [] = rest at opened
  have cutAt : before.flatten ++ after.flatten = utf8Encode a ++ utf8Encode rest := by
    rw [← List.flatten_append, ← split, whole, opened, utf8Encode_append]
  rcases List.append_eq_append_iff.mp cutAt with ⟨w, prior, later⟩ | ⟨y, prior, later⟩
  · rcases ends with rfl | ⟨b, rfl⟩
    · exact absurd (List.append_eq_nil_iff.mp prior.symm).1 (unread [])
    · obtain ⟨w', rfl⟩ := blankLine_ahead prior unread
      exact ⟨w', utf8Encode rest, later.symm⟩
  · have one : fedText [parts.flatten] = t := by rw [whole, fedText_whole]
    have remainder := congrArg SSEStreamState.parserRemainder same
    rw [streamState_eq, streamState_eq, one, applyRetention_eq, applyRetention_eq] at remainder
    change (SSE.splitBlankLine (fedText parts)).getLastD [] =
      (SSE.splitBlankLine t).getLastD [] at remainder
    exact absurd (remainder.trans rest_eq) (remainder_ne_of_cut split prior later ends unread)

/-! ## The stream in the store -/

/-- The payloads of the reports, in order. -/
def reportedChunks (reports : List BodyReport) : List BodyChunk :=
  reports.filterMap fun report => report.body?.bind Event.BodyData.payload?

def Ui.Store.sseState (store : Ui.Store) (id : Nat) (direction : Direction) :
    Option SSEStreamState :=
  (store.body id direction).bind BodyState.sseState

/-- The messages about a body: its head, which announces an event stream, and data
that carries the parts as chunks. -/
def Streams (id : Nat) (direction : Direction) (parts : List Bytes)
    (msgs : List Wire.EventMessage) : Prop :=
  ∃ headers initial, ∃ bodies : List (BodyData ProxyHeaders),
    msgs.filterMap (BodyReport.ofMessage? id direction) =
      .head headers initial :: bodies.map BodyReport.data ∧
    isSSEContentType (getHeader headers "content-type") = true ∧ initial ≠ .noBody ∧
    reportedChunks (.head headers initial :: bodies.map BodyReport.data) =
      parts.map BodyChunk.ofBytes

theorem feedChunks_concat (max : Nat) (chunks : List Text) (chunk : Text) :
    feedChunks max (chunks ++ [chunk]) =
      applyRetention (feedChunk (feedChunks max chunks) chunk) max := by
  rw [feedChunks, List.foldl_append]
  rfl

theorem feedPayload_feedChunks (chunks : List BodyChunk) (payload : Option BodyChunk) :
    feedPayload (feedChunks maxSseEvents (chunks.map chunkToText)) payload =
      feedChunks maxSseEvents ((chunks ++ payload.toList).map chunkToText) := by
  cases payload with
  | none => simp [feedPayload]
  | some chunk => simp [feedPayload, feedChunks_concat]

theorem foldl_step_sseState {headers : ProxyHeaders} {initial : InitialBody ProxyHeaders}
    (sse : isSSEContentType (getHeader headers "content-type") = true) (some : initial ≠ .noBody)
    (bodies : List (BodyData ProxyHeaders)) (prev : Option BodyState) :
    ∃ b,
      (BodyReport.head headers initial :: bodies.map BodyReport.data).foldl BodyReport.step prev =
        Option.some b ∧
      b.sseState = Option.some (feedChunks maxSseEvents
        ((reportedChunks (.head headers initial :: bodies.map BodyReport.data)).map
          chunkToText)) := by
  induction bodies using List.reverseRecOn with
  | nil =>
    cases initial with
    | noBody => exact absurd rfl some
    | notRead => exact ⟨_, rfl, by simp [sse, reportedChunks, BodyReport.body?, feedChunks]⟩
    | data body =>
      have first := feedPayload_feedChunks [] body.payload?
      have read : reportedChunks [.head headers (.data body)] = body.payload?.toList := by
        cases h : body.payload? <;> simp [reportedChunks, BodyReport.body?, h]
      refine ⟨_, by simp only [List.map_nil, List.foldl_cons, List.foldl_nil, BodyReport.step,
        initialBodyToState, sse, if_true]; rfl, ?_⟩
      rw [List.map_nil, read]
      exact congrArg Option.some first
  | append_singleton bodies body ih =>
    obtain ⟨b, folded, state⟩ := ih
    have read : reportedChunks (.head headers initial :: (bodies ++ [body]).map BodyReport.data) =
        reportedChunks (.head headers initial :: bodies.map BodyReport.data) ++
          body.payload?.toList := by
      rw [reportedChunks, reportedChunks, List.map_append, ← List.cons_append,
        List.filterMap_append]
      cases h : body.payload? <;> simp [BodyReport.body?, h]
    refine ⟨appendBodyData (Option.some b) body, ?_, ?_⟩
    · rw [List.map_append, ← List.cons_append, List.foldl_append, folded]
      rfl
    · rw [read, ← feedPayload_feedChunks]
      simp [appendBodyData, state]

/-- The store holds the state of feeding the parts, whatever else it receives. -/
theorem Streams.sseState {id : Nat} {direction : Direction} {parts : List Bytes}
    {msgs : List Wire.EventMessage} (streams : Streams id direction parts msgs)
    (store : Ui.Store) :
    (msgs.foldl Ui.apply store).sseState id direction = some (streamState parts) := by
  obtain ⟨headers, initial, bodies, reports, sse, body, chunks⟩ := streams
  obtain ⟨b, folded, state⟩ := foldl_step_sseState sse body bodies (store.body id direction)
  have texts : (parts.map BodyChunk.ofBytes).map chunkToText = parts.map chunkText := by
    rw [List.map_map]
    rfl
  rw [Ui.Store.sseState, Ui.foldl_apply_body, reports, folded, Option.bind_some, state, chunks,
    texts, streamState]

/-- The text that the parser is fed is that of the body exactly when no cut is inside a
character, and then the state is that of the body in one chunk. A cut inside a
character shows in the state unless a blank line follows it. -/
theorem sseState_cut (id : Nat) (direction : Direction) (parts : List Bytes)
    (valid : (decodeUtf8 parts.flatten).isSome = true) (store store' : Ui.Store)
    (msgs msgs' : List Wire.EventMessage) (cut : Streams id direction parts msgs)
    (whole : Streams id direction [parts.flatten] msgs') :
    (fedText parts = fedText [parts.flatten] ↔ ∀ p ∈ parts, (decodeUtf8 p).isSome = true) ∧
    ((∀ p ∈ parts, (decodeUtf8 p).isSome = true) →
      (msgs.foldl Ui.apply store).sseState id direction =
        (msgs'.foldl Ui.apply store').sseState id direction) ∧
    ((msgs.foldl Ui.apply store).sseState id direction =
        (msgs'.foldl Ui.apply store').sseState id direction →
      ∀ before after, parts = before ++ after →
        ¬ (decodeUtf8 before.flatten).isSome = true → [10, 10] <:+: after.flatten) := by
  obtain ⟨t, text⟩ := (isSome_decodeUtf8_iff _).mp valid
  rw [cut.sseState store, whole.sseState store']
  refine ⟨?_, ?_, ?_⟩
  · have one : fedText [parts.flatten] = t := by rw [text, fedText_whole]
    rw [one]
    exact fedText_eq_iff text
  · intro each
    rw [streamState_of_valid each]
  · intro same before after split cut
    exact blankLine_after_cut text (Option.some.inj same) split cut

/-- After a blank line the state may not show it: here the cut is in a comment. -/
example : streamState [[58, 0xC3], [0xA9, 10, 10]] = streamState [[58, 0xC3, 0xA9, 10, 10]] := by
  decide +kernel

def streamHeaders : ProxyHeaders := [⟨"content-type", "text/event-stream"⟩]

/-- The response of exchange 7, with the first octets of its body. -/
def streamHead (first : Bytes) (atEnd : Bool) : Wire.EventMessage :=
  ⟨⟨7, ""⟩, .response, .response "200" "HTTP/1.1" streamHeaders 0
    (.data ⟨some ⟨0, first.length, .ofBytes first⟩, none, atEnd, first.length⟩)⟩

def streamRest (first rest : Bytes) : Wire.EventMessage :=
  ⟨⟨7, ""⟩, .response, .bodyData
    ⟨some ⟨first.length, rest.length, .ofBytes rest⟩, none, true, first.length + rest.length⟩⟩

theorem streams_one (first : Bytes) (atEnd : Bool) :
    Streams 7 .response [first] [streamHead first atEnd] :=
  ⟨streamHeaders, _, [], rfl, by decide +kernel, by simp, rfl⟩

theorem streams_two (first rest : Bytes) :
    Streams 7 .response [first, rest] [streamHead first false, streamRest first rest] :=
  ⟨streamHeaders, _, [_], rfl, by decide +kernel, by simp, rfl⟩

/-- `data: é` and a blank line, cut after the first octet of `é`. -/
def cutEvent : Bytes × Bytes := ([100, 97, 116, 97, 58, 32, 0xC3], [0xA9, 10, 10])

/-- The same body, cut before `é`. -/
theorem sseState_cut_accent :
    let first : Bytes := [100, 97, 116, 97, 58, 32]
    let rest : Bytes := [0xC3, 0xA9, 10, 10]
    fedText [first, rest] = fedText [first ++ rest] ∧
      ([streamHead first false, streamRest first rest].foldl Ui.apply .empty).sseState 7 .response =
        ([streamHead (first ++ rest) true].foldl Ui.apply .empty).sseState 7 .response :=
  have ⟨fed, same, _⟩ := sseState_cut 7 .response [[100, 97, 116, 97, 58, 32], [0xC3, 0xA9, 10, 10]]
    (by decide +kernel) .empty .empty _ _ (streams_two _ _) (streams_one _ _)
  have valid := by decide +kernel
  ⟨fed.mpr valid, same valid⟩

theorem sseState_cutEvent :
    (decodeUtf8 (cutEvent.1 ++ cutEvent.2)).isSome = true ∧
    Streams 7 .response [cutEvent.1, cutEvent.2]
      [streamHead cutEvent.1 false, streamRest cutEvent.1 cutEvent.2] ∧
    Streams 7 .response [cutEvent.1 ++ cutEvent.2]
      [streamHead (cutEvent.1 ++ cutEvent.2) true] ∧
    ([streamHead cutEvent.1 false, streamRest cutEvent.1 cutEvent.2].foldl Ui.apply
        .empty).sseState 7 .response ≠
      ([streamHead (cutEvent.1 ++ cutEvent.2) true].foldl Ui.apply
        .empty).sseState 7 .response := by
  refine ⟨by decide +kernel, streams_two _ _, streams_one _ _, ?_⟩
  rw [(streams_two cutEvent.1 cutEvent.2).sseState, (streams_one _ _).sseState]
  have differ : streamState [cutEvent.1, cutEvent.2] ≠
      streamState [cutEvent.1 ++ cutEvent.2] := by decide +kernel
  exact fun same => differ (Option.some.inj same)

end Protospy
