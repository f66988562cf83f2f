import Protospy.Reconstruction
import Protospy.Ui.BodyPane
import Protospy.Ui.LivePane
import Protospy.Ui.Utf8

/-!
# From the upstream to the pane

A body that is proxied while its pane is open. Whatever comes in between, the pane shows what
was sent.
-/

namespace Protospy

open Event (BodyContent BodyData InitialBody)
open PollStream
open Delivery (marked eventsAbout reports arrives)

/-! ## A body while it comes in -/

theorem initialBodyToState_present {headers : Wire.ProxyHeaders}
    {initial : InitialBody Wire.ProxyHeaders} (present : initial ≠ .noBody)
    (notStream : isSSEContentType (getHeader headers "content-type") = false) :
    ∃ b, initialBodyToState initial headers = some b ∧
      b.contentType = getHeader headers "content-type" ∧
      b.contentEncoding = getHeader headers "content-encoding" ∧ b.sseState = none := by
  cases initial with
  | noBody => exact absurd rfl present
  | notRead =>
    refine ⟨_, rfl, rfl, rfl, ?_⟩
    rw [notStream]
    rfl
  | data body =>
    rw [initialBodyToState, notStream]
    exact ⟨_, rfl, rfl, rfl, rfl⟩

/-- Data that follows keeps the type and the encoding. -/
theorem foldl_data_type {more : List BodyReport} (data : ∀ r ∈ more, r.isHead = false)
    (b : BodyState) : ∃ b', more.foldl BodyReport.step (some b) = some b' ∧
      b'.contentType = b.contentType ∧ b'.contentEncoding = b.contentEncoding ∧
      (b.sseState = none → b'.sseState = none) := by
  induction more generalizing b with
  | nil => exact ⟨b, rfl, rfl, rfl, id⟩
  | cons r more ih =>
    obtain ⟨first, later⟩ := List.forall_mem_cons.mp data
    cases r with
    | head headers initial => cases first
    | data body =>
      obtain ⟨b', folded, type, encoding, raw⟩ := ih later (appendBodyData (some b) body)
      refine ⟨b', folded, type.trans ?_, encoding.trans ?_, fun none => raw ?_⟩
      · cases sse : b.sseState <;> simp [appendBodyData, sse]
      · cases sse : b.sseState <;> simp [appendBodyData, sse]
      · simp [appendBodyData, none]

/-- What ends like the whole is the whole. -/
theorem eq_of_prefix_ends {H : Type} {arrived whole : List (BodyData H)} (only : OnlyLastEnds whole)
    (sub : arrived <+: whole) (ends : lastAtEnd arrived = true) : arrived = whole := by
  obtain ⟨rest, rfl⟩ := sub
  rcases List.eq_nil_or_concat arrived with rfl | ⟨before, last, rfl⟩
  · cases ends
  · rw [List.concat_eq_append] at ends only ⊢
    rw [lastAtEnd_concat] at ends
    obtain rfl := only before last rest (by simp) ends
    exact (List.append_nil _).symm

/-- The bodies that arrived make the body of the store. -/
theorem accumulated {bodies : List (BodyData Wire.ProxyHeaders)} {arrived : List (BodyData Headers)}
    (same : bodies.map BodyData.bare = arrived.map BodyData.bare) {b : BodyState}
    (accumulates : Accumulates bodies (some b)) (raw : b.sseState = none) :
    b.chunks.flatMap BodyChunk.bytes = payloads arrived ∧ b.atEnd = lastAtEnd arrived ∧
      b.wireBytes = lastTotal arrived := by
  obtain ⟨chunks, atEnd, total⟩ := accumulates raw
  refine ⟨?_, ?_, ?_⟩
  · rw [chunks, chunksOf_bytes, ← payloads_bare, same, payloads_bare]
  · rw [atEnd, ← lastAtEnd_bare, same, lastAtEnd_bare]
  · rw [total, ← lastTotal_bare, same, lastTotal_bare]

/-- A body with the type and the encoding of its headers which, once it is complete, has the
bytes that were sent. -/
structure Carries (headers : HeaderMap) (payload : Bytes) (b : BodyState) : Prop where
  contentType : b.contentType = (headers.get .contentType).bind HeaderValue.toStr
  contentEncoding : b.contentEncoding = (headers.get .contentEncoding).bind HeaderValue.toStr
  bytes : b.atEnd = true → b.chunks.flatMap BodyChunk.bytes = payload
  wireBytes : b.atEnd = true → b.wireBytes = payload.length

/-- The same body but for the size that was written to it. -/
theorem Carries.of_unsized {headers : HeaderMap} {payload : Bytes} {b b' : BodyState}
    (carries : Carries headers payload b) (same : b.unsized = b'.unsized) : Carries headers payload b' := by
  obtain ⟨chunks, atEnd, wireBytes, size, type, encoding, sse⟩ := b
  obtain ⟨chunks', atEnd', wireBytes', size', type', encoding', sse'⟩ := b'
  simp only [BodyState.unsized, BodyState.mk.injEq, true_and] at same
  obtain ⟨rfl, rfl, rfl, rfl, rfl, rfl⟩ := same
  exact ⟨carries.contentType, carries.contentEncoding, carries.bytes, carries.wireBytes⟩

section Incoming

variable {β : Type} [HttpBody β] {env : TrackEnv} {head : Head} {body : β} {frames : List Frame}
  {runs : List ReporterRun} {id : Nat} {delivery : Delivery}

theorem Delivery.reports_prefix (id : Nat) (direction : Direction) {part : Delivery}
    (sub : part <+: delivery) : reports id direction part <+: reports id direction delivery :=
  (sub.filterMap _).filterMap _

theorem Delivery.eventsAbout_prefix (id : Nat) (direction : Direction) {part : Delivery}
    (sub : part <+: delivery) : eventsAbout id direction part <+: eventsAbout id direction delivery :=
  (sub.filter _).map _

/-- The body was read to its end while somebody listened, and all of its messages arrive. It is
no event stream. -/
structure Relayed (env : TrackEnv) (head : Head) (body : β) (frames : List Frame)
    (runs : List ReporterRun) (id : Nat) (delivery : Delivery) : Prop where
  ends : (frames.map .ok, true) ∈ trace body
  notStream : isSSEContentType ((head.headers.get .contentType).bind HeaderValue.toStr) = false
  listening : env.listening = true
  spawns : env.spawns = true
  started : runs.map ReporterRun.start = (track env head.direction head.event body).reporters
  finished : Finished env body runs
  published : eventsAbout id head.direction delivery =
    bodyEvents (track env head.direction head.event body) runs
  lossless : ∀ p ∈ delivery, p.1.isAbout id head.direction = true → arrives p = true

/-- A body whose head is told at the start, after some of the messages. -/
theorem part_body {direction : Direction} {headers : Wire.ProxyHeaders}
    {initial : InitialBody Wire.ProxyHeaders} {more : List BodyReport} {first : BodyState}
    (told : reports id direction delivery = .head headers initial :: more)
    (data : ∀ r ∈ more, r.isHead = false) (made : initialBodyToState initial headers = some first)
    (raw : first.sseState = none)
    (lossless : ∀ p ∈ delivery, p.1.isAbout id direction = true → arrives p = true)
    {part : Delivery} (sub : part <+: delivery) {b : BodyState}
    (held : (part.received.foldl Ui.apply .empty).body id direction = some b) :
    b.contentType = first.contentType ∧ b.contentEncoding = first.contentEncoding ∧
      ∃ arrived, arrived = (eventsAbout id direction part).filterMap ProxyEvent.body? ∧
        b.chunks.flatMap BodyChunk.bytes = payloads arrived ∧ b.atEnd = lastAtEnd arrived ∧
        b.wireBytes = lastTotal arrived := by
  have within := Delivery.reports_prefix id direction sub
  rw [Ui.foldl_apply_body] at held
  change (reports id direction part).foldl BodyReport.step none = some b at held
  rw [told, List.prefix_cons_iff] at within
  rcases within with none | ⟨rest, some, only⟩
  · rw [none] at held
    cases held
  · have later : ∀ r ∈ rest, r.isHead = false := fun r member => data r (only.subset member)
    obtain ⟨b', folded, sameType, sameEncoding, kept⟩ := foldl_data_type later first
    have accumulates := @foldl_accumulates (reports id direction part)
      (by rw [some]; exact later)
    rw [held] at accumulates
    rw [some, List.foldl_cons, BodyReport.step, made, folded] at held
    obtain rfl := Option.some.inj held
    have all := arrivedOf_lossless fun p member => lossless p (sub.subset member)
    exact ⟨sameType, sameEncoding, _, all,
      accumulated (Delivery.reports_bodies id direction part) accumulates (kept raw)⟩

/-- An absent body is told by its head alone. -/
theorem part_absent {direction : Direction} {headers : Wire.ProxyHeaders}
    (told : reports id direction delivery = [.head headers .noBody]) {part : Delivery}
    (sub : part <+: delivery) : (part.received.foldl Ui.apply .empty).body id direction = none := by
  have within := Delivery.reports_prefix id direction sub
  rw [Ui.foldl_apply_body]
  change (reports id direction part).foldl BodyReport.step none = none
  rw [told, List.prefix_cons_iff] at within
  rcases within with none | ⟨rest, some, only⟩
  · rw [none]
    rfl
  · rw [some, List.prefix_nil.mp only]
    rfl

/-- What the store is told of a body that is there: a head with the type and the encoding, then
data up to the end. -/
structure Told (headers : HeaderMap) (payload : Bytes) (reported : List BodyReport)
    (bodies : List (BodyData Headers)) : Prop where
  head : ∃ wire initial more first, reported = .head wire initial :: more ∧
    (∀ r ∈ more, r.isHead = false) ∧ initialBodyToState initial wire = some first ∧
    first.contentType = (headers.get .contentType).bind HeaderValue.toStr ∧
    first.contentEncoding = (headers.get .contentEncoding).bind HeaderValue.toStr ∧
    first.sseState = none
  ends : lastAtEnd bodies = true
  bytes : payloads bodies = payload
  total : lastTotal bodies = payload.length

theorem Relayed.told (relayed : Relayed env head body frames runs id delivery) :
    (dataBytes frames = [] ∧ ∃ wire, reports id head.direction delivery = [.head wire .noBody]) ∨
      Told head.headers (dataBytes frames) (reports id head.direction delivery)
        ((eventsAbout id head.direction delivery).filterMap ProxyEvent.body?) := by
  obtain ⟨found, parts, -, head', outcome⟩ :=
    bodyEvents_complete relayed.ends relayed.listening relayed.spawns relayed.started relayed.finished
  have events : eventsAbout id head.direction delivery =
      head.event found :: runs.flatMap fun r => r.state.published := by
    rw [relayed.published, bodyEvents, head']
    rfl
  obtain ⟨wire, initial, more, told, sameHeaders, sameBody⟩ := reports_eq_head events relayed.lossless
  rcases outcome with ⟨rfl, rfl, rfl⟩ | ⟨present, before, last, bodies, atEnd, payload⟩
  · have heads := Delivery.reports_heads id head.direction delivery
    rw [told, events] at heads
    obtain rfl : more = [] := by simpa using heads.length_le
    obtain rfl := Except.ok.inj sameBody
    exact .inl ⟨rfl, wire, told⟩
  · have data := Delivery.reports_tail env head body relayed.started relayed.published
    rw [told, List.tail_cons] at data
    have type : getHeader wire "content-type" =
        (head.headers.get .contentType).bind HeaderValue.toStr := getHeader_ofMap sameHeaders .contentType
    obtain ⟨first, made, ofType, ofEncoding, raw⟩ := initialBodyToState_present
      (serialize_present present sameBody) (type ▸ relayed.notStream)
    obtain ⟨contiguous, -⟩ := bodyEvents_contiguous env head body relayed.started
    rw [bodies] at contiguous
    refine .inr ⟨⟨wire, initial, more, first, told, data, made, ofType.trans type,
      ofEncoding.trans (getHeader_ofMap sameHeaders .contentEncoding), raw⟩, ?_, ?_, ?_⟩
    · rw [relayed.published, bodies, lastAtEnd_concat, atEnd]
    · rw [relayed.published, bodies, payload]
    · rw [relayed.published, bodies, lastTotal_concat, contiguous_total contiguous, payload,
        Nat.zero_add]

/-- After any of the messages the body carries what was sent, and after all of them it is
complete, unless it is absent and nothing was sent. -/
theorem Relayed.body_carries (relayed : Relayed env head body frames runs id delivery) :
    (∀ (part : Delivery) (b : BodyState), part <+: delivery →
      (part.received.foldl Ui.apply .empty).body id head.direction = some b →
        Carries head.headers (dataBytes frames) b) ∧
    ((delivery.received.foldl Ui.apply .empty).body id head.direction = none ∧ dataBytes frames = [] ∨
      ∃ b, (delivery.received.foldl Ui.apply .empty).body id head.direction = some b ∧
        b.atEnd = true) := by
  rcases relayed.told with ⟨empty, wire, told⟩ | ⟨⟨wire, initial, more, first, told, data, made,
    ofType, ofEncoding, raw⟩, ends, sent, count⟩
  · refine ⟨fun part b sub held => ?_, .inl ⟨part_absent told (List.prefix_refl _), empty⟩⟩
    rw [part_absent told sub] at held
    cases held
  · have only := (bodyEvents_contiguous env head body relayed.started).2
    rw [← relayed.published] at only
    refine ⟨fun part b sub held => ?_, .inr ?_⟩
    · obtain ⟨sameType, sameEncoding, arrived, rfl, bytes, ended, total⟩ :=
        part_body told data made raw relayed.lossless sub held
      have within := (Delivery.eventsAbout_prefix id head.direction sub).filterMap ProxyEvent.body?
      have whole (complete : b.atEnd = true) := eq_of_prefix_ends only within (ended.symm.trans complete)
      refine ⟨sameType.trans ofType, sameEncoding.trans ofEncoding, fun complete => ?_,
        fun complete => ?_⟩
      · rw [bytes, whole complete, sent]
      · rw [total, whole complete, count]
    · obtain ⟨b, folded, -⟩ := foldl_data_type data first
      have held : (delivery.received.foldl Ui.apply .empty).body id head.direction = some b := by
        rw [Ui.foldl_apply_body]
        change (reports id head.direction delivery).foldl BodyReport.step none = some b
        rw [told, List.foldl_cons, BodyReport.step, made, folded]
      obtain ⟨-, -, arrived, rfl, -, ended, -⟩ :=
        part_body told data made raw relayed.lossless (List.prefix_refl _) held
      exact ⟨b, held, ended.trans ends⟩

end Incoming

/-! ## Texts that are documents -/

namespace JSON

variable {N : Type*} [JsNumber N]

/-- No word of JSON starts with this character. -/
theorem scan_word_none {c : Char} (bad : ∀ word, (wordToken? (c :: word) : Option (Token N)) = none)
    (t : Text) : ∀ word, (scan (.word (c :: word)) t : Option (List (Token N))) = none := by
  induction t with
  | nil =>
    intro word
    rw [scan, Scanner.leave, bad]
    rfl
  | cons d t ih =>
    intro word
    have stuck : (Scanner.leave (.word (c :: word)) : Option (List (Token N))) = none := by
      rw [Scanner.leave, bad]
      rfl
    rw [scan, Scanner.push, stuck]
    split_ifs
    · rfl
    · rfl
    · cases mark : (punctuation? d : Option (Token N)) with
      | some token => rfl
      | none =>
        dsimp only
        rw [Option.bind_some, List.cons_append, ih]
        rfl

theorem wordToken_mark (word : Text) :
    (wordToken? (Char.ofNat 0xFEFF :: word) : Option (Token N)) = none := by
  have first : ¬ IsNumberChar (Char.ofNat 0xFEFF) := by
    rw [IsNumberChar]
    decide
  have number : isNumberLiteral (Char.ofNat 0xFEFF :: word) = false := by
    by_contra literal
    exact first ((numberChars_literal (by simpa using literal)).2 _ List.mem_cons_self)
  have other (known : Text) (starts : known.head? ≠ some (Char.ofNat 0xFEFF)) :
      Char.ofNat 0xFEFF :: word ≠ known := by
    rintro rfl
    exact starts rfl
  rw [wordToken?, if_neg (other _ (by decide)), if_neg (other _ (by decide)),
    if_neg (other _ (by decide)), number, if_neg Bool.false_ne_true]

/-- A document starts with no byte order mark, so that none is dropped when it is decoded. -/
theorem textDecoderDecode_document {t : Text} {v : JsonValue N} (parsed : parse t = some v) :
    textDecoderDecode (utf8Encode t) = t := by
  rw [textDecoderDecode, decode_whole]
  cases t with
  | nil => rfl
  | cons c t =>
    dsimp only
    rw [if_neg]
    rintro rfl
    have stuck : (scan .between (Char.ofNat 0xFEFF :: t) : Option (List (Token N))) = none := by
      have pushed : (Scanner.between.push (Char.ofNat 0xFEFF) : Option (List (Token N) × Scanner)) =
          some ([], .word [Char.ofNat 0xFEFF]) := rfl
      rw [scan, pushed, Option.bind_some]
      dsimp only
      rw [scan_word_none wordToken_mark]
      rfl
    rw [parse, stuck] at parsed
    cases parsed

end JSON

/-! ## The pane of the body -/

namespace Ui

/-- The bytes that were sent, decompressed as the headers say. -/
def decodedPayload (decompress : Bytes → Text → Option Bytes) (headers : HeaderMap)
    (payload : Bytes) : Option Bytes :=
  ((headers.get .contentEncoding).bind HeaderValue.toStr).elim (some payload) fun encoding =>
    if isCompressed (Text.toLowerCase encoding.toList) then
      decompress payload (Text.toLowerCase encoding.toList)
    else some payload

section

variable {V R L : Type}

/-- The result of decoding what was sent. -/
structure ShowsSent (decompress : Bytes → Text → Option Bytes) (headers : HeaderMap)
    (payload : Bytes) (r : DecodeResult V R L) : Prop where
  bytes : decodedPayload decompress headers payload = some r.bytes
  wireBytes : r.wireBytes = payload.length
  decodedBytes : r.decodedBytes =
    if ((headers.get .contentEncoding).bind HeaderValue.toStr).any fun encoding =>
      isCompressed (Text.toLowerCase encoding.toList) then some r.bytes.length else none
  contentEncoding : r.contentEncoding = (headers.get .contentEncoding).bind HeaderValue.toStr
  mediaType : r.mediaType =
    ((headers.get .contentType).bind HeaderValue.toStr).getD "application/octet-stream"

variable {decompress : Bytes → Text → Option Bytes} {caching : Bool} {headers : HeaderMap}
  {payload : Bytes}

theorem decodeBytes_carries {b : BodyState} (carries : Carries headers payload b)
    (complete : b.atEnd = true) :
    decodeBytes decompress b = decodedPayload decompress headers payload := by
  rw [decodeBytes, decodedPayload, concatenate_chunks, carries.bytes complete,
    carries.contentEncoding]
  cases (headers.get .contentEncoding).bind HeaderValue.toStr with
  | none => rfl
  | some encoding => rfl

theorem shows_sent_of_decodeBody {codecs : Codecs V R L} {b : BodyState}
    (carries : Carries headers payload b) (complete : b.atEnd = true) {r : DecodeResult V R L}
    (decoded : codecs.decodeBody b = some r) : ShowsSent codecs.decompress headers payload r := by
  have size := decodeBody_decodedBytes decoded
  obtain ⟨bytes, read, cls⟩ := classified_of_decodeBody decoded
  have fields : r.bytes = bytes ∧ r.wireBytes = b.wireBytes ∧
      r.contentEncoding = b.contentEncoding ∧
      r.mediaType = b.contentType.getD "application/octet-stream" := by
    cases cls <;> exact ⟨rfl, rfl, rfl, rfl⟩
  obtain ⟨rfl, wire, encoding, media⟩ := fields
  refine ⟨?_, wire.trans (carries.wireBytes complete), ?_, encoding.trans carries.contentEncoding, ?_⟩
  · rw [← decodeBytes_carries carries complete, read]
  · rw [size, decodedSize, read, Option.bind_some, carries.contentEncoding]
  · rw [media, carries.contentType]

/-- What is sent as JSON, where the worker answers. -/
theorem decodeBody_json {codecs : Codecs V R L} {b : BodyState} {bytes : Bytes}
    (read : decodeBytes codecs.decompress b = some bytes)
    (json : (b.contentType.map String.toList).any isJsonContentType = true)
    (single : (b.contentType.map String.toList).any isJsonlContentType = false)
    {p : JsonParseResult V R} (parsed : codecs.parseJson (unclassified codecs b bytes).rawText = some p)
    {r : DecodeResult V R L} (decoded : codecs.decodeBody b = some r) :
    r = { unclassified codecs b bytes with
      kind := .json
      text := some p.prettyText
      parsed := p.parsed
      initialRows := some p.rows
      initialExpanded := some p.defaultExpanded
      truncated := some p.truncated } := by
  have classified : codecs.classify (b.contentType.map String.toList) (unclassified codecs b bytes) = r := by
    rw [Codecs.decodeBody, read, Option.map_some] at decoded
    rw [unclassified, decodedSize, read, Option.bind_some]
    exact Option.some.inj decoded
  rw [← classified, Codecs.classify, Codecs.ndjsonResult, single, if_neg Bool.false_ne_true,
    Option.none_or, Codecs.jsonResult, json, if_pos rfl, parsed]
  rfl

/-- Without a charset that is declared the text is that of the bytes, however they were cut. -/
theorem rawText_unclassified (codecs : Codecs V R L) (b : BodyState) (bytes : Bytes)
    (charset : charsetFromContentType (b.contentType.map String.toList) = none) :
    (unclassified codecs b bytes).rawText = textDecoderDecode bytes := by
  rw [unclassified, Codecs.decodeBytesToText, charset]
  exact ite_self _

namespace Decoding

variable {s : Decoding V R L}

theorem Settled.absent (settled : s.Settled decompress caching) (none : s.slot = none) :
    s.view.result = Option.none := by
  have shows := settled.shows
  rw [none] at shows
  generalize s.view = view at shows
  cases shows
  rfl

theorem Settled.decoded (settled : s.Settled decompress caching) {object : BodyObject}
    (held : s.slot = some object) (complete : object.body.atEnd = true) :
    IsDecoded decompress object.body s.view.result := by
  have loading := settled.loading
  have shows := settled.shows
  rw [held] at shows
  generalize s.view = view at loading shows
  cases shows with
  | idle _ incomplete =>
    rw [incomplete _ rfl] at complete
    cases complete
  | loading => cases loading
  | done _ result _ decoded => exact decoded

end Decoding

namespace LivePane

variable {id : Nat} {direction : Direction}

/-- A result that is shown is that of a decoding of the body that is rendered. -/
theorem Tracks.result {start : Option BodyState} {acts : List (LiveAction V R L)} {s : LivePane V R L}
    (tracks : s.Tracks decompress caching id direction start acts) {r : DecodeResult V R L}
    (shown : s.pane.view.result = some r) :
    ∃ object i workers, s.pane.rendered = some object ∧ s.pane.view = ⟨false, some r⟩ ∧
      object.body.atEnd = true ∧ .settle i workers ∈ acts ∧
      Codecs.decodeBody { workers with decompress } object.body = some r := by
  obtain ⟨panes, ran, settled⟩ := tracks.ran
  rcases (Decoding.consistent_of_run ran).view_cases with ⟨-, view⟩ | ⟨object, rendered,
    ⟨-, view⟩ | ⟨complete, view | ⟨entry, set, rfl, view⟩⟩⟩
  · rw [view] at shown
    cases shown
  · rw [view] at shown
    cases shown
  · rw [view] at shown
    cases shown
  · rw [view] at shown
    have result : entry.result = some r := shown
    obtain ⟨i, workers, member, decoded⟩ := Decoding.entry_settled ran entry set
    exact ⟨_, i, workers, rendered, by rw [view, result], complete, settled i workers member,
      decoded.trans result⟩

/-- The messages that came while the pane was open, after those that came before, are the
messages of a part of the delivery. -/
theorem bodyAfter_part (id : Nat) (direction : Direction) (earlier : Delivery) {later : Delivery}
    {msgs : List Wire.EventMessage} (order : msgs <+: later.received) :
    ∃ part : Delivery, part <+: earlier ++ later ∧
      bodyAfter id direction ((earlier.received.foldl apply .empty).body id direction) msgs =
        (part.received.foldl apply .empty).body id direction ∧
      (msgs = later.received → part.received = Delivery.received (earlier ++ later)) := by
  obtain ⟨part, sub, rfl⟩ := List.prefix_filterMap_iff.mp order
  refine ⟨earlier ++ part, ?_, ?_, fun all => ?_⟩
  · exact (List.prefix_append_right_inj earlier).mpr sub
  · rw [Delivery.received_append, List.foldl_append]
    exact (foldl_apply_body _ _ id direction).symm
  · rw [Delivery.received_append, Delivery.received_append]
    exact congrArg _ all

section Relay

variable {β : Type} [HttpBody β] {env : TrackEnv} {head : Head} {body : β} {frames : List Frame}
  {runs : List ReporterRun} {earlier later : Delivery} {actions : List StoreAction}
  {acts : List (LiveAction V R L)} {s : LivePane V R L}

/-- The pane is opened after some of the messages, while the exchange is still in the store, and
some of the others come while it is open. A pane that was open before may have written a size. -/
structure Opened (id : Nat) (direction : Direction) (earlier later : Delivery)
    (actions : List StoreAction) (acts : List (LiveAction V R L)) : Prop where
  selected : (StoreState.run actions).selectedId = some id
  kept : ((StoreState.run actions).store.body id direction).map BodyState.unsized =
    ((earlier.received.foldl apply .empty).body id direction).map BodyState.unsized
  order : messages acts <+: later.received

variable (relayed : Relayed env head body frames runs id (earlier ++ later))
  (opened : Opened id head.direction earlier later actions acts)
  (reached : Machine.run (step decompress caching id head.direction)
    (mount id head.direction (StoreState.run actions)) acts = some s)

include reached opened

theorem Opened.tracks : s.Tracks decompress caching id head.direction
    ((StoreState.run actions).store.body id head.direction) acts :=
  tracks_of_run (StoreState.invariant_run actions).wellFormed opened.selected reached

include relayed

/-- Whatever the pane holds is the body, as far as it has come in. -/
theorem Opened.carries {object : BodyObject} (held : s.pane.Holds object) :
    Carries head.headers (dataBytes frames) object.body := by
  obtain ⟨msgs, sub, same⟩ := (opened.tracks reached).held object held
  obtain ⟨part, within, folded, -⟩ := bodyAfter_part id head.direction earlier
    (sub.trans opened.order)
  rw [bodyAfter_unsized, opened.kept, ← bodyAfter_unsized, folded] at same
  obtain ⟨b, stored, unsized⟩ := Option.map_eq_some_iff.mp same
  exact (relayed.body_carries.1 part b within stored).of_unsized unsized

end Relay

/-! ## Documents -/

section Documents

variable {N : Type} [JsNumber N]

/-- A document in each of its views, with what is copied there. -/
inductive ShowsDocument (bestEffortParse : Text → Option (JsonValue N)) (t : Text) (v : JsonValue N) :
    ViewMode → BodyView N L → CopyButton → Prop
  | tree (message : WorkerMessage N) (expanded : List Nat) (copied : Text)
      (ran : runWorker bestEffortParse .json t = some message)
      (ids : expanded.toFinset = message.defaultExpandedIds)
      (same : JsString.ofText copied = JSON.stringify v 2) :
      ShowsDocument bestEffortParse t v .tree
        (.tree (.value v) (some message.rows) (some expanded) (some false) "JSON viewer")
        (.value (some copied))
  | text : ShowsDocument bestEffortParse t v .text (.text t) (.value (some t))
  | hex : ShowsDocument bestEffortParse t v .hex (.hex (utf8Encode t))
      (.value (some (hexDumpText (utf8Encode t))))

theorem runWorker_document {bestEffortParse : Text → Option (JsonValue N)} {t : Text}
    {v : JsonValue N} (parsed : JSON.parse t = some v) {message : WorkerMessage N}
    (ran : runWorker bestEffortParse .json t = some message) :
    message.mode = .json ∧ message.parsed = v ∧ message.prettyText = JSON.stringify v 2 ∧
      message.truncated = false := by
  have strict : parseAndFormat t = some ⟨v, JSON.stringify v 2⟩ := by
    rw [parseAndFormat, parsed]
    rfl
  rw [runWorker, buildJson, parseWithTruncation, strict] at ran
  obtain rfl := Option.some.inj ran
  exact ⟨rfl, rfl, rfl, rfl⟩

omit [JsNumber N] in
/-- The tree of a result is the one that the worker posted, with its rows. -/
theorem bodyContent_posted (result : DecodeResult (JsonValue N) FlatRow L)
    {message : WorkerMessage N} {p : JsonParseResult (JsonValue N) FlatRow} {v : JsonValue N}
    (posts : Posts message p) (mode : message.mode = .json) (value : message.parsed = v)
    (whole : message.truncated = false) (some_value : v ≠ .primitive .null) :
    bodyContent { result with
        kind := .json
        text := some p.prettyText
        parsed := p.parsed
        initialRows := some p.rows
        initialExpanded := some p.defaultExpanded
        truncated := some p.truncated } .tree =
      .tree (.value v) (some message.rows) (some p.defaultExpanded) (some false) "JSON viewer" := by
  have input : message.viewerInput? = some (.value v) := by
    rw [WorkerMessage.viewerInput?, mode, value]
    dsimp only
    split
    · exact absurd rfl some_value
    · rfl
  rw [bodyContent, treeInput_json rfl mode posts.parsed, input, posts.rows, posts.truncated, whole]
  rfl

theorem shows_document_of_decodeBody {bestEffortParse : Text → Option (JsonValue N)}
    {codecs : Codecs (JsonValue N) FlatRow L} (worker : RunsWorker bestEffortParse codecs)
    {b : BodyState} {t : Text} {v : JsonValue N}
    (read : decodeBytes codecs.decompress b = some (utf8Encode t))
    (json : (b.contentType.map String.toList).any isJsonContentType = true)
    (single : (b.contentType.map String.toList).any isJsonlContentType = false)
    (charset : charsetFromContentType (b.contentType.map String.toList) = none)
    (parsed : JSON.parse t = some v) (some_value : v ≠ .primitive .null)
    (answers : (codecs.parseJson t).isSome = true) {r : DecodeResult (JsonValue N) FlatRow L}
    (decoded : codecs.decodeBody b = some r) :
    r.kind = .json ∧ r.bytes = utf8Encode t ∧ ∀ mode ∈ selectableModes r.kind r.textAvailable,
      ∃ copied, copyButton r mode = some copied ∧
        ShowsDocument bestEffortParse t v mode (bodyContent r mode) copied := by
  have text : (unclassified codecs b (utf8Encode t)).rawText = t :=
    (rawText_unclassified codecs b _ charset).trans (JSON.textDecoderDecode_document parsed)
  obtain ⟨p, job⟩ := Option.isSome_iff_exists.mp answers
  obtain ⟨message, ran, posts⟩ := worker.json t p job
  obtain ⟨mode, value, pretty, whole⟩ := runWorker_document parsed ran
  have same := decodeBody_json read json single (text.symm ▸ job) decoded
  have kind : r.kind = .json := congrArg DecodeResult.kind same
  have rawText : r.rawText = t := (congrArg DecodeResult.rawText same).trans text
  have bytes : r.bytes = utf8Encode t := congrArg DecodeResult.bytes same
  refine ⟨kind, bytes, fun view offered => ?_⟩
  have button (other : view ≠ .hex) : copyButton r view = some (.value (copyText r view)) := by
    rw [copyButton, if_neg other, kind]
  rw [kind] at offered
  rcases mem_withTextAndHex offered with tree | rfl | rfl
  · obtain rfl := List.mem_singleton.mp tree
    have content : bodyContent r .tree =
        .tree (.value v) (some message.rows) (some p.defaultExpanded) (some false) "JSON viewer" := by
      rw [same]
      exact bodyContent_posted _ posts mode value whole some_value
    have copied : copyButton r .tree = some (.value (some p.prettyText)) := by
      rw [button (by decide), copyText, same]
    rw [content]
    exact ⟨_, copied, .tree message _ _ ran posts.expanded (posts.prettyText.trans pretty)⟩
  · have copied : copyButton r .text = some (.value (some t)) := by
      rw [button (by decide), copyText, rawText]
      all_goals rintro ⟨⟩
    rw [bodyContent, rawText]
    exact ⟨_, copied, .text⟩
  · have copied : copyButton r .hex = some (.value (some (hexDumpText (utf8Encode t)))) := by
      rw [copyButton, if_pos rfl, copyText, bytes]
    rw [bodyContent, bytes]
    exact ⟨_, copied, .hex⟩

end Documents

section Example

private def gunzip (bytes : Bytes) (encoding : Text) : Option Bytes :=
  if bytes = [31, 139] ∧ encoding = "gzip".toList then some "[3]".toUTF8.toList else none

private def sentBody : Script BodyStreamItem := ⟨[.ready (some (.ok (.data [31, 139])))]⟩

private def sentHeaders : HeaderMap :=
  ⟨[⟨.contentType, ⟨"application/json".toUTF8.toList, by decide +kernel⟩, []⟩,
    ⟨.contentEncoding, ⟨"gzip".toUTF8.toList, by decide +kernel⟩, []⟩], by decide⟩

private def sentHead : Head := .response ⟨.ok, .http11, sentHeaders⟩ 3

private def sentEvents : List ProxyEvent :=
  bodyEvents (track (.quick true) .response sentHead.event sentBody) []

private def sentDelivery : Delivery := sentEvents.map fun e => (⟨⟨7, ""⟩, .response, e⟩, true)

private def sentState (decodedBytes : Option Nat) : BodyState :=
  ⟨[.binary [31, 139]], true, 2, decodedBytes, some "application/json", some "gzip", none⟩

theorem sent_relayed : Relayed (.quick true) sentHead sentBody [.data [31, 139]] [] 7 sentDelivery where
  ends := ⟨2, rfl⟩
  notStream := by decide +kernel
  listening := rfl
  spawns := rfl
  started := rfl
  finished := ⟨by simp, by simp, by simp, by simp⟩
  published := rfl
  lossless := by decide +kernel

private def sentMessage : Wire.EventMessage :=
  ⟨⟨7, ""⟩, .response, .response "200" "1.1"
    [⟨"content-type", "application/json"⟩, ⟨"content-encoding", "gzip"⟩] 3
    (.data ⟨some ⟨0, 2, .binary [31, 139]⟩, none, true, 2⟩)⟩

private def sentResult : JsonParseResult (JsonValue Int) FlatRow where
  parsed := some (.array [.primitive (.number 3)])
  documents := none
  prettyText := "[\n  3\n]".toList
  rows := ((runWorker recoverList .json "[3]".toList).map WorkerMessage.rows).getD []
  defaultExpanded := [0]
  truncated := false

private def sentWorkers : Codecs (JsonValue Int) FlatRow Unit :=
  ⟨gunzip, fun _ => none, fun _ => none,
    fun text => if text = "[3]".toList then some sentResult else none, fun _ _ => none⟩

/-- The only message comes while the pane is open. -/
private def sentActs : List (LiveAction (JsonValue Int) FlatRow Unit) :=
  [.receive sentMessage, .render, .runEffect, .settle 0 sentWorkers]

theorem sent_received : sentDelivery.received = [sentMessage] := by decide +kernel

theorem sent_opened : Opened 7 .response [] sentDelivery [.setSelectedId (some 7)] sentActs where
  selected := rfl
  kept := rfl
  order := by
    rw [sent_received]
    exact List.prefix_refl _

theorem sent_stored : ((StoreState.run [.setSelectedId (some 7)]).step (.applyEvent sentMessage)).store.body 7
    .response = some (sentState none) :=
  (StoreState.body_applyEvent (StoreState.invariant_run [.setSelectedId (some 7)]).wellFormed rfl
    sentMessage .response).trans (by decide +kernel)

theorem sent_runs : ∃ s, Machine.run (step gunzip true 7 .response)
    (mount 7 .response (StoreState.run [.setSelectedId (some 7)])) sentActs = some s ∧
    s.pane.view.result.isSome = true := by
  have first : step gunzip true 7 .response
      (mount 7 .response (StoreState.run [.setSelectedId (some 7)]) :
        LivePane (JsonValue Int) FlatRow Unit) (.receive sentMessage) =
      some ⟨(StoreState.run [.setSelectedId (some 7)]).step (.applyEvent sentMessage),
        ⟨some ⟨1, sentState none⟩, none, none, 2, [], none⟩⟩ := by
    rw [step, mount]
    dsimp only
    rw [sent_stored]
    rfl
  rw [sentActs, Machine.run_cons, first]
  exact ⟨_, rfl, by decide +kernel⟩

/-- A pane that was open before has written the size. -/
private def reopened : List StoreAction :=
  [.setSelectedId (some 7), .applyEvent sentMessage, .setBodyDecodedBytes 7 .response 3]

private def reopenedActs : List (LiveAction (JsonValue Int) FlatRow Unit) :=
  [.runEffect, .settle 0 sentWorkers]

theorem reopened_stored : (StoreState.run reopened).store.body 7 .response =
    some (sentState (some 3)) :=
  (Store.body_setBodyDecodedBytes _ 7 .response 3).trans (congrArg _ sent_stored)

theorem reopened_opened : Opened 7 .response sentDelivery [] reopened reopenedActs where
  selected := rfl
  kept := by
    rw [reopened_stored, sent_received]
    decide +kernel
  order := List.nil_prefix

theorem reopened_runs : ∃ s, Machine.run (step gunzip true 7 .response)
    (mount 7 .response (StoreState.run reopened)) reopenedActs = some s ∧
    s.pane.view.result.isSome = true := by
  rw [mount, reopened_stored]
  exact ⟨_, rfl, by decide +kernel⟩

theorem sent_jobs : RunsWorker recoverList sentWorkers where
  json text r done := by
    obtain ⟨rfl, same⟩ := Option.ite_none_right_eq_some.mp done
    obtain rfl := Option.some.inj same
    exact ⟨_, rfl, rfl, rfl, rfl, rfl, rfl, rfl⟩
  ndjson _ _ done := by cases done

end Example

end LivePane

end

end Ui

end Protospy
