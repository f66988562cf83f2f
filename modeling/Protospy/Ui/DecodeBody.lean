import Protospy.Ui.Decode

/-!
# What a decoded body shows (`body/decode.ts`)

Decompression, the decoders of the platform and the two workers are parameters.
-/

namespace Protospy

inductive ContentKind where
  | json | ndjson | html | xml | image | text | binary
  deriving DecidableEq

inductive MarkupKind where
  | html | xml
  deriving DecidableEq

def MarkupKind.content : MarkupKind → ContentKind
  | .html => .html
  | .xml => .xml

variable {V R L : Type}

structure JsonParseResult (V R : Type) where
  parsed : Option V
  documents : Option (List V)
  prettyText : Text
  rows : List R
  defaultExpanded : List Nat
  truncated : Bool

structure MarkupFormatResult (L : Type) where
  lines : List L
  formattedText : Text

/-- What `decodeBody` calls. `none` is an exception, for `textDecoder` that of an
unknown label. -/
structure Codecs (V R L : Type) where
  decompress : Bytes → Text → Option Bytes
  textDecoder : Text → Option (Bytes → Text)
  parseNdjson : Text → Option (JsonParseResult V R)
  parseJson : Text → Option (JsonParseResult V R)
  formatMarkup : Text → MarkupKind → Option (MarkupFormatResult L)

structure DecodeResult (V R L : Type) where
  kind : ContentKind
  textAvailable : Bool
  text : Option Text
  mediaType : String
  wireBytes : Nat
  decodedBytes : Option Nat
  contentEncoding : Option String
  parsed : Option V
  documents : Option (List V)
  initialRows : Option (List R)
  initialExpanded : Option (List Nat)
  truncated : Option Bool
  lines : Option (List L)
  rawText : Text
  bytes : Bytes

/-- The kind and the text, and whether the text can be chosen. -/
def DecodeResult.seen (r : DecodeResult V R L) : (ContentKind × Option Text) × Bool :=
  ((r.kind, r.text), r.textAvailable)

/-! ## Content types -/

def baseType (contentType : Text) : Text :=
  Text.toLowerCase (Text.trim (contentType.takeWhile (· ≠ ';')))

def jsonlTypes : List Text :=
  ["application/vnd.elasticsearch+x-ndjson".toList, "application/x-ndjson".toList,
    "application/ndjson".toList]

def isJsonlContentType (contentType : Text) : Bool :=
  jsonlTypes.any fun t => t = baseType contentType

def isJsonContentType (contentType : Text) : Bool :=
  Text.includes "json".toList (Text.toLowerCase contentType)

def htmlTypes : List Text := ["text/html".toList, "application/xhtml+xml".toList]

def xmlTypes : List Text :=
  ["text/xml".toList, "application/xml".toList, "application/soap+xml".toList,
    "application/rss+xml".toList, "application/atom+xml".toList]

def isHtmlContentType (contentType : Text) : Bool :=
  htmlTypes.any fun t => t = baseType contentType

def isXmlContentType (contentType : Text) : Bool :=
  (xmlTypes.any fun t => t = baseType contentType) ||
    "+xml".toList.isSuffixOf (baseType contentType)

def textualApplicationTypes : List Text :=
  ["application/csv".toList, "application/javascript".toList, "application/typescript".toList,
    "application/yaml".toList, "application/toml".toList,
    "application/x-www-form-urlencoded".toList, "application/graphql".toList]

def isTextualContentType (contentType : Text) : Bool :=
  "text/".toList.isPrefixOf (baseType contentType) ||
    textualApplicationTypes.any fun t => t = baseType contentType

def binaryPrefixes : List Text :=
  ["audio/".toList, "video/".toList, "application/octet-stream".toList]

def markupKind (contentType : Text) : Option MarkupKind :=
  if isHtmlContentType contentType then some .html
  else if isXmlContentType contentType then some .xml
  else none

/-- The kind of a body that no parser takes. -/
def plainKind (contentType : Option Text) : ContentKind :=
  if contentType.any isTextualContentType then .text
  else if contentType.any "image/".toList.isPrefixOf then .image
  else if binaryPrefixes.any fun start => contentType.any start.isPrefixOf then .binary
  else .text

/-! ## The declared charset -/

/-- A match of `charset\s*=\s*([^;]+)` at the start of the text. The white space
before the group is left to the trimming of the group. -/
def charsetAt (t : Text) : Option Text :=
  if "charset".toList.isPrefixOf (Text.toLowerCase t) then
    match (t.drop 7).dropWhile Text.isWhitespace with
    | '=' :: rest =>
      let value := rest.takeWhile (· ≠ ';')
      if value.isEmpty then none else some value
    | _ => none
  else none

def charsetMatch : Text → Option Text
  | [] => none
  | c :: rest => (charsetAt (c :: rest)).or (charsetMatch rest)

def quote : Char := Char.ofNat 0x22

def isLineTerminator (c : Char) : Bool := c.toNat ∈ [10, 13, 0x2028, 0x2029]

/-- The text without a pair of quotes around it. -/
def unquote : Text → Text
  | c :: rest =>
    if c = quote ∧ rest.getLast? = some quote ∧ rest.dropLast.any isLineTerminator = false then
      rest.dropLast
    else c :: rest
  | [] => []

def charsetFromContentType (contentType : Option Text) : Option Text :=
  (contentType.bind charsetMatch).map fun value => unquote (Text.trim value)

/-! ## Decoding -/

def BodyChunk.isBinary : BodyChunk → Bool
  | .text _ => false
  | .binary _ => true

namespace Codecs

def decodeBytesToText (codecs : Codecs V R L) (bytes : Bytes) (hasBinaryChunk : Bool)
    (charset : Option Text) : Text :=
  if hasBinaryChunk then
    ((charset.bind codecs.textDecoder).getD textDecoderDecode) bytes
  else textDecoderDecode bytes

def computeTextAvailable (codecs : Codecs V R L) (chunks : List BodyChunk)
    (contentType : Option Text) : Bool :=
  !chunks.any BodyChunk.isBinary ||
    ((charsetFromContentType contentType).bind codecs.textDecoder).isSome

/-- Step 4. A body in which the parser finds no document falls through. -/
def ndjsonResult (codecs : Codecs V R L) (contentType : Option Text)
    (base : DecodeResult V R L) : Option (DecodeResult V R L) :=
  if contentType.any isJsonlContentType then
    (codecs.parseNdjson base.rawText).map fun r => { base with
      kind := .ndjson
      text := some r.prettyText
      documents := r.documents
      initialRows := some r.rows
      initialExpanded := some r.defaultExpanded
      truncated := some r.truncated }
  else none

/-- Step 5. -/
def jsonResult (codecs : Codecs V R L) (contentType : Option Text)
    (base : DecodeResult V R L) : Option (DecodeResult V R L) :=
  if contentType.any isJsonContentType then
    (codecs.parseJson base.rawText).map fun r => { base with
      kind := .json
      text := some r.prettyText
      parsed := r.parsed
      initialRows := some r.rows
      initialExpanded := some r.defaultExpanded
      truncated := some r.truncated }
  else none

/-- Step 6. The kind is kept where the worker fails. -/
def markupResult (codecs : Codecs V R L) (contentType : Option Text)
    (base : DecodeResult V R L) : Option (DecodeResult V R L) :=
  (contentType.bind markupKind).map fun kind =>
    match codecs.formatMarkup base.rawText kind with
    | some r => { base with
        kind := kind.content
        text := some r.formattedText
        lines := some r.lines }
    | none => { base with kind := kind.content, text := some base.rawText }

/-- Steps 7 to 10. -/
def plainResult (contentType : Option Text) (base : DecodeResult V R L) :
    DecodeResult V R L :=
  match plainKind contentType with
  | .image => { base with kind := .image }
  | .binary => { base with kind := .binary }
  | kind => { base with kind := kind, text := some base.rawText }

def classify (codecs : Codecs V R L) (contentType : Option Text) (base : DecodeResult V R L) :
    DecodeResult V R L :=
  ((codecs.ndjsonResult contentType base).or ((codecs.jsonResult contentType base).or
    (codecs.markupResult contentType base))).getD (plainResult contentType base)

/-- `none` where decompression fails. -/
def decodeBody (codecs : Codecs V R L) (body : BodyState) : Option (DecodeResult V R L) :=
  (decodeBytes codecs.decompress body).map fun bytes =>
    let contentType := body.contentType.map String.toList
    let hasBinaryChunk := body.chunks.any BodyChunk.isBinary
    let charset := charsetFromContentType contentType
    let compressed := body.contentEncoding.any fun encoding =>
      isCompressed (Text.toLowerCase encoding.toList)
    codecs.classify contentType
      { kind := .text
        textAvailable := codecs.computeTextAvailable body.chunks contentType
        text := none
        mediaType := body.contentType.getD "application/octet-stream"
        wireBytes := body.wireBytes
        decodedBytes := if compressed then some bytes.length else none
        contentEncoding := body.contentEncoding
        parsed := none
        documents := none
        initialRows := none
        initialExpanded := none
        truncated := none
        lines := none
        rawText := codecs.decodeBytesToText bytes hasBinaryChunk charset
        bytes := bytes }

/-! ## What the parsers make of a text -/

def ndjsonText (codecs : Codecs V R L) (contentType : Option Text) (t : Text) : Option Text :=
  if contentType.any isJsonlContentType then
    (codecs.parseNdjson t).map fun r => r.prettyText
  else none

def jsonText (codecs : Codecs V R L) (contentType : Option Text) (t : Text) : Option Text :=
  if contentType.any isJsonContentType then
    (codecs.parseJson t).map fun r => r.prettyText
  else none

def markupText (codecs : Codecs V R L) (t : Text) (kind : MarkupKind) : Text :=
  ((codecs.formatMarkup t kind).map fun r => r.formattedText).getD t

def plainText (contentType : Option Text) (t : Text) : Option Text :=
  if plainKind contentType = .image ∨ plainKind contentType = .binary then none else some t

/-- Two decodings of the bytes come to the same: the parser that takes one of
them gives the same text for both, and where none does, they are equal or the
content type shows no text. -/
def ReadsAlike (codecs : Codecs V R L) (contentType : Option Text) (s t : Text) : Prop :=
  codecs.ndjsonText contentType s = codecs.ndjsonText contentType t ∧
  (codecs.ndjsonText contentType s = none →
    codecs.jsonText contentType s = codecs.jsonText contentType t ∧
    (codecs.jsonText contentType s = none →
      match contentType.bind markupKind with
      | some kind => codecs.markupText s kind = codecs.markupText t kind
      | none => plainText contentType s = plainText contentType t))

def unparsedReading (codecs : Codecs V R L) (contentType : Option Text) (t : Text) :
    ContentKind × Option Text :=
  match contentType.bind markupKind with
  | some kind => (kind.content, some (codecs.markupText t kind))
  | none => (plainKind contentType, plainText contentType t)

def otherReading (codecs : Codecs V R L) (contentType : Option Text) (t : Text) :
    ContentKind × Option Text :=
  match codecs.jsonText contentType t with
  | some pretty => (.json, some pretty)
  | none => codecs.unparsedReading contentType t

/-- The kind and the text shown for a decoding of the bytes. -/
def reading (codecs : Codecs V R L) (contentType : Option Text) (t : Text) :
    ContentKind × Option Text :=
  match codecs.ndjsonText contentType t with
  | some pretty => (.ndjson, some pretty)
  | none => codecs.otherReading contentType t

theorem plainKind_cases (contentType : Option Text) :
    plainKind contentType = .text ∨ plainKind contentType = .image ∨
      plainKind contentType = .binary := by
  rw [plainKind]
  split_ifs <;> simp

theorem unparsedReading_kind (codecs : Codecs V R L) (contentType : Option Text) (t : Text) :
    (codecs.unparsedReading contentType t).1 ≠ .ndjson ∧
      (codecs.unparsedReading contentType t).1 ≠ .json := by
  rw [unparsedReading]
  cases contentType.bind markupKind with
  | some kind => cases kind <;> simp [MarkupKind.content]
  | none => rcases plainKind_cases contentType with h | h | h <;> simp [h]

theorem otherReading_kind (codecs : Codecs V R L) (contentType : Option Text) (t : Text) :
    (codecs.otherReading contentType t).1 ≠ .ndjson := by
  rw [otherReading]
  cases codecs.jsonText contentType t with
  | some pretty => simp
  | none => exact (codecs.unparsedReading_kind contentType t).1

theorem unparsedReading_eq_iff (codecs : Codecs V R L) (contentType : Option Text) (s t : Text) :
    codecs.unparsedReading contentType s = codecs.unparsedReading contentType t ↔
      match contentType.bind markupKind with
      | some kind => codecs.markupText s kind = codecs.markupText t kind
      | none => plainText contentType s = plainText contentType t := by
  rw [unparsedReading, unparsedReading]
  cases contentType.bind markupKind <;> simp

theorem otherReading_eq_iff (codecs : Codecs V R L) (contentType : Option Text) (s t : Text) :
    codecs.otherReading contentType s = codecs.otherReading contentType t ↔
      codecs.jsonText contentType s = codecs.jsonText contentType t ∧
      (codecs.jsonText contentType s = none →
        codecs.unparsedReading contentType s = codecs.unparsedReading contentType t) := by
  have left := (codecs.unparsedReading_kind contentType s).2
  have right := (codecs.unparsedReading_kind contentType t).2
  rw [otherReading, otherReading]
  cases codecs.jsonText contentType s with
  | none =>
    cases codecs.jsonText contentType t with
    | none => simp
    | some pretty => simpa using fun h => left (congrArg Prod.fst h)
  | some pretty =>
    cases codecs.jsonText contentType t with
    | none => simpa using fun h => right (congrArg Prod.fst h).symm
    | some pretty => simp

theorem reading_eq_iff (codecs : Codecs V R L) (contentType : Option Text) (s t : Text) :
    codecs.reading contentType s = codecs.reading contentType t ↔
      codecs.ReadsAlike contentType s t := by
  have left := codecs.otherReading_kind contentType s
  have right := codecs.otherReading_kind contentType t
  rw [ReadsAlike, reading, reading, ← unparsedReading_eq_iff, ← otherReading_eq_iff]
  cases codecs.ndjsonText contentType s with
  | none =>
    cases codecs.ndjsonText contentType t with
    | none => simp
    | some pretty => simpa using fun h => left (congrArg Prod.fst h)
  | some pretty =>
    cases codecs.ndjsonText contentType t with
    | none => simpa using fun h => right (congrArg Prod.fst h).symm
    | some pretty => simp

theorem ndjsonResult_seen (codecs : Codecs V R L) (contentType : Option Text)
    (base : DecodeResult V R L) :
    (codecs.ndjsonResult contentType base).map DecodeResult.seen =
      (codecs.ndjsonText contentType base.rawText).map
        fun t => ((.ndjson, some t), base.textAvailable) := by
  rw [ndjsonResult, ndjsonText]
  split_ifs
  · rw [Option.map_map, Option.map_map]
    rfl
  · rfl

theorem jsonResult_seen (codecs : Codecs V R L) (contentType : Option Text)
    (base : DecodeResult V R L) :
    (codecs.jsonResult contentType base).map DecodeResult.seen =
      (codecs.jsonText contentType base.rawText).map
        fun t => ((.json, some t), base.textAvailable) := by
  rw [jsonResult, jsonText]
  split_ifs
  · rw [Option.map_map, Option.map_map]
    rfl
  · rfl

theorem markupResult_seen (codecs : Codecs V R L) (contentType : Option Text)
    (base : DecodeResult V R L) :
    (codecs.markupResult contentType base).map DecodeResult.seen =
      (contentType.bind markupKind).map fun kind =>
        ((kind.content, some (codecs.markupText base.rawText kind)), base.textAvailable) := by
  rw [markupResult, Option.map_map]
  congr 1
  funext kind
  rw [Function.comp_apply, markupText]
  cases codecs.formatMarkup base.rawText kind <;> rfl

theorem plainResult_seen (contentType : Option Text) {base : DecodeResult V R L}
    (empty : base.text = none) :
    (plainResult contentType base).seen =
      ((plainKind contentType, plainText contentType base.rawText), base.textAvailable) := by
  rw [plainResult, plainText]
  rcases plainKind_cases contentType with kind | kind | kind <;>
    simp [kind, DecodeResult.seen, empty]

/-- Classification looks at the content type and the text alone. -/
theorem classify_seen (codecs : Codecs V R L) (contentType : Option Text)
    {base : DecodeResult V R L} (empty : base.text = none) :
    (codecs.classify contentType base).seen =
      (codecs.reading contentType base.rawText, base.textAvailable) := by
  have ndjson := codecs.ndjsonResult_seen contentType base
  have json := codecs.jsonResult_seen contentType base
  have markup := codecs.markupResult_seen contentType base
  have plain := plainResult_seen contentType empty
  rw [classify, ← Option.getD_map DecodeResult.seen, Option.map_or, Option.map_or, ndjson, json,
    markup, plain,
    reading, otherReading, unparsedReading]
  cases codecs.ndjsonText contentType base.rawText with
  | some t => rfl
  | none =>
    cases codecs.jsonText contentType base.rawText with
    | some t => rfl
    | none => cases contentType.bind markupKind <;> rfl

/-- What is seen of the body; `none` where decompression fails. -/
def seen (codecs : Codecs V R L) (body : BodyState) :
    Option ((ContentKind × Option Text) × Bool) :=
  (codecs.decodeBody body).map DecodeResult.seen

theorem seen_eq (codecs : Codecs V R L) (body : BodyState) :
    codecs.seen body = (decodeBytes codecs.decompress body).map fun bytes =>
      let contentType := body.contentType.map String.toList
      (codecs.reading contentType (codecs.decodeBytesToText bytes
        (body.chunks.any BodyChunk.isBinary) (charsetFromContentType contentType)),
        codecs.computeTextAvailable body.chunks contentType) := by
  rw [seen, decodeBody, Option.map_map]
  congr 1
  funext bytes
  exact codecs.classify_seen _ rfl

end Codecs

/-! ## Bodies flushed at different boundaries -/

/-- The chunks of the body are the parts, as the proxy flushed them. -/
def BodyState.FlushedAs (body : BodyState) (parts : List Bytes) : Prop :=
  body.chunks = parts.map BodyChunk.ofBytes

theorem isBinary_ofBytes (part : Bytes) :
    (BodyChunk.ofBytes part).isBinary = !(decodeUtf8 part).isSome := by
  rw [BodyChunk.ofBytes]
  cases decodeUtf8 part <;> rfl

theorem BodyState.FlushedAs.any_isBinary {body : BodyState} {parts : List Bytes}
    (flushed : body.FlushedAs parts) :
    body.chunks.any BodyChunk.isBinary = !parts.all fun p => (decodeUtf8 p).isSome := by
  rw [flushed, List.any_map, List.not_all_eq_any_not]
  congr 1
  funext part
  exact isBinary_ofBytes part

theorem BodyState.FlushedAs.bytes {body : BodyState} {parts : List Bytes}
    (flushed : body.FlushedAs parts) :
    concatenate (body.chunks.map chunkToBytes) = parts.flatten := by
  have each : BodyChunk.bytes ∘ BodyChunk.ofBytes = id := by
    funext part
    exact BodyChunk.bytes_ofBytes part
  rw [concatenate_chunks, flushed, List.flatMap_map, List.flatMap_def]
  change (parts.map (BodyChunk.bytes ∘ BodyChunk.ofBytes)).flatten = _
  rw [each, List.map_id]

/-- The bytes do not depend on the boundaries. -/
theorem decodeBytes_flushed (decompress : Bytes → Text → Option Bytes) {body body' : BodyState}
    {parts parts' : List Bytes} (flushed : body.FlushedAs parts)
    (flushed' : body'.FlushedAs parts') (same : parts.flatten = parts'.flatten)
    (encoding : body.contentEncoding = body'.contentEncoding) :
    decodeBytes decompress body = decodeBytes decompress body' := by
  rw [decodeBytes, decodeBytes, flushed.bytes, flushed'.bytes, same, encoding]

namespace Codecs

/-- The bytes, decoded with the declared charset and as UTF-8, read alike. -/
def CharsetReadsAlike (codecs : Codecs V R L) (contentType : Option Text) (bytes : Bytes) : Prop :=
  ∃ charset decoder, charsetFromContentType contentType = some charset ∧
    codecs.textDecoder charset = some decoder ∧
    codecs.ReadsAlike contentType (decoder bytes) (textDecoderDecode bytes)

theorem charsetReadsAlike_iff (codecs : Codecs V R L) (contentType : Option Text) (bytes : Bytes) :
    codecs.CharsetReadsAlike contentType bytes ↔
      ∃ decoder, (charsetFromContentType contentType).bind codecs.textDecoder = some decoder ∧
        codecs.reading contentType (decoder bytes) =
          codecs.reading contentType (textDecoderDecode bytes) := by
  constructor
  · rintro ⟨charset, decoder, declared, supported, alike⟩
    exact ⟨decoder, by rw [declared]; exact supported, (codecs.reading_eq_iff _ _ _).mpr alike⟩
  · rintro ⟨decoder, found, same⟩
    obtain ⟨charset, declared, supported⟩ := Option.bind_eq_some_iff.mp found
    exact ⟨charset, decoder, declared, supported, (codecs.reading_eq_iff _ _ _).mp same⟩

/-- A binary chunk brings in the declared charset, and shows the text only if the
charset is known. -/
theorem read_cut_iff (codecs : Codecs V R L) (contentType : Option Text) (bytes : Bytes) :
    (codecs.reading contentType
        (codecs.decodeBytesToText bytes true (charsetFromContentType contentType)),
      ((charsetFromContentType contentType).bind codecs.textDecoder).isSome) =
      (codecs.reading contentType
        (codecs.decodeBytesToText bytes false (charsetFromContentType contentType)), true) ↔
      codecs.CharsetReadsAlike contentType bytes := by
  rw [charsetReadsAlike_iff, decodeBytesToText, decodeBytesToText]
  cases (charsetFromContentType contentType).bind codecs.textDecoder <;> simp

end Codecs

/-- Two bodies with the same bytes are shown alike if both or neither hold a
chunk that is not UTF-8; else only if they cannot be decompressed, or read alike
in the declared charset and as UTF-8. -/
theorem seen_flushed_iff (codecs : Codecs V R L) (body body' : BodyState)
    (parts parts' : List Bytes) (flushed : body.FlushedAs parts)
    (flushed' : body'.FlushedAs parts') (same : parts.flatten = parts'.flatten)
    (contentType : body.contentType = body'.contentType)
    (encoding : body.contentEncoding = body'.contentEncoding) :
    codecs.seen body = codecs.seen body' ↔
      ((∀ p ∈ parts, (decodeUtf8 p).isSome = true) ↔ ∀ p ∈ parts', (decodeUtf8 p).isSome = true) ∨
      decodeBytes codecs.decompress body = none ∨
      ∃ bytes, decodeBytes codecs.decompress body = some bytes ∧
        codecs.CharsetReadsAlike (body.contentType.map String.toList) bytes := by
  have bytes := decodeBytes_flushed codecs.decompress flushed flushed' same encoding
  have tags := flushed.any_isBinary
  have tags' := flushed'.any_isBinary
  simp only [← List.all_eq_true]
  rw [Codecs.seen_eq, Codecs.seen_eq, ← bytes, ← contentType]
  simp only [Codecs.computeTextAvailable, tags, tags']
  have cut := codecs.read_cut_iff (body.contentType.map String.toList)
  cases decodeBytes codecs.decompress body with
  | none => simp
  | some bytes =>
    cases parts.all fun p => (decodeUtf8 p).isSome <;>
      cases parts'.all fun p => (decodeUtf8 p).isSome
    case false.false => simp
    case true.true => simp
    case false.true => simpa using cut bytes
    case true.false => simpa using eq_comm.trans (cut bytes)

/-- The platform for a plain text body without a charset. -/
def plainCodecs : Codecs Unit Unit Unit where
  decompress := fun _ _ => none
  textDecoder := fun label => if label = "utf-8".toList then some textDecoderDecode else none
  parseNdjson := fun _ => none
  parseJson := fun _ => none
  formatMarkup := fun _ _ => none

def plainBody (parts : List Bytes) : BodyState where
  chunks := parts.map .ofBytes
  atEnd := true
  wireBytes := parts.flatten.length
  decodedBytes := none
  contentType := some "text/plain"
  contentEncoding := none
  sseState := none

/-- `é!` cut after and inside the letter. -/
theorem seen_flushed_letter :
    plainCodecs.seen (plainBody [[0xC3, 0xA9], [33]]) =
        plainCodecs.seen (plainBody [[0xC3], [0xA9, 33]]) ↔
      ((∀ p ∈ [([0xC3, 0xA9] : Bytes), [33]], (decodeUtf8 p).isSome = true) ↔
        ∀ p ∈ [([0xC3] : Bytes), [0xA9, 33]], (decodeUtf8 p).isSome = true) ∨
      decodeBytes plainCodecs.decompress (plainBody [[0xC3, 0xA9], [33]]) = none ∨
      ∃ bytes, decodeBytes plainCodecs.decompress (plainBody [[0xC3, 0xA9], [33]]) = some bytes ∧
        plainCodecs.CharsetReadsAlike (some "text/plain".toList) bytes :=
  seen_flushed_iff plainCodecs _ _ [[0xC3, 0xA9], [33]] [[0xC3], [0xA9, 33]] rfl rfl rfl rfl rfl

theorem seen_cutLetter :
    (plainBody [[0xC3, 0xA9]]).FlushedAs [[0xC3, 0xA9]] ∧
    (plainBody [[0xC3], [0xA9]]).FlushedAs [[0xC3], [0xA9]] ∧
    plainCodecs.seen (plainBody [[0xC3, 0xA9]]) =
      some ((.text, some [Char.ofNat 0xE9]), true) ∧
    plainCodecs.seen (plainBody [[0xC3], [0xA9]]) =
      some ((.text, some [Char.ofNat 0xE9]), false) := by
  refine ⟨rfl, rfl, ?_, ?_⟩ <;> decide +kernel

end Protospy
