import Protospy.Ui.BodyDecoding
import Protospy.Ui.Format
import Protospy.Ui.Hex
import Protospy.Ui.JsonPretty

/-!
# The body pane (`body/view-modes.ts`, `components/body-pane.tsx`)

What the pane shows of a body and what its copy button copies, in every run of the decoding.
-/

namespace Protospy

namespace Ui

/-! ## View modes -/

inductive ViewMode where
  | tree | formatted | rendered | text | summary | hex
  deriving DecidableEq

def ViewMode.precedence : ViewMode → Nat
  | .tree => 10
  | .formatted => 10
  | .rendered => 10
  | .text => 30
  | .hex => 40
  | .summary => 50

def withTextAndHex (base : List ViewMode) (textAvailable : Bool) : List ViewMode :=
  base ++ (if textAvailable then [.text] else []) ++ [.hex]

/-- In the order in which they are shown. -/
def selectableModes (kind : ContentKind) (textAvailable : Bool) : List ViewMode :=
  match kind with
  | .json | .ndjson => withTextAndHex [.tree] textAvailable
  | .html | .xml => withTextAndHex [.formatted] textAvailable
  | .image => [.rendered, .hex]
  | .text => [.text, .hex]
  | .binary => [.summary, .hex]

/-- The first of the modes with the lowest precedence. There is always a mode. -/
def defaultMode (kind : ContentKind) (textAvailable : Bool) : ViewMode :=
  match kind with
  | .binary => .summary
  | kind => match selectableModes kind textAvailable with
    | [] => .hex
    | first :: modes => modes.foldl (fun best m => if m.precedence < best.precedence then m else best) first

def resolveMode (stored : Option ViewMode) (kind : ContentKind) (textAvailable : Bool) : ViewMode :=
  match stored with
  | some mode =>
    if (selectableModes kind textAvailable).contains mode then mode
    else defaultMode kind textAvailable
  | none => defaultMode kind textAvailable

/-- The bytes are the last resort. -/
theorem defaultMode_spec (kind : ContentKind) (textAvailable : Bool) :
    defaultMode kind textAvailable ∈ selectableModes kind textAvailable ∧
      defaultMode kind textAvailable ≠ .hex ∧
      ∀ mode ∈ selectableModes kind textAvailable, mode ≠ .hex →
        (defaultMode kind textAvailable).precedence ≤ mode.precedence := by
  cases kind <;> cases textAvailable <;> decide

/-- A mode that was chosen is kept where it is offered. -/
theorem resolveMode_spec (stored : Option ViewMode) (kind : ContentKind) (textAvailable : Bool) :
    resolveMode stored kind textAvailable ∈ selectableModes kind textAvailable ∧
      (∀ mode ∈ selectableModes kind textAvailable, stored = some mode →
        resolveMode stored kind textAvailable = mode) ∧
      ((∀ mode ∈ selectableModes kind textAvailable, stored ≠ some mode) →
        resolveMode stored kind textAvailable = defaultMode kind textAvailable) := by
  have default := (defaultMode_spec kind textAvailable).1
  cases stored with
  | none => exact ⟨default, nofun, fun _ => rfl⟩
  | some mode =>
    by_cases offered : mode ∈ selectableModes kind textAvailable
    · have kept : resolveMode (some mode) kind textAvailable = mode :=
        if_pos (List.contains_iff_mem.mpr offered)
      rw [kept]
      exact ⟨offered, fun _ _ same => Option.some.inj same, fun other => absurd rfl (other mode offered)⟩
    · have left : resolveMode (some mode) kind textAvailable = defaultMode kind textAvailable :=
        if_neg (mt List.contains_iff_mem.mp offered)
      rw [left]
      refine ⟨default, fun other here same => ?_, fun _ => rfl⟩
      exact absurd (Option.some.inj same ▸ here) offered

/-! ## The pane -/

variable {N L : Type}

inductive BodyView (N L : Type) where
  | hex (bytes : Bytes)
  | tree (input : ViewerInput N) (initialRows : Option (List FlatRow))
      (initialExpanded : Option (List Nat)) (truncated : Option Bool) (label : String)
  | image (bytes : Bytes) (mediaType : String)
  | summary (mediaType : String) (wireBytes : Nat) (decodedBytes : Option Nat)
      (contentEncoding : Option String)
  | markup (lines : List L) (label : String)
  | text (text : Text)

/-- What is copied: a text or an image. -/
inductive CopyButton where
  | value (value : Option Text)
  | image (bytes : Bytes) (type : String)
  deriving DecidableEq

inductive Panel (N L : Type) where
  | skeleton
  | lifecycle (text : String) (busy : Bool)
  | error (title message : String) (detail : Option String)
  | content (view : BodyView N L)
  | streamError (message : String)

/-- What is in the store for the pane beside the body. -/
structure BodyPaneProps where
  errorMessage : Option String
  awaiting : Bool
  viewMode : Option ViewMode

structure BodyPane (N L : Type) where
  modes : List ViewMode
  resolved : Option ViewMode
  copyButton : Option CopyButton
  download : Option (Bytes × String)
  panels : List (Panel N L)

section Content

variable (result : DecodeResult (JsonValue N) FlatRow L)

def bodySummary : BodyView N L :=
  .summary result.mediaType result.wireBytes result.decodedBytes result.contentEncoding

/-- What the viewer is given. There is none for null, which is also what is there when
nothing was parsed. -/
def treeInput? : Option (ViewerInput N) :=
  match result.kind with
  | .json => match result.parsed.getD .null with
    | .primitive .null => none
    | parsed => some (.value parsed)
  | .ndjson => result.documents.map .documents
  | _ => none

def bodyContent : ViewMode → BodyView N L
  | .hex => .hex result.bytes
  | .tree => match treeInput? result with
    | some input => .tree input result.initialRows result.initialExpanded result.truncated
        (if result.kind = .json then "JSON viewer" else "NDJSON viewer")
    | none => .text result.rawText
  | .rendered =>
    if result.kind = .image then .image result.bytes result.mediaType else bodySummary result
  | .summary => bodySummary result
  | .formatted => match result.lines with
    | some lines => .markup lines (if result.kind = .html then "HTML viewer" else "XML viewer")
    | none => .text result.rawText
  | .text => .text result.rawText

/-- `undefined` for a tree without text. -/
def copyText : ViewMode → Option Text
  | .hex => some (hexDumpText result.bytes)
  | .tree => result.text
  | .formatted => some (result.text.getD result.rawText)
  | _ => some result.rawText

/-- Without a value the button is disabled. -/
def copyButton (resolved : ViewMode) : Option CopyButton :=
  if resolved = .hex then some (.value (copyText result resolved))
  else match result.kind with
    | .image => some (.image result.bytes result.mediaType)
    | .binary => none
    | _ => some (.value (copyText result resolved))

end Content

def panelIf (condition : Bool) (panel : Panel N L) : List (Panel N L) :=
  if condition then [panel] else []

/-- The panels, one condition after the other. -/
def bodyPanels (props : BodyPaneProps) (body : Option BodyState)
    (view : DecodeView (JsonValue N) FlatRow L) (resolved : Option ViewMode) : List (Panel N L) :=
  let received := fmtBytes ((body.map BodyState.wireBytes).getD 0)
  let message := props.errorMessage.getD ""
  let incomplete := body.any fun b => !b.atEnd
  let complete := body.any fun b => b.atEnd
  panelIf view.loading .skeleton ++
  panelIf (!view.loading && incomplete && props.errorMessage.isNone)
    (.lifecycle ("Streaming… (" ++ received ++ " received)") true) ++
  panelIf (!view.loading && incomplete && props.errorMessage.isSome)
    (.error "Response interrupted" message (some (received ++ " received before error"))) ++
  panelIf (!view.loading && body.isNone && props.errorMessage.isSome) (.error "Error" message none) ++
  panelIf (!view.loading && body.isNone && props.errorMessage.isNone)
    (.lifecycle (if props.awaiting then "Awaiting response…" else "No body") props.awaiting) ++
  panelIf (!view.loading && complete && view.result.isNone)
    (.lifecycle "Could not decode body" false) ++
  (match view.result, resolved with
    | some result, some mode => panelIf (!view.loading) (.content (bodyContent result mode))
    | _, _ => []) ++
  panelIf (!view.loading && complete && props.errorMessage.isSome) (.streamError message)

def bodyPane (props : BodyPaneProps) (body : Option BodyState)
    (view : DecodeView (JsonValue N) FlatRow L) : BodyPane N L :=
  let resolved := view.result.map fun r => resolveMode props.viewMode r.kind r.textAvailable
  { modes := (view.result.map fun r => selectableModes r.kind r.textAvailable).getD []
    resolved := resolved
    copyButton := body.bind fun _ => view.result.bind fun r => resolved.bind (copyButton r)
    download := view.result.map fun r => (r.bytes, r.mediaType)
    panels := bodyPanels props body view resolved }

/-! ## What a body is classified as -/

/-- The results of `classify`. -/
inductive Classified {V R L : Type} (codecs : Codecs V R L) (base : DecodeResult V R L) :
    DecodeResult V R L → Prop
  | ndjson (r : JsonParseResult V R) (parsed : codecs.parseNdjson base.rawText = some r) :
      Classified codecs base { base with
        kind := .ndjson
        text := some r.prettyText
        documents := r.documents
        initialRows := some r.rows
        initialExpanded := some r.defaultExpanded
        truncated := some r.truncated }
  | json (r : JsonParseResult V R) (parsed : codecs.parseJson base.rawText = some r) :
      Classified codecs base { base with
        kind := .json
        text := some r.prettyText
        parsed := r.parsed
        initialRows := some r.rows
        initialExpanded := some r.defaultExpanded
        truncated := some r.truncated }
  | formatted (kind : MarkupKind) (r : MarkupFormatResult L)
      (done : codecs.formatMarkup base.rawText kind = some r) :
      Classified codecs base { base with
        kind := kind.content
        text := some r.formattedText
        lines := some r.lines }
  | unformatted (kind : MarkupKind) (failed : codecs.formatMarkup base.rawText kind = none) :
      Classified codecs base { base with kind := kind.content, text := some base.rawText }
  | image : Classified codecs base { base with kind := .image }
  | binary : Classified codecs base { base with kind := .binary }
  | text : Classified codecs base { base with kind := .text, text := some base.rawText }

theorem classified {V R L : Type} (codecs : Codecs V R L) (contentType : Option Text)
    (base : DecodeResult V R L) : Classified codecs base (codecs.classify contentType base) := by
  rw [Codecs.classify]
  cases first : codecs.ndjsonResult contentType base with
  | some result =>
    obtain ⟨-, found⟩ := Option.ite_none_right_eq_some.mp first
    obtain ⟨r, parsed, rfl⟩ := Option.map_eq_some_iff.mp found
    exact .ndjson r parsed
  | none => cases second : codecs.jsonResult contentType base with
    | some result =>
      obtain ⟨-, found⟩ := Option.ite_none_right_eq_some.mp second
      obtain ⟨r, parsed, rfl⟩ := Option.map_eq_some_iff.mp found
      exact .json r parsed
    | none => cases third : codecs.markupResult contentType base with
      | some result =>
        obtain ⟨kind, -, rfl⟩ := Option.map_eq_some_iff.mp third
        cases done : codecs.formatMarkup base.rawText kind with
        | some r => exact .formatted kind r done
        | none => exact .unformatted kind done
      | none =>
        rw [Option.or_none, Option.or_none, Option.getD_none, Codecs.plainResult]
        rcases Codecs.plainKind_cases contentType with kind | kind | kind
        · rw [kind]
          exact .text
        · rw [kind]
          exact .image
        · rw [kind]
          exact .binary

/-- A body before it is classified. -/
def unclassified {V R L : Type} (codecs : Codecs V R L) (body : BodyState) (bytes : Bytes) :
    DecodeResult V R L where
  kind := .text
  textAvailable := codecs.computeTextAvailable body.chunks (body.contentType.map String.toList)
  text := none
  mediaType := body.contentType.getD "application/octet-stream"
  wireBytes := body.wireBytes
  decodedBytes := decodedSize codecs.decompress body
  contentEncoding := body.contentEncoding
  parsed := none
  documents := none
  initialRows := none
  initialExpanded := none
  truncated := none
  lines := none
  rawText := codecs.decodeBytesToText bytes (body.chunks.any BodyChunk.isBinary)
    (charsetFromContentType (body.contentType.map String.toList))
  bytes := bytes

theorem classified_of_decodeBody {V R L : Type} {codecs : Codecs V R L} {body : BodyState}
    {result : DecodeResult V R L} (decoded : codecs.decodeBody body = some result) :
    ∃ bytes, decodeBytes codecs.decompress body = some bytes ∧
      Classified codecs (unclassified codecs body bytes) result := by
  obtain ⟨bytes, read, rfl⟩ := Option.map_eq_some_iff.mp decoded
  have base := classified codecs (body.contentType.map String.toList) (unclassified codecs body bytes)
  rw [unclassified, decodedSize, read, Option.bind_some] at base
  refine ⟨bytes, read, ?_⟩
  rw [unclassified, decodedSize, read, Option.bind_some]
  exact base

/-! ## What is shown and what is copied -/

section Views

variable [JsNumber N]

/-- The result of a job is what the worker posts. -/
structure Posts (message : WorkerMessage N) (r : JsonParseResult (JsonValue N) FlatRow) : Prop where
  parsed : r.parsed.getD .null = message.parsed
  documents : r.documents = message.documents
  prettyText : JsString.ofText r.prettyText = message.prettyText
  rows : r.rows = message.rows
  expanded : r.defaultExpanded.toFinset = message.defaultExpandedIds
  truncated : r.truncated = message.truncated

/-- A job of the JSON worker fails, or it is done as the worker does it. -/
structure RunsWorker (bestEffortParse : Text → Option (JsonValue N))
    (workers : Codecs (JsonValue N) FlatRow L) : Prop where
  json : ∀ text r, workers.parseJson text = some r →
    ∃ message, runWorker bestEffortParse .json text = some message ∧ Posts message r
  ndjson : ∀ text r, workers.parseNdjson text = some r →
    ∃ message, runWorker bestEffortParse .ndjson text = some message ∧ Posts message r

/-- A mode with what it shows of a body and what can be copied then. -/
inductive Views (bestEffortParse : Text → Option (JsonValue N))
    (workers : Codecs (JsonValue N) FlatRow L) (body : BodyState) (bytes : Bytes) (rawText : Text) :
    ViewMode → BodyView N L → Option CopyButton → Prop
  | hex : Views bestEffortParse workers body bytes rawText .hex (.hex bytes)
      (some (.value (some (hexDumpText bytes))))
  | tree (mode : ParseMode) (message : WorkerMessage N) (input : ViewerInput N) (expanded : List Nat)
      (label : String) (copied : Text)
      (ran : runWorker bestEffortParse mode rawText = some message)
      (shown : message.viewerInput? = some input)
      (ids : expanded.toFinset = message.defaultExpandedIds)
      (read : (∀ v ∈ input.values, JSON.NumbersKept v) →
        List.Forall₂ (fun part v => ∃ t, JsString.ofText t = part ∧ JSON.parse t = some v)
          (paragraphs 10 [] (JsString.ofText copied)) input.values) :
      Views bestEffortParse workers body bytes rawText .tree
        (.tree input (some message.rows) (some expanded) (some message.truncated) label)
        (some (.value (some copied)))
  | null (copied : Text) (parsed : JSON.parse rawText = some (.null : JsonValue N))
      (same : JsString.ofText copied = js "null") :
      Views bestEffortParse workers body bytes rawText .tree (.text rawText)
        (some (.value (some copied)))
  | image (mediaType : String) (declared : mediaType = body.contentType.getD "application/octet-stream") :
      Views bestEffortParse workers body bytes rawText .rendered (.image bytes mediaType)
        (some (.image bytes mediaType))
  | summary (mediaType : String) (decodedBytes : Option Nat)
      (declared : mediaType = body.contentType.getD "application/octet-stream")
      (size : decodedBytes = decodedSize workers.decompress body) :
      Views bestEffortParse workers body bytes rawText .summary
        (.summary mediaType body.wireBytes decodedBytes body.contentEncoding) none
  | markup (kind : MarkupKind) (r : MarkupFormatResult L) (label : String)
      (done : workers.formatMarkup rawText kind = some r) :
      Views bestEffortParse workers body bytes rawText .formatted (.markup r.lines label)
        (some (.value (some r.formattedText)))
  | unformatted (kind : MarkupKind) (failed : workers.formatMarkup rawText kind = none) :
      Views bestEffortParse workers body bytes rawText .formatted (.text rawText)
        (some (.value (some rawText)))
  | text : Views bestEffortParse workers body bytes rawText .text (.text rawText)
      (some (.value (some rawText)))

theorem mem_withTextAndHex {base : List ViewMode} {textAvailable : Bool} {mode : ViewMode}
    (offered : mode ∈ withTextAndHex base textAvailable) :
    mode ∈ base ∨ mode = .text ∨ mode = .hex := by
  rw [withTextAndHex, List.mem_append, List.mem_append] at offered
  rcases offered with (inBase | text) | hex
  · exact .inl inBase
  · split at text
    · exact .inr (.inl (List.mem_singleton.mp text))
    · cases text
  · exact .inr (.inr (List.mem_singleton.mp hex))

theorem mem_markupModes {kind : MarkupKind} {textAvailable : Bool} {mode : ViewMode}
    (offered : mode ∈ selectableModes kind.content textAvailable) :
    mode = .formatted ∨ mode = .text ∨ mode = .hex := by
  cases kind <;> simpa only [List.mem_singleton] using mem_withTextAndHex offered

omit [JsNumber N] in
theorem copyButton_markup {result : DecodeResult (JsonValue N) FlatRow L} {kind : MarkupKind}
    (markup : result.kind = kind.content) (mode : ViewMode) :
    copyButton result mode = some (.value (copyText result mode)) := by
  rw [copyButton, markup, ite_eq_left_iff]
  cases kind <;> exact fun _ => rfl

variable {bestEffortParse : Text → Option (JsonValue N)}

/-- The message of the JSON worker for one document. -/
theorem runWorker_json {text : Text} {message : WorkerMessage N}
    (ran : runWorker bestEffortParse .json text = some message) :
    message.mode = .json ∧ message.documents = none ∧
      (message.parsed = .null → JSON.parse text = some (.null : JsonValue N)) := by
  obtain ⟨result, parsed, rfl⟩ := Option.map_eq_some_iff.mp ran
  refine ⟨rfl, rfl, fun null => ?_⟩
  rw [parseWithTruncation] at parsed
  split at parsed
  · rename_i strict found
    obtain ⟨v, value, rfl⟩ := Option.map_eq_some_iff.mp found
    obtain rfl := Option.some.inj parsed
    exact value.trans (congrArg some null)
  · obtain ⟨v, value, kept⟩ := Option.bind_eq_some_iff.mp parsed
    obtain ⟨structural, same⟩ := Option.ite_none_right_eq_some.mp kept
    obtain rfl := Option.some.inj same
    dsimp only at null
    rw [null] at structural
    cases structural

theorem runWorker_ndjson {text : Text} {message : WorkerMessage N}
    (ran : runWorker bestEffortParse .ndjson text = some message) :
    message.mode = .ndjson ∧ ∃ documents, message.documents = some documents := by
  rw [runWorker, buildNdjson] at ran
  split at ran
  · cases ran
  · obtain rfl := Option.some.inj ran
    exact ⟨rfl, _, rfl⟩

/-- The text that is copied with a tree is read back as what the tree shows. -/
theorem posted_read (recovered : ∀ t v, bestEffortParse t = some v → v.WellFormed) {mode : ParseMode}
    {text : Text} {message : WorkerMessage N} {input : ViewerInput N} {r : JsonParseResult (JsonValue N) FlatRow}
    (ran : runWorker bestEffortParse mode text = some message)
    (shown : message.viewerInput? = some input) (posts : Posts message r)
    (kept : ∀ v ∈ input.values, JSON.NumbersKept v) :
    List.Forall₂ (fun part v => ∃ t, JsString.ofText t = part ∧ JSON.parse t = some v)
      (paragraphs 10 [] (JsString.ofText r.prettyText)) input.values := by
  obtain ⟨some, wf, same⟩ := runWorker_values recovered ran
  rw [values_of_viewerInput? shown] at kept ⊢
  rw [posts.prettyText, same]
  exact paragraphs_values some wf kept

omit [JsNumber N] in
theorem treeInput_json {result : DecodeResult (JsonValue N) FlatRow L} {message : WorkerMessage N}
    (kind : result.kind = .json) (mode : message.mode = .json)
    (parsed : result.parsed.getD .null = message.parsed) :
    treeInput? result = message.viewerInput? := by
  rw [treeInput?, WorkerMessage.viewerInput?, kind, mode]
  dsimp only
  rw [parsed]
  rfl

omit [JsNumber N] in
theorem treeInput_ndjson {result : DecodeResult (JsonValue N) FlatRow L} {message : WorkerMessage N}
    (kind : result.kind = .ndjson) (mode : message.mode = .ndjson)
    (documents : result.documents = message.documents) :
    treeInput? result = message.viewerInput? := by
  rw [treeInput?, WorkerMessage.viewerInput?, kind, mode]
  dsimp only
  rw [documents]

/-- A parsed body is shown in the viewer, unless it is null. -/
theorem views_tree (recovered : ∀ t v, bestEffortParse t = some v → v.WellFormed)
    {workers : Codecs (JsonValue N) FlatRow L} {body : BodyState} {bytes : Bytes} {mode : ParseMode}
    {message : WorkerMessage N} {r : JsonParseResult (JsonValue N) FlatRow}
    {result : DecodeResult (JsonValue N) FlatRow L} {rawText : Text} (text : result.rawText = rawText)
    (ran : runWorker bestEffortParse mode rawText = some message) (posts : Posts message r)
    (input : treeInput? result = message.viewerInput?) (rows : result.initialRows = some r.rows)
    (expanded : result.initialExpanded = some r.defaultExpanded)
    (truncated : result.truncated = some r.truncated) :
    Views bestEffortParse workers body bytes rawText .tree (bodyContent result .tree)
      (some (.value (some r.prettyText))) := by
  rw [bodyContent, input, text]
  cases shown : message.viewerInput? with
  | some input =>
    dsimp only
    rw [rows, expanded, truncated, posts.rows, posts.truncated]
    exact .tree mode message input _ _ _ ran shown posts.expanded (posted_read recovered ran shown posts)
  | none =>
    obtain ⟨-, -, same⟩ := runWorker_values recovered ran
    rw [WorkerMessage.viewerInput?] at shown
    cases mode with
    | ndjson =>
      obtain ⟨mode, documents, some⟩ := runWorker_ndjson ran
      rw [mode, some] at shown
      cases shown
    | json =>
      obtain ⟨mode, -, isNull⟩ := runWorker_json ran
      rw [mode] at shown
      have null : message.parsed = .null := by
        dsimp only at shown
        split at shown
        · assumption
        · cases shown
      refine .null _ (isNull null) ?_
      rw [posts.prettyText, same, WorkerMessage.values, mode, null]
      rfl

/-- Every mode that is offered shows the body and copies what it shows. -/
theorem views_of_decodeBody (recovered : ∀ t v, bestEffortParse t = some v → v.WellFormed)
    {workers : Codecs (JsonValue N) FlatRow L} (runs : RunsWorker bestEffortParse workers)
    {body : BodyState} {result : DecodeResult (JsonValue N) FlatRow L}
    (decoded : workers.decodeBody body = some result) :
    ∃ bytes, decodeBytes workers.decompress body = some bytes ∧ result.bytes = bytes ∧
      result.mediaType = body.contentType.getD "application/octet-stream" ∧
      ∀ mode ∈ selectableModes result.kind result.textAvailable,
        Views bestEffortParse workers body bytes (unclassified workers body bytes).rawText mode
          (bodyContent result mode) (copyButton result mode) := by
  obtain ⟨bytes, read, cls⟩ := classified_of_decodeBody decoded
  refine ⟨bytes, read, ?_⟩
  cases cls with
  | ndjson r parsed =>
    obtain ⟨message, ran, posts⟩ := runs.ndjson _ _ parsed
    refine ⟨rfl, rfl, fun mode offered => ?_⟩
    rcases mem_withTextAndHex offered with tree | rfl | rfl
    · obtain rfl := List.mem_singleton.mp tree
      exact views_tree recovered rfl ran posts
        (treeInput_ndjson rfl (runWorker_ndjson ran).1 posts.documents) rfl rfl rfl
    · exact .text
    · exact .hex
  | json r parsed =>
    obtain ⟨message, ran, posts⟩ := runs.json _ _ parsed
    refine ⟨rfl, rfl, fun mode offered => ?_⟩
    rcases mem_withTextAndHex offered with tree | rfl | rfl
    · obtain rfl := List.mem_singleton.mp tree
      exact views_tree recovered rfl ran posts
        (treeInput_json rfl (runWorker_json ran).1 posts.parsed) rfl rfl rfl
    · exact .text
    · exact .hex
  | formatted kind r done =>
    refine ⟨rfl, rfl, fun mode offered => ?_⟩
    rcases mem_markupModes offered with rfl | rfl | rfl
    · rw [copyButton_markup rfl]
      exact .markup _ r _ done
    · rw [copyButton_markup rfl]
      exact .text
    · exact .hex
  | unformatted kind failed =>
    refine ⟨rfl, rfl, fun mode offered => ?_⟩
    rcases mem_markupModes offered with rfl | rfl | rfl
    · rw [copyButton_markup rfl]
      exact .unformatted _ failed
    · rw [copyButton_markup rfl]
      exact .text
    · exact .hex
  | image =>
    refine ⟨rfl, rfl, fun mode offered => ?_⟩
    rcases List.mem_pair.mp offered with rfl | rfl
    · exact .image _ rfl
    · exact .hex
  | binary =>
    refine ⟨rfl, rfl, fun mode offered => ?_⟩
    rcases List.mem_pair.mp offered with rfl | rfl
    · exact .summary _ _ rfl rfl
    · exact .hex
  | text =>
    refine ⟨rfl, rfl, fun mode offered => ?_⟩
    rcases List.mem_pair.mp offered with rfl | rfl
    · exact .text
    · exact .hex

end Views

/-! ## The pane in every run -/

/-- An error message that came with the body stands below it. -/
def streamErrors (props : BodyPaneProps) : List (Panel N L) :=
  props.errorMessage.toList.map .streamError

section Pane

variable [JsNumber N] (bestEffortParse : Text → Option (JsonValue N))
  (decompress : Bytes → Text → Option Bytes)
  (acts : List (DecodingAction (JsonValue N) FlatRow L)) (props : BodyPaneProps)

/-- What the pane may show of a body after the actions of a run. -/
inductive PaneShows : Option BodyState → BodyPane N L → Prop
  | absent (quiet : props.errorMessage = none) : PaneShows none
      ⟨[], none, none, none, [.lifecycle (if props.awaiting then "Awaiting response…" else "No body")
        props.awaiting]⟩
  | failed (message : String) (error : props.errorMessage = some message) :
      PaneShows none ⟨[], none, none, none, [.error "Error" message none]⟩
  | streaming (b : BodyState) (incomplete : b.atEnd = false) (quiet : props.errorMessage = none) :
      PaneShows (some b) ⟨[], none, none, none,
        [.lifecycle ("Streaming… (" ++ fmtBytes b.wireBytes ++ " received)") true]⟩
  | interrupted (b : BodyState) (incomplete : b.atEnd = false) (message : String)
      (error : props.errorMessage = some message) : PaneShows (some b) ⟨[], none, none, none,
        [.error "Response interrupted" message
          (some (fmtBytes b.wireBytes ++ " received before error"))]⟩
  | loading (b : BodyState) (complete : b.atEnd = true) :
      PaneShows (some b) ⟨[], none, none, none, [.skeleton]⟩
  | undecodable (b : BodyState) (complete : b.atEnd = true) (bad : decodeBytes decompress b = none) :
      PaneShows (some b) ⟨[], none, none, none,
        .lifecycle "Could not decode body" false :: streamErrors props⟩
  | content (b : BodyState) (complete : b.atEnd = true) (i : Nat)
      (workers : Codecs (JsonValue N) FlatRow L) (settled : .settle i workers ∈ acts) (bytes : Bytes)
      (read : decodeBytes decompress b = some bytes) (modes : List ViewMode) (mode : ViewMode)
      (offered : mode ∈ modes)
      (chosen : ∀ m ∈ modes, props.viewMode = some m → mode = m)
      (unchosen : (∀ m ∈ modes, props.viewMode ≠ some m) →
        mode ≠ .hex ∧ ∀ m ∈ modes, m ≠ .hex → mode.precedence ≤ m.precedence)
      (view : BodyView N L) (copy : Option CopyButton)
      (views : Views bestEffortParse { workers with decompress } b bytes
        (unclassified { workers with decompress } b bytes).rawText mode view copy) :
      PaneShows (some b) ⟨modes, some mode, copy,
        some (bytes, b.contentType.getD "application/octet-stream"),
        .content view :: streamErrors props⟩

end Pane

namespace Decoding

section Entry

variable {V R : Type} {decompress : Bytes → Text → Option Bytes} {caching : Bool}

/-- The workers of an entry are those of a decoding that ended in the run. -/
theorem entry_settled {body : Option BodyState} {acts : List (DecodingAction V R L)}
    {s : Decoding V R L} (reached : Machine.run (step decompress caching) (mount body) acts = some s) :
    ∀ entry, s.entry = some entry → ∃ i workers, .settle i workers ∈ acts ∧
      Codecs.decodeBody { workers with decompress } entry.object.body = entry.result := by
  refine Machine.run_history (P := fun acts (s : Decoding V R L) => ∀ entry, s.entry = some entry →
    ∃ i workers, .settle i workers ∈ acts ∧
      Codecs.decodeBody { workers with decompress } entry.object.body = entry.result)
    (by rintro entry ⟨⟩) (fun acts m a t _ before taken entry set => ?_) reached
  have earlier (set : m.entry = some entry) : ∃ i workers, .settle i workers ∈ acts ++ [a] ∧
      Codecs.decodeBody { workers with decompress } entry.object.body = entry.result := by
    obtain ⟨i, workers, settled, decoded⟩ := before entry set
    exact ⟨i, workers, List.mem_append_left _ settled, decoded⟩
  cases steps_of_step taken with
  | update | render | runEffect | dropped => exact earlier set
  | finished i workers task other _ found live rendered effect tasks new source decoded writes =>
    obtain rfl := Option.some.inj (new.symm.trans set)
    rw [source]
    exact ⟨i, workers, List.mem_append_right _ List.mem_cons_self, decoded⟩

end Entry

variable [JsNumber N] {bestEffortParse : Text → Option (JsonValue N)}
  {decompress : Bytes → Text → Option Bytes} {caching : Bool}
  {acts : List (DecodingAction (JsonValue N) FlatRow L)}

/-! ### The panels of each case -/

omit [JsNumber N] in
theorem bodyPane_undecoded (props : BodyPaneProps) (b : BodyState) (complete : b.atEnd = true) :
    bodyPane props (some b) (⟨false, none⟩ : DecodeView (JsonValue N) FlatRow L) =
      ⟨[], none, none, none, .lifecycle "Could not decode body" false :: streamErrors props⟩ := by
  cases error : props.errorMessage <;> simp [bodyPane, bodyPanels, panelIf, streamErrors, complete, error]

omit [JsNumber N] in
theorem bodyPane_decoded (props : BodyPaneProps) (b : BodyState) (complete : b.atEnd = true)
    (result : DecodeResult (JsonValue N) FlatRow L) :
    bodyPane props (some b) ⟨false, some result⟩ =
      let mode := resolveMode props.viewMode result.kind result.textAvailable
      ⟨selectableModes result.kind result.textAvailable, some mode, copyButton result mode,
        some (result.bytes, result.mediaType), .content (bodyContent result mode) :: streamErrors props⟩ := by
  cases error : props.errorMessage <;> simp [bodyPane, bodyPanels, panelIf, streamErrors, complete, error]

section Example

private def listMessage : WorkerMessage Int where
  mode := .json
  parsed := .array [.primitive (.number 2)]
  documents := none
  prettyText := js "[\n  2\n]"
  rows := ((runWorker recoverList .json "[2]".toList).map WorkerMessage.rows).getD []
  defaultExpandedIds := {0}
  truncated := false

private def listResult : JsonParseResult (JsonValue Int) FlatRow :=
  ⟨some listMessage.parsed, none, "[\n  2\n]".toList, listMessage.rows, [0], false⟩

private def listWorkers : Codecs (JsonValue Int) FlatRow Unit :=
  ⟨fun _ _ => none, fun _ => none, fun _ => none,
    fun text => if text = "[2]".toList then some listResult else none, fun _ _ => none⟩

private def listBody : BodyState := ⟨[.text "[2]"], true, 3, none, some "application/json", none, none⟩

private def listActs : List (DecodingAction (JsonValue Int) FlatRow Unit) :=
  [.runEffect, .settle 0 listWorkers]

theorem list_jobs : RunsWorker recoverList listWorkers where
  json text r done := by
    obtain ⟨rfl, same⟩ := Option.ite_none_right_eq_some.mp done
    obtain rfl := Option.some.inj same
    exact ⟨listMessage, rfl, rfl, rfl, rfl, rfl, rfl, rfl⟩
  ndjson _ _ done := by cases done

end Example

end Decoding

end Ui

end Protospy
