import Protospy.Ui.DecodeBody

/-!
# Letter case in content types

Most tests of a content type look at it in lower case. The prefixes of images and of
binary media are compared as they are written.
-/

namespace Protospy

/-! ## Letters -/

def IsLetterCode (n : Nat) : Prop := (65 ≤ n ∧ n ≤ 90) ∨ (97 ≤ n ∧ n ≤ 122)

instance (n : Nat) : Decidable (IsLetterCode n) := inferInstanceAs (Decidable (_ ∨ _))

theorem toLower_eq_or (c : Char) :
    c.toLower = c ∨ IsLetterCode c.toNat ∧ IsLetterCode c.toLower.toNat := by
  delta Char.toLower
  split
  · rename_i upper
    simp only [ge_iff_le, UInt32.le_iff_toNat_le] at upper
    have start : 65 ≤ c.toNat := upper.1
    have stop : c.toNat ≤ 90 := upper.2
    have code : (c.val + 32).toNat = c.toNat + 32 := by
      rw [UInt32.toNat_add]
      change (c.toNat + 32) % 4294967296 = c.toNat + 32
      omega
    refine .inr ⟨.inl ⟨start, stop⟩, .inr ?_⟩
    change 97 ≤ (c.val + 32).toNat ∧ (c.val + 32).toNat ≤ 122
    omega
  · exact .inl rfl

/-- A test that no letter passes does not see letter case. -/
theorem test_toLower {p : Char → Bool} (noLetter : ∀ c, IsLetterCode c.toNat → p c = false)
    (c : Char) : p c.toLower = p c := by
  rcases toLower_eq_or c with same | ⟨letter, lower⟩
  · rw [same]
  · rw [noLetter _ letter, noLetter _ lower]

theorem isWhitespace_toLower : ∀ c : Char, Text.isWhitespace c.toLower = Text.isWhitespace c := by
  refine test_toLower fun c letter => ?_
  rcases letter with upper | lower <;> simp [Text.isWhitespace] <;> omega

theorem isLineTerminator_toLower :
    ∀ c : Char, isLineTerminator c.toLower = isLineTerminator c := by
  refine test_toLower fun c letter => ?_
  rcases letter with upper | lower <;> simp [isLineTerminator] <;> omega

theorem toLower_eq_iff {d : Char} (mark : ¬ IsLetterCode d.toNat) (c : Char) :
    c.toLower = d ↔ c = d := by
  have same := test_toLower (p := fun c => decide (c = d)) (fun c letter => by
    refine decide_eq_false fun equal => mark ?_
    rw [← equal]
    exact letter) c
  simpa using same

namespace Text

theorem toLowerCase_toLowerCase (t : Text) : toLowerCase (toLowerCase t) = toLowerCase t := by
  rw [toLowerCase, toLowerCase, List.map_map]
  refine List.map_congr_left fun c _ => ?_
  exact HeaderName.toLower_toLower c

theorem trim_toLowerCase (t : Text) : trim (toLowerCase t) = toLowerCase (trim t) := by
  have same : Text.isWhitespace ∘ Char.toLower = Text.isWhitespace := funext isWhitespace_toLower
  rw [trim, trim, trimStart, trimStart, trimEnd, trimEnd, toLowerCase, toLowerCase,
    List.dropWhile_map, same, ← List.map_reverse, List.dropWhile_map, same, ← List.map_reverse]

theorem takeWhile_semicolon_toLowerCase (t : Text) :
    (toLowerCase t).takeWhile (· ≠ ';') = toLowerCase (t.takeWhile (· ≠ ';')) := by
  have same : (fun c : Char => decide (c ≠ ';')) ∘ Char.toLower = fun c => decide (c ≠ ';') := by
    funext c
    have semicolon := toLower_eq_iff (show ¬ IsLetterCode (';' : Char).toNat by decide) c
    exact decide_eq_decide.mpr (not_congr semicolon)
  rw [toLowerCase, toLowerCase, List.takeWhile_map, same]

end Text

/-! ## The tests that ignore letter case -/

/-- What does not see letter case is the same for two spellings. -/
theorem eq_of_toLowerCase {β : Type} {f : Text → β} (blind : ∀ t, f (Text.toLowerCase t) = f t)
    {a b : Text} (same : Text.toLowerCase a = Text.toLowerCase b) : f a = f b := by
  rw [← blind a, same, blind b]

theorem baseType_toLowerCase (contentType : Text) :
    baseType (Text.toLowerCase contentType) = baseType contentType := by
  rw [baseType, baseType, Text.takeWhile_semicolon_toLowerCase, Text.trim_toLowerCase,
    Text.toLowerCase_toLowerCase]

theorem isJsonlContentType_toLowerCase (contentType : Text) :
    isJsonlContentType (Text.toLowerCase contentType) = isJsonlContentType contentType := by
  rw [isJsonlContentType, isJsonlContentType, baseType_toLowerCase]

theorem isJsonContentType_toLowerCase (contentType : Text) :
    isJsonContentType (Text.toLowerCase contentType) = isJsonContentType contentType := by
  rw [isJsonContentType, isJsonContentType, Text.toLowerCase_toLowerCase]

theorem isTextualContentType_toLowerCase (contentType : Text) :
    isTextualContentType (Text.toLowerCase contentType) = isTextualContentType contentType := by
  rw [isTextualContentType, isTextualContentType, baseType_toLowerCase]

theorem markupKind_toLowerCase (contentType : Text) :
    markupKind (Text.toLowerCase contentType) = markupKind contentType := by
  rw [markupKind, markupKind, isHtmlContentType, isHtmlContentType, isXmlContentType,
    isXmlContentType, baseType_toLowerCase]

theorem charsetAt_toLowerCase (t : Text) :
    charsetAt (Text.toLowerCase t) = (charsetAt t).map Text.toLowerCase := by
  have same : Text.isWhitespace ∘ Char.toLower = Text.isWhitespace := funext isWhitespace_toLower
  have rest : ((Text.toLowerCase t).drop 7).dropWhile Text.isWhitespace =
      Text.toLowerCase ((t.drop 7).dropWhile Text.isWhitespace) := by
    rw [Text.toLowerCase, Text.toLowerCase, ← List.map_drop, List.dropWhile_map, same]
  rw [charsetAt, charsetAt, Text.toLowerCase_toLowerCase, rest]
  by_cases named : "charset".toList.isPrefixOf (Text.toLowerCase t) = true
  · rw [if_pos named, if_pos named]
    cases (t.drop 7).dropWhile Text.isWhitespace with
    | nil => rfl
    | cons c value =>
      have equals := toLower_eq_iff (show ¬ IsLetterCode ('=' : Char).toNat by decide) c
      by_cases isEquals : c = '='
      · subst isEquals
        have lower : Text.toLowerCase ('=' :: value) = '=' :: Text.toLowerCase value := rfl
        simp only [lower, Text.takeWhile_semicolon_toLowerCase]
        cases value.takeWhile (· ≠ ';') <;> rfl
      · have lower : Text.toLowerCase (c :: value) = c.toLower :: Text.toLowerCase value := rfl
        rw [lower]
        split
        · rename_i match_
          exact absurd (equals.mp (List.cons.inj match_).1) isEquals
        · split
          · rename_i match_
            exact absurd (List.cons.inj match_).1 isEquals
          · rfl
  · rw [if_neg named, if_neg named]
    rfl

theorem charsetMatch_toLowerCase (t : Text) :
    charsetMatch (Text.toLowerCase t) = (charsetMatch t).map Text.toLowerCase := by
  induction t with
  | nil => rfl
  | cons c t ih =>
    have lower : Text.toLowerCase (c :: t) = c.toLower :: Text.toLowerCase t := rfl
    rw [lower, charsetMatch, charsetMatch, ih, ← lower, charsetAt_toLowerCase, Option.map_or]

theorem unquote_toLowerCase (t : Text) :
    unquote (Text.toLowerCase t) = Text.toLowerCase (unquote t) := by
  have isQuote := toLower_eq_iff (show ¬ IsLetterCode quote.toNat by decide)
  cases t with
  | nil => rfl
  | cons c rest =>
    have lower : Text.toLowerCase (c :: rest) = c.toLower :: Text.toLowerCase rest := rfl
    have last : (Text.toLowerCase rest).getLast? = some quote ↔ rest.getLast? = some quote := by
      rw [Text.toLowerCase, List.getLast?_map]
      cases rest.getLast? with
      | none => exact Iff.rfl
      | some d => simpa using isQuote d
    have inside : (Text.toLowerCase rest).dropLast.any isLineTerminator =
        rest.dropLast.any isLineTerminator := by
      rw [Text.toLowerCase, ← List.map_dropLast, List.any_map]
      congr 1
      exact funext isLineTerminator_toLower
    rw [lower, unquote, unquote]
    simp only [isQuote c, last, inside]
    split
    · rw [Text.toLowerCase, Text.toLowerCase, List.map_dropLast]
    · rfl

theorem charsetFromContentType_toLowerCase (contentType : Text) :
    charsetFromContentType (some (Text.toLowerCase contentType)) =
      (charsetFromContentType (some contentType)).map Text.toLowerCase := by
  rw [charsetFromContentType, charsetFromContentType, Option.bind_some, Option.bind_some,
    charsetMatch_toLowerCase, Option.map_map, Option.map_map]
  congr 1
  funext value
  rw [Function.comp_apply, Function.comp_apply, Text.trim_toLowerCase, unquote_toLowerCase]

/-! ## The tests that see letter case -/

/-- The prefixes that are compared as they are written. -/
def mediaPrefixes : List Text := "image/".toList :: binaryPrefixes

def SamePrefixes (a b : Text) : Prop :=
  ∀ start ∈ mediaPrefixes, start.isPrefixOf a = start.isPrefixOf b

instance (a b : Text) : Decidable (SamePrefixes a b) :=
  inferInstanceAs (Decidable (∀ start ∈ mediaPrefixes, _))

theorem mem_mediaPrefixes {start : Text} (member : start ∈ mediaPrefixes) :
    start = "image/".toList ∨ start = "audio/".toList ∨ start = "video/".toList ∨
      start = "application/octet-stream".toList := by
  simpa only [mediaPrefixes, binaryPrefixes, List.mem_cons, List.not_mem_nil, or_false] using member

theorem toLowerCase_mediaPrefix {start : Text} (member : start ∈ mediaPrefixes) :
    Text.toLowerCase start = start := by
  rcases mem_mediaPrefixes member with rfl | rfl | rfl | rfl <;> rfl

/-- No prefix starts with another. -/
theorem mediaPrefix_unique {start start' : Text} (member : start ∈ mediaPrefixes)
    (member' : start' ∈ mediaPrefixes) (before : start <+: start') : start = start' := by
  have test := List.isPrefixOf_iff_prefix.mpr before
  rcases mem_mediaPrefixes member with rfl | rfl | rfl | rfl <;>
    rcases mem_mediaPrefixes member' with rfl | rfl | rfl | rfl <;>
      first
        | exact absurd test (by decide)
        | rfl

/-- Two spellings have no two different prefixes. -/
theorem mediaPrefix_eq {a b start start' : Text}
    (same : Text.toLowerCase a = Text.toLowerCase b) (member : start ∈ mediaPrefixes)
    (member' : start' ∈ mediaPrefixes) (starts : start.isPrefixOf a = true)
    (starts' : start'.isPrefixOf b = true) : start = start' := by
  have lower := (List.isPrefixOf_iff_prefix.mp starts).map Char.toLower
  have lower' := (List.isPrefixOf_iff_prefix.mp starts').map Char.toLower
  change Text.toLowerCase start <+: Text.toLowerCase a at lower
  change Text.toLowerCase start' <+: Text.toLowerCase b at lower'
  rw [toLowerCase_mediaPrefix member] at lower
  rw [toLowerCase_mediaPrefix member', ← same] at lower'
  rcases List.prefix_or_prefix_of_prefix lower lower' with before | after
  · exact mediaPrefix_unique member member' before
  · exact (mediaPrefix_unique member' member after).symm

theorem plainKind_text_iff {a : Text} (other : isTextualContentType a = false) :
    plainKind (some a) = .text ↔ ∀ start ∈ mediaPrefixes, start.isPrefixOf a = false := by
  rw [plainKind, Option.any_some, other, mediaPrefixes, List.forall_mem_cons, if_neg (by decide)]
  simp only [Option.any_some]
  cases image : "image/".toList.isPrefixOf a with
  | true => simp
  | false =>
    rw [if_neg (by decide)]
    by_cases binary : (binaryPrefixes.any fun start => start.isPrefixOf a) = true
    · obtain ⟨start, member, starts⟩ := List.any_eq_true.mp binary
      rw [if_pos binary]
      refine ⟨fun kind => (by cases kind), fun none => ?_⟩
      rw [none.2 start member] at starts
      cases starts
    · rw [if_neg binary]
      refine ⟨fun _ => ⟨rfl, fun start member => ?_⟩, fun _ => rfl⟩
      exact Bool.eq_false_iff.mpr fun starts => binary (List.any_eq_true.mpr ⟨start, member, starts⟩)

theorem plainKind_of_samePrefixes {a b : Text}
    (textual : isTextualContentType a = isTextualContentType b) (same : SamePrefixes a b) :
    plainKind (some a) = plainKind (some b) := by
  have image := same _ List.mem_cons_self
  have binary : (binaryPrefixes.any fun start => start.isPrefixOf a) =
      binaryPrefixes.any fun start => start.isPrefixOf b := by
    rw [Bool.eq_iff_iff, List.any_eq_true, List.any_eq_true]
    refine exists_congr fun start => and_congr_right fun member => ?_
    rw [same start (List.mem_cons_of_mem _ member)]
  simp only [plainKind, Option.any_some, textual, image, binary]

/-- Where the kinds agree, one spelling has the prefix of the other. -/
theorem prefix_of_plainKind_eq {a b start : Text}
    (same : Text.toLowerCase a = Text.toLowerCase b) (otherA : isTextualContentType a = false)
    (otherB : isTextualContentType b = false) (kinds : plainKind (some a) = plainKind (some b))
    (member : start ∈ mediaPrefixes) (starts : start.isPrefixOf a = true) :
    start.isPrefixOf b = true := by
  by_contra missing
  have text : plainKind (some b) = .text := by
    rw [plainKind_text_iff otherB]
    intro start' member'
    refine Bool.eq_false_iff.mpr fun starts' => missing ?_
    rw [mediaPrefix_eq same member member' starts starts']
    exact starts'
  rw [← kinds, plainKind_text_iff otherA] at text
  rw [text start member] at starts
  cases starts

theorem plainKind_eq_iff {a b : Text} (same : Text.toLowerCase a = Text.toLowerCase b)
    (other : isTextualContentType a = false) :
    plainKind (some a) = plainKind (some b) ↔ SamePrefixes a b := by
  have textual : isTextualContentType a = isTextualContentType b :=
    eq_of_toLowerCase isTextualContentType_toLowerCase same
  constructor
  · intro kinds start member
    rw [Bool.eq_iff_iff]
    exact ⟨prefix_of_plainKind_eq same other (textual ▸ other) kinds member,
      prefix_of_plainKind_eq same.symm (textual ▸ other) other kinds.symm member⟩
  · exact plainKind_of_samePrefixes textual

/-! ## Two spellings of a content type -/

namespace Codecs

variable {V R L : Type}

/-- A step before the tests of prefixes takes a body with this text. -/
def TakenBefore (codecs : Codecs V R L) (contentType t : Text) : Prop :=
  (isJsonlContentType contentType = true ∧ (codecs.parseNdjson t).isSome = true) ∨
  (isJsonContentType contentType = true ∧ (codecs.parseJson t).isSome = true) ∨
  (markupKind contentType).isSome = true ∨ isTextualContentType contentType = true

theorem bind_charset_eq {codecs : Codecs V R L}
    (labels : ∀ label, codecs.textDecoder (Text.toLowerCase label) = codecs.textDecoder label)
    {a b : Text} (same : Text.toLowerCase a = Text.toLowerCase b) :
    (charsetFromContentType (some a)).bind codecs.textDecoder =
      (charsetFromContentType (some b)).bind codecs.textDecoder := by
  have lower (c : Text) : (charsetFromContentType (some (Text.toLowerCase c))).bind
      codecs.textDecoder = (charsetFromContentType (some c)).bind codecs.textDecoder := by
    rw [charsetFromContentType_toLowerCase, Option.bind_map]
    congr 1
    funext label
    exact labels label
  rw [← lower a, same, lower]

/-- Where no step before takes the body, the reading is the plain one. -/
theorem reading_of_not_takenBefore {codecs : Codecs V R L} {a t : Text}
    (left : ¬ codecs.TakenBefore a t) :
    codecs.reading (some a) t = (plainKind (some a), plainText (some a) t) := by
  rw [TakenBefore, not_or, not_or, not_or] at left
  obtain ⟨noNdjson, noJson, noMarkup, -⟩ := left
  have ndjson : codecs.ndjsonText (some a) t = none := by
    rw [ndjsonText]
    split
    · rename_i jsonl
      rw [Option.map_eq_none_iff]
      exact Option.not_isSome_iff_eq_none.mp fun parsed => noNdjson ⟨jsonl, parsed⟩
    · rfl
  have json : codecs.jsonText (some a) t = none := by
    rw [jsonText]
    split
    · rename_i named
      rw [Option.map_eq_none_iff]
      exact Option.not_isSome_iff_eq_none.mp fun parsed => noJson ⟨named, parsed⟩
    · rfl
  have markup : (some a).bind markupKind = none := Option.not_isSome_iff_eq_none.mp noMarkup
  rw [reading, ndjson, otherReading, json, unparsedReading, markup]

/-- Where a step before takes the body, letter case makes no difference. -/
theorem reading_of_takenBefore {codecs : Codecs V R L} {a b t : Text}
    (same : Text.toLowerCase a = Text.toLowerCase b) (taken : codecs.TakenBefore a t) :
    codecs.reading (some a) t = codecs.reading (some b) t := by
  have jsonl : isJsonlContentType a = isJsonlContentType b :=
    eq_of_toLowerCase isJsonlContentType_toLowerCase same
  have json : isJsonContentType a = isJsonContentType b :=
    eq_of_toLowerCase isJsonContentType_toLowerCase same
  have markup : markupKind a = markupKind b := eq_of_toLowerCase markupKind_toLowerCase same
  have textual : isTextualContentType a = isTextualContentType b :=
    eq_of_toLowerCase isTextualContentType_toLowerCase same
  have ndjsonText_eq : codecs.ndjsonText (some b) t = codecs.ndjsonText (some a) t := by
    rw [ndjsonText, ndjsonText, Option.any_some, Option.any_some, jsonl]
  have jsonText_eq : codecs.jsonText (some b) t = codecs.jsonText (some a) t := by
    rw [jsonText, jsonText, Option.any_some, Option.any_some, json]
  rw [reading, reading, otherReading, otherReading, unparsedReading, unparsedReading,
    Option.bind_some, Option.bind_some, ndjsonText_eq, jsonText_eq, ← markup]
  rcases taken with ⟨isJsonl, parsed⟩ | ⟨isJson, parsed⟩ | isMarkup | isTextual
  · obtain ⟨r, parsed⟩ := Option.isSome_iff_exists.mp parsed
    have found : codecs.ndjsonText (some a) t = some r.prettyText := by
      rw [ndjsonText, Option.any_some, if_pos isJsonl, parsed]
      rfl
    rw [found]
  · obtain ⟨r, parsed⟩ := Option.isSome_iff_exists.mp parsed
    have found : codecs.jsonText (some a) t = some r.prettyText := by
      rw [jsonText, Option.any_some, if_pos isJson, parsed]
      rfl
    rw [found]
  · obtain ⟨kind, found⟩ := Option.isSome_iff_exists.mp isMarkup
    rw [found]
  · have kindA : plainKind (some a) = .text := by
      rw [plainKind, Option.any_some, if_pos isTextual]
    have kindB : plainKind (some b) = .text := by
      rw [plainKind, Option.any_some, if_pos (textual ▸ isTextual)]
    rw [plainText, plainText, kindA, kindB]

theorem reading_spelling_iff (codecs : Codecs V R L) {a b : Text}
    (same : Text.toLowerCase a = Text.toLowerCase b) (t : Text) :
    codecs.reading (some a) t = codecs.reading (some b) t ↔
      codecs.TakenBefore a t ∨ SamePrefixes a b := by
  by_cases taken : codecs.TakenBefore a t
  · exact iff_of_true (reading_of_takenBefore same taken) (.inl taken)
  · have jsonl : isJsonlContentType a = isJsonlContentType b :=
    eq_of_toLowerCase isJsonlContentType_toLowerCase same
    have json : isJsonContentType a = isJsonContentType b :=
      eq_of_toLowerCase isJsonContentType_toLowerCase same
    have markup : markupKind a = markupKind b := eq_of_toLowerCase markupKind_toLowerCase same
    have textual : isTextualContentType a = isTextualContentType b :=
      eq_of_toLowerCase isTextualContentType_toLowerCase same
    have taken' : ¬ codecs.TakenBefore b t := by
      rw [TakenBefore, ← jsonl, ← json, ← markup, ← textual]
      exact taken
    have other : isTextualContentType a = false := by
      rw [TakenBefore, not_or, not_or, not_or] at taken
      exact Bool.eq_false_iff.mpr taken.2.2.2
    rw [reading_of_not_takenBefore taken, reading_of_not_takenBefore taken',
      or_iff_right taken, ← plainKind_eq_iff same other, Prod.mk.injEq]
    refine ⟨And.left, fun kinds => ⟨kinds, ?_⟩⟩
    rw [plainText, plainText, kinds]

end Codecs

/-- Two spellings of a content type show a body alike if it cannot be decompressed, if a
step before the tests of prefixes takes it, or if both or neither have each prefix. -/
theorem seen_spelling_iff {V R L : Type} (codecs : Codecs V R L)
    (labels : ∀ label, codecs.textDecoder (Text.toLowerCase label) = codecs.textDecoder label)
    (body : BodyState) (a b : String)
    (same : Text.toLowerCase a.toList = Text.toLowerCase b.toList) :
    codecs.seen { body with contentType := some a } =
        codecs.seen { body with contentType := some b } ↔
      decodeBytes codecs.decompress body = none ∨
      (∃ bytes, decodeBytes codecs.decompress body = some bytes ∧
        codecs.TakenBefore a.toList (codecs.decodeBytesToText bytes
          (body.chunks.any BodyChunk.isBinary) (charsetFromContentType (some a.toList)))) ∨
      SamePrefixes a.toList b.toList := by
  have decoder := Codecs.bind_charset_eq labels same
  have bytesOf (c : String) : decodeBytes codecs.decompress { body with contentType := some c } =
      decodeBytes codecs.decompress body := rfl
  rw [Codecs.seen_eq, Codecs.seen_eq, bytesOf, bytesOf]
  simp only [Option.map_some, Codecs.computeTextAvailable, Codecs.decodeBytesToText, decoder]
  cases decodeBytes codecs.decompress body with
  | none => simp
  | some bytes =>
    simp only [Option.map_some, Option.some.injEq, Prod.mk.injEq, and_true, reduceCtorEq, false_or,
      exists_eq_left']
    exact codecs.reading_spelling_iff same _

/-- A platform whose labels ignore letter case. -/
def caselessCodecs : Codecs Unit Unit Unit where
  decompress := fun _ _ => none
  textDecoder := fun label =>
    if Text.toLowerCase label = "utf-8".toList then some textDecoderDecode else none
  parseNdjson := fun _ => none
  parseJson := fun _ => none
  formatMarkup := fun _ _ => none

theorem caselessCodecs_labels (label : Text) :
    caselessCodecs.textDecoder (Text.toLowerCase label) = caselessCodecs.textDecoder label := by
  simp only [caselessCodecs, Text.toLowerCase_toLowerCase]

/-- The first byte of a PNG file. -/
def imageBody : BodyState := plainBody [[0x89]]

theorem seen_spelling_iff_image :
    caselessCodecs.seen { imageBody with contentType := some "image/png" } =
        caselessCodecs.seen { imageBody with contentType := some "image/PNG" } ↔
      decodeBytes caselessCodecs.decompress imageBody = none ∨
      (∃ bytes, decodeBytes caselessCodecs.decompress imageBody = some bytes ∧
        caselessCodecs.TakenBefore "image/png".toList (caselessCodecs.decodeBytesToText bytes
          (imageBody.chunks.any BodyChunk.isBinary)
          (charsetFromContentType (some "image/png".toList)))) ∨
      SamePrefixes "image/png".toList "image/PNG".toList :=
  seen_spelling_iff caselessCodecs caselessCodecs_labels imageBody _ _ (by decide)

/-- `Image/PNG` is shown as text. -/
theorem seen_spelling_image :
    (∀ label, caselessCodecs.textDecoder (Text.toLowerCase label) =
      caselessCodecs.textDecoder label) ∧
    Text.toLowerCase "image/png".toList = Text.toLowerCase "Image/PNG".toList ∧
    caselessCodecs.seen { imageBody with contentType := some "image/png" } =
      some ((.image, none), false) ∧
    caselessCodecs.seen { imageBody with contentType := some "Image/PNG" } =
      some ((.text, some [Char.ofNat 0xFFFD]), false) := by
  refine ⟨caselessCodecs_labels, by decide, ?_, ?_⟩ <;> decide +kernel

end Protospy
