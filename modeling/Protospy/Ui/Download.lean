import Protospy.Lib.Pattern
import Protospy.Lib.Ascii
import Protospy.Ui.JsonParse
import Protospy.Ui.SseFormat
import Protospy.Ui.DecodeBody

/-!
# File names of downloads (`lib/download.ts`)

The name comes from the Content-Disposition header, or else from the request. The
registry of media types is a parameter.
-/

namespace Protospy

/-! ## Percent-encoding -/

/-- `decodeURIComponent`, which throws where an escape is broken or the escapes in a row
are not UTF-8. The bytes are those of the escapes just before. -/
def decodeEscapes : Bytes → Text → Option Text
  | bytes, [] => (decodeUtf8 bytes).map String.toList
  | bytes, c :: rest =>
    if c = '%' then
      match rest with
      | high :: low :: rest =>
        match JSON.hexValue? high, JSON.hexValue? low with
        | some h, some l => decodeEscapes (bytes ++ [UInt8.ofNat (16 * h + l)]) rest
        | _, _ => none
      | _ => none
    else
      (decodeUtf8 bytes).bind fun before =>
        (decodeEscapes [] rest).map fun after => before.toList ++ c :: after

def decodeURIComponent (t : Text) : Option Text := decodeEscapes [] t

/-! ## The name in the header -/

open Pattern in
/-- A letter in either case, or another character. -/
def letter (c : Char) : Item Char := .one fun d => d.toLower = c

open Pattern in
/-- `/filename\*\s*=\s*[^']*''([^;]+)/i` -/
def extendedPattern : List (Item Char) :=
  "filename*".toList.map letter ++
    [.star Text.isWhitespace, letter '=', .star Text.isWhitespace, .star fun c => c.toNat ≠ 39,
      .one fun c => c.toNat = 39, .one fun c => c.toNat = 39, .group fun c => c ≠ ';']

open Pattern in
/-- `/filename\s*=\s*"?([^";]+)"?/i` -/
def plainPattern : List (Item Char) :=
  "filename".toList.map letter ++
    [.star Text.isWhitespace, letter '=', .star Text.isWhitespace, .optional fun c => c = quote,
      .group fun c => c ≠ quote ∧ c ≠ ';', .optional fun c => c = quote]

/-- The extended form, where it is there and decodes. -/
def extendedName (disposition : Text) : Option Text :=
  (Pattern.search extendedPattern disposition).bind fun value => decodeURIComponent (Text.trim value)

def plainName (disposition : Text) : Option Text :=
  (Pattern.search plainPattern disposition).map fun value => Text.trim value

def filenameFromDisposition (disposition : Text) : Option Text :=
  (extendedName disposition).or (plainName disposition)

/-! ## The name from the request -/

def extensionFor (getExtension : Text → Option Text) (contentType : Option Text) : Text :=
  match contentType with
  | none => "bin".toList
  | some contentType =>
    let base := baseType contentType
    if Text.includes "ndjson".toList base || Text.includes "jsonl".toList base then "ndjson".toList
    else if "+json".toList.isSuffixOf base then "json".toList
    else if "+xml".toList.isSuffixOf base then "xml".toList
    else match getExtension base with
      | some ext => ext
      | none => if "text/".toList.isPrefixOf base then "txt".toList else "bin".toList

def basenameFromUri (uri : Text) : Text :=
  let path := uri.takeWhile fun c => c ≠ '?' ∧ c ≠ '#'
  (((path.splitOn '/').filter fun segment => segment ≠ []).getLast?).getD []

/-- `/\.[^./]+$/` -/
def hasExtension (base : Text) : Bool :=
  let (ext, rest) := base.reverse.span fun c => c ≠ '.' ∧ c ≠ '/'
  ext ≠ [] && rest.head? = some '.'

def deriveFilename (getExtension : Text → Option Text)
    (contentDisposition uri contentType : Option Text) : Text :=
  match (contentDisposition.bind filenameFromDisposition).filter fun name => name ≠ [] with
  | some name => name
  | none =>
    let fromUri := (uri.map basenameFromUri).getD []
    let base := if fromUri = [] then "body".toList else fromUri
    if hasExtension base then base else base ++ '.' :: extensionFor getExtension contentType

/-! ## The header that is sent -/

/-- A file name of printable ASCII that is no path and has no space at its ends. -/
structure FileName where
  text : Text
  nonempty : text ≠ []
  printable : ∀ c ∈ text, Ascii.isPrintable c = true
  noSeparator : '/' ∉ text
  solid : text.head? ≠ some ' ' ∧ text.getLast? ≠ some ' '

def backslash : Char := Char.ofNat 0x5C

def escapeQuoted (t : Text) : Text :=
  t.flatMap fun c => if c = quote ∨ c = backslash then [backslash, c] else [c]

/-- `attachment; filename="…"`, and what follows it. -/
def dispositionHeader (name : FileName) (rest : Text) : Text :=
  "attachment; filename=".toList ++ quote :: (escapeQuoted name.text ++ quote :: rest)

/-! ## Matching the header -/

open Pattern

theorem matchStart_letters (items : List (Item Char)) {cs : Text}
    (lower : cs.map Char.toLower = cs) (l : Text) :
    matchStart (cs.map letter ++ items) (cs ++ l) = matchStart items l := by
  induction cs with
  | nil => rfl
  | cons c cs ih =>
    obtain ⟨first, rest⟩ := List.cons.inj lower
    rw [List.map_cons, List.cons_append, List.cons_append, letter]
    exact (matchStart_one (fun d : Char => decide (d.toLower = c)) _ _ (decide_eq_true first)).trans
      (ih rest)

/-- White space that may be there is not. -/
theorem matchStart_noSpace (items : List (Item Char)) {c : Char} {l : Text}
    (solid : Text.isWhitespace c = false) {captured : Text}
    (found : matchStart items (c :: l) = some captured) :
    matchStart (.star Text.isWhitespace :: items) (c :: l) = some captured := by
  have none : (Item.star Text.isWhitespace).run (c :: l) = [] := by
    rw [Item.run, Item.star, List.takeWhile_cons_of_neg (by simp [solid])]
  exact matchStart_greedy (Item.star Text.isWhitespace) items (Nat.zero_le _) (by rwa [none])

theorem matchStart_optional (test : Char → Bool) (l : Text) :
    matchStart [Item.optional test] l = some [] :=
  matchStart_greedy (Item.optional test) [] (Nat.zero_le _) rfl

/-- What the group of the plain form takes. -/
def plainValue (t : Text) : Text := t.takeWhile fun c => c ≠ quote ∧ c ≠ ';'

theorem search_plainPattern {t : Text} (some' : plainValue t ≠ []) :
    search plainPattern ("attachment; filename=".toList ++ quote :: t) = some (plainValue t) := by
  have split : "attachment; filename=".toList = "attachment; ".toList ++ ("filename".toList ++ ['=']) :=
    rfl
  have skipped : "attachment; ".toList.all (fun c => !decide (c.toLower = 'f')) = true := rfl
  have lower : "filename".toList.map Char.toLower = "filename".toList := rfl
  have group : matchStart [Item.group fun c => c ≠ quote ∧ c ≠ ';', .optional fun c => c = quote] t =
      some (plainValue t) := by
    have greedy := matchStart_greedy (Item.group fun c => c ≠ quote ∧ c ≠ ';')
      [.optional fun c => c = quote] (l := t) (List.length_pos_iff.mpr some')
      (matchStart_optional _ _)
    rw [greedy]
    exact congrArg some (List.append_nil _)
  have quoted : matchStart [Item.optional fun c => c = quote, .group fun c => c ≠ quote ∧ c ≠ ';',
      .optional fun c => c = quote] (quote :: t) = some (plainValue t) := by
    have run : (Item.optional fun c : Char => c = quote).run (quote :: t) = [quote] := by
      rw [Item.run, Item.optional, List.takeWhile_cons_of_pos (by decide)]
      rfl
    refine matchStart_greedy (Item.optional fun c => c = quote) _ (Nat.zero_le _) ?_
    rw [run]
    exact group
  rw [split, List.append_assoc, List.append_assoc]
  refine (search_append skipped _).trans (search_of_matchStart ?_)
  refine (matchStart_letters _ lower _).trans ?_
  refine matchStart_noSpace _ (by decide) ?_
  refine (matchStart_one _ _ _ (by decide)).trans ?_
  exact matchStart_noSpace _ (by decide) quoted

/-! ## Names that need no escape -/

/-- No character of the name is quoted or ends the value. -/
def Unquoted (t : Text) : Prop := ∀ c ∈ t, c ≠ quote ∧ c ≠ ';' ∧ c ≠ backslash

theorem escapeQuoted_cons (c : Char) (t : Text) :
    escapeQuoted (c :: t) =
      (if c = quote ∨ c = backslash then [backslash, c] else [c]) ++ escapeQuoted t := by
  rw [escapeQuoted, escapeQuoted, List.flatMap_cons]

theorem escapeQuoted_eq_self {t : Text} (plain : ∀ c ∈ t, c ≠ quote ∧ c ≠ backslash) :
    escapeQuoted t = t := by
  induction t with
  | nil => rfl
  | cons c t ih =>
    obtain ⟨⟨unquoted, unescaped⟩, rest⟩ := List.forall_mem_cons.mp plain
    rw [escapeQuoted_cons, if_neg (by simp [unquoted, unescaped]), ih rest, List.singleton_append]

theorem length_le_escapeQuoted (t : Text) : t.length ≤ (escapeQuoted t).length := by
  induction t with
  | nil => exact Nat.zero_le _
  | cons c t ih =>
    rw [escapeQuoted_cons]
    split <;> simp only [List.length_cons, List.length_append, List.length_nil] <;> omega

/-- An escape makes the text longer. -/
theorem length_lt_escapeQuoted {t : Text} (escaped : backslash ∈ t) :
    t.length < (escapeQuoted t).length := by
  induction t with
  | nil => exact absurd escaped List.not_mem_nil
  | cons c t ih =>
    have tail := length_le_escapeQuoted t
    rw [escapeQuoted_cons]
    rcases List.mem_cons.mp escaped with rfl | later
    · rw [if_pos (Or.inr rfl)]
      simp only [List.length_cons, List.length_append, List.length_nil]
      omega
    · have longer := ih later
      split <;> simp only [List.length_cons, List.length_append, List.length_nil] <;> omega

theorem mem_escapeQuoted {t : Text} {d : Char} (member : d ∈ escapeQuoted t) :
    d = backslash ∨ d ∈ t := by
  obtain ⟨c, inside, here⟩ := List.mem_flatMap.mp member
  split at here
  · rcases List.mem_cons.mp here with rfl | last
    · exact Or.inl rfl
    · exact Or.inr (List.mem_singleton.mp last ▸ inside)
  · exact Or.inr (List.mem_singleton.mp here ▸ inside)

theorem plainValue_quoted {t : Text} (plain : ∀ c ∈ t, c ≠ quote ∧ c ≠ ';') (rest : Text) :
    plainValue (t ++ quote :: rest) = t := by
  rw [plainValue, List.takeWhile_append_of_pos, List.takeWhile_cons_of_neg, List.append_nil]
  · simp
  · exact fun c member => decide_eq_true (plain c member)

theorem Text.trim_eq_self {t : Text} (start : ¬ t.StartsBlank) (finish : ¬ t.EndsBlank) :
    Text.trim t = t := by
  rw [Text.trim, (Text.trimStart_eq_self_iff t).mpr start, (Text.trimEnd_eq_self_iff t).mpr finish]

theorem not_isWhitespace_of_printable {c : Char} (printable : Ascii.isPrintable c = true)
    (solid : c ≠ ' ') : Text.isWhitespace c = false := by
  have code : c.toNat ≠ 32 := by
    intro space
    apply solid
    rw [← Char.ofNat_toNat c, space]
  simp only [Ascii.isPrintable, Bool.and_eq_true, decide_eq_true_eq] at printable
  obtain ⟨lower, upper⟩ := printable
  simp only [Text.isWhitespace, List.mem_cons, List.not_mem_nil, or_false, Bool.or_eq_false_iff,
    Bool.and_eq_false_iff, decide_eq_false_iff_not]
  constructor <;> omega

theorem head?_escapeQuoted (t : Text) :
    (escapeQuoted t).head? = some backslash ∨ (escapeQuoted t).head? = t.head? := by
  cases t with
  | nil => exact Or.inr rfl
  | cons c t =>
    rw [escapeQuoted_cons]
    split
    · exact Or.inl rfl
    · exact Or.inr rfl

theorem getLast?_escapeQuoted (t : Text) : (escapeQuoted t).getLast? = t.getLast? := by
  rcases List.eq_nil_or_concat t with rfl | ⟨init, c, rfl⟩
  · rfl
  · rw [List.concat_eq_append, List.getLast?_concat, escapeQuoted, List.flatMap_append,
      List.flatMap_singleton]
    split
    · exact List.getLast?_append_of_ne_nil _ (List.cons_ne_nil _ _)
    · exact List.getLast?_concat

namespace FileName

theorem not_startsBlank (name : FileName) : ¬ Text.StartsBlank name.text := by
  rintro ⟨c, first, blank⟩
  have printable := name.printable c (List.mem_of_mem_head? first)
  have solid : c ≠ ' ' := fun space => name.solid.1 (space ▸ first)
  exact Bool.false_ne_true ((not_isWhitespace_of_printable printable solid).symm.trans blank)

theorem not_endsBlank (name : FileName) : ¬ Text.EndsBlank name.text := by
  rintro ⟨c, last, blank⟩
  have printable := name.printable c (List.mem_of_getLast? last)
  have solid : c ≠ ' ' := fun space => name.solid.2 (space ▸ last)
  exact Bool.false_ne_true ((not_isWhitespace_of_printable printable solid).symm.trans blank)

theorem trim_text (name : FileName) : Text.trim name.text = name.text :=
  Text.trim_eq_self name.not_startsBlank name.not_endsBlank

/-- Nothing is lost where the name of the header is trimmed. -/
theorem trim_escapeQuoted (name : FileName) :
    Text.trim (escapeQuoted name.text) = escapeQuoted name.text := by
  apply Text.trim_eq_self
  · rintro ⟨c, first, blank⟩
    rcases head?_escapeQuoted name.text with escaped | same
    · obtain rfl : backslash = c := Option.some.inj (escaped.symm.trans first)
      exact absurd blank (by decide)
    · exact name.not_startsBlank ⟨c, same ▸ first, blank⟩
  · rintro ⟨c, last, blank⟩
    exact name.not_endsBlank ⟨c, getLast?_escapeQuoted name.text ▸ last, blank⟩

end FileName

/-! ## The name that is read -/

theorem search_header (name : FileName) (rest : Text) {value : Text} (nonempty : value ≠ [])
    (taken : plainValue (escapeQuoted name.text ++ quote :: rest) = value) :
    plainName (dispositionHeader name rest) = some (Text.trim value) := by
  subst taken
  exact congrArg (Option.map Text.trim) (search_plainPattern nonempty)

theorem plainName_unquoted {name : FileName} (unquoted : Unquoted name.text) (rest : Text) :
    plainName (dispositionHeader name rest) = some name.text := by
  have escaped : escapeQuoted name.text = name.text :=
    escapeQuoted_eq_self fun c member => ⟨(unquoted c member).1, (unquoted c member).2.2⟩
  have taken : plainValue (escapeQuoted name.text ++ quote :: rest) = name.text := by
    rw [escaped]
    exact plainValue_quoted (fun c member => ⟨(unquoted c member).1, (unquoted c member).2.1⟩) rest
  rw [search_header name rest name.nonempty taken, name.trim_text]

/-- The value that is read has no quote and no semicolon. -/
theorem mem_plainName {disposition value : Text} (found : plainName disposition = some value) :
    ∀ c ∈ value, c ≠ quote ∧ c ≠ ';' := by
  obtain ⟨captured, matched, rfl⟩ := Option.map_eq_some_iff.mp found
  intro c member
  have inside : c ∈ captured :=
    (List.dropWhile_sublist _).mem ((List.rdropWhile_prefix _ _).subset member)
  obtain ⟨item, isItem, isGroup, passes⟩ := captured_of_search matched c inside
  -- The group is the only item that captures.
  have value : item = Item.group fun c => c ≠ quote ∧ c ≠ ';' := by
    rcases List.mem_append.mp isItem with isLetter | other
    · obtain ⟨d, -, rfl⟩ := List.mem_map.mp isLetter
      exact absurd isGroup Bool.false_ne_true
    · simp only [List.mem_cons, List.not_mem_nil, or_false] at other
      rcases other with rfl | rfl | rfl | rfl | rfl | rfl
      · exact absurd isGroup Bool.false_ne_true
      · exact absurd isGroup Bool.false_ne_true
      · exact absurd isGroup Bool.false_ne_true
      · exact absurd isGroup Bool.false_ne_true
      · rfl
      · exact absurd isGroup Bool.false_ne_true
  subst value
  exact of_decide_eq_true passes

theorem unquoted_of_plainName {name : FileName} {rest : Text}
    (found : plainName (dispositionHeader name rest) = some name.text) : Unquoted name.text := by
  have parts := mem_plainName found
  have unescaped : backslash ∉ name.text := by
    intro escaped
    have longer := length_lt_escapeQuoted escaped
    have taken : plainValue (escapeQuoted name.text ++ quote :: rest) = escapeQuoted name.text := by
      refine plainValue_quoted (fun c member => ?_) rest
      rcases mem_escapeQuoted member with rfl | inside
      · exact ⟨by decide, by decide⟩
      · exact parts c inside
    have nonempty : escapeQuoted name.text ≠ [] :=
      List.length_pos_iff.mp (Nat.lt_of_le_of_lt (Nat.zero_le _) longer)
    rw [search_header name rest nonempty taken, name.trim_escapeQuoted] at found
    have same := Option.some.inj found
    rw [same] at longer
    omega
  exact fun c member => ⟨(parts c member).1, (parts c member).2,
    fun here => unescaped (here ▸ member)⟩

/-! ## The name of the download -/

theorem deriveFilename_of_some {getExtension : Text → Option Text} {disposition name : Text}
    (found : filenameFromDisposition disposition = some name) (nonempty : name ≠ [])
    (uri contentType : Option Text) :
    deriveFilename getExtension (some disposition) uri contentType = name := by
  rw [deriveFilename, Option.bind_some, found, Option.filter_some, if_pos (decide_eq_true nonempty)]

theorem deriveFilename_of_none {getExtension : Text → Option Text} {disposition uri : Text}
    (absent : (filenameFromDisposition disposition).filter (fun name => name ≠ []) = none)
    (named : basenameFromUri uri ≠ []) (ext : hasExtension (basenameFromUri uri) = true)
    (contentType : Option Text) :
    deriveFilename getExtension (some disposition) (some uri) contentType = basenameFromUri uri := by
  rw [deriveFilename, Option.bind_some, absent]
  simp only [Option.map_some, Option.getD_some, if_neg named, ext, if_true]

/-- Without a name in the header the name depends on the request. -/
theorem filenameFromDisposition_of_deriveFilename {getExtension : Text → Option Text}
    {disposition name : Text}
    (always : ∀ uri contentType,
      deriveFilename getExtension (some disposition) uri contentType = name) :
    filenameFromDisposition disposition = some name := by
  cases kept : (filenameFromDisposition disposition).filter fun name => name ≠ [] with
  | none =>
    have first : basenameFromUri "/a.b".toList = name :=
      (deriveFilename_of_none kept (by decide) (by decide) none).symm.trans (always _ none)
    have second : basenameFromUri "/c.d".toList = name :=
      (deriveFilename_of_none kept (by decide) (by decide) none).symm.trans (always _ none)
    exact absurd (first.trans second.symm) (by decide)
  | some value =>
    obtain ⟨found, nonempty⟩ := Option.filter_eq_some_iff.mp kept
    have derived : deriveFilename getExtension (some disposition) none none = value :=
      deriveFilename_of_some found (of_decide_eq_true nonempty) none none
    rw [found, ← derived, always none none]

/-- The name comes back just where the extended form of the header gives it, or where there
is none and no character of the name is quoted or ends the value. -/
theorem deriveFilename_dispositionHeader_iff (getExtension : Text → Option Text)
    (name : FileName) (rest : Text) :
    (∀ uri contentType, deriveFilename getExtension (some (dispositionHeader name rest)) uri
        contentType = name.text) ↔
      extendedName (dispositionHeader name rest) = some name.text ∨
        (extendedName (dispositionHeader name rest) = none ∧ Unquoted name.text) := by
  constructor
  · intro always
    have found := filenameFromDisposition_of_deriveFilename always
    rw [filenameFromDisposition, Option.or_eq_some_iff] at found
    rcases found with extended | ⟨absent, plain⟩
    · exact Or.inl extended
    · exact Or.inr ⟨absent, unquoted_of_plainName plain⟩
  · intro condition uri contentType
    refine deriveFilename_of_some ?_ name.nonempty uri contentType
    rw [filenameFromDisposition, Option.or_eq_some_iff]
    rcases condition with extended | ⟨absent, unquoted⟩
    · exact Or.inl extended
    · exact Or.inr ⟨absent, plainName_unquoted unquoted rest⟩

/-- `a;b.txt`. -/
def semicolonName : FileName where
  text := "a;b.txt".toList
  nonempty := List.cons_ne_nil _ _
  printable := List.all_eq_true.mp rfl
  noSeparator := mt List.elem_eq_true_of_mem (ne_true_of_eq_false rfl)
  solid := by decide

/-- A semicolon within the quotes ends the name. -/
theorem deriveFilename_semicolon :
    ¬ ∀ (getExtension : Text → Option Text) (name : FileName) (rest : Text)
      (uri contentType : Option Text),
      deriveFilename getExtension (some (dispositionHeader name rest)) uri contentType =
        name.text := by
  intro always
  have cut : deriveFilename (fun _ => none) (some (dispositionHeader semicolonName [])) none none =
      "a".toList := by decide +kernel
  exact absurd ((always (fun _ => none) semicolonName [] none none).symm.trans cut) (by decide)

end Protospy
