import Protospy.Lib.Lines
import Protospy.Ui.JsonParse
import Mathlib.Data.List.TakeDrop

/-!
# `JSON.stringify` read back

Each piece that is written is read as its tokens, where a word ends with what follows it, and
the tokens of a value are read as the value.
-/

namespace Protospy

namespace JsString

@[simp] theorem ofText_nil : ofText [] = [] := rfl

@[simp] theorem ofText_cons (c : Char) (t : Text) : ofText (c :: t) = ofChar c ++ ofText t := rfl

@[simp] theorem ofText_append (t t' : Text) : ofText (t ++ t') = ofText t ++ ofText t' :=
  List.flatMap_append

theorem toNat_ofNat {n : Nat} (valid : n.isValidChar) : (Char.ofNat n).toNat = n := by
  rw [Char.ofNat, dif_pos valid]
  rfl

/-- A unit that is no surrogate is a character. -/
theorem ofChar_unit {u : UInt16} (high : JSON.isHighSurrogate u = false)
    (low : JSON.isLowSurrogate u = false) :
    ofChar (Char.ofNat u.toNat) = [u] ∧ (Char.ofNat u.toNat).toNat = u.toNat := by
  have small := u.toNat_lt
  simp only [JSON.isHighSurrogate, JSON.isLowSurrogate, Bool.and_eq_false_iff,
    decide_eq_false_iff_not, UInt16.le_iff_toNat_le] at high low
  have valid : u.toNat.isValidChar := by
    simp only [UInt16.reduceToNat] at high low
    rw [Nat.isValidChar]
    omega
  have same := toNat_ofNat valid
  refine ⟨?_, same⟩
  rw [ofChar, same]
  simp [show u.toNat < 0x10000 from small]

/-- A pair of surrogates is a character. -/
theorem ofChar_pair {high low : UInt16} (isHigh : JSON.isHighSurrogate high = true)
    (isLow : JSON.isLowSurrogate low = true) :
    ∃ c : Char, ofChar c = [high, low] ∧ 0x10000 ≤ c.toNat := by
  simp only [JSON.isHighSurrogate, JSON.isLowSurrogate, Bool.and_eq_true, decide_eq_true_eq,
    UInt16.le_iff_toNat_le, UInt16.reduceToNat] at isHigh isLow
  obtain ⟨h, hh⟩ : ∃ h, h = high.toNat - 0xD800 := ⟨_, rfl⟩
  obtain ⟨l, hl⟩ : ∃ l, l = low.toNat - 0xDC00 := ⟨_, rfl⟩
  have valid : (0x10000 + (h * 0x400 + l)).isValidChar := by
    rw [Nat.isValidChar]
    omega
  have same := toNat_ofNat valid
  have first : (0xD800 + (h * 0x400 + l) / 0x400).toUInt16 = high := by
    have whole : 0xD800 + (h * 0x400 + l) / 0x400 = high.toNat := by omega
    rw [whole]
    exact UInt16.ofNat_toNat
  have second : (0xDC00 + (h * 0x400 + l) % 0x400).toUInt16 = low := by
    have whole : 0xDC00 + (h * 0x400 + l) % 0x400 = low.toNat := by omega
    rw [whole]
    exact UInt16.ofNat_toNat
  refine ⟨Char.ofNat (0x10000 + (h * 0x400 + l)), ?_, by rw [same]; omega⟩
  rw [ofChar, same]
  rw [if_neg (by omega), Nat.add_sub_cancel_left, first, second]

end JsString

namespace JSON

variable {N : Type*} [JsNumber N]

/-! ## Strings -/

theorem scan_push {state next : Scanner} {c : Char}
    (pushed : state.push c = some (([] : List (Token N)), next)) (rest : Text) :
    scan state (c :: rest) = (scan next rest : Option (List (Token N))) := by
  rw [scan, pushed, Option.bind_some]
  simp

variable (N) in
/-- Inside a string what is written is read as the units, whatever follows it. -/
def Spells (written units : JsString) : Prop :=
  ∃ t, JsString.ofText t = written ∧ ∀ read rest,
    (scan (.string read) (t ++ rest) : Option (List (Token N))) =
      scan (.string (read ++ units)) rest

theorem Spells.append {written written' units units' : JsString} (first : Spells N written units)
    (second : Spells N written' units') : Spells N (written ++ written') (units ++ units') := by
  obtain ⟨t, rfl, reads⟩ := first
  obtain ⟨t', rfl, reads'⟩ := second
  refine ⟨t ++ t', JsString.ofText_append t t', fun read rest => ?_⟩
  rw [List.append_assoc, reads, reads', List.append_assoc]

theorem spells_escape {letter : Char} {u : UInt16} (other : letter ≠ 'u')
    (known : escaped? letter = some u) : Spells N (JsString.ofText ['\\', letter]) [u] := by
  refine ⟨['\\', letter], rfl, fun read rest => ?_⟩
  have opens : (Scanner.string read).push '\\' = some (([] : List (Token N)), .escape read) := rfl
  have closes : (Scanner.escape read).push letter =
      some (([] : List (Token N)), .string (read ++ [u])) := by
    rw [Scanner.push, if_neg other, known]
    rfl
  exact (scan_push opens _).trans (scan_push closes rest)

def hexChar (n : Nat) : Char := Char.ofNat (hexDigit n).toNat

theorem hexChar_spec : ∀ n < 16, JsString.ofChar (hexChar n) = [hexDigit n] ∧
    hexValue? (hexChar n) = some n := by
  decide

theorem scan_digit {n : Nat} (below : n < 16) {digits : List Nat} (few : digits.length < 3)
    (read : JsString) (rest : Text) :
    (scan (.unicode read digits) (hexChar n :: rest) : Option (List (Token N))) =
      scan (.unicode read (digits ++ [n])) rest := by
  refine scan_push ?_ rest
  rw [Scanner.push, (hexChar_spec n below).2, Option.map_some, if_pos few]

theorem spells_unicode (u : UInt16) : Spells N (unicodeEscape u) [u] := by
  have small := u.toNat_lt
  have first : u.toNat / 0x1000 < 16 := by omega
  have second : u.toNat / 0x100 % 0x10 < 16 := by omega
  have third : u.toNat / 0x10 % 0x10 < 16 := by omega
  have fourth : u.toNat % 0x10 < 16 := by omega
  refine ⟨['\\', 'u', hexChar (u.toNat / 0x1000), hexChar (u.toNat / 0x100 % 0x10),
    hexChar (u.toNat / 0x10 % 0x10), hexChar (u.toNat % 0x10)], ?_, fun read rest => ?_⟩
  · simp only [JsString.ofText_cons, hexChar_spec _ first, hexChar_spec _ second,
      hexChar_spec _ third, hexChar_spec _ fourth]
    rfl
  · have opens : (Scanner.string read).push '\\' = some (([] : List (Token N)), .escape read) := rfl
    have starts : (Scanner.escape read).push 'u' = some (([] : List (Token N)), .unicode read []) :=
      rfl
    have whole : 16 * (16 * (16 * (16 * 0 + u.toNat / 0x1000) + u.toNat / 0x100 % 0x10) +
        u.toNat / 0x10 % 0x10) + u.toNat % 0x10 = u.toNat := by
      omega
    have last : (Scanner.unicode read [u.toNat / 0x1000, u.toNat / 0x100 % 0x10,
        u.toNat / 0x10 % 0x10]).push (hexChar (u.toNat % 0x10)) =
          some (([] : List (Token N)), .string (read ++ [u])) := by
      rw [Scanner.push, (hexChar_spec _ fourth).2, Option.map_some, if_neg (by simp)]
      simp only [List.cons_append, List.nil_append, List.foldl_cons, List.foldl_nil, whole]
      rw [Nat.toUInt16, UInt16.ofNat_toNat]
    calc (scan (.string read) _ : Option (List (Token N)))
        = scan (.unicode read []) _ := (scan_push opens _).trans (scan_push starts _)
      _ = scan (.unicode read [_, _, _]) _ := by
        simp only [List.append_eq, List.cons_append, List.nil_append]
        rw [scan_digit first (by simp), scan_digit second (by simp), scan_digit third (by simp)]
        rfl
      _ = scan (.string (read ++ [u])) rest := scan_push last rest

theorem spells_char {c : Char} {units : JsString} (unit : JsString.ofChar c = units)
    (quote : c ≠ '"') (escape : c ≠ '\\') (visible : 32 ≤ c.toNat) :
    Spells N units units := by
  refine ⟨[c], by rw [JsString.ofText_cons, unit]; simp, fun read rest => scan_push ?_ rest⟩
  rw [Scanner.push, if_neg quote, if_neg escape, if_neg (by omega), unit]

theorem spells_unit (u : UInt16) : Spells N (quoteUnit u) [u] := by
  have escape (letter : Char) (other : letter ≠ 'u') (known : escaped? letter = some u) :
      Spells N (JsString.ofText ['\\', letter]) [u] := spells_escape other known
  rw [quoteUnit]
  split_ifs with h₈ h₉ h₁₀ h₁₂ h₁₃ h₃₄ h₉₂ special
  · exact escape 'b' (by decide) (by rw [h₈]; rfl)
  · exact escape 't' (by decide) (by rw [h₉]; rfl)
  · exact escape 'n' (by decide) (by rw [h₁₀]; rfl)
  · exact escape 'f' (by decide) (by rw [h₁₂]; rfl)
  · exact escape 'r' (by decide) (by rw [h₁₃]; rfl)
  · exact escape '"' (by decide) (by rw [h₃₄]; rfl)
  · exact escape '\\' (by decide) (by rw [h₉₂]; rfl)
  · exact spells_unicode u
  · simp only [Bool.or_eq_true, decide_eq_true_eq, not_or, Bool.not_eq_true,
      UInt16.lt_iff_toNat_lt, UInt16.reduceToNat, not_lt] at special
    obtain ⟨⟨visible, high⟩, low⟩ := special
    obtain ⟨unit, same⟩ := JsString.ofChar_unit high low
    have other (v : UInt16) (different : u ≠ v) (c : Char) (code : c.toNat = v.toNat) :
        Char.ofNat u.toNat ≠ c := by
      rintro rfl
      exact different (UInt16.toNat_inj.mp (same.symm.trans code))
    exact spells_char unit (other 34 h₃₄ '"' rfl) (other 92 h₉₂ '\\' rfl) (by omega)

theorem spells_units : ∀ s : JsString, Spells N (quoteUnits s) s
  | [] => ⟨[], rfl, fun read rest => by rw [List.nil_append, List.append_nil]⟩
  | [u] => spells_unit u
  | high :: low :: rest => by
    rw [quoteUnits]
    split_ifs with pair
    · obtain ⟨isHigh, isLow⟩ := Bool.and_eq_true_iff.mp pair
      obtain ⟨c, unit, large⟩ := JsString.ofChar_pair isHigh isLow
      have char : Spells N [high, low] [high, low] := by
        refine spells_char unit ?_ ?_ (by omega) <;>
          · rintro rfl
            exact absurd large (by decide)
      exact char.append (spells_units rest)
    · exact (spells_unit high).append (spells_units (low :: rest))

/-! ## Pieces of the text -/

/-- Nothing, or a text that begins with white space, a comma or a closing bracket. -/
def EndsWord : Text → Prop
  | [] => True
  | c :: _ => isSpace c = true ∨ c = ',' ∨ c = ']' ∨ c = '}'

/-- What is written is read as the tokens. It may have to end the word before it, and it may
end with a word that what follows has to end. -/
def Reads (ending word : Bool) (written : JsString) (tokens : List (Token N)) : Prop :=
  ∃ t, JsString.ofText t = written ∧ (ending = true → ∀ rest, EndsWord (t ++ rest)) ∧
    ∀ rest, (word = true → EndsWord rest) →
      scan .between (t ++ rest) = (scan .between rest).map (tokens ++ ·)

theorem Reads.append {ending word ending' word' : Bool} {written written' : JsString}
    {tokens tokens' : List (Token N)} (first : Reads ending word written tokens)
    (second : Reads ending' word' written' tokens') (fits : word = true → ending' = true) :
    Reads ending word' (written ++ written') (tokens ++ tokens') := by
  obtain ⟨t, rfl, ends, reads⟩ := first
  obtain ⟨t', rfl, ends', reads'⟩ := second
  refine ⟨t ++ t', JsString.ofText_append t t', fun before rest => ?_, fun rest after => ?_⟩
  · rw [List.append_assoc]
    exact ends before _
  · rw [List.append_assoc, reads _ fun wordy => ends' (fits wordy) rest, reads' rest after,
      Option.map_map]
    exact congrFun (congrArg _ (funext fun more => (List.append_assoc _ _ _).symm)) _

/-- What does not end with a word may stand before anything. -/
theorem Reads.before {ending ending' word' : Bool} {written written' : JsString}
    {tokens tokens' : List (Token N)} (first : Reads ending false written tokens)
    (second : Reads ending' word' written' tokens') :
    Reads ending word' (written ++ written') (tokens ++ tokens') :=
  first.append second fun wordy => absurd wordy Bool.false_ne_true

theorem Reads.weaken {ending word : Bool} {written : JsString} {tokens : List (Token N)}
    (reads : Reads ending word written tokens) : Reads false true written tokens := by
  obtain ⟨t, same, -, reads⟩ := reads
  exact ⟨t, same, nofun, fun rest after => reads rest fun _ => after rfl⟩

/-- A character that is a token by itself, or none. -/
theorem reads_char {c : Char} {tokens : List (Token N)}
    (pushed : Scanner.between.push c = some (tokens, .between)) :
    Reads (decide (isSpace c = true ∨ c = ',' ∨ c = ']' ∨ c = '}')) false
      (JsString.ofText [c]) tokens := by
  refine ⟨[c], rfl, fun ends rest => ?_, fun rest _ => ?_⟩
  · rw [List.singleton_append, EndsWord]
    exact of_decide_eq_true ends
  · rw [List.singleton_append, scan, pushed, Option.bind_some]

theorem reads_spaces (n : Nat) : Reads false false (List.replicate n 32) ([] : List (Token N)) := by
  refine ⟨List.replicate n ' ', ?_, nofun, fun rest _ => ?_⟩
  · rw [JsString.ofText, List.flatMap_replicate]
    exact List.flatten_replicate_singleton
  · induction n with
    | zero => simp
    | succ n ih =>
      have skipped : Scanner.between.push ' ' = some (([] : List (Token N)), .between) := rfl
      rw [List.replicate_succ, List.cons_append, scan_push skipped, ih]

theorem reads_quote (s : JsString) :
    Reads false false (quote s) [(.primitive (.string s) : Token N)] := by
  obtain ⟨t, same, reads⟩ := @spells_units N _ s
  refine ⟨'"' :: (t ++ ['"']), ?_, nofun, fun rest _ => ?_⟩
  · rw [JsString.ofText_cons, JsString.ofText_append, same, quote, List.append_assoc]
    rfl
  · have opens : Scanner.between.push '"' = some (([] : List (Token N)), .string []) := rfl
    have closes : (Scanner.string s).push '"' = some ([(.primitive (.string s) : Token N)], .between) :=
      rfl
    rw [List.cons_append, scan_push opens, List.append_assoc, reads, List.nil_append,
      List.singleton_append, scan, closes, Option.bind_some]

/-! ## Words -/

variable (N) in
/-- A character that does not end a word. -/
def IsWordChar (c : Char) : Prop :=
  isSpace c = false ∧ c ≠ '"' ∧ (punctuation? c : Option (Token N)) = none

theorem push_wordChar {c : Char} (plain : IsWordChar N c) (read : Text) :
    (Scanner.word read).push c = some (([] : List (Token N)), .word (read ++ [c])) := by
  obtain ⟨solid, noQuote, noPunctuation⟩ := plain
  rw [Scanner.push, if_neg (by simp [solid]), if_neg noQuote, noPunctuation]

theorem scan_word {t : Text} (plain : ∀ c ∈ t, IsWordChar N c) (read rest : Text) :
    (scan (.word read) (t ++ rest) : Option (List (Token N))) = scan (.word (read ++ t)) rest := by
  induction t generalizing read with
  | nil => rw [List.nil_append, List.append_nil]
  | cons c t ih =>
    obtain ⟨first, others⟩ := List.forall_mem_cons.mp plain
    rw [List.cons_append, scan_push (push_wordChar first read), ih others, List.append_assoc,
      List.singleton_append]

/-- What ends a word is read alone as it is behind one. -/
theorem push_ending {c : Char} (ends : isSpace c = true ∨ c = ',' ∨ c = ']' ∨ c = '}') :
    ∃ own : List (Token N), Scanner.between.push c = some (own, .between) ∧
      ∀ read, (Scanner.word read).push c =
        (Scanner.word read).leave.map fun tokens => (tokens ++ own, .between) := by
  rcases ends with space | rfl | rfl | rfl
  · refine ⟨[], ?_, fun read => ?_⟩
    · rw [Scanner.push, if_pos space]
      rfl
    · rw [Scanner.push, if_pos space]
      simp only [List.append_nil]
  · exact ⟨[.comma], rfl, fun read => rfl⟩
  · exact ⟨[.closeBracket], rfl, fun read => rfl⟩
  · exact ⟨[.closeBrace], rfl, fun read => rfl⟩

theorem scan_ended {read : Text} {token : Token N} (known : wordToken? read = some token)
    {rest : Text} (ended : EndsWord rest) :
    scan (.word read) rest = (scan .between rest).map ([token] ++ ·) := by
  have left : (Scanner.word read).leave = some [token] := by rw [Scanner.leave, known]; rfl
  cases rest with
  | nil => rw [scan, left]; rfl
  | cons c rest =>
    obtain ⟨own, alone, behind⟩ := @push_ending N _ c ended
    rw [scan, scan, alone, behind, left, Option.map_some, Option.bind_some, Option.bind_some,
      Option.map_map]
    rfl

theorem reads_word {t : Text} {token : Token N} (nonempty : t ≠ [])
    (plain : ∀ c ∈ t, IsWordChar N c) (known : wordToken? t = some token) :
    Reads false true (JsString.ofText t) [token] := by
  obtain ⟨c, t, rfl⟩ := List.exists_cons_of_ne_nil nonempty
  obtain ⟨solid, noQuote, noPunctuation⟩ := plain c List.mem_cons_self
  have starts : Scanner.between.push c = some (([] : List (Token N)), .word [c]) := by
    rw [Scanner.push, if_neg (by simp [solid]), if_neg noQuote, noPunctuation]
  refine ⟨c :: t, rfl, nofun, fun rest ended => ?_⟩
  rw [List.cons_append, scan_push starts, scan_word fun d hd => plain d (List.mem_cons_of_mem c hd)]
  exact scan_ended known (ended rfl)

def IsNumberChar (c : Char) : Prop :=
  c.isDigit = true ∨ c = '-' ∨ c = '+' ∨ c = '.' ∨ c = 'e' ∨ c = 'E'

omit [JsNumber N] in
/-- None of the characters that end a word or open a string is a letter or a digit. -/
theorem isWordChar_of_alphanum {c : Char} (letter : c.isAlphanum = true) : IsWordChar N c := by
  have other (d : Char) (no : d.isAlphanum = false) : c ≠ d := by
    rintro rfl
    simp [no] at letter
  refine ⟨?_, other '"' rfl, ?_⟩
  · simp [isSpace, other '\t' rfl, other '\n' rfl, other '\r' rfl, other ' ' rfl]
  · rw [punctuation?]
    all_goals
      rintro rfl
      cases letter

omit [JsNumber N] in
theorem IsNumberChar.isWordChar {c : Char} (number : IsNumberChar c) : IsWordChar N c := by
  rcases number with digit | rfl | rfl | rfl | rfl | rfl
  · exact isWordChar_of_alphanum (by simp [Char.isAlphanum, digit])
  all_goals exact ⟨rfl, by decide, rfl⟩

theorem numberChars_digits {t : Text} (all : t.all Char.isDigit = true) :
    ∀ c ∈ t, IsNumberChar c :=
  fun c member => .inl (List.all_eq_true.mp all c member)

/-- Digits and what comes behind them. -/
theorem numberChars_span {t : Text} (rest : ∀ c ∈ (t.span Char.isDigit).2, IsNumberChar c) :
    ∀ c ∈ t, IsNumberChar c := by
  intro c member
  rw [← List.takeWhile_append_dropWhile (p := Char.isDigit) (l := t), List.mem_append] at member
  rcases member with digit | behind
  · exact .inl (List.mem_takeWhile_imp digit)
  · rw [List.span_eq_takeWhile_dropWhile] at rest
    exact rest c behind

theorem numberChars_exponent {t : Text} (h : exponentPart t = true) : ∀ c ∈ t, IsNumberChar c := by
  cases t with
  | nil => exact fun c member => by cases member
  | cons e rest =>
    unfold exponentPart at h
    simp only [Bool.and_eq_true, Bool.or_eq_true, decide_eq_true_eq] at h
    obtain ⟨⟨letter, -⟩, digits⟩ := h
    refine List.forall_mem_cons.mpr ⟨?_, ?_⟩
    · rcases letter with rfl | rfl <;> simp [IsNumberChar]
    · split at digits
      · exact List.forall_mem_cons.mpr ⟨by simp [IsNumberChar], numberChars_digits digits⟩
      · exact List.forall_mem_cons.mpr ⟨by simp [IsNumberChar], numberChars_digits digits⟩
      · exact numberChars_digits digits

theorem numberChars_fraction {t : Text} (h : fractionPart t = true) : ∀ c ∈ t, IsNumberChar c := by
  unfold fractionPart at h
  split at h
  · rename_i rest
    simp only [Bool.and_eq_true] at h
    exact List.forall_mem_cons.mpr ⟨by simp [IsNumberChar],
      numberChars_span (numberChars_exponent h.2)⟩
  · exact numberChars_exponent h

theorem numberChars_literal {t : Text} (h : isNumberLiteral t = true) :
    t ≠ [] ∧ ∀ c ∈ t, IsNumberChar c := by
  constructor
  · rintro rfl
    cases h
  · unfold isNumberLiteral at h
    simp only [Bool.and_eq_true] at h
    obtain ⟨-, fraction⟩ := h
    split at fraction
    · exact List.forall_mem_cons.mpr ⟨by simp [IsNumberChar],
        numberChars_span (numberChars_fraction fraction)⟩
    · exact numberChars_span (numberChars_fraction fraction)

/-- The number is written as a literal that stands for it. -/
def NumberKept (n : N) : Prop :=
  JsNumber.isFinite n = true ∧
    ∃ t, JsString.ofText t = JsNumber.toText n ∧ isNumberLiteral t = true ∧
      JsNumber.ofLiteral t = n

theorem reads_number {n : N} (kept : NumberKept n) :
    Reads false true (JsNumber.toText n) [.primitive (.number n)] := by
  obtain ⟨-, t, same, literal, value⟩ := kept
  obtain ⟨nonempty, chars⟩ := numberChars_literal literal
  rw [← same]
  refine reads_word nonempty (fun c member => (chars c member).isWordChar) ?_
  have other (word : Text) (noNumber : isNumberLiteral word = false) : t ≠ word := by
    rintro rfl
    simp [noNumber] at literal
  rw [wordToken?, if_neg (other _ rfl), if_neg (other _ rfl),
    if_neg (other _ rfl), if_pos literal, value]

theorem reads_letters {t : Text} {token : Token N} (nonempty : t ≠ [])
    (letters : t.all Char.isAlphanum = true) (known : wordToken? t = some token) :
    Reads false true (JsString.ofText t) [token] :=
  reads_word nonempty (fun c member => isWordChar_of_alphanum (List.all_eq_true.mp letters c member))
    known

theorem reads_primitive {p : JsonPrimitive N} (kept : ∀ n, p = .number n → NumberKept n) :
    Reads false true (serializePrimitive p) [.primitive p] := by
  cases p with
  | null => exact reads_letters (t := "null".toList) (by decide) rfl rfl
  | boolean b =>
    cases b with
    | false => exact reads_letters (t := "false".toList) (by decide) rfl rfl
    | true => exact reads_letters (t := "true".toList) (by decide) rfl rfl
  | number n =>
    rw [serializePrimitive, if_pos (kept n rfl).1]
    exact reads_number (kept n rfl)
  | string s => exact (reads_quote s).weaken

/-! ## Containers -/

/-- Members between commas. -/
theorem reads_members {separator : JsString}
    (comma : Reads true false separator [(.comma : Token N)])
    {members : List JsString} {tokens : List (List (Token N))} (some : members ≠ [])
    (read : List.Forall₂ (Reads false true) members tokens) :
    Reads false true (separator.intercalate members) ([Token.comma].intercalate tokens) := by
  induction read with
  | nil => exact absurd rfl some
  | cons first rest ih =>
    cases rest with
    | nil =>
      rw [List.intercalate_singleton, List.intercalate_singleton]
      exact first
    | cons second rest =>
      rw [List.intercalate_cons_cons, List.intercalate_cons_cons, List.append_assoc,
        List.append_assoc]
      exact first.append (comma.before (ih (List.cons_ne_nil _ _))) fun _ => rfl

theorem reads_bracketed {openBracket closeBracket : String} {opening closing : Token N}
    (opens : Reads false false (js openBracket) [opening])
    (closes : Reads true false (js closeBracket) [closing]) (gap indent : Nat)
    {members : List JsString} {tokens : List (List (Token N))}
    (read : List.Forall₂ (Reads false true) members tokens) :
    Reads false false
      (bracketed openBracket closeBracket (List.replicate gap 32) (List.replicate indent 32) members)
      (opening :: ([Token.comma].intercalate tokens ++ [closing])) := by
  have comma : Reads true false (js ",") [(.comma : Token N)] := reads_char rfl
  have lineFeed : Reads true false (js "\n") ([] : List (Token N)) := reads_char rfl
  have spaces (n : Nat) : Reads false false (List.replicate n 32) ([] : List (Token N)) :=
    reads_spaces n
  rw [bracketed]
  split_ifs with none compact
  · subst none
    obtain rfl := List.forall₂_nil_left_iff.mp read
    exact opens.before closes
  · have body := reads_members comma none read
    rw [List.append_assoc]
    exact opens.before (body.append closes fun _ => rfl)
  · have line : Reads true false (js ",\n" ++ (List.replicate indent 32 ++ List.replicate gap 32))
        [(.comma : Token N)] :=
      (comma.before lineFeed).before ((spaces indent).before (spaces gap))
    have body := reads_members line none read
    have first := opens.before (lineFeed.before ((spaces indent).before (spaces gap)))
    have last := lineFeed.before ((spaces indent).before closes)
    have whole := first.before (body.append last fun _ => rfl)
    simpa only [List.append_assoc, List.nil_append, List.singleton_append] using whole

/-! ## Values -/

mutual

/-- The tokens that a value is written with. -/
def tokens : JsonValue N → List (Token N)
  | .primitive p => [.primitive p]
  | .array items => .openBracket :: ([Token.comma].intercalate (itemTokens items) ++ [.closeBracket])
  | .object entries =>
    .openBrace :: ([Token.comma].intercalate (entryTokens entries) ++ [.closeBrace])

def itemTokens : List (JsonValue N) → List (List (Token N))
  | [] => []
  | v :: items => tokens v :: itemTokens items

def entryTokens : List (JsString × JsonValue N) → List (List (Token N))
  | [] => []
  | (key, v) :: entries =>
    (.primitive (.string key) :: .colon :: tokens v) :: entryTokens entries

end

/-- Every number in the value is written as a literal that stands for it. -/
def NumbersKept (v : JsonValue N) : Prop :=
  ∀ n, .primitive (.number n) ∈ v.subvalues → NumberKept n

theorem numbersKept_array {items : List (JsonValue N)} :
    NumbersKept (.array items) ↔ ∀ v ∈ items, NumbersKept v := by
  simp only [NumbersKept, JsonValue.subvalues_array, List.mem_cons, reduceCtorEq, false_or,
    List.mem_flatMap]
  constructor
  · exact fun kept v hv n hn => kept n ⟨v, hv, hn⟩
  · rintro each n ⟨v, hv, hn⟩
    exact each v hv n hn

theorem numbersKept_object {entries : List (JsString × JsonValue N)} :
    NumbersKept (.object entries) ↔ ∀ e ∈ entries, NumbersKept e.2 := by
  simp only [NumbersKept, JsonValue.subvalues_object, List.mem_cons, reduceCtorEq, false_or,
    List.mem_flatMap]
  constructor
  · exact fun kept e he n hn => kept n ⟨e, he, hn⟩
  · rintro each n ⟨e, he, hn⟩
    exact each e he n hn

theorem replicate_indent (indent gap : Nat) :
    List.replicate indent (32 : UInt16) ++ List.replicate gap 32 = List.replicate (indent + gap) 32 :=
  List.replicate_append_replicate

mutual

theorem serialize_reads (gap : Nat) : ∀ (v : JsonValue N) (indent : Nat), NumbersKept v →
    Reads false true (serialize (List.replicate gap 32) (List.replicate indent 32) v) (tokens v)
  | .primitive p, indent, kept => by
    refine reads_primitive fun n number => kept n ?_
    rw [number, JsonValue.subvalues_primitive]
    exact List.mem_cons_self
  | .array items, indent, kept => by
    have opens : Reads false false (js "[") [(.openBracket : Token N)] := reads_char rfl
    have closes : Reads true false (js "]") [(.closeBracket : Token N)] := reads_char rfl
    have read := serializeItems_reads gap items (indent + gap) (numbersKept_array.mp kept)
    rw [serialize, tokens, replicate_indent]
    exact (reads_bracketed opens closes gap indent read).weaken
  | .object entries, indent, kept => by
    have opens : Reads false false (js "\x7b") [(.openBrace : Token N)] := reads_char rfl
    have closes : Reads true false (js "\x7d") [(.closeBrace : Token N)] := reads_char rfl
    have read := serializeEntries_reads gap entries (indent + gap) (numbersKept_object.mp kept)
    rw [serialize, tokens, replicate_indent]
    exact (reads_bracketed opens closes gap indent read).weaken

theorem serializeItems_reads (gap : Nat) : ∀ (items : List (JsonValue N)) (indent : Nat),
    (∀ v ∈ items, NumbersKept v) →
    List.Forall₂ (Reads false true)
      (serializeItems (List.replicate gap 32) (List.replicate indent 32) items) (itemTokens items)
  | [], _, _ => .nil
  | v :: items, indent, kept => by
    obtain ⟨first, others⟩ := List.forall_mem_cons.mp kept
    exact .cons (serialize_reads gap v indent first) (serializeItems_reads gap items indent others)

theorem serializeEntries_reads (gap : Nat) : ∀ (entries : List (JsString × JsonValue N))
    (indent : Nat), (∀ e ∈ entries, NumbersKept e.2) →
    List.Forall₂ (Reads false true)
      (serializeEntries (List.replicate gap 32) (List.replicate indent 32) entries)
      (entryTokens entries)
  | [], _, _ => .nil
  | (key, v) :: entries, indent, kept => by
    obtain ⟨first, others⟩ := List.forall_mem_cons.mp kept
    have colon : Reads false false (js (if List.replicate gap (32 : UInt16) = [] then ":" else ": "))
        [(.colon : Token N)] := by
      have sign : Reads false false (js ":") [(.colon : Token N)] := reads_char rfl
      split_ifs
      · exact sign
      · exact sign.before (reads_spaces 1)
    have entry := ((reads_quote key).before colon).before (serialize_reads gap v indent first)
    exact .cons entry (serializeEntries_reads gap entries indent others)

end

/-! ## Reading the tokens -/

section Reading

omit [JsNumber N]

theorem tokens_ne_closeBracket (v : JsonValue N) :
    ∃ token rest, tokens v = token :: rest ∧ token ≠ .closeBracket := by
  cases v with
  | primitive p => exact ⟨_, _, rfl, nofun⟩
  | array items => exact ⟨_, _, rfl, nofun⟩
  | object entries => exact ⟨_, _, rfl, nofun⟩

/-- A first item is read like any other. -/
theorem run_firstItem (v : JsonValue N) (frames : List (Frame N)) (more : List (Token N)) :
    Machine.run Parser.step (.atFirstItem frames) (tokens v ++ more) =
      Machine.run Parser.step (.atValue (.array [] :: frames)) (tokens v ++ more) := by
  obtain ⟨token, rest, first, other⟩ := tokens_ne_closeBracket v
  have same : Parser.step (.atFirstItem frames) token =
      Parser.step (.atValue (.array [] :: frames)) token := by
    cases token with
    | closeBracket => exact absurd rfl other
    | _ => rfl
  rw [first, List.cons_append, Machine.run_cons, Machine.run_cons, same]

mutual

theorem run_tokens : ∀ (v : JsonValue N) (frames : List (Frame N)) (more : List (Token N)),
    v.WellFormed → Machine.run Parser.step (.atValue frames) (tokens v ++ more) =
      Machine.run Parser.step (deliver v frames) more
  | .primitive p, frames, more, _ => rfl
  | .array [], frames, more, _ => rfl
  | .array (v :: items), frames, more, wf => by
    obtain ⟨first, others⟩ := List.forall_mem_cons.mp (JsonValue.wellFormed_array.mp wf)
    have opens : Parser.step (.atValue frames) (Token.openBracket : Token N) =
      some (.atFirstItem frames) := rfl
    rw [tokens, itemTokens, Lines.intercalate_cons, List.cons_append, Machine.run_cons, opens,
      Option.bind_some, List.append_assoc, List.append_assoc, run_firstItem, run_tokens v _ _ first,
      deliver, List.singleton_append, run_items items _ _ _ others]
    rfl
  | .object [], frames, more, _ => rfl
  | .object ((key, v) :: entries), frames, more, wf => by
    obtain ⟨ordered, each⟩ := JsonValue.wellFormed_object.mp wf
    obtain ⟨first, others⟩ := List.forall_mem_cons.mp each
    have opens : Parser.step (.atValue frames) (Token.openBrace : Token N) =
      some (.atFirstKey frames) := rfl
    have named : Parser.step (.atFirstKey frames) (.primitive (.string key) : Token N) =
      some (.atColon frames [] key) := rfl
    have colon : Parser.step (.atColon frames [] key) (Token.colon : Token N) =
      some (.atValue (.object [] key :: frames)) := rfl
    have only : setProperty [] key v = [(key, v)] :=
      setProperty_concat (List.pairwise_singleton _ (key, v))
    rw [tokens, entryTokens, Lines.intercalate_cons]
    simp only [List.cons_append, List.append_assoc, List.nil_append]
    rw [Machine.run_cons, opens, Option.bind_some, Machine.run_cons, named, Option.bind_some,
      Machine.run_cons, colon, Option.bind_some, run_tokens v _ _ first, deliver, only]
    exact run_entries entries [(key, v)] frames more ordered others

/-- The items behind those that were read. -/
theorem run_items : ∀ (items read : List (JsonValue N)) (frames : List (Frame N))
    (more : List (Token N)), (∀ v ∈ items, v.WellFormed) →
    Machine.run Parser.step (.afterItem frames read)
        ((itemTokens items).flatMap (Token.comma :: ·) ++ .closeBracket :: more) =
      Machine.run Parser.step (deliver (.array (read ++ items)) frames) more
  | [], read, frames, more, _ => by
    rw [List.append_nil]
    rfl
  | v :: items, read, frames, more, wf => by
    obtain ⟨first, others⟩ := List.forall_mem_cons.mp wf
    have comma : Parser.step (.afterItem frames read) Token.comma =
      some (.atValue (.array read :: frames)) := rfl
    rw [itemTokens, List.flatMap_cons, List.cons_append, List.cons_append, Machine.run_cons, comma,
      Option.bind_some, List.append_assoc, run_tokens v _ _ first, deliver,
      run_items items _ _ _ others, List.append_assoc, List.singleton_append]

/-- The entries behind those that were read. -/
theorem run_entries : ∀ (entries read : List (JsString × JsonValue N)) (frames : List (Frame N))
    (more : List (Token N)), OwnOrder (read ++ entries) → (∀ e ∈ entries, e.2.WellFormed) →
    Machine.run Parser.step (.afterEntry frames read)
        ((entryTokens entries).flatMap (Token.comma :: ·) ++ .closeBrace :: more) =
      Machine.run Parser.step (deliver (.object (read ++ entries)) frames) more
  | [], read, frames, more, _, _ => by
    rw [List.append_nil]
    rfl
  | (key, v) :: entries, read, frames, more, ordered, wf => by
    obtain ⟨first, others⟩ := List.forall_mem_cons.mp wf
    rw [List.append_cons] at ordered
    have here : OwnOrder (read ++ [(key, v)]) := (List.pairwise_append.mp ordered).1
    have comma : Parser.step (.afterEntry frames read) Token.comma = some (.atKey frames read) := rfl
    have named : Parser.step (.atKey frames read) (.primitive (.string key) : Token N) =
      some (.atColon frames read key) := rfl
    have colon : Parser.step (.atColon frames read key) (Token.colon : Token N) =
      some (.atValue (.object read key :: frames)) := rfl
    rw [entryTokens, List.flatMap_cons]
    simp only [List.cons_append, List.append_assoc]
    rw [Machine.run_cons, comma, Option.bind_some, Machine.run_cons, named, Option.bind_some,
      Machine.run_cons, colon, Option.bind_some, run_tokens v _ _ first, deliver,
      setProperty_concat here, run_entries entries _ _ _ ordered others, List.append_assoc,
      List.singleton_append]

end

end Reading

/-- What `JSON.stringify` writes, with any indentation, `JSON.parse` reads back. -/
theorem parse_stringify {v : JsonValue N} (wf : v.WellFormed) (kept : NumbersKept v)
    (space : Nat) : ∃ t, JsString.ofText t = stringify v space ∧ parse t = some v := by
  obtain ⟨t, same, -, reads⟩ := serialize_reads space v 0 kept
  have scanned : scan .between t = some (tokens v) := by
    have whole := reads [] fun _ => trivial
    rw [List.append_nil] at whole
    rw [whole, scan, Scanner.leave, Option.map_some, List.append_nil]
  have ran := run_tokens v [] [] wf
  rw [List.append_nil] at ran
  refine ⟨t, same, ?_⟩
  rw [parse, scanned, Option.bind_some, ran]
  rfl

end JSON

end Protospy
