import Protospy.Lib.Numerals
import Protospy.Lib.Splitter
import Protospy.Ui.JsonStringify
import Protospy.Ui.JsonTree

/-!
# Paths as text (`formatPath` of `json-tree/model.ts`)

A path is read off its text: each segment ends where the next one begins, or with a bracket.
-/

namespace Protospy

def isIdentifierStart (u : UInt16) : Bool :=
  (65 ≤ u && u ≤ 90) || (97 ≤ u && u ≤ 122) || u = 95 || u = 36

def isIdentifierPart (u : UInt16) : Bool := isIdentifierStart u || (48 ≤ u && u ≤ 57)

/-- `IDENTIFIER_RE`. -/
def isIdentifier : JsString → Bool
  | [] => false
  | u :: rest => isIdentifierStart u && rest.all isIdentifierPart

def formatSegment : PathSegment → JsString
  | .index i => js "[" ++ JsString.decimal i ++ js "]"
  | .key key =>
    if isIdentifier key then js "." ++ key else js "[" ++ JSON.quote key ++ js "]"

def formatPath (path : List PathSegment) : JsString :=
  path.foldl (fun out seg => out ++ formatSegment seg) (js "$")

theorem formatPath_eq (path : List PathSegment) :
    formatPath path = js "$" ++ path.flatMap formatSegment := by
  rw [formatPath, List.foldl_append_eq_append, List.flatMap_def]

/-! ## Numbers -/

theorem JsString.decimal_chars (n : Nat) :
    (JsString.decimal n).map (fun u => Char.ofNat u.toNat) = Nat.toDigits 10 n := by
  have each : ∀ t : Text, (∀ c ∈ t, c.toNat < 0x10000) →
      (JsString.ofText t).map (fun u => Char.ofNat u.toNat) = t := by
    intro t
    induction t with
    | nil => exact fun _ => rfl
    | cons c t ih =>
      intro basic
      obtain ⟨first, others⟩ := List.forall_mem_cons.mp basic
      have back : c.toNat.toUInt16.toNat = c.toNat := by
        rw [Nat.toUInt16, UInt16.toNat_ofNat', Nat.mod_eq_of_lt first]
      rw [ofText_cons, List.map_append, ih others, ofChar]
      simp [first, back]
  refine each _ fun c member => ?_
  obtain ⟨d, small, rfl⟩ := Numerals.exists_digit_of_mem_toDigits (by omega) n c member
  have bounded : ∀ d < 10, (Nat.digitChar d).toNat < 0x10000 := by decide
  exact bounded d small

theorem JsString.decimal_digits (n : Nat) :
    ∀ u ∈ JsString.decimal n, 48 ≤ u.toNat ∧ u.toNat ≤ 57 := by
  intro u member
  obtain ⟨c, digit, inside⟩ := List.mem_flatMap.mp member
  obtain ⟨d, small, rfl⟩ := Numerals.exists_digit_of_mem_toDigits (by omega) n c digit
  have each : ∀ d < 10,
      (ofChar (Nat.digitChar d)).all fun u => 48 ≤ u.toNat ∧ u.toNat ≤ 57 := by decide
  exact of_decide_eq_true (List.all_eq_true.mp (each d small) u inside)

theorem JsString.decimal_ne_nil (n : Nat) : JsString.decimal n ≠ [] := by
  intro empty
  have chars := JsString.decimal_chars n
  rw [empty, List.map_nil] at chars
  exact Nat.toDigits_ne_nil chars.symm

theorem JsString.decimal_injective {m n : Nat} (h : JsString.decimal m = JsString.decimal n) :
    m = n := by
  have same : Nat.toDigits 10 m = Nat.toDigits 10 n := by rw [← decimal_chars, h, decimal_chars]
  exact Numerals.toDigits_injective (by omega) (by omega) same

/-! ## Quoted keys -/

namespace JSON

def hexValue (u : UInt16) : Nat := if u.toNat < 58 then u.toNat - 48 else u.toNat - 87

/-- The unit that an escape of one letter stands for. -/
def unescape (u : UInt16) : UInt16 :=
  if u = 98 then 8 else if u = 116 then 9 else if u = 110 then 10
  else if u = 102 then 12 else if u = 114 then 13 else u

/-- The units up to the closing quote, and what is behind it. -/
def readQuoted : JsString → Option (JsString × JsString)
  | [] => none
  | u :: rest =>
    if u = 34 then some ([], rest)
    else if u = 92 then
      match rest with
      | [] => none
      | v :: rest =>
        if v = 117 then
          match rest with
          | a :: b :: c :: d :: rest =>
            (readQuoted rest).map fun r =>
              ((16 * (16 * (16 * hexValue a + hexValue b) + hexValue c) + hexValue d).toUInt16 :: r.1,
                r.2)
          | _ => none
        else (readQuoted rest).map fun r => (unescape v :: r.1, r.2)
    else (readQuoted rest).map fun r => (u :: r.1, r.2)

theorem readQuoted_close (more : JsString) : readQuoted (34 :: more) = some ([], more) := by
  rw [readQuoted.eq_def]
  simp only [if_true]

theorem readQuoted_plain {u : UInt16} (quote : u ≠ 34) (escape : u ≠ 92) (more : JsString) :
    readQuoted (u :: more) = (readQuoted more).map fun r => (u :: r.1, r.2) := by
  rw [readQuoted.eq_def]
  simp only [if_neg quote, if_neg escape]

theorem readQuoted_unicode (u : UInt16) (more : JsString) :
    readQuoted (unicodeEscape u ++ more) = (readQuoted more).map fun r => (u :: r.1, r.2) := by
  have digit : ∀ n < 16, hexValue (hexDigit n) = n := by decide
  have small := u.toNat_lt
  have whole : 16 * (16 * (16 * (u.toNat / 0x1000) + u.toNat / 0x100 % 0x10) +
      u.toNat / 0x10 % 0x10) + u.toNat % 0x10 = u.toNat := by
    omega
  have back : u.toNat.toUInt16 = u := UInt16.ofNat_toNat
  have letters : js "\\u" = [92, 117] := by decide
  rw [unicodeEscape, letters]
  simp only [List.cons_append, List.nil_append]
  rw [readQuoted.eq_def (92 :: _)]
  simp only [show ¬ (92 : UInt16) = 34 by decide, if_false, if_true, digit _ (show u.toNat / 0x1000 < 16 by omega),
    digit _ (show u.toNat / 0x100 % 0x10 < 16 by omega),
    digit _ (show u.toNat / 0x10 % 0x10 < 16 by omega),
    digit _ (show u.toNat % 0x10 < 16 by omega), whole, back]

theorem readQuoted_unit (u : UInt16) (more : JsString) :
    readQuoted (quoteUnit u ++ more) = (readQuoted more).map fun r => (u :: r.1, r.2) := by
  have escape (letter : UInt16) (other : letter ≠ 117) (known : unescape letter = u) :
      readQuoted ([92, letter] ++ more) = (readQuoted more).map fun r => (u :: r.1, r.2) := by
    simp only [List.cons_append, List.nil_append]
    rw [readQuoted.eq_def (92 :: _)]
    simp only [show ¬ (92 : UInt16) = 34 by decide, if_false, if_true, if_neg other, known]
  rw [quoteUnit]
  split_ifs with h₈ h₉ h₁₀ h₁₂ h₁₃ h₃₄ h₉₂ special
  · exact escape 98 (by decide) (by rw [h₈]; rfl)
  · exact escape 116 (by decide) (by rw [h₉]; rfl)
  · exact escape 110 (by decide) (by rw [h₁₀]; rfl)
  · exact escape 102 (by decide) (by rw [h₁₂]; rfl)
  · exact escape 114 (by decide) (by rw [h₁₃]; rfl)
  · exact escape 34 (by decide) (by rw [h₃₄]; rfl)
  · exact escape 92 (by decide) (by rw [h₉₂]; rfl)
  · exact readQuoted_unicode u more
  · exact readQuoted_plain h₃₄ h₉₂ more

theorem readQuoted_units : ∀ s rest : JsString,
    readQuoted (quoteUnits s ++ 34 :: rest) = some (s, rest)
  | [], rest => readQuoted_close rest
  | [u], rest => by
    rw [quoteUnits, readQuoted_unit, readQuoted_close]
    rfl
  | high :: low :: s, rest => by
    rw [quoteUnits]
    split_ifs with pair
    · obtain ⟨isHigh, isLow⟩ := Bool.and_eq_true_iff.mp pair
      have plain (u v : UInt16) (kind : isHighSurrogate u = true ∨ isLowSurrogate u = true)
          (other : isHighSurrogate v = false ∧ isLowSurrogate v = false) : u ≠ v := by
        rintro rfl
        simp [other] at kind
      rw [List.cons_append, List.cons_append,
        readQuoted_plain (plain high 34 (.inl isHigh) (by decide))
          (plain high 92 (.inl isHigh) (by decide)),
        readQuoted_plain (plain low 34 (.inr isLow) (by decide))
          (plain low 92 (.inr isLow) (by decide)), readQuoted_units s rest]
      rfl
    · rw [List.append_assoc, readQuoted_unit, readQuoted_units (low :: s) rest]
      rfl

/-- A quoted text determines the string, and what is behind it. -/
theorem quote_append_inj {s s' rest rest' : JsString}
    (h : quote s ++ rest = quote s' ++ rest') : s = s' ∧ rest = rest' := by
  have mark : js "\"" = [34] := by decide
  rw [quote, quote, mark] at h
  simp only [List.cons_append, List.nil_append, List.append_assoc, List.cons.injEq, true_and] at h
  have read := congrArg readQuoted h
  rw [readQuoted_units, readQuoted_units] at read
  simpa using read

end JSON

/-! ## Segments -/

/-- Nothing, or what a segment begins with. -/
def BeginsSegment (s : JsString) : Prop := ∀ u ∈ s.head?, u = 46 ∨ u = 91

theorem formatSegment_index (i : Nat) (rest : JsString) :
    formatSegment (.index i) ++ rest = 91 :: (JsString.decimal i ++ 93 :: rest) := by
  have opens : js "[" = [91] := by decide
  have closes : js "]" = [93] := by decide
  rw [formatSegment, opens, closes]
  simp

theorem formatSegment_identifier {key : JsString} (identifier : isIdentifier key = true)
    (rest : JsString) : formatSegment (.key key) ++ rest = 46 :: (key ++ rest) := by
  have dot : js "." = [46] := by decide
  rw [formatSegment, if_pos identifier, dot]
  rfl

theorem formatSegment_quoted {key : JsString} (other : isIdentifier key = false)
    (rest : JsString) :
    formatSegment (.key key) ++ rest = 91 :: (JSON.quote key ++ 93 :: rest) := by
  have opens : js "[" = [91] := by decide
  have closes : js "]" = [93] := by decide
  rw [formatSegment, if_neg (by simp [other]), opens, closes]
  simp

theorem formatSegment_append_ne_nil (seg : PathSegment) (rest : JsString) :
    formatSegment seg ++ rest ≠ [] := by
  cases seg with
  | index i =>
    rw [formatSegment_index]
    exact List.cons_ne_nil _ _
  | key key =>
    cases identifier : isIdentifier key with
    | true =>
      rw [formatSegment_identifier identifier]
      exact List.cons_ne_nil _ _
    | false =>
      rw [formatSegment_quoted identifier]
      exact List.cons_ne_nil _ _

theorem beginsSegment_path (path : List PathSegment) :
    BeginsSegment (path.flatMap formatSegment) := by
  cases path with
  | nil => exact fun u member => by cases member
  | cons seg path =>
    intro u member
    rw [List.flatMap_cons] at member
    cases seg with
    | index i =>
      rw [formatSegment_index] at member
      exact .inr (Option.some.inj member).symm
    | key key =>
      cases identifier : isIdentifier key with
      | true =>
        rw [formatSegment_identifier identifier] at member
        exact .inl (Option.some.inj member).symm
      | false =>
        rw [formatSegment_quoted identifier] at member
        exact .inr (Option.some.inj member).symm

/-- An identifier ends where the next segment begins. -/
theorem identifier_append {key rest : JsString} (identifier : isIdentifier key = true)
    (begins : BeginsSegment rest) : (key ++ rest).takeWhile isIdentifierPart = key := by
  have parts : ∀ u ∈ key, isIdentifierPart u = true := by
    cases key with
    | nil => cases identifier
    | cons u key =>
      obtain ⟨first, others⟩ := Bool.and_eq_true_iff.mp identifier
      refine List.forall_mem_cons.mpr ⟨?_, List.all_eq_true.mp others⟩
      rw [isIdentifierPart, first, Bool.true_or]
  have ends : rest.takeWhile isIdentifierPart = [] := by
    cases rest with
    | nil => rfl
    | cons u rest =>
      refine List.takeWhile_cons_of_neg ?_
      rcases begins u rfl with rfl | rfl <;> decide
  rw [List.takeWhile_append_of_pos parts, ends, List.append_nil]

/-- No index begins as a quoted key does. -/
theorem decimal_ne_quote (i : Nat) (key rest rest' : JsString) :
    JsString.decimal i ++ rest ≠ JSON.quote key ++ rest' := by
  intro same
  have mark : js "\"" = [34] := by decide
  obtain ⟨u, digits, first⟩ := List.exists_cons_of_ne_nil (JsString.decimal_ne_nil i)
  have digit := JsString.decimal_digits i u (by rw [first]; exact List.mem_cons_self)
  rw [first, JSON.quote, mark] at same
  obtain ⟨rfl, -⟩ := List.cons.inj same
  exact absurd digit.1 (by decide)

theorem formatSegment_inj {seg seg' : PathSegment} {rest rest' : JsString}
    (begins : BeginsSegment rest) (begins' : BeginsSegment rest')
    (h : formatSegment seg ++ rest = formatSegment seg' ++ rest') : seg = seg' ∧ rest = rest' := by
  have bracket (n : Nat) : (93 : UInt16) ∉ JsString.decimal n := fun member => by
    have digit := JsString.decimal_digits n 93 member
    exact absurd digit.2 (by decide)
  cases seg with
  | index i =>
    rw [formatSegment_index] at h
    cases seg' with
    | index j =>
      rw [formatSegment_index] at h
      obtain ⟨same, behind⟩ := eq_of_separated (bracket i) (bracket j) (List.cons.inj h).2
      exact ⟨congrArg _ (JsString.decimal_injective same), behind⟩
    | key key =>
      cases identifier : isIdentifier key with
      | true =>
        rw [formatSegment_identifier identifier] at h
        cases (List.cons.inj h).1
      | false =>
        rw [formatSegment_quoted identifier] at h
        exact absurd (List.cons.inj h).2 (decimal_ne_quote i key _ _)
  | key key =>
    cases identifier : isIdentifier key with
    | true =>
      rw [formatSegment_identifier identifier] at h
      cases seg' with
      | index j =>
        rw [formatSegment_index] at h
        cases (List.cons.inj h).1
      | key key' =>
        cases identifier' : isIdentifier key' with
        | true =>
          rw [formatSegment_identifier identifier'] at h
          have same := congrArg (List.takeWhile isIdentifierPart) (List.cons.inj h).2
          rw [identifier_append identifier begins, identifier_append identifier' begins'] at same
          obtain rfl := same
          exact ⟨rfl, List.append_cancel_left (List.cons.inj h).2⟩
        | false =>
          rw [formatSegment_quoted identifier'] at h
          cases (List.cons.inj h).1
    | false =>
      rw [formatSegment_quoted identifier] at h
      cases seg' with
      | index j =>
        rw [formatSegment_index] at h
        exact absurd (List.cons.inj h).2.symm (decimal_ne_quote j key _ _)
      | key key' =>
        cases identifier' : isIdentifier key' with
        | true =>
          rw [formatSegment_identifier identifier'] at h
          cases (List.cons.inj h).1
        | false =>
          rw [formatSegment_quoted identifier'] at h
          obtain ⟨rfl, behind⟩ := JSON.quote_append_inj (List.cons.inj h).2
          exact ⟨rfl, (List.cons.inj behind).2⟩

/-- Two paths with one text are one path. -/
theorem formatPath_injective {path path' : List PathSegment}
    (h : formatPath path = formatPath path') : path = path' := by
  rw [formatPath_eq, formatPath_eq] at h
  have segments := List.append_cancel_left h
  clear h
  induction path generalizing path' with
  | nil =>
    cases path' with
    | nil => rfl
    | cons seg' path' => exact absurd segments.symm (formatSegment_append_ne_nil seg' _)
  | cons seg path ih =>
    cases path' with
    | nil => exact absurd segments (formatSegment_append_ne_nil seg _)
    | cons seg' path' =>
      obtain ⟨rfl, rest⟩ := formatSegment_inj (beginsSegment_path path) (beginsSegment_path path')
        segments
      rw [ih rest]

end Protospy
