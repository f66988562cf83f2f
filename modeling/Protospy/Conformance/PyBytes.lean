import Protospy.Lib.Numerals
import Protospy.Lib.Occurrence
import Protospy.Proxy.Http

/-!
# Byte strings in the conformance client

The methods of Python's `bytes` that the client uses, and the parser behind `int`.
-/

namespace Protospy

namespace Py

/-- The offset that an index means; a negative one counts from the end. -/
def offset (length : Nat) (i : Int) : Nat := if i < 0 then (length + i).toNat else i.toNat

def find (part b : Bytes) (start : Int) : Option Nat :=
  (Occurrence.first part (b.drop (offset b.length start))).map (offset b.length start + ·)

def slice (b : Bytes) (start stop : Int) : Bytes :=
  (b.take (offset b.length stop)).drop (offset b.length start)

def sliceFrom (b : Bytes) (start : Int) : Bytes := b.drop (offset b.length start)

def isSpace (b : UInt8) : Bool := b ∈ [9, 10, 11, 12, 13, 32]

def strip (b : Bytes) : Bytes := ((b.dropWhile isSpace).reverse.dropWhile isSpace).reverse

/-! ## `int` with base 16 -/

def hexDigit? (b : UInt8) : Option Nat :=
  if 48 ≤ b ∧ b ≤ 57 then some (b.toNat - 48)
  else if 97 ≤ b ∧ b ≤ 102 then some (b.toNat - 87)
  else if 65 ≤ b ∧ b ≤ 70 then some (b.toNat - 55)
  else none

/-- Digits with single underscores between them. The flag tells that a digit is just before. -/
def digits : Bool → Nat → Bytes → Option Nat
  | afterDigit, n, [] => if afterDigit then some n else none
  | afterDigit, n, b :: rest =>
    if b = 95 then if afterDigit then digits false n rest else none
    else match hexDigit? b with
      | some d => digits true (16 * n + d) rest
      | none => none

/-- What follows the prefix `0x` may begin with an underscore. -/
def magnitude (b : Bytes) : Option Nat :=
  if b.take 2 = [48, 120] ∨ b.take 2 = [48, 88] then
    digits false 0 (if (b.drop 2).head? = some 95 then b.drop 3 else b.drop 2)
  else digits false 0 b

/-- `int(b, 16)`; `none` where it raises `ValueError`. -/
def int16 (b : Bytes) : Option Int :=
  let text := strip b
  if text.head? = some 43 then (magnitude text.tail).map Int.ofNat
  else if text.head? = some 45 then (magnitude text.tail).map fun n => -Int.ofNat n
  else (magnitude text).map Int.ofNat

/-! ## `int` of a string -/

/-- White space for `int`, in a string that was decoded from Latin-1. -/
def isIntSpace (b : UInt8) : Bool := b ∈ [9, 10, 11, 12, 13, 32, 0x85, 0xA0]

def decimalDigit? (b : UInt8) : Option Nat :=
  if 48 ≤ b ∧ b ≤ 57 then some (b.toNat - 48) else none

/-- As `digits`, with base 10. -/
def decimals : Bool → Nat → Bytes → Option Nat
  | afterDigit, n, [] => if afterDigit then some n else none
  | afterDigit, n, b :: rest =>
    if b = 95 then if afterDigit then decimals false n rest else none
    else match decimalDigit? b with
      | some d => decimals true (10 * n + d) rest
      | none => none

/-- No more digits are read, lest the conversion take too long. -/
def maxStrDigits : Nat := 4300

def unsigned (b : Bytes) : Option Nat :=
  if (b.filter fun x => (decimalDigit? x).isSome).length ≤ maxStrDigits then decimals false 0 b
  else none

/-- `int(s)`; `none` where it raises `ValueError`. -/
def int10 (b : Bytes) : Option Int :=
  let text := ((b.dropWhile isIntSpace).reverse.dropWhile isIntSpace).reverse
  if text.head? = some 43 then (unsigned text.tail).map Int.ofNat
  else if text.head? = some 45 then (unsigned text.tail).map fun n => -Int.ofNat n
  else (unsigned text).map Int.ofNat

/-! ## Offsets -/

theorem offset_ofNat (length n : Nat) : offset length n = n := by
  rw [offset, if_neg (by omega), Int.toNat_natCast]

theorem lt_offset_iff (length start : Nat) (i : Int) :
    start < offset length i ↔ ¬ (0 ≤ i ∧ i ≤ start ∨ i < 0 ∧ length + i ≤ start) := by
  rw [offset]
  split <;> omega

theorem find_zero (part b : Bytes) : find part b 0 = Occurrence.first part b := by
  have start : offset b.length 0 = 0 := rfl
  rw [find, start, List.drop_zero]
  cases Occurrence.first part b with
  | none => rfl
  | some i => exact congrArg some (Nat.zero_add i)

theorem find_ofNat (part b : Bytes) (n : Nat) :
    find part b n = (Occurrence.first part (b.drop n)).map (n + ·) := by
  rw [find, offset_ofNat]

/-- What is found lies at or after the start, within the string. -/
theorem find_bounds {part b : Bytes} {start : Int} {i : Nat} (nonempty : part ≠ [])
    (h : find part b start = some i) :
    offset b.length start ≤ i ∧ i + part.length ≤ b.length := by
  obtain ⟨j, found, rfl⟩ := Option.map_eq_some_iff.mp h
  have inside := Occurrence.length_le_of_first nonempty found
  have some' := List.length_pos_iff.mpr nonempty
  rw [List.length_drop] at inside
  omega

/-- What is found stays there as the string grows. -/
theorem find_append {part b : Bytes} {n i : Nat} (nonempty : part ≠ [])
    (h : find part b n = some i) (more : Bytes) : find part (b ++ more) n = some i := by
  have inside := find_bounds nonempty h
  rw [offset_ofNat] at inside
  rw [find_ofNat] at h ⊢
  obtain ⟨j, found, rfl⟩ := Option.map_eq_some_iff.mp h
  rw [List.drop_append_of_le_length (by omega), Occurrence.first_append nonempty found,
    Option.map_some]

/-! ## Numbers that are written and read -/

/-- `%x`. -/
def hex (n : Nat) : Bytes := (Nat.toDigits 16 n).map fun c => UInt8.ofNat c.toNat

theorem hexDigit?_digitChar {n : Nat} (small : n < 16) :
    hexDigit? (UInt8.ofNat n.digitChar.toNat) = some n ∧ UInt8.ofNat n.digitChar.toNat ≠ 95 := by
  have each : ∀ n < 16, hexDigit? (UInt8.ofNat (Nat.digitChar n).toNat) = some n ∧
      UInt8.ofNat (Nat.digitChar n).toNat ≠ 95 := by
    decide
  exact each n small

theorem digits_hex {cs : List Char} (each : ∀ c ∈ cs, ∃ d < 16, c = Nat.digitChar d) :
    ∀ (afterDigit : Bool) (n : Nat), (cs = [] → afterDigit = true) →
      digits afterDigit n (cs.map fun c => UInt8.ofNat c.toNat) =
        some (cs.foldl (fun n c => 16 * n + Numerals.digitValue c) n) := by
  induction cs with
  | nil =>
    intro afterDigit n after
    rw [List.map_nil, digits, if_pos (after rfl), List.foldl_nil]
  | cons c cs ih =>
    intro afterDigit n _
    obtain ⟨⟨d, small, rfl⟩, rest⟩ := List.forall_mem_cons.mp each
    obtain ⟨value, notUnderscore⟩ := hexDigit?_digitChar small
    rw [List.map_cons, digits, if_neg notUnderscore, value, List.foldl_cons,
      Numerals.digitValue_digitChar small]
    exact ih rest true _ fun _ => rfl

/-- The digits of a size are no white space, sign or prefix. -/
theorem mem_hex {n : Nat} {b : UInt8} (member : b ∈ hex n) :
    isSpace b = false ∧ b ≠ 43 ∧ b ≠ 45 ∧ b ≠ 120 ∧ b ≠ 88 ∧ b ≠ 59 ∧ b ≠ 13 := by
  obtain ⟨c, isDigit, rfl⟩ := List.mem_map.mp member
  obtain ⟨d, small, rfl⟩ := Numerals.exists_digit_of_mem_toDigits (by omega) n c isDigit
  have each : ∀ d < 16, isSpace (UInt8.ofNat (Nat.digitChar d).toNat) = false ∧
      UInt8.ofNat (Nat.digitChar d).toNat ≠ 43 ∧ UInt8.ofNat (Nat.digitChar d).toNat ≠ 45 ∧
      UInt8.ofNat (Nat.digitChar d).toNat ≠ 120 ∧ UInt8.ofNat (Nat.digitChar d).toNat ≠ 88 ∧
      UInt8.ofNat (Nat.digitChar d).toNat ≠ 59 ∧ UInt8.ofNat (Nat.digitChar d).toNat ≠ 13 := by
    decide
  exact each d small

theorem strip_eq_self {b : Bytes} (solid : ∀ x ∈ b, isSpace x = false) : strip b = b := by
  have start : ∀ l : Bytes, (∀ x ∈ l, isSpace x = false) → l.dropWhile isSpace = l := by
    intro l none
    cases l with
    | nil => rfl
    | cons x l => rw [List.dropWhile_cons_of_neg (by simp [none x List.mem_cons_self])]
  rw [strip, start b solid, start b.reverse fun x h => solid x (List.mem_reverse.mp h),
    List.reverse_reverse]

theorem int16_hex (n : Nat) : int16 (hex n) = some (n : Int) := by
  have plain : ∀ b ∈ hex n, isSpace b = false ∧ b ≠ 43 ∧ b ≠ 45 ∧ b ≠ 120 ∧ b ≠ 88 ∧ b ≠ 59 ∧ b ≠ 13 :=
    fun b => mem_hex
  have noPlus : (hex n).head? ≠ some 43 := fun h => (plain 43 (List.mem_of_mem_head? h)).2.1 rfl
  have noMinus : (hex n).head? ≠ some 45 := fun h => (plain 45 (List.mem_of_mem_head? h)).2.2.1 rfl
  have noPrefix : ¬ ((hex n).take 2 = [48, 120] ∨ (hex n).take 2 = [48, 88]) := by
    rintro (lower | upper)
    · have inside : (120 : UInt8) ∈ (hex n).take 2 := lower ▸ by decide
      exact (plain 120 (List.mem_of_mem_take inside)).2.2.2.1 rfl
    · have inside : (88 : UInt8) ∈ (hex n).take 2 := upper ▸ by decide
      exact (plain 88 (List.mem_of_mem_take inside)).2.2.2.2.1 rfl
  have value : digits false 0 (hex n) = some n := by
    have read := digits_hex (Numerals.exists_digit_of_mem_toDigits (by omega) n) false 0
      fun empty => absurd empty Nat.toDigits_ne_nil
    exact read.trans (congrArg some (Numerals.ofDigits_toDigits (by omega) (by omega) n))
  rw [int16, strip_eq_self fun b h => (plain b h).1, if_neg noPlus, if_neg noMinus, magnitude,
    if_neg noPrefix, value]
  rfl

/-- `str` of a number. -/
def dec (n : Nat) : Bytes := (Nat.toDigits 10 n).map fun c => UInt8.ofNat c.toNat

theorem decimalDigit?_digitChar {n : Nat} (small : n < 10) :
    decimalDigit? (UInt8.ofNat n.digitChar.toNat) = some n := by
  have each : ∀ n < 10, decimalDigit? (UInt8.ofNat (Nat.digitChar n).toNat) = some n := by decide
  exact each n small

/-- A digit is no white space, sign, underscore or separator. -/
theorem mem_dec {n : Nat} {b : UInt8} (member : b ∈ dec n) : 48 ≤ b ∧ b ≤ 57 := by
  obtain ⟨c, isDigit, rfl⟩ := List.mem_map.mp member
  obtain ⟨d, small, rfl⟩ := Numerals.exists_digit_of_mem_toDigits (by omega) n c isDigit
  have each : ∀ d < 10, (48 : UInt8) ≤ UInt8.ofNat (Nat.digitChar d).toNat ∧
      UInt8.ofNat (Nat.digitChar d).toNat ≤ 57 := by
    decide
  exact each d small

theorem decimals_dec {cs : List Char} (each : ∀ c ∈ cs, ∃ d < 10, c = Nat.digitChar d) :
    ∀ (afterDigit : Bool) (n : Nat), (cs = [] → afterDigit = true) →
      decimals afterDigit n (cs.map fun c => UInt8.ofNat c.toNat) =
        some (cs.foldl (fun n c => 10 * n + Numerals.digitValue c) n) := by
  induction cs with
  | nil =>
    intro afterDigit n after
    rw [List.map_nil, decimals, if_pos (after rfl), List.foldl_nil]
  | cons c cs ih =>
    intro afterDigit n _
    obtain ⟨⟨d, small, rfl⟩, rest⟩ := List.forall_mem_cons.mp each
    have notUnderscore : UInt8.ofNat (Nat.digitChar d).toNat ≠ 95 :=
      (hexDigit?_digitChar (by omega)).2
    rw [List.map_cons, decimals, if_neg notUnderscore, decimalDigit?_digitChar small,
      List.foldl_cons, Numerals.digitValue_digitChar (by omega)]
    exact ih rest true _ fun _ => rfl

/-- Nothing is stripped off a text without white space. -/
theorem trim_eq_self {space : UInt8 → Bool} {b : Bytes} (solid : ∀ x ∈ b, space x = false) :
    ((b.dropWhile space).reverse.dropWhile space).reverse = b := by
  have start : ∀ l : Bytes, (∀ x ∈ l, space x = false) → l.dropWhile space = l := by
    intro l none
    cases l with
    | nil => rfl
    | cons x l => rw [List.dropWhile_cons_of_neg (by simp [none x List.mem_cons_self])]
  rw [start b solid, start b.reverse fun x h => solid x (List.mem_reverse.mp h),
    List.reverse_reverse]

theorem isIntSpace_digit {b : UInt8} (low : 48 ≤ b) (high : b ≤ 57) : isIntSpace b = false := by
  simp only [isIntSpace, decide_eq_false_iff_not, List.mem_cons, List.not_mem_nil]
  rintro (rfl | rfl | rfl | rfl | rfl | rfl | rfl | rfl | none)
  iterate 8 revert low high; decide
  exact none

/-- A number that is not too long is read back. -/
theorem int10_dec {n : Nat} (short : (dec n).length ≤ maxStrDigits) : int10 (dec n) = some (n : Int) := by
  have digit : ∀ b ∈ dec n, 48 ≤ b ∧ b ≤ 57 := fun b => mem_dec
  have solid : ∀ b ∈ dec n, isIntSpace b = false := fun b member =>
    isIntSpace_digit (digit b member).1 (digit b member).2
  have noPlus : (dec n).head? ≠ some 43 := fun h =>
    absurd (digit 43 (List.mem_of_mem_head? h)).1 (by decide)
  have noMinus : (dec n).head? ≠ some 45 := fun h =>
    absurd (digit 45 (List.mem_of_mem_head? h)).1 (by decide)
  have value : decimals false 0 (dec n) = some n := by
    have read := decimals_dec (Numerals.exists_digit_of_mem_toDigits (by omega) n) false 0
      fun empty => absurd empty Nat.toDigits_ne_nil
    exact read.trans (congrArg some (Numerals.ofDigits_toDigits (by omega) (by omega) n))
  have few : ((dec n).filter fun x => (decimalDigit? x).isSome).length ≤ maxStrDigits :=
    (List.length_filter_le _ _).trans short
  rw [int10, trim_eq_self solid, if_neg noPlus, if_neg noMinus, unsigned, if_pos few, value]
  rfl

theorem length_dec_le_three {n : Nat} (bound : n < 1000) : (dec n).length ≤ 3 := by
  rw [dec, List.length_map]
  exact (Nat.length_toDigits_le_iff (by omega) (by omega)).mpr bound

end Py

end Protospy
