import Mathlib.Algebra.Order.Round
import Mathlib.Data.List.TakeWhile
import Mathlib.Data.Rat.Floor
import Mathlib.Tactic.Linarith
import Mathlib.Tactic.NormNum
import Mathlib.Tactic.Positivity
import Mathlib.Tactic.Ring
import Protospy.Lib.Lines

/-!
# Sizes in bytes (`lib/format.ts`)

The arithmetic is that of rational numbers.
-/

namespace Protospy

def units : List String := ["KB", "MB", "GB", "TB"]

/-- The tenths that `toFixed(1)` shows: the nearest, and of two the larger. -/
def toFixed (value : ℚ) : ℤ := round (10 * value)

/-- The loop of `fmtBytes`. -/
def scaleUp (value : ℚ) (i : Nat) : ℚ × Nat :=
  if 1024 ≤ value ∧ i < units.length - 1 then scaleUp (value / 1024) (i + 1) else (value, i)
termination_by units.length - i
decreasing_by omega

/-- Go to the next unit where rounding makes 1024 of the value. -/
def rollUp (scaled : ℚ × Nat) : ℚ × Nat :=
  if 1024 ≤ (toFixed scaled.1 : ℚ) / 10 ∧ scaled.2 < units.length - 1 then
    (scaled.1 / 1024, scaled.2 + 1)
  else scaled

/-- What is shown: whole bytes, or tenths of a unit. -/
inductive ByteSize where
  | bytes (n : Nat)
  | tenths (tenths : ℤ) (i : Nat)
  deriving DecidableEq, Repr

def byteSize (n : Nat) : ByteSize :=
  if n < 1024 then .bytes n
  else
    let (value, i) := rollUp (scaleUp ((n : ℚ) / 1024) 0)
    .tenths (toFixed value) i

def ByteSize.text : ByteSize → String
  | .bytes n => toString n ++ " B"
  | .tenths t i => toString (t / 10) ++ "." ++ toString (t % 10) ++ " " ++ units.getD i ""

def fmtBytes (n : Nat) : String := (byteSize n).text

namespace ByteSize

/-- The number before the unit. -/
def mantissa : ByteSize → ℚ
  | .bytes n => n
  | .tenths t _ => t / 10

/-- How many bytes the unit has. -/
def unit : ByteSize → ℚ
  | .bytes _ => 1
  | .tenths _ i => 1024 ^ (i + 1)

/-- The step between two numbers that can be shown: a whole byte, or a tenth. -/
def precision : ByteSize → ℚ
  | .bytes _ => 1
  | .tenths _ i => 1024 ^ (i + 1) / 10

/-- The size that is shown, in bytes. -/
def displayed (s : ByteSize) : ℚ := s.mantissa * s.unit

def IsLargestUnit : ByteSize → Prop
  | .bytes _ => False
  | .tenths _ i => i = units.length - 1

end ByteSize

/-! ## Scaling -/

/-- The value and its unit are the size. The value shows as 1.0 at least and, below the
last unit, as less than 1024. -/
structure Scaled (n : Nat) (scaled : ℚ × Nat) : Prop where
  exact : scaled.1 * 1024 ^ (scaled.2 + 1) = n
  unit : scaled.2 ≤ 3
  large : 20479 / 20480 ≤ scaled.1
  small : scaled.2 < 3 → scaled.1 < 20479 / 20

theorem scaleUp_spec (n : Nat) (value : ℚ) (i : Nat) (exact : value * 1024 ^ (i + 1) = n)
    (unit : i ≤ 3) (large : 1 ≤ value) :
    (scaleUp value i).1 * 1024 ^ ((scaleUp value i).2 + 1) = n ∧ (scaleUp value i).2 ≤ 3 ∧
      1 ≤ (scaleUp value i).1 ∧ ((scaleUp value i).2 < 3 → (scaleUp value i).1 < 1024) := by
  induction value, i using scaleUp.induct with
  | case1 value i more ih =>
    have below : i < 3 := more.2
    rw [scaleUp, if_pos more]
    refine ih ?_ (by omega) ?_
    · rw [← exact, pow_succ 1024 (i + 1)]
      ring
    · linarith [more.1]
  | case2 value i done =>
    rw [scaleUp, if_neg done]
    refine ⟨exact, unit, large, fun below => ?_⟩
    by_contra high
    exact done ⟨not_lt.mp high, below⟩

theorem le_toFixed_iff (value : ℚ) : 1024 ≤ (toFixed value : ℚ) / 10 ↔ 20479 / 20 ≤ value := by
  have tenths : 1024 ≤ (toFixed value : ℚ) / 10 ↔ (10240 : ℤ) ≤ toFixed value := by
    rw [le_div_iff₀ (by norm_num)]
    norm_num
    exact_mod_cast Iff.rfl
  rw [tenths, toFixed, round_eq, Int.le_floor]
  push_cast
  constructor <;> intro h <;> linarith

theorem rollUp_spec {n : Nat} {value : ℚ} {i : Nat} (exact : value * 1024 ^ (i + 1) = n)
    (unit : i ≤ 3) (large : 1 ≤ value) (small : i < 3 → value < 1024) :
    Scaled n (rollUp (value, i)) := by
  rw [rollUp]
  by_cases carries : 1024 ≤ (toFixed value : ℚ) / 10 ∧ i < units.length - 1
  · rw [if_pos carries]
    have high := (le_toFixed_iff value).mp carries.1
    have more : i < 3 := carries.2
    have low := small more
    have next : value / 1024 * 1024 ^ (i + 1 + 1) = n := by
      rw [← exact, pow_succ 1024 (i + 1)]
      ring
    exact ⟨next, more, show 20479 / 20480 ≤ value / 1024 by linarith,
      fun _ => show value / 1024 < 20479 / 20 by linarith⟩
  · rw [if_neg carries]
    refine ⟨exact, unit, show 20479 / 20480 ≤ value by linarith, fun more => ?_⟩
    by_contra high
    exact carries ⟨(le_toFixed_iff value).mpr (not_lt.mp high), more⟩

theorem rollUp_scaled {n : Nat} (large : 1024 ≤ n) :
    Scaled n (rollUp (scaleUp ((n : ℚ) / 1024) 0)) := by
  have big : (1024 : ℚ) ≤ n := by exact_mod_cast large
  obtain ⟨exact, unit, atLeast, below⟩ := scaleUp_spec n ((n : ℚ) / 1024) 0 (by ring) (by omega)
    (by linarith)
  exact rollUp_spec exact unit atLeast below

/-- The size of more than 1023 bytes, with what is known of its value. -/
theorem byteSize_of_le {n : Nat} (large : 1024 ≤ n) :
    ∃ value i, byteSize n = .tenths (toFixed value) i ∧ Scaled n (value, i) :=
  ⟨_, _, if_neg (by omega), rollUp_scaled large⟩

/-! ## What is displayed -/

theorem toFixed_near (value : ℚ) : |(toFixed value : ℚ) / 10 - value| ≤ 1 / 20 := by
  have near := abs_sub_round (10 * value)
  rw [abs_le] at near ⊢
  change -(1 / 2) ≤ 10 * value - (toFixed value : ℚ) ∧ 10 * value - (toFixed value : ℚ) ≤ 1 / 2
    at near
  constructor <;> linarith [near.1, near.2]

theorem toFixed_mono {value value' : ℚ} (le : value ≤ value') : toFixed value ≤ toFixed value' := by
  rw [toFixed, toFixed, round_eq, round_eq]
  exact Int.floor_le_floor (by linarith)

theorem Scaled.ten_le {n : Nat} {value : ℚ} {i : Nat} (scaled : Scaled n (value, i)) :
    10 ≤ toFixed value := by
  have large : (20479 : ℚ) / 20480 ≤ value := scaled.large
  rw [toFixed, round_eq, Int.le_floor]
  push_cast
  linarith

theorem Scaled.lt_of_lt {n : Nat} {value : ℚ} {i : Nat} (scaled : Scaled n (value, i))
    (below : i < 3) : toFixed value < 10240 := by
  have small : value < 20479 / 20 := scaled.small below
  rw [toFixed, round_eq, Int.floor_lt]
  push_cast
  linarith

/-- A smaller size has no larger unit. -/
theorem Scaled.unit_le {n m : Nat} {value value' : ℚ} {i j : Nat} (scaled : Scaled n (value, i))
    (scaled' : Scaled m (value', j)) (le : n ≤ m) : i ≤ j := by
  by_contra above
  have unit : i ≤ 3 := scaled.unit
  have small : value' < 20479 / 20 := scaled'.small (show j < 3 by omega)
  have large : (20479 : ℚ) / 20480 ≤ value := scaled.large
  have size : value * 1024 ^ (i + 1) ≤ value' * 1024 ^ (j + 1) := by
    rw [scaled.exact, scaled'.exact]
    exact_mod_cast le
  have power : (1024 : ℚ) ^ (j + 2) ≤ 1024 ^ (i + 1) := pow_le_pow_right₀ (by norm_num) (by omega)
  have pos : (0 : ℚ) < 1024 ^ (j + 1) := by positivity
  have next : (1024 : ℚ) ^ (j + 2) = 1024 * 1024 ^ (j + 1) := by ring
  have low : (20479 : ℚ) / 20 * 1024 ^ (j + 1) ≤ value * 1024 ^ (i + 1) := by
    calc (20479 : ℚ) / 20 * 1024 ^ (j + 1) = 20479 / 20480 * 1024 ^ (j + 2) := by rw [next]; ring
      _ ≤ 20479 / 20480 * 1024 ^ (i + 1) := by linarith
      _ ≤ value * 1024 ^ (i + 1) := by
        have pos' : (0 : ℚ) ≤ 1024 ^ (i + 1) := by positivity
        exact mul_le_mul_of_nonneg_right large pos'
  have high : value' * 1024 ^ (j + 1) < 20479 / 20 * 1024 ^ (j + 1) :=
    mul_lt_mul_of_pos_right small pos
  linarith

theorem byteSize_mantissa (n : Nat) :
    (byteSize n).mantissa < 1024 ∨ (byteSize n).IsLargestUnit := by
  by_cases small : n < 1024
  · left
    rw [byteSize, if_pos small, ByteSize.mantissa]
    exact_mod_cast small
  · obtain ⟨value, i, shown, scaled⟩ := byteSize_of_le (not_lt.mp small)
    rw [shown, ByteSize.mantissa, ByteSize.IsLargestUnit]
    by_cases last : i = 3
    · exact .inr last
    · have unit : i ≤ 3 := scaled.unit
      have tenths : ((toFixed value : ℤ) : ℚ) < 10240 := by
        exact_mod_cast scaled.lt_of_lt (by omega)
      left
      linarith

theorem byteSize_near (n : Nat) :
    |(byteSize n).displayed - n| ≤ (byteSize n).precision / 2 := by
  by_cases small : n < 1024
  · rw [byteSize, if_pos small, ByteSize.displayed, ByteSize.mantissa, ByteSize.unit, mul_one,
      sub_self, abs_zero, ByteSize.precision]
    norm_num
  · obtain ⟨value, i, shown, scaled⟩ := byteSize_of_le (not_lt.mp small)
    have exact : value * 1024 ^ (i + 1) = n := scaled.exact
    have pos : (0 : ℚ) < 1024 ^ (i + 1) := by positivity
    rw [shown, ByteSize.displayed, ByteSize.mantissa, ByteSize.unit, ByteSize.precision, ← exact,
      ← sub_mul, abs_mul, abs_of_pos pos]
    calc |(toFixed value : ℚ) / 10 - value| * 1024 ^ (i + 1) ≤ 1 / 20 * 1024 ^ (i + 1) :=
          mul_le_mul_of_nonneg_right (toFixed_near value) pos.le
      _ = 1024 ^ (i + 1) / 10 / 2 := by ring

theorem Scaled.one_le {n : Nat} {value : ℚ} {i : Nat} (scaled : Scaled n (value, i)) :
    (1024 : ℚ) ^ (i + 1) ≤ (toFixed value : ℚ) / 10 * 1024 ^ (i + 1) := by
  have tenths : (10 : ℚ) ≤ (toFixed value : ℚ) := by exact_mod_cast scaled.ten_le
  have pos : (0 : ℚ) < 1024 ^ (i + 1) := by positivity
  calc (1024 : ℚ) ^ (i + 1) = 1 * 1024 ^ (i + 1) := (one_mul _).symm
    _ ≤ (toFixed value : ℚ) / 10 * 1024 ^ (i + 1) :=
      mul_le_mul_of_nonneg_right (by linarith) pos.le

theorem Scaled.mono {n m : Nat} {value value' : ℚ} {i j : Nat} (scaled : Scaled n (value, i))
    (scaled' : Scaled m (value', j)) (le : n ≤ m) :
    (toFixed value : ℚ) / 10 * 1024 ^ (i + 1) ≤ (toFixed value' : ℚ) / 10 * 1024 ^ (j + 1) := by
  have pos : (0 : ℚ) < 1024 ^ (i + 1) := by positivity
  rcases Nat.lt_or_eq_of_le (scaled.unit_le scaled' le) with less | rfl
  · -- the smaller size shows as less than 1024 of its unit
    have unit : j ≤ 3 := scaled'.unit
    have tenths : ((toFixed value : ℤ) : ℚ) < 10240 := by
      exact_mod_cast scaled.lt_of_lt (by omega)
    calc (toFixed value : ℚ) / 10 * 1024 ^ (i + 1) ≤ 1024 * 1024 ^ (i + 1) :=
          mul_le_mul_of_nonneg_right (by linarith) pos.le
      _ = 1024 ^ (i + 1 + 1) := by ring
      _ ≤ 1024 ^ (j + 1) := pow_le_pow_right₀ (by norm_num) (by omega)
      _ ≤ (toFixed value' : ℚ) / 10 * 1024 ^ (j + 1) := scaled'.one_le
  · have exact : value * 1024 ^ (i + 1) = n := scaled.exact
    have exact' : value' * 1024 ^ (i + 1) = m := scaled'.exact
    have size : value * 1024 ^ (i + 1) ≤ value' * 1024 ^ (i + 1) := by
      rw [exact, exact']
      exact_mod_cast le
    have tenths : ((toFixed value : ℤ) : ℚ) ≤ toFixed value' := by
      exact_mod_cast toFixed_mono (le_of_mul_le_mul_right size pos)
    exact mul_le_mul_of_nonneg_right (by linarith) pos.le

theorem byteSize_mono {n m : Nat} (le : n ≤ m) :
    (byteSize n).displayed ≤ (byteSize m).displayed := by
  by_cases small : m < 1024
  · rw [byteSize, if_pos (by omega), byteSize, if_pos small, ByteSize.displayed,
      ByteSize.displayed, ByteSize.mantissa, ByteSize.mantissa, ByteSize.unit, ByteSize.unit,
      mul_one, mul_one]
    exact_mod_cast le
  · obtain ⟨value', j, shown', scaled'⟩ := byteSize_of_le (not_lt.mp small)
    rw [shown', ByteSize.displayed, ByteSize.displayed]
    by_cases bytes : n < 1024
    · have less : (n : ℚ) ≤ 1024 := by exact_mod_cast (by omega : n ≤ 1024)
      have first : (1024 : ℚ) ≤ 1024 ^ (j + 1) := le_self_pow₀ (by norm_num) (by omega)
      have shows := scaled'.one_le
      rw [byteSize, if_pos bytes, ByteSize.mantissa, ByteSize.unit, mul_one]
      exact less.trans (first.trans shows)
    · obtain ⟨value, i, shown, scaled⟩ := byteSize_of_le (not_lt.mp bytes)
      rw [shown]
      exact scaled.mono scaled' le

/-! ## Reading the text -/

/-- What a reader takes from a text: a number with its decimals, and a unit. -/
structure ShownSize where
  mantissa : ℚ
  decimals : Nat
  unit : String

/-- The number before the space and the unit after it. -/
def readSize (text : String) : ShownSize :=
  let number := text.toList.takeWhile (· ≠ ' ')
  let whole := number.takeWhile (· ≠ '.')
  let decimals := (number.dropWhile (· ≠ '.')).drop 1
  { mantissa := Nat.ofDigitChars 10 whole 0 + Nat.ofDigitChars 10 decimals 0 / 10 ^ decimals.length
    decimals := decimals.length
    unit := String.ofList ((text.toList.dropWhile (· ≠ ' ')).drop 1) }

namespace ShownSize

/-- How many bytes the unit has. -/
def unitBytes (s : ShownSize) : ℚ := if s.unit = "B" then 1 else 1024 ^ (units.idxOf s.unit + 1)

def displayed (s : ShownSize) : ℚ := s.mantissa * s.unitBytes

/-- The step between two numbers with as many decimals. -/
def precision (s : ShownSize) : ℚ := s.unitBytes / 10 ^ s.decimals

end ShownSize

theorem notMem_toDigits (mark : Char) (noDigit : mark.isDigit = false) (n : Nat) :
    mark ∉ Nat.toDigits 10 n := by
  intro member
  have digit := Nat.isDigit_of_mem_toDigits (by decide) (by decide) member
  rw [noDigit] at digit
  cases digit

theorem readSize_bytes (n : Nat) :
    readSize (ByteSize.bytes n).text = ⟨n, 0, "B"⟩ := by
  have chars : (ByteSize.bytes n).text.toList = Nat.toDigits 10 n ++ ' ' :: ['B'] := by
    rw [ByteSize.text, String.toList_append, Nat.toString_eq_repr, Nat.toList_repr]
    rfl
  have number := Lines.split_at_mark (notMem_toDigits ' ' rfl n) ['B']
  have whole : ∀ c ∈ Nat.toDigits 10 n, decide (c ≠ '.') = true := fun c member =>
    decide_eq_true fun same => notMem_toDigits '.' rfl n (same ▸ member)
  rw [readSize, chars, number.1, number.2]
  simp only [List.takeWhile_eq_self_iff.mpr whole, List.dropWhile_eq_nil_iff.mpr whole,
    Nat.ofDigitChars_ten_toDigits, List.drop_nil, List.length_nil, Nat.ofDigitChars_nil]
  simp

theorem readSize_tenths (k i : Nat) :
    readSize (ByteSize.tenths k i).text = ⟨(k : ℚ) / 10, 1, units.getD i ""⟩ := by
  have chars : (ByteSize.tenths k i).text.toList =
      (Nat.toDigits 10 (k / 10) ++ '.' :: [(k % 10).digitChar]) ++ ' ' :: (units.getD i "").toList := by
    have whole : toString ((k : ℤ) / 10) = (k / 10).repr := rfl
    have rest : toString ((k : ℤ) % 10) = (k % 10).repr := rfl
    rw [ByteSize.text, whole, rest]
    simp only [String.toList_append, Nat.toList_repr]
    rw [Nat.toDigits_of_lt_base (by omega : k % 10 < 10)]
    simp
  have last : (k % 10).digitChar.isDigit = true :=
    Nat.isDigit_of_mem_toDigits (b := 10) (n := k % 10) (by decide) (by decide)
      (by rw [Nat.toDigits_of_lt_base (by omega)]; exact List.mem_cons_self)
  have noSpace : ' ' ∉ Nat.toDigits 10 (k / 10) ++ '.' :: [(k % 10).digitChar] := by
    rw [List.mem_append, List.mem_cons, List.mem_singleton, not_or, not_or]
    refine ⟨notMem_toDigits _ rfl _, by decide, fun same => ?_⟩
    rw [← same] at last
    cases last
  have number := Lines.split_at_mark noSpace (units.getD i "").toList
  have parts := Lines.split_at_mark (notMem_toDigits '.' rfl (k / 10)) [(k % 10).digitChar]
  have value : Nat.ofDigitChars 10 [(k % 10).digitChar] 0 = k % 10 := by
    rw [← Nat.toDigits_of_lt_base (by omega : k % 10 < 10), Nat.ofDigitChars_ten_toDigits]
  rw [readSize, chars, number.1, number.2, parts.1, parts.2, Nat.ofDigitChars_ten_toDigits, value]
  have split : ((k / 10 : ℕ) : ℚ) + ((k % 10 : ℕ) : ℚ) / 10 = (k : ℚ) / 10 := by
    have whole : ((10 * (k / 10) + k % 10 : ℕ) : ℚ) = k := by rw [Nat.div_add_mod]
    push_cast at whole
    linarith
  simp [split]

/-- The text shows the number, the unit and the precision of the size. -/
theorem readSize_text (n : Nat) :
    (readSize (byteSize n).text).mantissa = (byteSize n).mantissa ∧
    (readSize (byteSize n).text).unitBytes = (byteSize n).unit ∧
    (readSize (byteSize n).text).precision = (byteSize n).precision ∧
    ((byteSize n).IsLargestUnit → (readSize (byteSize n).text).unit = "TB") := by
  by_cases small : n < 1024
  · rw [byteSize, if_pos small, readSize_bytes]
    refine ⟨rfl, if_pos rfl, ?_, fun largest => largest.elim⟩
    rw [ShownSize.precision, ShownSize.unitBytes, if_pos rfl]
    norm_num [ByteSize.precision]
  · obtain ⟨value, i, shown, scaled⟩ := byteSize_of_le (not_lt.mp small)
    obtain ⟨k, tenths⟩ := Int.eq_ofNat_of_zero_le ((by decide : (0 : ℤ) ≤ 10).trans scaled.ten_le)
    have unit : i ≤ 3 := scaled.unit
    have bytes : (ShownSize.mk ((k : ℚ) / 10) 1 (units.getD i "")).unitBytes = 1024 ^ (i + 1) := by
      rw [ShownSize.unitBytes]
      rcases (by omega : i = 0 ∨ i = 1 ∨ i = 2 ∨ i = 3) with rfl | rfl | rfl | rfl <;> rfl
    rw [shown, tenths, readSize_tenths]
    refine ⟨rfl, bytes, ?_, fun largest => ?_⟩
    · rw [ShownSize.precision, bytes, pow_one]
      rfl
    · have last : i = 3 := largest
      rw [last]
      rfl

/-- What the text shows is less than 1024 of its unit, but for the last unit, is at most
half a step from the size, and grows with the size. -/
theorem fmtBytes_shows (n : Nat) :
    ((readSize (fmtBytes n)).mantissa < 1024 ∨ (readSize (fmtBytes n)).unit = "TB") ∧
    |(readSize (fmtBytes n)).displayed - n| ≤ (readSize (fmtBytes n)).precision / 2 ∧
    ∀ m, n ≤ m → (readSize (fmtBytes n)).displayed ≤ (readSize (fmtBytes m)).displayed := by
  have value (n : Nat) : (readSize (fmtBytes n)).displayed = (byteSize n).displayed := by
    obtain ⟨mantissa, unit, -⟩ := readSize_text n
    rw [ShownSize.displayed, fmtBytes, mantissa, unit, ByteSize.displayed]
  obtain ⟨mantissa, -, precision, largest⟩ := readSize_text n
  refine ⟨?_, ?_, fun m le => ?_⟩
  · rw [fmtBytes, mantissa]
    exact (byteSize_mantissa n).imp_right largest
  · rw [value, fmtBytes, precision]
    exact byteSize_near n
  · rw [value, value]
    exact byteSize_mono le

end Protospy
