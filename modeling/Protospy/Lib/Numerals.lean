import Mathlib.Tactic.Common

/-!
# Numerals in a base up to sixteen
-/

namespace Numerals

/-- The value of a digit; letters count from ten, in either case. -/
def digitValue (c : Char) : Nat :=
  if c.isDigit then c.toNat - 48 else if 97 ≤ c.toNat then c.toNat - 87 else c.toNat - 55

def ofDigits (base : Nat) (digits : List Char) : Nat :=
  digits.foldl (fun n c => base * n + digitValue c) 0

theorem digitValue_digitChar {n : Nat} (small : n < 16) : digitValue n.digitChar = n := by
  have each : ∀ n < 16, digitValue (Nat.digitChar n) = n := by decide
  exact each n small

theorem ofDigits_concat (base : Nat) (digits : List Char) (c : Char) :
    ofDigits base (digits ++ [c]) = base * ofDigits base digits + digitValue c := by
  rw [ofDigits, List.foldl_append, List.foldl_cons, List.foldl_nil, ofDigits]

theorem ofDigits_toDigits {base : Nat} (large : 1 < base) (small : base ≤ 16) (n : Nat) :
    ofDigits base (Nat.toDigits base n) = n := by
  induction n using Nat.strongRecOn with
  | ind n ih =>
    rw [Nat.toDigits_eq_if large]
    split
    · have first : ofDigits base [n.digitChar] = digitValue n.digitChar := by
        rw [ofDigits, List.foldl_cons, List.foldl_nil, Nat.mul_zero, Nat.zero_add]
      rw [first, digitValue_digitChar (by omega)]
    · have smaller : n / base < n := Nat.div_lt_self (by omega) large
      have last : n % base < base := Nat.mod_lt n (by omega)
      rw [ofDigits_concat, ih _ smaller, digitValue_digitChar (by omega), Nat.div_add_mod]

theorem toDigits_injective {base m n : Nat} (large : 1 < base) (small : base ≤ 16)
    (h : Nat.toDigits base m = Nat.toDigits base n) : m = n := by
  rw [← ofDigits_toDigits large small m, h, ofDigits_toDigits large small]

/-- Zeros in front do not change the value. -/
theorem ofDigits_leftpad (base width : Nat) (digits : List Char) :
    ofDigits base (digits.leftpad width '0') = ofDigits base digits := by
  have zeros (k : Nat) : ofDigits base (List.replicate k '0') = 0 := by
    induction k with
    | zero => rfl
    | succ k ih => rw [List.replicate_succ', ofDigits_concat, ih]; rfl
  have padded := zeros (width - digits.length)
  rw [ofDigits] at padded
  rw [List.leftpad, ofDigits, List.foldl_append, padded, ofDigits]

/-- The digits of a numeral are those of its base. -/
theorem exists_digit_of_mem_toDigits {base : Nat} (large : 1 < base) (n : Nat) :
    ∀ c ∈ Nat.toDigits base n, ∃ d < base, c = Nat.digitChar d := by
  induction n using Nat.strongRecOn with
  | ind n ih =>
    intro c member
    rw [Nat.toDigits_eq_if large] at member
    split at member
    · rename_i small
      exact ⟨n, small, List.mem_singleton.mp member⟩
    · have smaller : n / base < n := Nat.div_lt_self (by omega) large
      rcases List.mem_append.mp member with front | last
      · exact ih _ smaller c front
      · exact ⟨n % base, Nat.mod_lt n (by omega), List.mem_singleton.mp last⟩

end Numerals
