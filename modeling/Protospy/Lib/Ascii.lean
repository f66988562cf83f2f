import Mathlib.Tactic.Common

/-!
# Printable ASCII texts and their octets
-/

namespace Ascii

def isPrintable (c : Char) : Bool := 32 ≤ c.toNat && c.toNat < 127

def Printable (s : String) : Prop := ∀ c ∈ s.toList, isPrintable c = true

theorem Printable.append {s t : String} (hs : Printable s) (ht : Printable t) :
    Printable (s ++ t) := by
  intro c hc
  rw [String.toList_append, List.mem_append] at hc
  exact hc.elim (hs c) (ht c)

theorem Printable.of_all {s : String} (all : s.toList.all isPrintable = true) : Printable s :=
  List.all_eq_true.mp all

theorem mem_intercalate {α : Type} {a : α} {sep : List α} {l : List (List α)}
    (h : a ∈ sep.intercalate l) : a ∈ sep ∨ ∃ x ∈ l, a ∈ x := by
  induction l with
  | nil => simp at h
  | cons x l ih =>
    cases l with
    | nil => exact .inr ⟨x, by simpa using h⟩
    | cons y l =>
      simp only [List.intercalate_cons_cons, List.mem_append] at h
      rcases h with (here | separator) | later
      · exact .inr ⟨x, List.mem_cons_self, here⟩
      · exact .inl separator
      · rcases ih later with separator | ⟨z, hz, inside⟩
        · exact .inl separator
        · exact .inr ⟨z, List.mem_cons_of_mem _ hz, inside⟩

theorem Printable.intercalate {sep : String} {l : List String} (hsep : Printable sep)
    (each : ∀ s ∈ l, Printable s) : Printable (sep.intercalate l) := by
  intro c hc
  rw [String.toList_intercalate] at hc
  rcases mem_intercalate hc with separator | ⟨cs, hcs, inside⟩
  · exact hsep c separator
  · obtain ⟨s, hs, rfl⟩ := List.mem_map.mp hcs
    exact each s hs c inside

/-! ## Numerals -/

theorem isPrintable_digitChar (n : Nat) : isPrintable n.digitChar = true := by
  by_cases small : n < 16
  · have each : ∀ n < 16, isPrintable (Nat.digitChar n) = true := by decide
    exact each n small
  · have star : n.digitChar = '*' := by
      rw [Nat.digitChar]
      simp [show ∀ d < 16, n ≠ d from by omega]
    rw [star]
    rfl

theorem isPrintable_toDigits {base : Nat} (large : 1 < base) (n : Nat) :
    ∀ c ∈ Nat.toDigits base n, isPrintable c = true := by
  induction n using Nat.strongRecOn with
  | ind n ih =>
    intro c hc
    rw [Nat.toDigits_eq_if large] at hc
    split at hc
    · obtain rfl : c = n.digitChar := by simpa using hc
      exact isPrintable_digitChar n
    · have smaller : n / base < n := Nat.div_lt_self (by omega) large
      rcases List.mem_append.mp hc with front | last
      · exact ih _ smaller c front
      · obtain rfl : c = (n % base).digitChar := by simpa using last
        exact isPrintable_digitChar _

theorem printable_toString (n : Nat) : Printable (toString n) := by
  intro c hc
  have digits : (toString n).toList = Nat.toDigits 10 n := by
    simp [Nat.repr]
  exact isPrintable_toDigits (by omega) n c (digits ▸ hc)

/-! ## Octets -/

theorem toList_byteArray (bytes : ByteArray) : bytes.toList = bytes.data.toList := by
  have size : bytes.data.toList.length = bytes.size := rfl
  have loop : ∀ (n i : Nat) (read : List UInt8), bytes.size - i = n →
      ByteArray.toList.loop bytes i read = read.reverse ++ bytes.data.toList.drop i := by
    intro n
    induction n with
    | zero =>
      intro i read rest
      rw [ByteArray.toList.loop, if_neg (by omega), List.drop_eq_nil_of_le (by omega),
        List.append_nil]
    | succ n ih =>
      intro i read rest
      have inside : i < bytes.data.toList.length := by omega
      have here : bytes.get! i = bytes.data.toList[i] := by
        have within : i < bytes.data.size := inside
        rw [ByteArray.get!, getElem!_pos bytes.data i within]
        simp
      rw [ByteArray.toList.loop, if_pos (by omega), ih _ _ (by omega), here,
        List.drop_eq_getElem_cons inside]
      simp
  rw [ByteArray.toList, loop _ 0 [] rfl]
  simp

theorem toList_toUTF8 (s : String) :
    s.toUTF8.toList = s.toList.flatMap String.utf8EncodeChar := by
  rw [toList_byteArray, String.toUTF8, ← String.utf8Encode_toList, List.utf8Encode,
    List.toList_data_toByteArray]

/-- The octets of a printable text lie between the space and the tilde. -/
theorem toUTF8_of_printable {s : String} (printable : Printable s) :
    ∀ b ∈ s.toUTF8.toList, 32 ≤ b ∧ b < 127 := by
  have table : ((List.range 127).all fun n => !isPrintable (Char.ofNat n) ||
      (String.utf8EncodeChar (Char.ofNat n)).all fun b => 32 ≤ b && b < 127) = true := by
    decide +kernel
  have each : ∀ n < 127, isPrintable (Char.ofNat n) = true →
      ∀ b ∈ String.utf8EncodeChar (Char.ofNat n), 32 ≤ b ∧ b < 127 := by
    intro n small shown b inside
    have row := List.all_eq_true.mp table n (List.mem_range.mpr small)
    simp only [shown, Bool.not_true, Bool.false_or, List.all_eq_true, Bool.and_eq_true,
      decide_eq_true_eq] at row
    exact row b inside
  intro b hb
  rw [toList_toUTF8, List.mem_flatMap] at hb
  obtain ⟨c, hc, inside⟩ := hb
  have shown := printable c hc
  have small : c.toNat < 127 := by
    simp only [isPrintable, Bool.and_eq_true, decide_eq_true_eq] at shown
    exact shown.2
  refine each c.toNat small ?_ b ?_ <;> rwa [Char.ofNat_toNat]

end Ascii
