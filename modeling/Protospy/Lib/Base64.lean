import Mathlib.Tactic.Common

/-!
# Base64

Encoding with padding, and decoding that passes over white space and forgives missing
padding.
-/

namespace Base64

def digit (n : Nat) : Char :=
  if n < 26 then Char.ofNat (65 + n)
  else if n < 52 then Char.ofNat (71 + n)
  else if n < 62 then Char.ofNat (n - 4)
  else if n = 62 then '+' else '/'

def value? (c : Char) : Option Nat :=
  if 65 ≤ c.toNat ∧ c.toNat ≤ 90 then some (c.toNat - 65)
  else if 97 ≤ c.toNat ∧ c.toNat ≤ 122 then some (c.toNat - 71)
  else if 48 ≤ c.toNat ∧ c.toNat ≤ 57 then some (c.toNat + 4)
  else if c = '+' then some 62 else if c = '/' then some 63 else none

/-- Six bits at a time; the last digit is filled up with zeros. -/
def digits : List UInt8 → List Nat
  | [] => []
  | [a] => [a.toNat / 4, a.toNat % 4 * 16]
  | [a, b] => [a.toNat / 4, a.toNat % 4 * 16 + b.toNat / 16, b.toNat % 16 * 4]
  | a :: b :: c :: rest =>
    a.toNat / 4 :: (a.toNat % 4 * 16 + b.toNat / 16) :: (b.toNat % 16 * 4 + c.toNat / 64) ::
      c.toNat % 64 :: digits rest

def padding (left : Nat) : List Char :=
  if left = 1 then ['=', '='] else if left = 2 then ['='] else []

def encode (bytes : List UInt8) : List Char :=
  (digits bytes).map digit ++ padding (bytes.length % 3)

/-- Eight bits at a time; what is left of the last digit is dropped. -/
def assemble : List Nat → List UInt8
  | a :: b :: c :: d :: rest =>
    UInt8.ofNat (a * 4 + b / 16) :: UInt8.ofNat (b % 16 * 16 + c / 4) ::
      UInt8.ofNat (c % 4 * 64 + d) :: assemble rest
  | [a, b, c] => [UInt8.ofNat (a * 4 + b / 16), UInt8.ofNat (b % 16 * 16 + c / 4)]
  | [a, b] => [UInt8.ofNat (a * 4 + b / 16)]
  | _ => []

def isSpace (c : Char) : Bool := c.toNat ∈ [9, 10, 12, 13, 32]

/-- One or two signs of padding are dropped. -/
def dropPadding (text : List Char) : List Char :=
  if text.getLast? = some '=' then
    if text.dropLast.getLast? = some '=' then text.dropLast.dropLast else text.dropLast
  else text

def decode (text : List Char) : Option (List UInt8) :=
  let text := text.filter fun c => !isSpace c
  let text := if text.length % 4 = 0 then dropPadding text else text
  if text.length % 4 = 1 then none else (text.mapM value?).map assemble

/-! ## Reading what was written -/

theorem value?_digit {n : Nat} (small : n < 64) : value? (digit n) = some n := by
  have each : ∀ n < 64, value? (digit n) = some n := by decide
  exact each n small

theorem digit_plain {n : Nat} (small : n < 64) : isSpace (digit n) = false ∧ digit n ≠ '=' := by
  have each : ∀ n < 64, isSpace (digit n) = false ∧ digit n ≠ '=' := by decide
  exact each n small

theorem digits_small (bytes : List UInt8) : ∀ n ∈ digits bytes, n < 64 := by
  induction bytes using digits.induct with
  | case1 => exact List.forall_mem_nil _
  | case2 a =>
    have := a.toNat_lt
    simp only [digits, List.forall_mem_cons, List.not_mem_nil, false_implies, implies_true, and_true]
    omega
  | case3 a b =>
    have := a.toNat_lt
    have := b.toNat_lt
    simp only [digits, List.forall_mem_cons, List.not_mem_nil, false_implies, implies_true, and_true]
    omega
  | case4 a b c rest ih =>
    have := a.toNat_lt
    have := b.toNat_lt
    have := c.toNat_lt
    simp only [digits, List.forall_mem_cons]
    refine ⟨?_, ?_, ?_, ?_, ih⟩ <;> omega

/-- How many signs of padding the digits need. -/
theorem length_digits (bytes : List UInt8) :
    ((digits bytes).length + (padding (bytes.length % 3)).length) % 4 = 0 ∧
      (digits bytes).length % 4 ≠ 1 := by
  induction bytes using digits.induct with
  | case1 => decide
  | case2 a => simp [digits, padding]
  | case3 a b => simp [digits, padding]
  | case4 a b c rest ih =>
    have three : (a :: b :: c :: rest).length % 3 = rest.length % 3 := by
      simp only [List.length_cons]
      omega
    rw [three]
    simp only [digits, List.length_cons]
    omega

theorem assemble_digits (bytes : List UInt8) : assemble (digits bytes) = bytes := by
  have whole (a : UInt8) {n : Nat} (same : n = a.toNat) : UInt8.ofNat n = a := by
    rw [same, UInt8.ofNat_toNat]
  induction bytes using digits.induct with
  | case1 => rfl
  | case2 a =>
    have := a.toNat_lt
    rw [digits, assemble, whole a (by omega)]
  | case3 a b =>
    have := a.toNat_lt
    have := b.toNat_lt
    rw [digits, assemble, whole a (by omega), whole b (by omega)]
  | case4 a b c rest ih =>
    have := a.toNat_lt
    have := b.toNat_lt
    have := c.toNat_lt
    rw [digits, assemble, whole a (by omega), whole b (by omega), whole c (by omega), ih]

theorem mapM_value?_digits {ns : List Nat} (small : ∀ n ∈ ns, n < 64) :
    (ns.map digit).mapM value? = some ns := by
  induction ns with
  | nil => rfl
  | cons n ns ih =>
    obtain ⟨here, rest⟩ := List.forall_mem_cons.mp small
    rw [List.map_cons, List.mapM_cons, value?_digit here, ih rest]
    rfl

theorem dropPadding_append {text : List Char} (plain : ∀ c ∈ text, c ≠ '=') (k : Nat) :
    dropPadding (text ++ padding k) = text := by
  have last : text.getLast? ≠ some '=' := fun h => plain '=' (List.mem_of_getLast? h) rfl
  have one : dropPadding (text ++ ['=']) = text := by
    rw [dropPadding, if_pos List.getLast?_concat, List.dropLast_concat, if_neg last]
  have two : dropPadding (text ++ ['=', '=']) = text := by
    have split : text ++ ['=', '='] = text ++ ['='] ++ ['='] := by
      rw [List.append_assoc]
      rfl
    rw [split, dropPadding, if_pos List.getLast?_concat, List.dropLast_concat,
      if_pos List.getLast?_concat, List.dropLast_concat]
  rw [padding]
  split
  · exact two
  · split
    · exact one
    · rw [List.append_nil, dropPadding, if_neg last]

theorem eq_of_mem_padding {left : Nat} {c : Char} (member : c ∈ padding left) : c = '=' := by
  rw [padding] at member
  split_ifs at member
  · simpa using member
  · simpa using member
  · cases member

theorem encode_plain (bytes : List UInt8) : ∀ c ∈ encode bytes, isSpace c = false := by
  intro c member
  rcases List.mem_append.mp member with digit' | pad
  · obtain ⟨n, inDigits, rfl⟩ := List.mem_map.mp digit'
    exact (digit_plain (digits_small bytes n inDigits)).1
  · obtain rfl := eq_of_mem_padding pad
    decide

theorem decode_encode (bytes : List UInt8) : decode (encode bytes) = some bytes := by
  have noSpace : (encode bytes).filter (fun c => !isSpace c) = encode bytes :=
    List.filter_eq_self.mpr fun c member => by rw [encode_plain bytes c member]; rfl
  have small := digits_small bytes
  have plain : ∀ c ∈ (digits bytes).map digit, c ≠ '=' := by
    intro c member
    obtain ⟨n, inDigits, rfl⟩ := List.mem_map.mp member
    exact (digit_plain (small n inDigits)).2
  obtain ⟨fours, notOne⟩ := length_digits bytes
  have padded : (encode bytes).length % 4 = 0 := by
    rw [encode, List.length_append, List.length_map]
    exact fours
  rw [decode, noSpace, if_pos padded, encode, dropPadding_append plain, List.length_map, if_neg notOne,
    mapM_value?_digits small, Option.map_some, assemble_digits]

end Base64
