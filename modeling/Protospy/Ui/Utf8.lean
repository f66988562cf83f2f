import Protospy.Ui.Text

/-!
# The text decoder on well-formed UTF-8 and across a cut
-/

namespace Protospy

/-- The octets of a text. -/
def utf8Encode (t : Text) : Bytes := t.flatMap String.utf8EncodeChar

theorem utf8Encode_append (s t : Text) : utf8Encode (s ++ t) = utf8Encode s ++ utf8Encode t :=
  List.flatMap_append

/-! ## The octets of one character -/

/-- An octet that continues a character. -/
def IsContinuation (b : UInt8) : Prop := 0x80 ≤ b.toNat ∧ b.toNat ≤ 0xBF

inductive CharOctets (n : Nat) : Bytes → Prop where
  | one (a : UInt8) : n < 0x80 → a.toNat = n → CharOctets n [a]
  | two (a b : UInt8) : 0x80 ≤ n → n < 0x800 → a.toNat = 0xC0 + n / 64 →
      b.toNat = 0x80 + n % 64 → CharOctets n [a, b]
  | three (a b c : UInt8) : 0x800 ≤ n → n < 0x10000 → (n < 0xD800 ∨ 0xDFFF < n) →
      a.toNat = 0xE0 + n / 4096 → b.toNat = 0x80 + n / 64 % 64 →
      c.toNat = 0x80 + n % 64 → CharOctets n [a, b, c]
  | four (a b c d : UInt8) : 0x10000 ≤ n → n < 0x110000 → a.toNat = 0xF0 + n / 262144 →
      b.toNat = 0x80 + n / 4096 % 64 → c.toNat = 0x80 + n / 64 % 64 →
      d.toNat = 0x80 + n % 64 → CharOctets n [a, b, c, d]

theorem charOctets (c : Char) : CharOctets c.toNat (String.utf8EncodeChar c) := by
  have valid : c.val.toNat < 0xD800 ∨ 0xDFFF < c.val.toNat ∧ c.val.toNat < 0x110000 := c.valid
  have size : ∀ m k, m = k → k < 256 → (UInt8.ofNat m).toNat = k := by
    rintro m k rfl small
    rw [UInt8.toNat_ofNat']
    exact Nat.mod_eq_of_lt small
  rw [String.utf8EncodeChar]
  change CharOctets c.val.toNat _
  generalize c.val.toNat = n at valid
  change CharOctets n (if n ≤ 0x7f then _ else if n ≤ 0x7ff then _ else if n ≤ 0xffff then _ else _)
  split
  · exact .one _ (by omega) (size _ _ rfl (by omega))
  · split
    · exact .two _ _ (by omega) (by omega) (size _ _ (by omega) (by omega))
        (size _ _ (by omega) (by omega))
    · split
      · exact .three _ _ _ (by omega) (by omega) (by omega) (size _ _ (by omega) (by omega))
          (size _ _ (by omega) (by omega)) (size _ _ (by omega) (by omega))
      · exact .four _ _ _ _ (by omega) (by omega) (size _ _ (by omega) (by omega))
          (size _ _ (by omega) (by omega)) (size _ _ (by omega) (by omega))
          (size _ _ (by omega) (by omega))

/-! ## Steps of the decoder -/

namespace Utf8Decoder

theorem decode_nil {d : Utf8Decoder} (waiting : d.needed ≠ 0) : d.decode [] = [replacement] := by
  rw [decode, if_neg waiting]

theorem decode_cons (d : Utf8Decoder) (b : UInt8) (rest : Bytes) :
    d.decode (b :: rest) = (d.push b).1 ++ (d.push b).2.decode rest := rfl

theorem push_start (b : UInt8) : start.push b = first b.toNat := rfl

/-- Between characters the rest of the state does not matter. -/
theorem decode_idle {d : Utf8Decoder} (idle : d.needed = 0) (bytes : Bytes) :
    d.decode bytes = start.decode bytes := by
  cases bytes with
  | nil => simp [decode, idle, start]
  | cons b rest =>
    have same : d.push b = start.push b := by
      simp [push, idle, start]
    rw [decode_cons, decode_cons, same]

theorem push_last {d : Utf8Decoder} {b : UInt8} (last : d.needed = 1)
    (fits : d.lower ≤ b.toNat ∧ b.toNat ≤ d.upper) :
    d.push b = ([Char.ofNat (d.codePoint * 64 + (b.toNat - 0x80))], start) := by
  simp [push, last, fits]

theorem push_more {d : Utf8Decoder} {b : UInt8} {k : Nat} (more : d.needed = k + 2)
    (fits : d.lower ≤ b.toNat ∧ b.toNat ≤ d.upper) :
    d.push b = ([], ⟨k + 1, d.codePoint * 64 + (b.toNat - 0x80), 0x80, 0xBF⟩) := by
  simp [push, more, fits]

/-- An octet that cannot continue the character is a first octet. -/
theorem push_misfit {d : Utf8Decoder} {b : UInt8} (waiting : d.needed ≠ 0)
    (misfit : ¬ (d.lower ≤ b.toNat ∧ b.toNat ≤ d.upper)) :
    d.push b = (replacement :: (first b.toNat).1, (first b.toNat).2) := by
  simp only [push, waiting, misfit, if_false]

theorem first_continuation {b : UInt8} (continues : IsContinuation b) :
    first b.toNat = ([replacement], start) := by
  obtain ⟨lower, upper⟩ := continues
  rw [first, if_neg (by omega), if_neg (by omega), if_neg (by omega), if_neg (by omega)]

/-- The octets complete the character `n` that the decoder has begun. -/
inductive Completes (n : Nat) : Utf8Decoder → Bytes → Prop where
  | last {codePoint lower upper : Nat} {b : UInt8} : IsContinuation b →
      lower ≤ b.toNat ∧ b.toNat ≤ upper → codePoint * 64 + (b.toNat - 0x80) = n →
      Completes n ⟨1, codePoint, lower, upper⟩ [b]
  | more {codePoint lower upper k : Nat} {b : UInt8} {tail : Bytes} : IsContinuation b →
      lower ≤ b.toNat ∧ b.toNat ≤ upper →
      Completes n ⟨k + 1, codePoint * 64 + (b.toNat - 0x80), 0x80, 0xBF⟩ tail →
      Completes n ⟨k + 2, codePoint, lower, upper⟩ (b :: tail)

theorem Completes.continuation {n : Nat} {d : Utf8Decoder} {tail : Bytes}
    (h : Completes n d tail) : ∀ b ∈ tail, IsContinuation b := by
  induction h with
  | last continues fits code => simpa using continues
  | more continues fits later ih => simpa using ⟨continues, ih⟩

theorem Completes.decode {n : Nat} {d : Utf8Decoder} {tail : Bytes} (h : Completes n d tail)
    (rest : Bytes) : d.decode (tail ++ rest) = Char.ofNat n :: start.decode rest := by
  induction h with
  | last continues fits code =>
    rw [List.singleton_append, decode_cons, push_last rfl fits, code]
    rfl
  | more continues fits later ih =>
    rw [List.cons_append, decode_cons, push_more rfl fits, List.nil_append, ih]

/-- The input ends before the character does. -/
theorem Completes.decode_part {n : Nat} {d : Utf8Decoder} {tail : Bytes} (h : Completes n d tail)
    {p q : Bytes} (split : p ++ q = tail) (cut : q ≠ []) : d.decode p = [replacement] := by
  induction h generalizing p with
  | last continues fits code =>
    cases p with
    | nil => exact decode_nil (by simp)
    | cons b p =>
      obtain ⟨-, -, rfl⟩ : _ ∧ p = [] ∧ q = [] := by simpa using split
      exact absurd rfl cut
  | more continues fits later ih =>
    cases p with
    | nil => exact decode_nil (by simp)
    | cons b p =>
      obtain ⟨rfl, rest⟩ := List.cons.inj split
      rw [decode_cons, push_more rfl fits, List.nil_append, ih rest]

theorem first_two {b : Nat} (range : 0xC2 ≤ b ∧ b ≤ 0xDF) :
    first b = ([], ⟨1, b - 0xC0, 0x80, 0xBF⟩) := by
  rw [first, if_neg (by omega), if_pos range]

theorem first_three {b : Nat} (range : 0xE0 ≤ b ∧ b ≤ 0xEF) :
    first b = ([], ⟨2, b - 0xE0, if b = 0xE0 then 0xA0 else 0x80,
      if b = 0xED then 0x9F else 0xBF⟩) := by
  rw [first, if_neg (by omega), if_neg (by omega), if_pos range]

theorem first_four {b : Nat} (range : 0xF0 ≤ b ∧ b ≤ 0xF4) :
    first b = ([], ⟨3, b - 0xF0, if b = 0xF0 then 0x90 else 0x80,
      if b = 0xF4 then 0x8F else 0xBF⟩) := by
  rw [first, if_neg (by omega), if_neg (by omega), if_neg (by omega), if_pos range]

end Utf8Decoder

open Utf8Decoder

/-- A first octet that is a character, or one that the other octets complete. -/
theorem CharOctets.first {n : Nat} {bytes : Bytes} (h : CharOctets n bytes) :
    (∃ a, bytes = [a] ∧ Utf8Decoder.first a.toNat = ([Char.ofNat n], start)) ∨
      ∃ a tail d, bytes = a :: tail ∧ Utf8Decoder.first a.toNat = ([], d) ∧ Completes n d tail := by
  cases h with
  | one a small ha =>
    refine .inl ⟨a, rfl, ?_⟩
    rw [Utf8Decoder.first, ha, if_pos small]
  | two a b lower upper ha hb =>
    refine .inr ⟨a, [b], _, rfl, first_two (by omega), ?_⟩
    exact .last ⟨by omega, by omega⟩ ⟨by omega, by omega⟩ (by omega)
  | three a b c lower upper scalar ha hb hc =>
    refine .inr ⟨a, [b, c], _, rfl, first_three (by omega), ?_⟩
    refine .more ⟨by omega, by omega⟩ ⟨?_, ?_⟩
      (.last ⟨by omega, by omega⟩ ⟨by omega, by omega⟩ (by omega))
    · split <;> omega
    · split <;> omega
  | four a b c d lower upper ha hb hc hd =>
    refine .inr ⟨a, [b, c, d], _, rfl, first_four (by omega), ?_⟩
    refine .more ⟨by omega, by omega⟩ ⟨?_, ?_⟩
      (.more ⟨by omega, by omega⟩ ⟨by omega, by omega⟩
        (.last ⟨by omega, by omega⟩ ⟨by omega, by omega⟩ (by omega)))
    · split <;> omega
    · split <;> omega

/-- Any cut inside a character leaves a replacement on its left and continuation
octets on its right. -/
theorem utf8EncodeChar_cut {c : Char} {p q : Bytes} (split : p ++ q = String.utf8EncodeChar c)
    (left : p ≠ []) (right : q ≠ []) :
    start.decode p = [replacement] ∧ ∀ b ∈ q, IsContinuation b := by
  obtain ⟨b, p, rfl⟩ := List.exists_cons_of_ne_nil left
  rcases (charOctets c).first with ⟨a, one, -⟩ | ⟨a, tail, d, octets, first, completes⟩
  · rw [one] at split
    obtain ⟨-, -, rfl⟩ : _ ∧ p = [] ∧ q = [] := by simpa using split
    exact absurd rfl right
  · rw [octets] at split
    obtain ⟨rfl, rest⟩ := List.cons.inj split
    refine ⟨?_, fun x hx => completes.continuation x (rest ▸ List.mem_append_right p hx)⟩
    rw [decode_cons, push_start, first, List.nil_append, completes.decode_part rest right]

theorem decode_char (c : Char) (rest : Bytes) :
    start.decode (String.utf8EncodeChar c ++ rest) = c :: start.decode rest := by
  rcases (charOctets c).first with ⟨a, one, first⟩ | ⟨a, tail, d, octets, first, completes⟩
  · rw [one, List.singleton_append, decode_cons, push_start, first, Char.ofNat_toNat]
    rfl
  · rw [octets, List.cons_append, decode_cons, push_start, first, List.nil_append,
      completes.decode, Char.ofNat_toNat]

theorem decode_utf8Encode (t : Text) (rest : Bytes) :
    start.decode (utf8Encode t ++ rest) = t ++ start.decode rest := by
  induction t with
  | nil => rfl
  | cons c t ih =>
    rw [utf8Encode, List.flatMap_cons, List.append_assoc, decode_char, ← utf8Encode, ih]
    rfl

theorem decode_whole (t : Text) : start.decode (utf8Encode t) = t := by
  have decoded := decode_utf8Encode t []
  simpa [decode, start] using decoded

theorem decode_continuation {q : Bytes} (continues : ∀ b ∈ q, IsContinuation b) (rest : Bytes) :
    start.decode (q ++ rest) = List.replicate q.length replacement ++ start.decode rest := by
  induction q with
  | nil => rfl
  | cons b q ih =>
    rw [List.cons_append, decode_cons, push_start,
      first_continuation (continues b List.mem_cons_self),
      ih fun x hx => continues x (List.mem_cons_of_mem _ hx)]
    rfl

/-! ## Replacements across a cut -/

/-- How many characters of the text are replacements. -/
def replacements (t : Text) : Nat := t.count replacement

@[simp] theorem replacements_nil : replacements [] = 0 := rfl

@[simp] theorem replacements_append (s t : Text) :
    replacements (s ++ t) = replacements s + replacements t := List.count_append

theorem replacements_cons_le (c : Char) (t : Text) :
    replacements (c :: t) ≤ 1 + replacements t := by
  rw [replacements, List.count_cons, replacements]
  split <;> omega

theorem replacements_cons_self (t : Text) :
    replacements (replacement :: t) = 1 + replacements t := by
  rw [replacements, List.count_cons_self, replacements]
  omega

namespace Utf8Decoder

/-- The next octet may only be a continuation, and the character in progress will
not be an ASCII one. -/
structure Regular (d : Utf8Decoder) : Prop where
  lower : 0x80 ≤ d.lower
  upper : d.upper ≤ 0xBF
  code : d.needed ≠ 0 →
    2 ≤ d.codePoint ∨ 2 ≤ d.needed ∧ (1 ≤ d.codePoint ∨ 0x90 ≤ d.lower)

theorem start_regular : start.Regular :=
  ⟨le_rfl, le_rfl, fun waiting => absurd rfl waiting⟩

theorem first_regular (b : Nat) : (first b).2.Regular := by
  by_cases two : 0xC2 ≤ b ∧ b ≤ 0xDF
  · rw [first_two two]
    exact ⟨le_rfl, le_rfl, fun _ => .inl (by dsimp only; omega)⟩
  by_cases three : 0xE0 ≤ b ∧ b ≤ 0xEF
  · rw [first_three three]
    refine ⟨by dsimp only; split <;> decide, by dsimp only; split <;> decide, fun _ => ?_⟩
    refine .inr ⟨le_rfl, ?_⟩
    dsimp only
    split <;> omega
  by_cases four : 0xF0 ≤ b ∧ b ≤ 0xF4
  · rw [first_four four]
    refine ⟨by dsimp only; split <;> decide, by dsimp only; split <;> decide, fun _ => ?_⟩
    refine .inr ⟨by dsimp only; decide, ?_⟩
    dsimp only
    split <;> omega
  rw [first]
  simp only [two, three, four, if_false]
  split <;> exact start_regular

theorem push_regular {d : Utf8Decoder} (regular : d.Regular) (b : UInt8) :
    (d.push b).2.Regular := by
  by_cases idle : d.needed = 0
  · simpa [push, idle] using first_regular b.toNat
  · by_cases fits : d.lower ≤ b.toNat ∧ b.toNat ≤ d.upper
    · by_cases last : d.needed = 1
      · rw [push_last last fits]
        exact start_regular
      · rw [push_more (show d.needed = (d.needed - 2) + 2 by omega) fits]
        have code := regular.code idle
        exact ⟨le_rfl, le_rfl, fun _ => .inl (by dsimp only; omega)⟩
    · rw [push_misfit idle fits]
      exact first_regular b.toNat

/-- A character in progress accounts for at most one replacement. -/
theorem replacements_decode_le {d : Utf8Decoder} (regular : d.Regular) (y : Bytes) :
    replacements (d.decode y) ≤ 1 + replacements (start.decode y) := by
  induction y generalizing d with
  | nil =>
    rw [decode]
    split
    · simp
    · exact replacements_cons_le _ _
  | cons b y ih =>
    by_cases idle : d.needed = 0
    · rw [decode_idle idle]
      omega
    · by_cases fits : d.lower ≤ b.toNat ∧ b.toNat ≤ d.upper
      · have continues : IsContinuation b :=
          ⟨regular.lower.trans fits.1, fits.2.trans regular.upper⟩
        have start_cons : start.decode (b :: y) = replacement :: start.decode y := by
          rw [decode_cons, push_start, first_continuation continues]
          rfl
        rw [start_cons, replacements_cons_self, decode_cons]
        by_cases last : d.needed = 1
        · rw [push_last last fits]
          have one := replacements_cons_le (Char.ofNat (d.codePoint * 64 + (b.toNat - 0x80)))
            (start.decode y)
          change replacements (_ :: start.decode y) ≤ _
          omega
        · have next := ih (push_regular regular b)
          rw [push_more (show d.needed = (d.needed - 2) + 2 by omega) fits] at next ⊢
          rw [List.nil_append]
          omega
      · rw [decode_cons, push_misfit idle fits, List.cons_append, replacements_cons_self,
          decode_cons, push_start]

/-- Decoding two pieces on their own gives no fewer replacements. -/
theorem replacements_decode_append {d : Utf8Decoder} (regular : d.Regular) (x y : Bytes) :
    replacements (d.decode (x ++ y)) ≤
      replacements (d.decode x) + replacements (start.decode y) := by
  induction x generalizing d with
  | nil =>
    by_cases idle : d.needed = 0
    · rw [List.nil_append, decode_idle idle]
      omega
    · rw [List.nil_append, decode_nil idle]
      have one := replacements_decode_le regular y
      have self := replacements_cons_self []
      rw [replacements_nil] at self
      omega
  | cons b x ih =>
    have next := ih (push_regular regular b)
    rw [List.cons_append, decode_cons, decode_cons, replacements_append, replacements_append]
    omega

end Utf8Decoder

/-! ## Line feeds -/

namespace Utf8Decoder

theorem ofNat_ne_lineFeed {n : Nat} (other : n ≠ 10) : Char.ofNat n ≠ '\n' := by
  intro same
  by_cases valid : n.isValidChar
  · rw [Char.ofNat, dif_pos valid] at same
    have code := congrArg Char.toNat same
    exact other code
  · rw [Char.ofNat, dif_neg valid] at same
    exact absurd same (by decide)

theorem count_first (b : UInt8) : (first b.toNat).1.count '\n' = [b].count 10 := by
  have none : ∀ t : Text, '\n' ∉ t → b.toNat ≠ 10 → t.count '\n' = [b].count 10 := by
    intro t absent other
    have differ : (10 : UInt8) ≠ b := by
      rintro rfl
      exact other rfl
    rw [List.count_eq_zero_of_not_mem absent, List.count_singleton,
      if_neg (by simpa using differ.symm)]
  by_cases lineFeed : b.toNat = 10
  · obtain rfl : b = 10 := UInt8.toNat_inj.mp lineFeed
    rfl
  · refine none _ ?_ lineFeed
    rw [first]
    repeat' split
    · simpa using (ofNat_ne_lineFeed lineFeed).symm
    all_goals simp [replacement]

/-- A line feed stands for itself and for nothing else. -/
theorem count_push {d : Utf8Decoder} (regular : d.Regular) (b : UInt8) :
    (d.push b).1.count '\n' = [b].count 10 := by
  by_cases idle : d.needed = 0
  · have same : d.push b = first b.toNat := by simp [push, idle]
    rw [same, count_first]
  · by_cases fits : d.lower ≤ b.toNat ∧ b.toNat ≤ d.upper
    · have differ : b ≠ 10 := by
        rintro rfl
        have lower := regular.lower.trans fits.1
        exact absurd lower (by decide)
      rw [List.count_singleton, if_neg (by simpa using differ)]
      by_cases last : d.needed = 1
      · have code := regular.code idle
        rw [push_last last fits]
        have other : Char.ofNat (d.codePoint * 64 + (b.toNat - 0x80)) ≠ '\n' :=
          ofNat_ne_lineFeed (by omega)
        exact List.count_eq_zero_of_not_mem (by simpa using other.symm)
      · rw [push_more (show d.needed = (d.needed - 2) + 2 by omega) fits]
        rfl
    · rw [push_misfit idle fits, List.count_cons_of_ne (by decide), count_first]

theorem count_decode {d : Utf8Decoder} (regular : d.Regular) (bytes : Bytes) :
    (d.decode bytes).count '\n' = bytes.count 10 := by
  induction bytes generalizing d with
  | nil =>
    rw [decode]
    split <;> rfl
  | cons b rest ih =>
    have split : (b :: rest).count 10 = [b].count 10 + rest.count 10 := by
      rw [← List.count_append, List.singleton_append]
    rw [decode_cons, List.count_append, count_push regular, ih (push_regular regular b), split]

/-- A line feed ends any character in progress. -/
theorem decode_lineFeed {d : Utf8Decoder} (regular : d.Regular) (u : Bytes) :
    ∃ s, ∀ x, d.decode (u ++ 10 :: x) = s ++ '\n' :: start.decode x := by
  induction u generalizing d with
  | nil =>
    by_cases idle : d.needed = 0
    · refine ⟨[], fun x => ?_⟩
      rw [List.nil_append, decode_idle idle]
      rfl
    · have misfit : ¬ (d.lower ≤ (10 : UInt8).toNat ∧ (10 : UInt8).toNat ≤ d.upper) := by
        rintro ⟨lower, -⟩
        exact absurd (regular.lower.trans lower) (by decide)
      refine ⟨[replacement], fun x => ?_⟩
      rw [List.nil_append, decode_cons, push_misfit idle misfit]
      rfl
  | cons b u ih =>
    obtain ⟨s, decoded⟩ := ih (push_regular regular b)
    exact ⟨(d.push b).1 ++ s, fun x => by
      rw [List.cons_append, decode_cons, decoded, List.append_assoc]⟩

end Utf8Decoder

/-- A cut inside a character of well-formed UTF-8 shows as more replacements. -/
theorem replacements_cut {t : Text} {x y : Bytes} (whole : x ++ y = utf8Encode t)
    (cut : ∀ s, x ≠ utf8Encode s) :
    replacements t < replacements (start.decode x) + replacements (start.decode y) := by
  induction t generalizing x with
  | nil =>
    obtain ⟨rfl, -⟩ := List.append_eq_nil_iff.mp whole
    exact absurd rfl (cut [])
  | cons c t ih =>
    change x ++ y = String.utf8EncodeChar c ++ utf8Encode t at whole
    rcases List.append_eq_append_iff.mp whole with ⟨q, octets, rest⟩ | ⟨x', rfl, rest⟩
    · -- the cut is in `c`
      have left : x ≠ [] := cut []
      have right : q ≠ [] := by
        rintro rfl
        exact cut [c] (by simpa [utf8Encode] using octets.symm)
      obtain ⟨before, after⟩ := utf8EncodeChar_cut octets.symm left right
      have tail : start.decode y = List.replicate q.length replacement ++ t := by
        rw [rest, decode_continuation after, decode_whole]
      have one := replacements_cons_le c t
      have some := List.length_pos_iff.mpr right
      have single : replacements [replacement] = 1 := rfl
      have many : replacements (List.replicate q.length replacement) = q.length :=
        List.count_replicate_self
      rw [before, tail, replacements_append, single, many]
      omega
    · have later := ih rest.symm fun s hs => cut (c :: s) (by rw [hs]; rfl)
      rw [decode_char, replacements, replacements, List.count_cons, List.count_cons,
        ← replacements, ← replacements]
      omega

/-- What follows well-formed UTF-8 in well-formed UTF-8 is well formed. -/
theorem utf8Encode_append_inv {s t : Text} {y : Bytes}
    (whole : utf8Encode s ++ y = utf8Encode t) : ∃ t', t = s ++ t' ∧ y = utf8Encode t' := by
  refine ⟨start.decode y, ?_, ?_⟩
  · rw [← decode_utf8Encode, whole, decode_whole]
  · have both : utf8Encode t = utf8Encode s ++ utf8Encode (start.decode y) := by
      rw [utf8Encode, utf8Encode, utf8Encode, ← List.flatMap_append, ← decode_utf8Encode, whole,
        decode_whole]
    exact List.append_cancel_left (whole.trans both)

end Protospy
