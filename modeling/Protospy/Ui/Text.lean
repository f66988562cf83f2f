import Protospy.Bindings

/-!
# Text in the UI

The string functions of JavaScript that the UI uses, on lists of characters, and
the decoder behind `TextDecoder`. Letter case is mapped for ASCII, which is all
that a header value sent by the proxy can hold.
-/

namespace Protospy

abbrev Text := List Char

namespace Text

/-- White space and line terminators. -/
def isWhitespace (c : Char) : Bool :=
  c.toNat ∈ [9, 10, 11, 12, 13, 32, 0xA0, 0x1680, 0x2028, 0x2029, 0x202F, 0x205F, 0x3000, 0xFEFF] ||
    (0x2000 ≤ c.toNat && c.toNat ≤ 0x200A)

def trimStart (t : Text) : Text := t.dropWhile isWhitespace

def trimEnd (t : Text) : Text := (t.reverse.dropWhile isWhitespace).reverse

def trim (t : Text) : Text := trimEnd (trimStart t)

def toLowerCase (t : Text) : Text := t.map Char.toLower

def includes (part : Text) : Text → Bool
  | [] => part.isEmpty
  | c :: rest => part.isPrefixOf (c :: rest) || includes part rest

end Text

/-! ## Decoding UTF-8 with replacement -/

/-- Between two bytes: how many continuation bytes are missing, the code point so
far, and the bounds of the next byte. -/
structure Utf8Decoder where
  needed : Nat
  codePoint : Nat
  lower : Nat
  upper : Nat
  deriving DecidableEq

namespace Utf8Decoder

def start : Utf8Decoder := ⟨0, 0, 0x80, 0xBF⟩

def replacement : Char := Char.ofNat 0xFFFD

/-- The first byte of a character. -/
def first (b : Nat) : Text × Utf8Decoder :=
  if b < 0x80 then ([Char.ofNat b], start)
  else if 0xC2 ≤ b ∧ b ≤ 0xDF then ([], ⟨1, b - 0xC0, 0x80, 0xBF⟩)
  else if 0xE0 ≤ b ∧ b ≤ 0xEF then
    ([], ⟨2, b - 0xE0, if b = 0xE0 then 0xA0 else 0x80, if b = 0xED then 0x9F else 0xBF⟩)
  else if 0xF0 ≤ b ∧ b ≤ 0xF4 then
    ([], ⟨3, b - 0xF0, if b = 0xF0 then 0x90 else 0x80, if b = 0xF4 then 0x8F else 0xBF⟩)
  else ([replacement], start)

/-- A byte that cannot continue the character is read again as a first byte. -/
def push (d : Utf8Decoder) (byte : UInt8) : Text × Utf8Decoder :=
  let b := byte.toNat
  if d.needed = 0 then first b
  else if d.lower ≤ b ∧ b ≤ d.upper then
    let codePoint := d.codePoint * 64 + (b - 0x80)
    if d.needed = 1 then ([Char.ofNat codePoint], start)
    else ([], ⟨d.needed - 1, codePoint, 0x80, 0xBF⟩)
  else
    let (out, next) := first b
    (replacement :: out, next)

/-- Decode the bytes and then the end of the input. -/
def decode : Utf8Decoder → Bytes → Text
  | d, [] => if d.needed = 0 then [] else [replacement]
  | d, b :: rest => (d.push b).1 ++ decode (d.push b).2 rest

end Utf8Decoder

/-- `new TextDecoder().decode`, which drops a byte order mark. -/
def textDecoderDecode (bytes : Bytes) : Text :=
  match Utf8Decoder.start.decode bytes with
  | c :: rest => if c = Char.ofNat 0xFEFF then rest else c :: rest
  | [] => []

end Protospy
