import Protospy.Ui.Text

/-!
# JSON values

Values as `JSON.parse` makes them and as `JSON.stringify` writes them. A string is
a list of UTF-16 code units and an object lists its own properties in the order in
which JavaScript enumerates them.
-/

namespace Protospy

abbrev JsString := List UInt16

namespace JsString

/-- A character outside the basic plane is a pair of surrogates. -/
def ofChar (c : Char) : JsString :=
  let n := c.toNat
  if n < 0x10000 then [n.toUInt16]
  else [(0xD800 + (n - 0x10000) / 0x400).toUInt16, (0xDC00 + (n - 0x10000) % 0x400).toUInt16]

def ofText (t : Text) : JsString := t.flatMap ofChar

def decimal (n : Nat) : JsString := ofText (Nat.toDigits 10 n)

def digitsValue (s : JsString) : Nat := s.foldl (fun n u => 10 * n + (u.toNat - 48)) 0

/-- An array index is the decimal form of a number below `2 ^ 32 - 1`. -/
def arrayIndex? (s : JsString) : Option Nat :=
  if decimal s.digitsValue = s ∧ s.digitsValue < 2 ^ 32 - 1 then some s.digitsValue else none

end JsString

/-- The code units of a string literal. -/
def js (s : String) : JsString := JsString.ofText s.toList

/-- Numbers with what JSON needs of them. -/
class JsNumber (N : Type*) where
  isFinite : N → Bool
  /-- `Number::toString`. -/
  toText : N → JsString
  /-- The number that a number literal of JSON stands for. -/
  ofLiteral : Text → N

/-- Integers as numbers, where no number has a fraction or needs an exponent. -/
instance : JsNumber Int where
  isFinite _ := true
  toText n := js (toString n)
  ofLiteral
    | '-' :: digits => -(digits.foldl (fun n c => 10 * n + (c.toNat - 48)) 0 : Nat)
    | digits => (digits.foldl (fun n c => 10 * n + (c.toNat - 48)) 0 : Nat)

inductive JsonPrimitive (N : Type*) where
  | null
  | boolean (b : Bool)
  | number (n : N)
  | string (s : JsString)
  deriving DecidableEq

inductive JsonValue (N : Type*) where
  | primitive (p : JsonPrimitive N)
  | array (items : List (JsonValue N))
  | object (entries : List (JsString × JsonValue N))

namespace JsonValue

variable {N : Type*}

abbrev null : JsonValue N := .primitive .null

abbrev string (s : JsString) : JsonValue N := .primitive (.string s)

/-- Induction with the hypothesis for every item and the value of every entry. -/
@[induction_eliminator]
theorem induct {P : JsonValue N → Prop} (primitive : ∀ p, P (primitive p))
    (array : ∀ items, (∀ v ∈ items, P v) → P (array items))
    (object : ∀ entries, (∀ e ∈ entries, P e.2) → P (object entries)) : ∀ v, P v
  | .primitive p => primitive p
  | .array items => array items fun v _ => induct primitive array object v
  | .object entries => object entries fun e _ => induct primitive array object e.2
termination_by v => sizeOf v
decreasing_by
  · rename_i member
    have smaller := List.sizeOf_lt_of_mem member
    simp only [JsonValue.array.sizeOf_spec]
    omega
  · rename_i member
    have smaller := List.sizeOf_lt_of_mem member
    have part : sizeOf e.2 < sizeOf e := by
      obtain ⟨key, value⟩ := e
      simp only [Prod.mk.sizeOf_spec]
      omega
    simp only [JsonValue.object.sizeOf_spec]
    omega

mutual

/-- The values in a value, itself first. -/
def subvalues : JsonValue N → List (JsonValue N)
  | .primitive p => [.primitive p]
  | .array items => .array items :: itemSubvalues items
  | .object entries => .object entries :: entrySubvalues entries

def itemSubvalues : List (JsonValue N) → List (JsonValue N)
  | [] => []
  | v :: items => subvalues v ++ itemSubvalues items

def entrySubvalues : List (JsString × JsonValue N) → List (JsonValue N)
  | [] => []
  | (_, v) :: entries => subvalues v ++ entrySubvalues entries

end

theorem itemSubvalues_eq (items : List (JsonValue N)) :
    itemSubvalues items = items.flatMap subvalues := by
  induction items with
  | nil => rfl
  | cons v items ih => rw [itemSubvalues, ih, List.flatMap_cons]

theorem entrySubvalues_eq (entries : List (JsString × JsonValue N)) :
    entrySubvalues entries = entries.flatMap fun e => subvalues e.2 := by
  induction entries with
  | nil => rfl
  | cons e entries ih => rw [entrySubvalues, ih, List.flatMap_cons]

@[simp] theorem subvalues_primitive (p : JsonPrimitive N) :
    subvalues (.primitive p) = [.primitive p] := rfl

@[simp] theorem subvalues_array (items : List (JsonValue N)) :
    subvalues (.array items) = .array items :: items.flatMap subvalues := by
  rw [subvalues, itemSubvalues_eq]

@[simp] theorem subvalues_object (entries : List (JsString × JsonValue N)) :
    subvalues (.object entries) = .object entries :: entries.flatMap fun e => subvalues e.2 := by
  rw [subvalues, entrySubvalues_eq]

/-- `typeof value === "object"` for a value that is not null. -/
def isStructural : JsonValue N → Bool
  | .primitive _ => false
  | _ => true

end JsonValue

/-! ## Own properties -/

/-- Array indices come first, in ascending order; other keys never come twice. -/
def KeyBefore (k k' : JsString) : Prop :=
  match k.arrayIndex?, k'.arrayIndex? with
  | some i, some j => i < j
  | some _, none => True
  | none, some _ => False
  | none, none => k ≠ k'

def OwnOrder {V : Type*} (entries : List (JsString × V)) : Prop :=
  entries.Pairwise fun e e' => KeyBefore e.1 e'.1

def indexBelow {V : Type*} (i : Nat) (e : JsString × V) : Bool :=
  match e.1.arrayIndex? with
  | some j => j < i
  | none => false

/-- Create an own property, or give an old one its new value. -/
def setProperty {V : Type*} (entries : List (JsString × V)) (key : JsString) (value : V) :
    List (JsString × V) :=
  if key ∈ entries.map Prod.fst then
    entries.map fun e => if e.1 = key then (key, value) else e
  else match key.arrayIndex? with
    | some i => entries.takeWhile (indexBelow i) ++ (key, value) :: entries.dropWhile (indexBelow i)
    | none => entries ++ [(key, value)]

namespace JsonValue

/-- Every object enumerates its properties in order. -/
def WellFormed {N : Type*} (v : JsonValue N) : Prop :=
  ∀ entries, .object entries ∈ v.subvalues → OwnOrder entries

end JsonValue

/-! ## `JSON.stringify` -/

namespace JSON

def hexDigit (n : Nat) : UInt16 := if n < 10 then (48 + n).toUInt16 else (87 + n).toUInt16

/-- `\u` and four digits. -/
def unicodeEscape (u : UInt16) : JsString :=
  js "\\u" ++ [hexDigit (u.toNat / 0x1000), hexDigit (u.toNat / 0x100 % 0x10),
    hexDigit (u.toNat / 0x10 % 0x10), hexDigit (u.toNat % 0x10)]

def isHighSurrogate (u : UInt16) : Bool := 0xD800 ≤ u && u ≤ 0xDBFF

def isLowSurrogate (u : UInt16) : Bool := 0xDC00 ≤ u && u ≤ 0xDFFF

/-- A code unit that is not one of a pair of surrogates. -/
def quoteUnit (u : UInt16) : JsString :=
  if u = 8 then js "\\b"
  else if u = 9 then js "\\t"
  else if u = 10 then js "\\n"
  else if u = 12 then js "\\f"
  else if u = 13 then js "\\r"
  else if u = 34 then js "\\\""
  else if u = 92 then js "\\\\"
  else if u < 32 || isHighSurrogate u || isLowSurrogate u then unicodeEscape u
  else [u]

def quoteUnits : JsString → JsString
  | [] => []
  | [u] => quoteUnit u
  | high :: low :: rest =>
    if isHighSurrogate high && isLowSurrogate low then high :: low :: quoteUnits rest
    else quoteUnit high ++ quoteUnits (low :: rest)

def quote (s : JsString) : JsString := js "\"" ++ quoteUnits s ++ js "\""

variable {N : Type*} [JsNumber N]

def serializePrimitive : JsonPrimitive N → JsString
  | .null => js "null"
  | .boolean b => js (if b then "true" else "false")
  | .number n => if JsNumber.isFinite n then JsNumber.toText n else js "null"
  | .string s => quote s

/-- The members of a container between its brackets. -/
def bracketed (openBracket closeBracket : String) (gap indent : JsString)
    (members : List JsString) : JsString :=
  if members = [] then js openBracket ++ js closeBracket
  else if gap = [] then js openBracket ++ (js ",").intercalate members ++ js closeBracket
  else js openBracket ++ js "\n" ++ (indent ++ gap) ++
    (js ",\n" ++ (indent ++ gap)).intercalate members ++ js "\n" ++ indent ++ js closeBracket

mutual

def serialize (gap indent : JsString) : JsonValue N → JsString
  | .primitive p => serializePrimitive p
  | .array items => bracketed "[" "]" gap indent (serializeItems gap (indent ++ gap) items)
  | .object entries => bracketed "\x7b" "\x7d" gap indent (serializeEntries gap (indent ++ gap) entries)

def serializeItems (gap indent : JsString) : List (JsonValue N) → List JsString
  | [] => []
  | v :: items => serialize gap indent v :: serializeItems gap indent items

def serializeEntries (gap indent : JsString) : List (JsString × JsonValue N) → List JsString
  | [] => []
  | (key, v) :: entries =>
    (quote key ++ js (if gap = [] then ":" else ": ") ++ serialize gap indent v) ::
      serializeEntries gap indent entries

end

/-- `JSON.stringify(value, null, space)`. -/
def stringify (value : JsonValue N) (space : Nat) : JsString :=
  serialize (List.replicate space 32) [] value

end JSON

end Protospy
