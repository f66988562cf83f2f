import Protospy.Lib.Machine
import Protospy.Ui.Json
import Mathlib.Data.List.TakeWhile

/-!
# Parsing JSON

`JSON.parse` as a scanner that makes tokens of the characters and a machine that reads
the tokens, with a stack of the containers that are not closed.
-/

namespace Protospy

namespace JSON

variable {N : Type*} [JsNumber N]

/-! ## Tokens -/

inductive Token (N : Type*) where
  | openBracket
  | closeBracket
  | openBrace
  | closeBrace
  | comma
  | colon
  | primitive (p : JsonPrimitive N)

def punctuation? : Char → Option (Token N)
  | '[' => some .openBracket
  | ']' => some .closeBracket
  | '{' => some .openBrace
  | '}' => some .closeBrace
  | ',' => some .comma
  | ':' => some .colon
  | _ => none

def isSpace (c : Char) : Bool := c ∈ ['\t', '\n', '\r', ' ']

def exponentPart : Text → Bool
  | [] => true
  | c :: rest =>
    let digits := match rest with
      | '+' :: digits => digits
      | '-' :: digits => digits
      | digits => digits
    (c = 'e' || c = 'E') && !digits.isEmpty && digits.all Char.isDigit

def fractionPart : Text → Bool
  | '.' :: rest =>
    let (digits, rest) := rest.span Char.isDigit
    !digits.isEmpty && exponentPart rest
  | rest => exponentPart rest

def isNumberLiteral (t : Text) : Bool :=
  let unsigned := match t with
    | '-' :: rest => rest
    | rest => rest
  let (digits, rest) := unsigned.span Char.isDigit
  !digits.isEmpty && (digits = ['0'] || digits.head? ≠ some '0') && fractionPart rest

def wordToken? (word : Text) : Option (Token N) :=
  if word = "null".toList then some (.primitive .null)
  else if word = "true".toList then some (.primitive (.boolean true))
  else if word = "false".toList then some (.primitive (.boolean false))
  else if isNumberLiteral word then some (.primitive (.number (JsNumber.ofLiteral word)))
  else none

/-- The code unit that a character after a backslash stands for, but for `u`. -/
def escaped? : Char → Option UInt16
  | '"' => some 34
  | '\\' => some 92
  | '/' => some 47
  | 'b' => some 8
  | 'f' => some 12
  | 'n' => some 10
  | 'r' => some 13
  | 't' => some 9
  | _ => none

def hexValue? (c : Char) : Option Nat :=
  if c.isDigit then some (c.toNat - 48)
  else if 'a' ≤ c ∧ c ≤ 'f' then some (c.toNat - 87)
  else if 'A' ≤ c ∧ c ≤ 'F' then some (c.toNat - 55)
  else none

/-- What the scanner has read of a token that goes on. -/
inductive Scanner where
  | between
  | word (read : Text)
  | string (read : JsString)
  | escape (read : JsString)
  | unicode (read : JsString) (digits : List Nat)

/-- The token that ends before white space, punctuation, a string or the end. -/
def Scanner.leave : Scanner → Option (List (Token N))
  | .between => some []
  | .word read => (wordToken? read).map fun token => [token]
  | _ => none

def Scanner.push (state : Scanner) (c : Char) : Option (List (Token N) × Scanner) :=
  match state with
  | .string read =>
    if c = '"' then some ([.primitive (.string read)], .between)
    else if c = '\\' then some ([], .escape read)
    else if c.toNat < 32 then none
    else some ([], .string (read ++ JsString.ofChar c))
  | .escape read =>
    if c = 'u' then some ([], .unicode read [])
    else (escaped? c).map fun u => ([], .string (read ++ [u]))
  | .unicode read digits =>
    (hexValue? c).map fun digit =>
      if digits.length < 3 then ([], .unicode read (digits ++ [digit]))
      else
        ([], .string (read ++ [((digits ++ [digit]).foldl (fun n d => 16 * n + d) 0).toUInt16]))
  | .between | .word _ =>
    if isSpace c then state.leave.map fun tokens => (tokens, .between)
    else if c = '"' then state.leave.map fun tokens => (tokens, .string [])
    else match punctuation? c, state with
      | some token, _ => state.leave.map fun tokens => (tokens ++ [token], .between)
      | none, .word read => some ([], .word (read ++ [c]))
      | none, _ => some ([], .word [c])

def scan : Scanner → Text → Option (List (Token N))
  | state, [] => state.leave
  | state, c :: rest => (state.push c).bind fun (tokens, next) =>
    (scan next rest).map fun more => tokens ++ more

/-! ## Values -/

/-- A container that is not closed, with what it has before the value that comes next. -/
inductive Frame (N : Type*) where
  | array (items : List (JsonValue N))
  | object (entries : List (JsString × JsonValue N)) (key : JsString)

/-- What the parser has read and what it reads next. -/
inductive Parser (N : Type*) where
  | atValue (frames : List (Frame N))
  | atFirstItem (frames : List (Frame N))
  | atFirstKey (frames : List (Frame N))
  | atKey (frames : List (Frame N)) (entries : List (JsString × JsonValue N))
  | atColon (frames : List (Frame N)) (entries : List (JsString × JsonValue N)) (key : JsString)
  | afterItem (frames : List (Frame N)) (items : List (JsonValue N))
  | afterEntry (frames : List (Frame N)) (entries : List (JsString × JsonValue N))
  | done (value : JsonValue N)

/-- Put a value that was read where it belongs. -/
def deliver (value : JsonValue N) : List (Frame N) → Parser N
  | [] => .done value
  | .array items :: frames => .afterItem frames (items ++ [value])
  | .object entries key :: frames => .afterEntry frames (setProperty entries key value)

def readValue (frames : List (Frame N)) : Token N → Option (Parser N)
  | .primitive p => some (deliver (.primitive p) frames)
  | .openBracket => some (.atFirstItem frames)
  | .openBrace => some (.atFirstKey frames)
  | _ => none

def Parser.step : Parser N → Token N → Option (Parser N)
  | .atValue frames, token => readValue frames token
  | .atFirstItem frames, .closeBracket => some (deliver (.array []) frames)
  | .atFirstItem frames, token => readValue (.array [] :: frames) token
  | .atFirstKey frames, .closeBrace => some (deliver (.object []) frames)
  | .atFirstKey frames, .primitive (.string key) => some (.atColon frames [] key)
  | .atKey frames entries, .primitive (.string key) => some (.atColon frames entries key)
  | .atColon frames entries key, .colon => some (.atValue (.object entries key :: frames))
  | .afterItem frames items, .comma => some (.atValue (.array items :: frames))
  | .afterItem frames items, .closeBracket => some (deliver (.array items) frames)
  | .afterEntry frames entries, .comma => some (.atKey frames entries)
  | .afterEntry frames entries, .closeBrace => some (deliver (.object entries) frames)
  | _, _ => none

def Parser.result? : Parser N → Option (JsonValue N)
  | .done value => some value
  | _ => none

/-- `JSON.parse`, where `none` is a `SyntaxError`. -/
def parse (text : Text) : Option (JsonValue N) :=
  (scan .between text).bind fun tokens =>
    (Machine.run Parser.step (.atValue []) tokens).bind Parser.result?

end JSON

/-! ## The order of own properties -/

theorem arrayIndex?_injective {k k' : JsString} {i : Nat} (hk : k.arrayIndex? = some i)
    (hk' : k'.arrayIndex? = some i) : k = k' := by
  have canonical : ∀ key : JsString, key.arrayIndex? = some i → JsString.decimal i = key := by
    intro key index
    rw [JsString.arrayIndex?] at index
    split at index
    · rename_i both
      rw [← Option.some.inj index]
      exact both.1
    · cases index
  rw [← canonical k hk, ← canonical k' hk']

section OwnProperties

variable {V : Type*}

theorem OwnOrder.keys_ne {entries : List (JsString × V)} (ordered : OwnOrder entries) :
    entries.Pairwise fun e e' => e.1 ≠ e'.1 := by
  refine ordered.imp fun {e e'} before same => ?_
  rw [KeyBefore, ← same] at before
  cases index : e.1.arrayIndex? <;> simp [index] at before

/-- A key goes behind the keys before it. -/
theorem ownOrder_concat {entries : List (JsString × V)} {key : JsString} {value : V} :
    OwnOrder (entries ++ [(key, value)]) ↔
      OwnOrder entries ∧ ∀ e ∈ entries, KeyBefore e.1 key := by
  simp [OwnOrder, List.pairwise_append]

theorem keyBefore_of_indexBelow {i : Nat} {e : JsString × V} {key : JsString}
    (index : key.arrayIndex? = some i) (below : indexBelow i e = true) : KeyBefore e.1 key := by
  rw [indexBelow] at below
  cases hj : e.1.arrayIndex? with
  | none => simp [hj] at below
  | some j => simpa [KeyBefore, hj, index] using below

theorem keyBefore_of_not_indexBelow {i : Nat} {e : JsString × V} {key : JsString}
    (index : key.arrayIndex? = some i) (other : e.1 ≠ key) (above : indexBelow i e = false) :
    KeyBefore key e.1 := by
  rw [indexBelow] at above
  cases hj : e.1.arrayIndex? with
  | none => simp [KeyBefore, hj, index]
  | some j =>
    have apart : i ≠ j := by
      rintro rfl
      exact other (arrayIndex?_injective hj index)
    have least : i ≤ j := by simpa [hj] using above
    simp only [KeyBefore, hj, index]
    omega

/-- Everything after a key that is no smaller index is no smaller either. -/
theorem indexBelow_dropWhile {i : Nat} {entries : List (JsString × V)}
    (ordered : OwnOrder entries) :
    ∀ e ∈ entries.dropWhile (indexBelow i), indexBelow i e = false := by
  induction entries with
  | nil => simp
  | cons e entries ih =>
    rw [OwnOrder, List.pairwise_cons] at ordered
    cases below : indexBelow i e with
    | true =>
      rw [List.dropWhile_cons_of_pos below]
      exact ih ordered.2
    | false =>
      rw [List.dropWhile_cons_of_neg (by simp [below])]
      intro e' member
      rcases List.mem_cons.mp member with rfl | later
      · exact below
      · have after := ordered.1 e' later
        rw [indexBelow] at below ⊢
        rw [KeyBefore] at after
        cases hj : e.1.arrayIndex? <;> cases hj' : e'.1.arrayIndex? <;>
          simp [hj, hj'] at below after ⊢
        omega

theorem setProperty_ownOrder {entries : List (JsString × V)} (ordered : OwnOrder entries)
    (key : JsString) (value : V) : OwnOrder (setProperty entries key value) := by
  rw [setProperty]
  split
  · refine List.pairwise_map.mpr (ordered.imp fun {e e'} before => ?_)
    have named : ∀ e : JsString × V, (if e.1 = key then (key, value) else e).1 = e.1 := by
      intro e
      split
      · rename_i same
        exact same.symm
      · rfl
    rwa [named, named]
  · rename_i fresh
    have other : ∀ e ∈ entries, e.1 ≠ key := by
      rintro e member rfl
      exact fresh (List.mem_map_of_mem member)
    split
    · rename_i i index
      have whole := List.takeWhile_append_dropWhile (p := indexBelow i) (l := entries)
      have below : ∀ e ∈ entries.takeWhile (indexBelow i), indexBelow i e = true :=
        fun e member => List.mem_takeWhile_imp member
      have above := indexBelow_dropWhile (i := i) ordered
      have parts := ordered
      rw [OwnOrder, ← whole, List.pairwise_append] at parts
      rw [OwnOrder, List.pairwise_append, List.pairwise_cons]
      refine ⟨parts.1, ⟨fun e member => ?_, parts.2.1⟩, fun e before e' after => ?_⟩
      · exact keyBefore_of_not_indexBelow index
          (other e ((List.dropWhile_sublist _).subset member)) (above e member)
      · rcases List.mem_cons.mp after with rfl | later
        · exact keyBefore_of_indexBelow index (below e before)
        · exact parts.2.2 e before e' later
    · rename_i noIndex
      refine ownOrder_concat.mpr ⟨ordered, fun e member => ?_⟩
      rw [KeyBefore, noIndex]
      cases e.1.arrayIndex? with
      | some _ => trivial
      | none => exact other e member

/-- In order, every property is put behind those before it. -/
theorem setProperty_concat {entries : List (JsString × V)} {key : JsString} {value : V}
    (ordered : OwnOrder (entries ++ [(key, value)])) :
    setProperty entries key value = entries ++ [(key, value)] := by
  have before := (ownOrder_concat.mp ordered).2
  have fresh : key ∉ entries.map Prod.fst := by
    intro member
    obtain ⟨e, inside, rfl⟩ := List.mem_map.mp member
    have apart := (List.pairwise_append.mp ordered.keys_ne).2.2 e inside _ (List.mem_singleton_self _)
    exact apart rfl
  rw [setProperty, if_neg fresh]
  split
  · rename_i i index
    have below : ∀ e ∈ entries, indexBelow i e = true := by
      intro e member
      have smaller := before e member
      rw [KeyBefore, index] at smaller
      cases hj : e.1.arrayIndex? with
      | none => simp [hj] at smaller
      | some j => simpa [indexBelow, hj] using smaller
    rw [List.takeWhile_eq_self_iff.mpr below, List.dropWhile_eq_nil_iff.mpr below]
  · rfl

end OwnProperties

/-! ## What is parsed is well formed -/

namespace JsonValue

variable {N : Type*}

@[simp] theorem wellFormed_primitive (p : JsonPrimitive N) :
    (primitive p).WellFormed := by
  simp [WellFormed]

theorem wellFormed_array {items : List (JsonValue N)} :
    (array items).WellFormed ↔ ∀ v ∈ items, v.WellFormed := by
  simp only [WellFormed, subvalues_array, List.mem_cons, reduceCtorEq, false_or, List.mem_flatMap]
  constructor
  · intro h v hv entries inside
    exact h entries ⟨v, hv, inside⟩
  · rintro h entries ⟨v, hv, inside⟩
    exact h v hv entries inside

theorem wellFormed_object {entries : List (JsString × JsonValue N)} :
    (object entries).WellFormed ↔ OwnOrder entries ∧ ∀ e ∈ entries, e.2.WellFormed := by
  simp only [WellFormed, subvalues_object, List.mem_cons, object.injEq, List.mem_flatMap]
  constructor
  · intro h
    exact ⟨h entries (.inl rfl), fun e he inner inside => h inner (.inr ⟨e, he, inside⟩)⟩
  · rintro ⟨ordered, h⟩ inner (rfl | ⟨e, he, inside⟩)
    · exact ordered
    · exact h e he inner inside

end JsonValue

namespace JSON

variable {N : Type*}

def Frame.WellFormed : Frame N → Prop
  | .array items => (JsonValue.array items).WellFormed
  | .object entries _ => (JsonValue.object entries).WellFormed

def Parser.WellFormed : Parser N → Prop
  | .atValue frames | .atFirstItem frames | .atFirstKey frames => ∀ f ∈ frames, f.WellFormed
  | .atKey frames entries | .atColon frames entries _ | .afterEntry frames entries =>
    (∀ f ∈ frames, f.WellFormed) ∧ (JsonValue.object entries).WellFormed
  | .afterItem frames items => (∀ f ∈ frames, f.WellFormed) ∧ (JsonValue.array items).WellFormed
  | .done value => value.WellFormed

theorem setProperty_wellFormed {entries : List (JsString × JsonValue N)} {value : JsonValue N}
    (wf : (JsonValue.object entries).WellFormed) (key : JsString) (hvalue : value.WellFormed) :
    (JsonValue.object (setProperty entries key value)).WellFormed := by
  obtain ⟨ordered, each⟩ := JsonValue.wellFormed_object.mp wf
  refine JsonValue.wellFormed_object.mpr ⟨setProperty_ownOrder ordered key value, ?_⟩
  intro e member
  have cases_ : e.2 = value ∨ e ∈ entries := by
    rw [setProperty] at member
    split at member
    · obtain ⟨old, inside, rfl⟩ := List.mem_map.mp member
      split
      · exact .inl rfl
      · exact .inr inside
    · split at member
      · rcases List.mem_append.mp member with before | here
        · exact .inr ((List.takeWhile_sublist _).subset before)
        · rcases List.mem_cons.mp here with rfl | after
          · exact .inl rfl
          · exact .inr ((List.dropWhile_sublist _).subset after)
      · rcases List.mem_append.mp member with before | here
        · exact .inr before
        · exact .inl (by rw [List.mem_singleton.mp here])
  rcases cases_ with same | old
  · rwa [same]
  · exact each e old

theorem deliver_wellFormed {value : JsonValue N} {frames : List (Frame N)}
    (hvalue : value.WellFormed) (hframes : ∀ f ∈ frames, f.WellFormed) :
    (deliver value frames).WellFormed := by
  cases frames with
  | nil => exact hvalue
  | cons frame frames =>
    obtain ⟨hframe, rest⟩ := List.forall_mem_cons.mp hframes
    cases frame with
    | array items =>
      refine ⟨rest, JsonValue.wellFormed_array.mpr ?_⟩
      rw [List.forall_mem_append, List.forall_mem_singleton]
      exact ⟨JsonValue.wellFormed_array.mp hframe, hvalue⟩
    | object entries key => exact ⟨rest, setProperty_wellFormed hframe key hvalue⟩

theorem emptyArray_wellFormed : (JsonValue.array ([] : List (JsonValue N))).WellFormed :=
  JsonValue.wellFormed_array.mpr (by simp)

theorem emptyObject_wellFormed :
    (JsonValue.object ([] : List (JsString × JsonValue N))).WellFormed :=
  JsonValue.wellFormed_object.mpr ⟨List.Pairwise.nil, by simp⟩

theorem readValue_wellFormed {frames : List (Frame N)} {token : Token N} {next : Parser N}
    (hframes : ∀ f ∈ frames, f.WellFormed) (read : readValue frames token = some next) :
    next.WellFormed := by
  cases token <;> cases read
  · exact hframes
  · exact hframes
  · exact deliver_wellFormed (JsonValue.wellFormed_primitive _) hframes

theorem step_wellFormed {parser next : Parser N} {token : Token N} (wf : parser.WellFormed)
    (step : parser.step token = some next) : next.WellFormed := by
  unfold Parser.step at step
  split at step
  · exact readValue_wellFormed wf step
  · cases step
    exact deliver_wellFormed emptyArray_wellFormed wf
  · have empty : (Frame.array ([] : List (JsonValue N))).WellFormed := emptyArray_wellFormed
    exact readValue_wellFormed (List.forall_mem_cons.mpr ⟨empty, wf⟩) step
  · cases step
    exact deliver_wellFormed emptyObject_wellFormed wf
  · cases step
    exact ⟨wf, emptyObject_wellFormed⟩
  · cases step
    exact wf
  · cases step
    exact List.forall_mem_cons.mpr ⟨wf.2, wf.1⟩
  · cases step
    exact List.forall_mem_cons.mpr ⟨wf.2, wf.1⟩
  · cases step
    exact deliver_wellFormed wf.2 wf.1
  · cases step
    exact wf
  · cases step
    exact deliver_wellFormed wf.2 wf.1
  · cases step

theorem parse_wellFormed [JsNumber N] {text : Text} {value : JsonValue N} (parsed : parse text = some value) :
    value.WellFormed := by
  obtain ⟨tokens, -, read⟩ := Option.bind_eq_some_iff.mp parsed
  obtain ⟨parser, ran, result⟩ := Option.bind_eq_some_iff.mp read
  have wf : parser.WellFormed := by
    refine Machine.run_invariant (fun _ _ _ => step_wellFormed) ?_ ran
    intro frame none
    cases none
  cases parser <;> cases result
  exact wf

end JSON

end Protospy
