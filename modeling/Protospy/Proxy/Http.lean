import Mathlib.Data.List.Nodup
import Mathlib.Tactic.Common

/-!
# Messages of the `http` crate

Header names and values, the header multimap, URIs and their parts, versions and
status codes, as far as the proxy reads them. The crate leaves the iteration
order of a header map open except that the values of one name stay together and
in order; the model keeps entries in insertion order.
-/

namespace Protospy

abbrev Bytes := List UInt8

/-- A header name in its normalized (lower-case) spelling. -/
structure HeaderName where
  text : String
  normal : text.toList.map Char.toLower = text.toList
  deriving DecidableEq, Repr

namespace HeaderName

def isToken (c : Char) : Bool :=
  c.isAlphanum || "!#$%&'*+-.^_".toList.contains c || c == '\x60' || c == '|' || c == '~'

theorem toLower_toLower (c : Char) : c.toLower.toLower = c.toLower := by
  unfold Char.toLower
  grind

/-- Parsing lower-cases a name and refuses one that is empty or not a token. -/
def fromStr (s : String) : Option HeaderName :=
  if s.toList ≠ [] ∧ s.toList.all isToken then
    some ⟨String.ofList (s.toList.map Char.toLower), by
      rw [String.toList_ofList, List.map_map]
      exact List.map_congr_left fun c _ => toLower_toLower c⟩
  else none

end HeaderName

namespace HeaderValue

/-- Control characters other than the tab are refused. -/
def isValid (b : UInt8) : Bool := (32 ≤ b && b != 127) || b == 9

end HeaderValue

structure HeaderValue where
  bytes : Bytes
  valid : bytes.all HeaderValue.isValid = true
  deriving DecidableEq

namespace HeaderValue

def isVisibleAscii (b : UInt8) : Bool := (32 ≤ b && b < 127) || b == 9

def ofBytes (bytes : Bytes) : Option HeaderValue :=
  if h : bytes.all isValid = true then some ⟨bytes, h⟩ else none

def fromStr (s : String) : Option HeaderValue := ofBytes s.toUTF8.toList

/-- The value as text, only if every byte is visible ASCII or a tab. -/
def toStr (v : HeaderValue) : Option String :=
  if v.bytes.all isVisibleAscii then
    some (String.ofList (v.bytes.map fun b => Char.ofNat b.toNat))
  else none

theorem toStr_isSome (v : HeaderValue) :
    v.toStr.isSome = true ↔ ∀ b ∈ v.bytes, isVisibleAscii b = true := by
  rw [← List.all_eq_true]
  cases h : v.bytes.all isVisibleAscii <;> simp [toStr, h]

end HeaderValue

/-- One name with all its values, of which there is at least one. -/
structure HeaderEntry where
  name : HeaderName
  first : HeaderValue
  rest : List HeaderValue
  deriving DecidableEq

def HeaderEntry.values (e : HeaderEntry) : List HeaderValue := e.first :: e.rest

structure HeaderMap where
  entries : List HeaderEntry
  distinct : (entries.map HeaderEntry.name).Nodup
  deriving DecidableEq

namespace HeaderMap

def new : HeaderMap := ⟨[], List.nodup_nil⟩

def getAll (m : HeaderMap) (name : HeaderName) : List HeaderValue :=
  ((m.entries.find? fun e => e.name = name).map HeaderEntry.values).getD []

def get (m : HeaderMap) (name : HeaderName) : Option HeaderValue := (m.getAll name).head?

def containsKey (m : HeaderMap) (name : HeaderName) : Bool :=
  m.entries.any fun e => e.name = name

def remove (m : HeaderMap) (name : HeaderName) : HeaderMap where
  entries := m.entries.filter fun e => e.name ≠ name
  distinct := m.distinct.sublist (List.filter_sublist.map _)

/-- Removal by text: a text that is no header name removes nothing. -/
def removeStr (m : HeaderMap) (text : String) : HeaderMap :=
  match HeaderName.fromStr text with
  | some name => m.remove name
  | none => m

theorem map_name_update (entries : List HeaderEntry) (name : HeaderName)
    (f : HeaderEntry → HeaderEntry) (keeps : ∀ e, (f e).name = e.name) :
    (entries.map fun e => if e.name = name then f e else e).map HeaderEntry.name =
      entries.map HeaderEntry.name := by
  rw [List.map_map]
  refine List.map_congr_left fun e _ => ?_
  by_cases h : e.name = name <;> simp [h, keeps]

theorem nodup_concat {m : HeaderMap} {name : HeaderName} (absent : m.containsKey name = false)
    (v : HeaderValue) :
    ((m.entries ++ [HeaderEntry.mk name v []]).map HeaderEntry.name).Nodup := by
  rw [List.map_append]
  refine m.distinct.append (List.nodup_singleton _) ?_
  simpa [containsKey, List.disjoint_singleton] using absent

/-- Apply `f` to the entry of `name`, or add the entry `⟨name, v, []⟩`. -/
def upsert (m : HeaderMap) (name : HeaderName) (v : HeaderValue)
    (f : HeaderEntry → HeaderEntry) (keeps : ∀ e, (f e).name = e.name) : HeaderMap :=
  if present : m.containsKey name = true then
    ⟨m.entries.map fun e => if e.name = name then f e else e, by
      rw [map_name_update m.entries name f keeps]; exact m.distinct⟩
  else
    ⟨m.entries ++ [⟨name, v, []⟩], nodup_concat (by simpa using present) v⟩

/-- Replace all values of the name. -/
def insert (m : HeaderMap) (name : HeaderName) (v : HeaderValue) : HeaderMap :=
  m.upsert name v (fun e => ⟨e.name, v, []⟩) fun _ => rfl

/-- Add a value after those of the name. -/
def append (m : HeaderMap) (name : HeaderName) (v : HeaderValue) : HeaderMap :=
  m.upsert name v (fun e => ⟨e.name, e.first, e.rest ++ [v]⟩) fun _ => rfl

theorem containsKey_append (m : HeaderMap) (name : HeaderName) (v : HeaderValue)
    (other : HeaderName) :
    (m.append name v).containsKey other = (m.containsKey other || name = other) := by
  rw [append, upsert]
  split
  · rename_i present
    have keys : (m.entries.map fun e =>
          if e.name = name then HeaderEntry.mk e.name e.first (e.rest ++ [v]) else e).any
          (fun e => e.name = other) = m.containsKey other := by
      rw [List.any_map, containsKey]
      congr 1
      funext e
      by_cases h : e.name = name <;> simp [h]
    change (List.any _ _) = _
    rw [keys]
    by_cases same : name = other
    · simp [← same, present]
    · simp [same]
  · simp [containsKey, List.any_append]

/-! ### The values of a name after an update -/

theorem containsKey_eq_false_iff (m : HeaderMap) (name : HeaderName) :
    m.containsKey name = false ↔ m.getAll name = [] := by
  rw [containsKey, getAll]
  cases found : m.entries.find? fun e => e.name = name with
  | none => simpa using found
  | some e =>
    have member := List.find?_some found
    have present := List.mem_of_find?_eq_some found
    simp only [HeaderEntry.values, Option.map_some, Option.getD_some, List.cons_ne_nil, iff_false,
      Bool.not_eq_false, List.any_eq_true]
    exact ⟨e, present, member⟩

@[simp] theorem getAll_remove (m : HeaderMap) (name other : HeaderName) :
    (m.remove name).getAll other = if other = name then [] else m.getAll other := by
  rw [getAll, remove, List.find?_filter, getAll]
  have keys : (fun e : HeaderEntry => decide (decide (e.name ≠ name) = true ∧
      decide (e.name = other) = true)) =
        fun e => decide (other ≠ name) && decide (e.name = other) := by
    funext e
    by_cases h : e.name = other <;> simp [h]
  rw [keys]
  by_cases same : other = name
  · have none : m.entries.find? (fun _ => false) = none := List.find?_eq_none.mpr (by simp)
    simp [same, none]
  · simp [same]

@[simp] theorem getAll_removeStr (m : HeaderMap) (text : String) (other : HeaderName) :
    (m.removeStr text).getAll other =
      if HeaderName.fromStr text = some other then [] else m.getAll other := by
  rw [removeStr]
  cases HeaderName.fromStr text with
  | none => simp
  | some name => simp [eq_comm]

theorem getAll_foldl_remove (names : List HeaderName) (m : HeaderMap) (other : HeaderName) :
    (names.foldl remove m).getAll other = if other ∈ names then [] else m.getAll other := by
  induction names generalizing m with
  | nil => simp
  | cons name names ih =>
    rw [List.foldl_cons, ih, getAll_remove]
    by_cases same : other = name <;> simp [same]

theorem getAll_foldl_removeStr (texts : List String) (m : HeaderMap) (other : HeaderName) :
    (texts.foldl removeStr m).getAll other =
      if some other ∈ texts.map HeaderName.fromStr then [] else m.getAll other := by
  induction texts generalizing m with
  | nil => simp
  | cons text texts ih =>
    rw [List.foldl_cons, ih, getAll_removeStr, List.map_cons]
    by_cases same : HeaderName.fromStr text = some other
    · simp [same]
    · simp [same, Ne.symm same]

theorem find?_update (entries : List HeaderEntry) (name : HeaderName)
    (f : HeaderEntry → HeaderEntry) (keeps : ∀ e, (f e).name = e.name) (other : HeaderName) :
    (entries.map fun e => if e.name = name then f e else e).find? (fun e => e.name = other) =
      (entries.find? fun e => e.name = other).map fun e => if other = name then f e else e := by
  induction entries with
  | nil => rfl
  | cons e entries ih =>
    have key : (if e.name = name then f e else e).name = e.name := by
      by_cases h : e.name = name <;> simp [h, keeps]
    rw [List.map_cons, List.find?_cons, List.find?_cons, key]
    by_cases here : e.name = other
    · simp [here]
    · simpa [here] using ih

theorem getAll_upsert (m : HeaderMap) (name : HeaderName) (v : HeaderValue)
    (f : HeaderEntry → HeaderEntry) (keeps : ∀ e, (f e).name = e.name) (other : HeaderName) :
    (m.upsert name v f keeps).getAll other =
      if other = name then
        match m.entries.find? fun e => e.name = name with
        | some e => (f e).values
        | none => [v]
      else m.getAll other := by
  rw [getAll, upsert, getAll]
  by_cases same : other = name
  · subst same
    cases found : m.entries.find? fun e => e.name = other with
    | none =>
      have absent : m.containsKey other = false := by
        simpa [containsKey] using found
      simp [absent, List.find?_append, found, HeaderEntry.values]
    | some e =>
      have matches_ : decide (e.name = other) = true := by
        simpa using List.find?_some found
      have present : m.containsKey other = true :=
        List.any_eq_true.mpr ⟨e, List.mem_of_find?_eq_some found, matches_⟩
      simp [present, find?_update m.entries other f keeps, found]
  · split
    · simp [find?_update m.entries name f keeps, same]
    · simp [List.find?_append, Ne.symm same]

@[simp] theorem getAll_insert (m : HeaderMap) (name : HeaderName) (v : HeaderValue)
    (other : HeaderName) :
    (m.insert name v).getAll other = if other = name then [v] else m.getAll other := by
  rw [insert, getAll_upsert]
  cases m.entries.find? fun e => e.name = name <;> rfl

@[simp] theorem getAll_append (m : HeaderMap) (name : HeaderName) (v : HeaderValue)
    (other : HeaderName) :
    (m.append name v).getAll other = m.getAll other ++ if other = name then [v] else [] := by
  rw [append, getAll_upsert]
  by_cases same : other = name
  · rw [same, getAll]
    cases m.entries.find? fun e => e.name = name <;> simp [HeaderEntry.values]
  · simp [same]

/-- Consuming iteration: the name comes with its first value only. -/
def intoIter (m : HeaderMap) : List (Option HeaderName × HeaderValue) :=
  m.entries.flatMap fun e => (some e.name, e.first) :: e.rest.map fun v => (none, v)

end HeaderMap

inductive Version where
  | http09
  | http10
  | http11
  | http2
  | http3
  deriving DecidableEq, Repr

structure StatusCode where
  code : Nat
  valid : 100 ≤ code ∧ code < 1000
  deriving DecidableEq

namespace StatusCode

def ok : StatusCode := ⟨200, by omega⟩

def badRequest : StatusCode := ⟨400, by omega⟩

def badGateway : StatusCode := ⟨502, by omega⟩

def asStr (s : StatusCode) : String := toString s.code

end StatusCode

/-- An absent authority is the empty text; `pathAndQuery` is empty when the URI
has none. -/
structure Uri where
  scheme : Option String
  authority : String
  pathAndQuery : String
  deriving DecidableEq, Repr

structure UriParts where
  scheme : Option String
  authority : Option String
  pathAndQuery : Option String
  deriving DecidableEq, Repr

namespace Uri

def hasPath (u : Uri) : Bool := u.pathAndQuery ≠ "" || u.scheme.isSome

def intoParts (u : Uri) : UriParts where
  scheme := u.scheme
  authority := if u.authority = "" then none else some u.authority
  pathAndQuery := if u.hasPath then some u.pathAndQuery else none

/-- A scheme needs an authority and a path; both of these need a scheme. -/
def fromParts (p : UriParts) : Option Uri :=
  let built : Uri := ⟨p.scheme, p.authority.getD "", p.pathAndQuery.getD ""⟩
  match p.scheme with
  | some _ => if p.authority.isSome ∧ p.pathAndQuery.isSome then some built else none
  | none => if p.authority.isSome ∧ p.pathAndQuery.isSome then none else some built

def pathAndQuery? (u : Uri) : Option String :=
  if u.scheme.isSome ∨ u.authority = "" then some u.pathAndQuery else none

def path (u : Uri) : List Char :=
  if u.hasPath then
    let before := u.pathAndQuery.toList.takeWhile (· ≠ '?')
    if before = [] then ['/'] else before
  else []

def query (u : Uri) : Option (List Char) :=
  match u.pathAndQuery.toList.dropWhile (· ≠ '?') with
  | [] => none
  | _ :: rest => some rest

def toText (u : Uri) : String :=
  ((u.scheme.map (· ++ "://")).getD "") ++ u.authority ++ String.ofList u.path ++
    ((u.query.map fun q => "?" ++ String.ofList q).getD "")

end Uri

/-- `http::request::Parts`. -/
structure RequestParts where
  method : String
  uri : Uri
  version : Version
  headers : HeaderMap

/-- `http::response::Parts`. -/
structure ResponseParts where
  status : StatusCode
  version : Version
  headers : HeaderMap

universe u

structure Request (β : Type u) where
  parts : RequestParts
  body : β

structure Response (β : Type u) where
  parts : ResponseParts
  body : β

end Protospy
