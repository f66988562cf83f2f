import Protospy.Lib.Keyed
import Protospy.Server.Events

/-!
# Captured header lists (`event.rs`)

A list of fields is made from a header map that it consumes or from one that it
borrows. Consuming iteration names only the first value of each name.
-/

namespace Protospy

namespace HeaderMap

/-- Borrowing iteration: every value comes with its name. -/
def iter (m : HeaderMap) : List (HeaderName × HeaderValue) :=
  m.entries.flatMap fun e => e.values.map fun v => (e.name, v)

/-- No name is repeated. -/
def SingleValued (m : HeaderMap) : Prop := ∀ name, (m.getAll name).length ≤ 1

theorem singleValued_iff (m : HeaderMap) : m.SingleValued ↔ ∀ e ∈ m.entries, e.rest = [] := by
  constructor
  · intro single e member
    have few := single e.name
    rw [getAll, Keyed.find?_key m.distinct member, Option.map_some, Option.getD_some,
      HeaderEntry.values, List.length_cons] at few
    exact List.length_eq_zero_iff.mp (by omega)
  · intro alone name
    rw [getAll]
    cases found : m.entries.find? fun e => e.name = name with
    | none => simp
    | some e => simp [HeaderEntry.values, alone e (List.mem_of_find?_eq_some found)]

end HeaderMap

namespace Headers

/-- `From<&HeaderMap>`. -/
def ofMapRef (map : HeaderMap) : Headers := map.iter.map fun p => ⟨p.1, p.2⟩

/-- The names and values that a list shows. -/
def pairs (headers : Headers) : List (HeaderName × HeaderValue) :=
  headers.map fun h => (h.name, h.value)

@[simp] theorem pairs_ofMapRef (map : HeaderMap) : (ofMapRef map).pairs = map.iter := by
  simp [pairs, ofMapRef, Function.comp_def]

theorem pairs_injective {headers headers' : Headers} (same : headers.pairs = headers'.pairs) :
    headers = headers' := by
  refine List.map_injective_iff.mpr (fun h h' eq => ?_) same
  cases h
  cases h'
  simpa using eq

/-- The first of what each element gives is all that they give only if none gives more. -/
theorem map_eq_flatMap_iff {α β : Type} (f : α → β) (more : α → List β) (xs : List α) :
    xs.map f = (xs.flatMap fun a => f a :: more a) ↔ ∀ a ∈ xs, more a = [] := by
  have least : ∀ ys : List α, ys.length ≤ (ys.flatMap fun a => f a :: more a).length := by
    intro ys
    induction ys with
    | nil => exact le_rfl
    | cons a ys ih =>
      rw [List.flatMap_cons, List.length_append, List.length_cons, List.length_cons]
      omega
  induction xs with
  | nil => simp
  | cons a xs ih =>
    rw [List.map_cons, List.flatMap_cons, List.cons_append, List.cons_inj_right,
      List.forall_mem_cons]
    constructor
    · intro same
      have lengths := congrArg List.length same
      rw [List.length_map, List.length_append] at lengths
      have rest := least xs
      have none : more a = [] := List.length_eq_zero_iff.mp (by omega)
      rw [none, List.nil_append] at same
      exact ⟨none, ih.mp same⟩
    · rintro ⟨none, others⟩
      rw [none, List.nil_append, ih.mpr others]

theorem pairs_ofMap_iff (map : HeaderMap) :
    (ofMap map).pairs = map.iter ↔ map.SingleValued := by
  have more := map_eq_flatMap_iff (fun e : HeaderEntry => (e.name, e.first))
    (fun e => e.rest.map fun v => (e.name, v)) map.entries
  simp only [List.map_eq_nil_iff] at more
  rw [map.singleValued_iff, ← more, ofMap_eq, pairs, List.map_map]
  rfl

theorem ofMap_eq_ofMapRef_iff (map : HeaderMap) : ofMap map = ofMapRef map ↔ map.SingleValued := by
  rw [← pairs_ofMap_iff]
  constructor
  · intro same
    rw [same, pairs_ofMapRef]
  · intro same
    exact pairs_injective (same.trans (pairs_ofMapRef map).symm)

end Headers

/-! ## The lists of an event -/

def Event.InitialBody.trailers {H : Type} : Event.InitialBody H → Option H
  | .data body => body.trailers
  | _ => none

theorem trailers_initialBodyFromFound (found : FoundBodyData) :
    (initialBodyFromFound found).trailers = found.trailers.map Headers.ofMap := by
  cases found <;> rfl

/-- The header list of an event and its trailer list, if it has one. -/
def ProxyEvent.fieldLists : ProxyEvent → List Headers
  | .request _ _ _ headers body => headers :: body.trailers.toList
  | .response _ _ headers _ body => headers :: body.trailers.toList
  | .bodyData body => body.trailers.toList
  | .error _ _ => []

theorem fieldLists_fromRequest (request : RequestParts) (found : FoundBodyData) :
    (ProxyEvent.fromRequest request found).fieldLists =
      (request.headers :: found.trailers.toList).map Headers.ofMap := by
  rw [ProxyEvent.fromRequest, ProxyEvent.fieldLists, trailers_initialBodyFromFound,
    Option.toList_map, List.map_cons]

theorem fieldLists_fromResponse (response : ResponseParts) (found : FoundBodyData)
    (elapsedMs : Int) :
    (ProxyEvent.fromResponse response found elapsedMs).fieldLists =
      (response.headers :: found.trailers.toList).map Headers.ofMap := by
  rw [ProxyEvent.fromResponse, ProxyEvent.fieldLists, trailers_initialBodyFromFound,
    Option.toList_map, List.map_cons]

theorem pairs_ofMap_lists_iff (maps : List HeaderMap) :
    (maps.map Headers.ofMap).map Headers.pairs = maps.map HeaderMap.iter ↔
      ∀ map ∈ maps, map.SingleValued := by
  induction maps with
  | nil => simp
  | cons map maps ih =>
    rw [List.forall_mem_cons, ← ih, ← Headers.pairs_ofMap_iff]
    simp

/-- A captured list has every field of the map exactly when no name is repeated in it.
Borrowing conversion always has. -/
theorem captured_lossless_iff (map : HeaderMap) (request : RequestParts)
    (response : ResponseParts) (found : FoundBodyData) (elapsedMs : Int) :
    (Headers.ofMapRef map).pairs = map.iter ∧
    ((Headers.ofMap map).pairs = map.iter ↔ map.SingleValued) ∧
    (Headers.ofMap map = Headers.ofMapRef map ↔ map.SingleValued) ∧
    ((ProxyEvent.fromRequest request found).fieldLists.map Headers.pairs =
        (request.headers :: found.trailers.toList).map HeaderMap.iter ↔
      ∀ map ∈ request.headers :: found.trailers.toList, map.SingleValued) ∧
    ((ProxyEvent.fromResponse response found elapsedMs).fieldLists.map Headers.pairs =
        (response.headers :: found.trailers.toList).map HeaderMap.iter ↔
      ∀ map ∈ response.headers :: found.trailers.toList, map.SingleValued) := by
  rw [fieldLists_fromRequest, fieldLists_fromResponse]
  exact ⟨Headers.pairs_ofMapRef map, Headers.pairs_ofMap_iff map,
    Headers.ofMap_eq_ofMapRef_iff map, pairs_ofMap_lists_iff _, pairs_ofMap_lists_iff _⟩

def HeaderName.setCookie : HeaderName := ⟨"set-cookie", by decide⟩

/-- `Set-Cookie: a` and `Set-Cookie: b`. -/
def twoCookies : HeaderMap :=
  (HeaderMap.new.append .setCookie ⟨[97], by decide⟩).append .setCookie ⟨[98], by decide⟩

theorem captured_twoCookies :
    (Headers.ofMap twoCookies).pairs ≠ twoCookies.iter ∧
    Headers.ofMap twoCookies ≠ Headers.ofMapRef twoCookies ∧
    (.setCookie, ⟨[98], by decide⟩) ∈ twoCookies.iter ∧
    (.setCookie, ⟨[98], by decide⟩) ∉ (Headers.ofMap twoCookies).pairs := by
  decide +kernel

end Protospy
