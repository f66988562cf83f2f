import Protospy.Ui.Reducer

/-!
# One body in the store

Each message concerns at most one body of one exchange. The state of a body
after a list of messages is a fold over the messages that concern it, and for a
body that is not an event stream it is read off their contents.
-/

namespace Protospy

open Event (BodyContent BodyData InitialBody)
open Wire (ProxyHeaders)

/-- What a message says about a body. -/
inductive BodyReport where
  | head (headers : ProxyHeaders) (initial : InitialBody ProxyHeaders)
  | data (body : BodyData ProxyHeaders)

namespace BodyReport

def ofMessage? (id : Nat) (direction : Direction) (msg : Wire.EventMessage) :
    Option BodyReport :=
  if msg.exchange.exchangeId = id then
    match msg.event, direction with
    | .request _ _ _ headers body, .request => some (.head headers body)
    | .response _ _ headers _ body, .response => some (.head headers body)
    | .bodyData body, direction => if msg.direction = direction then some (.data body) else none
    | _, _ => none
  else none

def step (prev : Option BodyState) : BodyReport → Option BodyState
  | .head headers initial => initialBodyToState initial headers
  | .data body => some (appendBodyData prev body)

def body? : BodyReport → Option (BodyData ProxyHeaders)
  | .head _ (.data body) => some body
  | .head _ _ => none
  | .data body => some body

def isHead : BodyReport → Bool
  | .head _ _ => true
  | .data _ => false

end BodyReport

namespace Ui

def Store.body (store : Store) (id : Nat) (direction : Direction) : Option BodyState :=
  (store.exchanges id).bind fun ex => ex.body direction

theorem apply_body (store : Store) (msg : Wire.EventMessage) (id : Nat) (direction : Direction) :
    (apply store msg).body id direction =
      match BodyReport.ofMessage? id direction msg with
      | some report => report.step (store.body id direction)
      | none => store.body id direction := by
  obtain ⟨exchange, side, event⟩ := msg
  by_cases same : exchange.exchangeId = id
  · subst same
    have before : store.body exchange.exchangeId direction =
        ((store.exchanges exchange.exchangeId).getD
          (.fresh exchange.exchangeId exchange.timestamp)).body direction := by
      rw [Store.body]
      cases store.exchanges exchange.exchangeId with
      | some ex => rfl
      | none => cases direction <;> rfl
    rw [before]
    simp only [apply, Store.body, Function.update_self, Option.bind_some, BodyReport.ofMessage?,
      if_true]
    cases event <;> cases direction <;> cases side <;> rfl
  · simp [apply, Store.body, BodyReport.ofMessage?, same, Function.update_of_ne (Ne.symm same)]

theorem foldl_apply_body (store : Store) (msgs : List Wire.EventMessage) (id : Nat)
    (direction : Direction) :
    (msgs.foldl apply store).body id direction =
      (msgs.filterMap (BodyReport.ofMessage? id direction)).foldl BodyReport.step
        (store.body id direction) := by
  induction msgs generalizing store with
  | nil => rfl
  | cons msg msgs ih =>
    rw [List.foldl_cons, ih, apply_body, List.filterMap_cons]
    cases BodyReport.ofMessage? id direction msg <;> rfl

end Ui

/-! ## Bodies that keep their chunks -/

section Raw

variable {H : Type}

def chunksOf (bodies : List (BodyData H)) : List BodyChunk :=
  bodies.flatMap fun body => body.payload?.toList

def lastAtEnd (bodies : List (BodyData H)) : Bool :=
  (bodies.getLast?.map fun body => body.atEnd).getD false

def lastTotal (bodies : List (BodyData H)) : Nat :=
  (bodies.getLast?.map fun body => body.totalBytes).getD 0

@[simp] theorem lastAtEnd_concat (bodies : List (BodyData H)) (body : BodyData H) :
    lastAtEnd (bodies ++ [body]) = body.atEnd := by simp [lastAtEnd]

@[simp] theorem lastTotal_concat (bodies : List (BodyData H)) (body : BodyData H) :
    lastTotal (bodies ++ [body]) = body.totalBytes := by simp [lastTotal]

end Raw

/-- A body without an event stream holds the payloads received, with the end
flag and the total of the last one. -/
def Accumulates (bodies : List (BodyData ProxyHeaders)) : Option BodyState → Prop
  | none => bodies = []
  | some b => b.sseState = none →
      b.chunks = chunksOf bodies ∧ b.atEnd = lastAtEnd bodies ∧ b.wireBytes = lastTotal bodies

theorem appendBodyData_accumulates {bodies : List (BodyData ProxyHeaders)}
    {prev : Option BodyState} (h : Accumulates bodies prev) (event : BodyData ProxyHeaders) :
    Accumulates (bodies ++ [event]) (some (appendBodyData prev event)) := by
  intro raw
  cases prev with
  | none =>
    obtain rfl : bodies = [] := h
    simp [appendBodyData, BodyState.seed, chunksOf, lastAtEnd, lastTotal]
  | some b =>
    cases sse : b.sseState with
    | some state => simp [appendBodyData, sse] at raw
    | none =>
      obtain ⟨chunks, -, -⟩ := h sse
      simp [appendBodyData, sse, chunks, chunksOf]

theorem initialBodyToState_accumulates (headers : ProxyHeaders)
    (initial : InitialBody ProxyHeaders) :
    Accumulates (BodyReport.head headers initial).body?.toList
      (initialBodyToState initial headers) := by
  cases initial with
  | noBody => rfl
  | notRead => exact fun _ => ⟨rfl, rfl, rfl⟩
  | data body =>
    by_cases sse : isSSEContentType (getHeader headers "content-type") = true
    · simp [Accumulates, initialBodyToState, sse]
    · simp [Accumulates, initialBodyToState, sse, BodyReport.body?, chunksOf, lastAtEnd, lastTotal]

theorem foldl_data_accumulates {reports : List BodyReport} (data : ∀ r ∈ reports, r.isHead = false)
    {bodies : List (BodyData ProxyHeaders)} {prev : Option BodyState}
    (h : Accumulates bodies prev) :
    Accumulates (bodies ++ reports.filterMap BodyReport.body?)
      (reports.foldl BodyReport.step prev) := by
  induction reports generalizing bodies prev with
  | nil => simpa using h
  | cons r reports ih =>
    cases r with
    | head headers initial => cases data _ List.mem_cons_self
    | data body =>
      have next := ih (fun r hr => data r (List.mem_cons_of_mem _ hr))
        (appendBodyData_accumulates h body)
      simpa [BodyReport.body?, BodyReport.step] using next

/-- Reports in which only the first can be a head. -/
theorem foldl_accumulates {reports : List BodyReport} (data : ∀ r ∈ reports.tail, r.isHead = false) :
    Accumulates (reports.filterMap BodyReport.body?) (reports.foldl BodyReport.step none) := by
  cases reports with
  | nil => rfl
  | cons r reports =>
    have first : Accumulates r.body?.toList (r.step none) := by
      cases r with
      | head headers initial => exact initialBodyToState_accumulates headers initial
      | data body => exact appendBodyData_accumulates (show Accumulates [] none from rfl) body
    have all := foldl_data_accumulates data first
    cases h : r.body? <;> simpa [h] using all

end Protospy
