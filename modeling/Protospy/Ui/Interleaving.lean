import Protospy.Lib.Projection
import Protospy.Ui.Store

/-!
# The order of messages

An exchange falls into the fields of its request, those of its response and its
error. A message moves one of these parts of one exchange, so the order matters
only among the messages about the same part.
-/

namespace Protospy.Ui

open Projection (View)

/-- The part of an exchange that a message is about. -/
inductive Part where
  | side (direction : Direction)
  | error
  deriving DecidableEq

def partOf (msg : Wire.EventMessage) : Part :=
  match msg.event with
  | .request .. => .side .request
  | .response .. => .side .response
  | .bodyData _ => .side msg.direction
  | .error .. => .error

/-- The exchange with nothing but one part. -/
def Exchange.only (ex : Exchange) : Part → Exchange
  | .side .request => { Exchange.fresh 0 "" with
      method := ex.method
      uri := ex.uri
      version := ex.version
      requestHeaders := ex.requestHeaders
      requestBody := ex.requestBody
      traceId := ex.traceId }
  | .side .response => { Exchange.fresh 0 "" with
      status := ex.status
      responseVersion := ex.responseVersion
      responseHeaders := ex.responseHeaders
      elapsedMs := ex.elapsedMs
      responseBody := ex.responseBody }
  | .error => { Exchange.fresh 0 "" with error := ex.error }

theorem only_update_moved (ex : Exchange) {msg : Wire.EventMessage} {part : Part}
    (about : partOf msg = part) :
    (ex.update msg.direction msg.event).only part =
      ((ex.only part).update msg.direction msg.event).only part := by
  obtain ⟨exchange, direction, event⟩ := msg
  subst about
  cases event with
  | bodyData body => cases direction <;> rfl
  | _ => rfl

theorem only_update_still (ex : Exchange) {msg : Wire.EventMessage} {part : Part}
    (other : partOf msg ≠ part) :
    (ex.update msg.direction msg.event).only part = ex.only part := by
  obtain ⟨exchange, direction, event⟩ := msg
  rcases part with (_ | _) | _ <;> cases event <;> first
    | exact absurd rfl other
    | rfl
    | (cases direction <;> first | exact absurd rfl other | rfl)

/-- The parts and the metadata make up the exchange. -/
theorem Exchange.ext_parts {ex ex' : Exchange} (id : ex.id = ex'.id)
    (timestamp : ex.timestamp = ex'.timestamp) (parts : ∀ part, ex.only part = ex'.only part) :
    ex = ex' := by
  have request := parts (.side .request)
  have response := parts (.side .response)
  have error := parts .error
  cases ex
  cases ex'
  simp only [Exchange.only, Exchange.fresh, Exchange.mk.injEq] at *
  simp_all

/-- Whether a message is about a part of an exchange. -/
def concerns (id : Nat) (part : Part) (msg : Wire.EventMessage) : Bool :=
  msg.exchange.exchangeId = id ∧ partOf msg = part

theorem only_getD_fresh (prev : Option Exchange) (id : Nat) (timestamp : String) (part : Part) :
    (prev.getD (.fresh id timestamp)).only part = (prev.getD (.fresh 0 "")).only part := by
  cases prev with
  | some ex => rfl
  | none => rcases part with (_ | _) | _ <;> rfl

/-- One part of one exchange of the store. -/
def partView (id : Nat) (part : Part) : View apply Exchange where
  view := fun store => ((store.exchanges id).getD (.fresh 0 "")).only part
  moves := concerns id part
  next := fun ex msg => (ex.update msg.direction msg.event).only part
  view_moved := by
    intro store msg about
    obtain ⟨rfl, moved⟩ := of_decide_eq_true about
    rw [apply_self, Option.getD_some, only_update_moved _ moved, only_getD_fresh]
  view_still := by
    intro store msg other
    have apart := of_decide_eq_false other
    by_cases same : id = msg.exchange.exchangeId
    · subst same
      rw [apply_self, Option.getD_some, only_update_still _ fun about => apart ⟨rfl, about⟩,
        only_getD_fresh]
    · rw [apply_of_ne store same]

theorem Exchange.update_timestamp (ex : Exchange) (direction : Direction) (event : Wire.Event) :
    (ex.update direction event).timestamp = ex.timestamp := by
  cases event with
  | bodyData body => cases direction <;> rfl
  | _ => rfl

/-- Whether there is an exchange, and its metadata. -/
def metadataView (id : Nat) : View apply (Option (Nat × String)) where
  view := fun store => (store.exchanges id).map fun ex => (ex.id, ex.timestamp)
  moves := fun msg => msg.exchange.exchangeId = id
  next := fun prev msg => some (prev.getD (id, msg.exchange.timestamp))
  view_moved := by
    intro store msg about
    obtain rfl := of_decide_eq_true about
    rw [apply_self, Option.map_some, Exchange.update_id, Exchange.update_timestamp]
    cases store.exchanges msg.exchange.exchangeId <;> rfl
  view_still := by
    intro store msg other
    rw [apply_of_ne store (Ne.symm (of_decide_eq_false other))]

/-- The first message decides the metadata, and all others agree with it. -/
theorem metadata_foldl (id : Nat) {timestamp : String} {msgs : List Wire.EventMessage}
    (same : ∀ msg ∈ msgs, msg.exchange.timestamp = timestamp) (prev : Option (Nat × String)) :
    msgs.foldl (metadataView id).next prev =
      if msgs = [] then prev else some (prev.getD (id, timestamp)) := by
  induction msgs generalizing prev with
  | nil => rfl
  | cons msg msgs ih =>
    rw [List.foldl_cons, ih fun later member => same later (List.mem_cons_of_mem _ member)]
    have first := same msg List.mem_cons_self
    by_cases rest : msgs = [] <;> simp [rest, metadataView, first]

/-- The messages of both runs, and what is fixed of their order. -/
structure Shuffled (msgs msgs' : List Wire.EventMessage) : Prop where
  perm : msgs.Perm msgs'
  /-- Messages about one side of one exchange keep their order. -/
  ordered : ∀ id direction, msgs.filter (concerns id (.side direction)) =
    msgs'.filter (concerns id (.side direction))
  /-- All messages of an exchange carry the same metadata. -/
  metadata : ∀ msg ∈ msgs, ∀ other ∈ msgs,
    msg.exchange.exchangeId = other.exchange.exchangeId → msg.exchange = other.exchange
  /-- An exchange has at most one error. -/
  one_error : ∀ id, (msgs.filter (concerns id .error)).length ≤ 1

namespace Shuffled

variable {msgs msgs' : List Wire.EventMessage}

theorem filter_eq (h : Shuffled msgs msgs') (id : Nat) (part : Part) :
    msgs.filter (concerns id part) = msgs'.filter (concerns id part) := by
  cases part with
  | side direction => exact h.ordered id direction
  | error =>
    have perm := h.perm.filter (concerns id .error)
    have few := h.one_error id
    cases errors : msgs.filter (concerns id .error) with
    | nil =>
      rw [errors] at perm
      exact perm.nil_eq
    | cons msg rest =>
      rw [errors, List.length_cons] at few
      obtain rfl : rest = [] := List.eq_nil_of_length_eq_zero (by omega)
      rw [errors] at perm
      exact (List.singleton_perm.mp perm)

theorem metadata_eq (h : Shuffled msgs msgs') (store : Store) (id : Nat) :
    (metadataView id).view (msgs.foldl apply store) =
      (metadataView id).view (msgs'.foldl apply store) := by
  have perm := h.perm.filter (metadataView id).moves
  rw [View.view_foldl, View.view_foldl]
  cases about : msgs.filter (metadataView id).moves with
  | nil =>
    rw [about] at perm
    rw [← perm.nil_eq]
  | cons msg rest =>
    have agree : ∀ other ∈ msgs.filter (metadataView id).moves,
        other.exchange.timestamp = msg.exchange.timestamp := by
      intro other member
      have first : msg ∈ msgs.filter (metadataView id).moves := about ▸ List.mem_cons_self
      obtain ⟨here, same⟩ := List.mem_filter.mp member
      obtain ⟨there, same'⟩ := List.mem_filter.mp first
      have ids := (of_decide_eq_true same).trans (of_decide_eq_true same').symm
      rw [h.metadata other here msg there ids]
    rw [← about, metadata_foldl id agree,
      metadata_foldl id fun other member => agree other (perm.mem_iff.mpr member)]
    have empty : msgs.filter (metadataView id).moves = [] ↔
        msgs'.filter (metadataView id).moves = [] := by
      constructor
      · intro none_left
        rw [none_left] at perm
        exact perm.nil_eq.symm
      · intro none_left
        rw [none_left] at perm
        exact perm.eq_nil
    simp only [empty]

end Shuffled

/-- Without eviction the exchanges depend only on the order of the messages about
each side of each exchange. -/
theorem foldl_apply_shuffled (store : Store) (wf : store.WellFormed)
    (msgs msgs' : List Wire.EventMessage) (shuffled : Shuffled msgs msgs') :
    (msgs.foldl apply store).exchanges = (msgs'.foldl apply store).exchanges ∧
    ∀ id, id ∈ (msgs.foldl apply store).ids ↔ id ∈ (msgs'.foldl apply store).ids := by
  have same : (msgs.foldl apply store).exchanges = (msgs'.foldl apply store).exchanges := by
    funext id
    have metadata := shuffled.metadata_eq store id
    have parts := fun part =>
      (partView id part).view_foldl_congr store (shuffled.filter_eq id part)
    simp only [metadataView, partView] at metadata parts
    cases one : (msgs.foldl apply store).exchanges id with
    | none =>
      rw [one] at metadata
      exact (Option.map_eq_none_iff.mp metadata.symm).symm
    | some ex =>
      rw [one] at metadata parts
      obtain ⟨ex', other, infos⟩ := Option.map_eq_some_iff.mp metadata.symm
      rw [other] at parts ⊢
      obtain ⟨key, timestamp⟩ := Prod.mk.inj infos
      exact congrArg some (Exchange.ext_parts key.symm timestamp.symm parts)
  refine ⟨same, fun id => ?_⟩
  rw [(wf.foldl_apply msgs).mem_ids, (wf.foldl_apply msgs').mem_ids, same]

/-- The messages of an exchange without bodies. -/
def requestOf (id : Nat) : Wire.EventMessage :=
  ⟨⟨id, ""⟩, .request, .request "GET" "/" "1.1" [] .noBody⟩

def responseOf (id : Nat) : Wire.EventMessage :=
  ⟨⟨id, ""⟩, .response, .response "200" "1.1" [] 5 .noBody⟩

theorem foldl_apply_shuffled_late :
    ([requestOf 1, responseOf 1, requestOf 2].foldl apply .empty).exchanges =
      ([responseOf 1, requestOf 2, requestOf 1].foldl apply .empty).exchanges ∧
    ∀ id, id ∈ ([requestOf 1, responseOf 1, requestOf 2].foldl apply .empty).ids ↔
      id ∈ ([responseOf 1, requestOf 2, requestOf 1].foldl apply .empty).ids := by
  refine foldl_apply_shuffled .empty .empty _ _
    ⟨by decide, fun id direction => ?_, by decide, fun id => by simp [concerns, partOf, requestOf,
      responseOf]⟩
  by_cases first : id = 1
  · subst first
    cases direction <;> decide
  · cases direction <;>
      simp [concerns, partOf, requestOf, responseOf, Ne.symm first, List.filter_cons]

end Protospy.Ui
