import Mathlib.Data.List.Basic

/-!
# A bounded broadcast channel

Every receiver sees every value that is sent after it subscribed, from a ring
that keeps the last `capacity` of them. A receiver is the position it reads
next; one that has fallen further behind than the ring is told how many values
it missed and goes on with the oldest that is left.
-/

namespace Broadcast

universe u

variable {α : Type u}

structure Channel (α : Type u) where
  capacity : Nat
  sent : List α

/-- What receiving gives: a value, or the number of values that were missed. -/
inductive Received (α : Type u) where
  | message (a : α)
  | lagged (missed : Nat)

def Received.message? : Received α → Option α
  | .message a => some a
  | .lagged _ => none

theorem Received.message?_cons (a : α) (received : List (Received α)) :
    (Received.message a :: received).filterMap Received.message? =
      a :: received.filterMap Received.message? := rfl

namespace Channel

def new (capacity : Nat) : Channel α := ⟨capacity, []⟩

def subscribe (c : Channel α) : Nat := c.sent.length

def send (c : Channel α) (a : α) : Channel α := { c with sent := c.sent ++ [a] }

/-- The next value for the receiver at `position`, and its position after that;
`none` while it has to wait. -/
def recv (c : Channel α) (position : Nat) : Option (Received α × Nat) :=
  if position + c.capacity < c.sent.length then
    some (.lagged (c.sent.length - c.capacity - position), c.sent.length - c.capacity)
  else (c.sent[position]?).map fun a => (.message a, position + 1)

/-- The next value is no longer in the ring. -/
def Lags (c : Channel α) (position : Nat) : Prop := position + c.capacity < c.sent.length

theorem recv_message_iff (c : Channel α) (position after : Nat) (a : α) :
    c.recv position = some (.message a, after) ↔
      ¬ c.Lags position ∧ c.sent[position]? = some a ∧ after = position + 1 := by
  rw [recv, Lags]
  split
  · rename_i lags
    simp [lags]
  · rename_i kept
    simp only [kept, not_false_eq_true, true_and, Option.map_eq_some_iff]
    constructor
    · rintro ⟨b, hb, same⟩
      obtain ⟨rfl, rfl⟩ : b = a ∧ position + 1 = after := by simpa using same
      exact ⟨hb, rfl⟩
    · rintro ⟨hb, rfl⟩
      exact ⟨a, hb, rfl⟩

theorem recv_lagged {c : Channel α} {position after missed : Nat}
    (h : c.recv position = some (.lagged missed, after)) : c.Lags position := by
  rw [recv] at h
  split at h
  · assumption
  · obtain ⟨b, -, same⟩ := Option.map_eq_some_iff.mp h
    cases congrArg Prod.fst same

/-! ## What lies between two positions -/

/-- The values from one position to another. -/
def window (c : Channel α) (start stop : Nat) : List α := (c.sent.take stop).drop start

theorem window_self (c : Channel α) (start : Nat) : c.window start start = [] := by
  rw [window, List.drop_eq_nil_iff, List.length_take]
  exact Nat.min_le_left ..

theorem window_split (c : Channel α) {start mid stop : Nat} (early : start ≤ mid)
    (late : mid ≤ stop) (sent : mid ≤ c.sent.length) :
    c.window start stop = c.window start mid ++ c.window mid stop := by
  have front : (c.sent.take stop).take mid = c.sent.take mid := by
    rw [List.take_take, Nat.min_eq_left late]
  have whole : c.sent.take stop = c.sent.take mid ++ (c.sent.take stop).drop mid := by
    rw [← front, List.take_append_drop]
  rw [window, whole, List.drop_append_of_le_length (by rw [List.length_take]; omega)]
  rfl

theorem window_succ (c : Channel α) {position : Nat} {a : α} (next : c.sent[position]? = some a) :
    c.window position (position + 1) = [a] := by
  obtain ⟨bound, rfl⟩ := List.getElem?_eq_some_iff.mp next
  rw [window, List.take_add_one, next, Option.toList_some,
    List.drop_append_of_le_length (by rw [List.length_take]; omega),
    List.drop_eq_nil_of_le (by rw [List.length_take]; omega), List.nil_append]

theorem window_send (c : Channel α) (a : α) {start stop : Nat} (sent : stop ≤ c.sent.length) :
    (c.send a).window start stop = c.window start stop := by
  rw [window, window, send]
  dsimp only
  rw [List.take_append_of_le_length sent]

theorem length_window (c : Channel α) {start stop : Nat} (sent : stop ≤ c.sent.length) :
    (c.window start stop).length = stop - start := by
  rw [window, List.length_drop, List.length_take, Nat.min_eq_left sent]

theorem recv_lagged_eq {c : Channel α} {position after missed : Nat}
    (h : c.recv position = some (.lagged missed, after)) :
    position < after ∧ after ≤ c.sent.length ∧ missed = after - position := by
  rw [recv] at h
  split at h
  · rename_i lags
    obtain ⟨rfl, rfl⟩ : c.sent.length - c.capacity - position = missed ∧
        c.sent.length - c.capacity = after := by simpa using h
    omega
  · obtain ⟨b, -, same⟩ := Option.map_eq_some_iff.mp h
    cases congrArg Prod.fst same

end Channel

end Broadcast
