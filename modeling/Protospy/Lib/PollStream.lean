import Mathlib.Data.Set.Insert
import Mathlib.Data.Set.Image
import Mathlib.Tactic.Common

/-!
# Poll-driven streams and the items they yield

A stream is polled; it answers that it is pending, that it has an item, or that
it has ended. When each answer comes is up to the environment, so it is part of
the state. Two streams carry the same items when they have the same trace: the
set of finite observations (items so far, whether the end was seen) that some
number of polls makes. The trace forgets pending answers and nothing else.
-/

namespace PollStream

universe u v w

inductive Poll (α : Type u) where
  | pending
  | ready (value : α)
  deriving DecidableEq, Repr

/-- `ready none` is the end of the stream. -/
class AsyncStream (σ : Type u) (ι : outParam (Type v)) where
  pollNext : σ → Poll (Option ι) × σ

export AsyncStream (pollNext)

/-- What a consumer has seen: the items in order, and whether the stream ended. -/
abbrev Seen (ι : Type v) := List ι × Bool

def Seen.push {ι : Type v} (a : ι) (seen : Seen ι) : Seen ι := (a :: seen.1, seen.2)

variable {σ : Type u} {τ : Type w} {ι : Type v} [AsyncStream σ ι] [AsyncStream τ ι]

/-- Poll `n` times, stopping at the end of the stream. -/
def drain : Nat → σ → Seen ι
  | 0, _ => ([], false)
  | n + 1, s => match pollNext s with
    | (.pending, t) => drain n t
    | (.ready (some a), t) => (drain n t).push a
    | (.ready none, _) => ([], true)

def trace (s : σ) : Set (Seen ι) := {seen | ∃ n, drain n s = seen}

/-- The observations of a stream that first yields `items` and then has trace `T`. -/
def after : List ι → Set (Seen ι) → Set (Seen ι)
  | [], T => T
  | a :: items, T => insert ([], false) (Seen.push a '' after items T)

/-- The trace of a stream that has ended. -/
def ended : Set (Seen ι) := {([], false), ([], true)}

@[simp] theorem after_nil (T : Set (Seen ι)) : after [] T = T := rfl

/-- A complete observation: exactly these items, then the end. -/
theorem mem_after_ended (items l : List ι) :
    (l, true) ∈ after items ended ↔ l = items := by
  induction items generalizing l with
  | nil => simp [ended]
  | cons a items ih =>
    constructor
    · rintro (h | ⟨⟨m, b⟩, hm, heq⟩)
      · simp at h
      · obtain ⟨rfl, rfl⟩ : a :: m = l ∧ b = true := by simpa [Seen.push] using heq
        rw [(ih m).mp hm]
    · rintro rfl
      exact Or.inr ⟨(items, true), (ih items).mpr rfl, rfl⟩

/-- A complete observation of `items` and what follows starts with `items`. -/
theorem complete_mem_after {items l : List ι} {T : Set (Seen ι)} (h : (l, true) ∈ after items T) :
    ∃ rest, l = items ++ rest ∧ (rest, true) ∈ T := by
  induction items generalizing l with
  | nil => exact ⟨l, rfl, h⟩
  | cons a items ih =>
    rcases h with h | ⟨⟨m, b⟩, hm, heq⟩
    · simp at h
    · obtain ⟨rfl, rfl⟩ : a :: m = l ∧ b = true := by simpa [Seen.push] using heq
      obtain ⟨rest, rfl, hrest⟩ := ih hm
      exact ⟨rest, rfl, hrest⟩

theorem nil_mem_trace (s : σ) : (([], false) : Seen ι) ∈ trace s := ⟨0, rfl⟩

theorem mem_trace_of_drain (n : Nat) (s : σ) : drain n s ∈ trace s := ⟨n, rfl⟩

/-- Once the end was seen, more polls show nothing else. -/
theorem drain_complete {n : Nat} {s : σ} {l : List ι} (h : drain n s = (l, true)) (k : Nat) :
    drain (n + k) s = (l, true) := by
  induction n generalizing s l with
  | zero => cases h
  | succ n ih =>
    rw [Nat.add_right_comm]
    rcases hs : pollNext s with ⟨_ | _ | a, t⟩
    · simp only [drain, hs] at h ⊢
      exact ih h
    · simpa only [drain, hs] using h
    · simp only [drain, hs, Seen.push] at h ⊢
      obtain ⟨rfl, done⟩ : a :: (drain n t).1 = l ∧ (drain n t).2 = true := by simpa using h
      rw [ih (l := (drain n t).1) (by rw [← done])]

theorem complete_unique {s : σ} {l l' : List ι} (h : (l, true) ∈ trace s)
    (h' : (l', true) ∈ trace s) : l = l' := by
  obtain ⟨n, hn⟩ := h
  obtain ⟨m, hm⟩ := h'
  have same : ((l, true) : Seen ι) = (l', true) := by
    rw [← drain_complete hn m, ← drain_complete hm n, Nat.add_comm]
  exact congrArg Prod.fst same

section Equations

theorem trace_pending {s t : σ} (h : pollNext s = (.pending, t)) : trace s = trace t := by
  ext seen
  constructor
  · rintro ⟨n, rfl⟩
    cases n with
    | zero => exact nil_mem_trace t
    | succ n => exact ⟨n, by simp only [drain, h]⟩
  · rintro ⟨n, rfl⟩
    exact ⟨n + 1, by simp only [drain, h]⟩

theorem trace_item {s t : σ} {a : ι} (h : pollNext s = (.ready (some a), t)) :
    trace s = after [a] (trace t) := by
  ext seen
  constructor
  · rintro ⟨n, rfl⟩
    cases n with
    | zero => exact Or.inl rfl
    | succ n => exact Or.inr ⟨drain n t, mem_trace_of_drain n t, by simp only [drain, h]⟩
  · rintro (rfl | ⟨_, ⟨n, rfl⟩, rfl⟩)
    · exact nil_mem_trace s
    · exact ⟨n + 1, by simp only [drain, h]⟩

theorem trace_end {s t : σ} (h : pollNext s = (.ready none, t)) : trace s = ended := by
  ext seen
  constructor
  · rintro ⟨n, rfl⟩
    cases n with
    | zero => exact Or.inl rfl
    | succ n => exact Or.inr (by simp only [drain, h, Set.mem_singleton_iff])
  · rintro (rfl | rfl)
    · exact nil_mem_trace s
    · exact ⟨1, by simp only [drain, h]⟩

end Equations

/-- Polled `k` times without an answer, `s` becomes `t`. -/
inductive Stalls : Nat → σ → σ → Prop where
  | zero (s : σ) : Stalls 0 s s
  | succ {k : Nat} {s t r : σ} (h : pollNext s = (.pending, t)) (rest : Stalls k t r) :
      Stalls (k + 1) s r

namespace Stalls

theorem trace_eq {k : Nat} {s t : σ} (h : Stalls k s t) : trace s = trace t := by
  induction h with
  | zero => rfl
  | succ h _ ih => rw [trace_pending h, ih]

theorem drain_lt {k n : Nat} {s t : σ} (h : Stalls k s t) (hn : n ≤ k) :
    drain n s = ([], false) := by
  induction h generalizing n with
  | zero => obtain rfl : n = 0 := by omega
            rfl
  | succ h _ ih =>
    cases n with
    | zero => rfl
    | succ n => simpa only [drain, h] using ih (by omega)

theorem drain_add {k : Nat} {s t : σ} (h : Stalls k s t) (n : Nat) :
    drain (k + n) s = drain n t := by
  induction h with
  | zero => rw [Nat.zero_add]
  | succ h _ ih => rw [Nat.add_right_comm]; simp only [drain, h, ih]

/-- A poll of a stalling state either stays in the stall or reaches past it. -/
theorem drain_cases {k : Nat} {s t : σ} (h : Stalls k s t) (n : Nat) :
    drain n s = ([], false) ∨ ∃ j, n = k + (j + 1) ∧ drain n s = drain (j + 1) t := by
  by_cases hn : n ≤ k
  · exact Or.inl (h.drain_lt hn)
  · obtain ⟨j, rfl⟩ : ∃ j, n = k + (j + 1) := ⟨n - (k + 1), by omega⟩
    exact Or.inr ⟨j, rfl, h.drain_add (j + 1)⟩

/-- Two states with the same next answer stall alike. -/
theorem transfer {k : Nat} {s t m : σ} (same : pollNext s = pollNext t) (h : Stalls k t m) :
    ∃ m', Stalls k s m' ∧ pollNext m' = pollNext m := by
  cases h with
  | zero => exact ⟨s, .zero s, same⟩
  | succ h rest => exact ⟨m, .succ (same.trans h) rest, rfl⟩

end Stalls

/-- The state after `n` polls. -/
def polled : Nat → σ → σ
  | 0, s => s
  | n + 1, s => (pollNext (polled n s)).2

/-- The answers that were not pending among the first `n`. -/
def answers : Nat → σ → List (Option ι)
  | 0, _ => []
  | n + 1, s => answers n s ++ match (pollNext (polled n s)).1 with
    | .pending => []
    | .ready answer => [answer]

theorem answers_pending {n : Nat} {s t : σ} (h : pollNext (polled n s) = (.pending, t)) :
    polled (n + 1) s = t ∧ answers (n + 1) s = answers n s := by
  simp [polled, answers, h]

theorem answers_ready {n : Nat} {s t : σ} {answer : Option ι}
    (h : pollNext (polled n s) = (.ready answer, t)) :
    polled (n + 1) s = t ∧ answers (n + 1) s = answers n s ++ [answer] := by
  simp [polled, answers, h]

/-- What `t` must do, possibly after stalling, when `s` answers `answer` and
becomes `s'`. A pending answer has to be matched by at least one poll. -/
def Follows (R : σ → τ → Prop) (answer : Poll (Option ι)) (s' : σ) (t : τ) : Prop :=
  match answer with
  | .pending => ∃ k t', Stalls (k + 1) t t' ∧ R s' t'
  | .ready (some a) => ∃ k m t', Stalls k t m ∧
      pollNext m = (.ready (some a), t') ∧ R s' t'
  | .ready none => ∃ k m t', Stalls k t m ∧ pollNext m = (.ready none, t')

/-- A simulation that only adds finite delays preserves the trace. -/
theorem trace_eq_of_simulation (R : σ → τ → Prop)
    (follows : ∀ s t, R s t → Follows R (pollNext s).1 (pollNext s).2 t)
    {s : σ} {t : τ} (start : R s t) : trace s = trace t := by
  ext seen
  constructor
  · rintro ⟨n, rfl⟩
    induction n generalizing s t with
    | zero => exact nil_mem_trace t
    | succ n ih =>
      have step := follows s t start
      rcases hs : pollNext s with ⟨answer, s'⟩
      rw [hs] at step
      match answer, step with
      | .pending, ⟨k, t', stall, hR⟩ =>
        rw [stall.trace_eq]
        simpa only [drain, hs] using ih hR
      | .ready (some a), ⟨k, m, t', stall, hm, hR⟩ =>
        rw [stall.trace_eq, trace_item hm]
        exact Or.inr ⟨_, ih hR, by simp only [drain, hs]⟩
      | .ready none, ⟨k, m, t', stall, hm⟩ =>
        rw [stall.trace_eq, trace_end hm]
        exact Or.inr (by simp only [drain, hs, Set.mem_singleton_iff])
  · rintro ⟨n, rfl⟩
    induction n using Nat.strong_induction_on generalizing s t with
    | _ n ih =>
      have step := follows s t start
      rcases hs : pollNext s with ⟨answer, s'⟩
      rw [hs] at step
      match answer, step with
      | .pending, ⟨k, t', stall, hR⟩ =>
        rw [trace_pending hs]
        obtain early | ⟨j, rfl, late⟩ := stall.drain_cases n
        · rw [early]
          exact nil_mem_trace s'
        · rw [late]
          exact ih (j + 1) (by omega) hR
      | .ready (some a), ⟨k, m, t', stall, hm, hR⟩ =>
        rw [trace_item hs]
        obtain early | ⟨j, rfl, late⟩ := stall.drain_cases n
        · rw [early]
          exact Or.inl rfl
        · rw [late]
          exact Or.inr ⟨_, ih j (by omega) hR, by simp only [drain, hm]⟩
      | .ready none, ⟨k, m, t', stall, hm⟩ =>
        rw [trace_end hs]
        obtain early | ⟨j, rfl, late⟩ := stall.drain_cases n
        · rw [early]
          exact Or.inl rfl
        · rw [late]
          exact Or.inr (by simp only [drain, hm, Set.mem_singleton_iff])

/-- A stream whose state type is forgotten. -/
structure Boxed (ι : Type v) : Type (max (u + 1) v) where
  {State : Type u}
  [stream : AsyncStream State ι]
  state : State

instance : AsyncStream (Boxed.{u} ι) ι where
  pollNext b :=
    let _ := b.stream
    ((pollNext b.state).1, ⟨(pollNext b.state).2⟩)

@[simp] theorem drain_boxed (n : Nat) (s : σ) : drain n (Boxed.mk s) = drain n s := by
  induction n generalizing s with
  | zero => rfl
  | succ n ih =>
    have h : pollNext (Boxed.mk s) = ((pollNext s).1, Boxed.mk (pollNext s).2) := rfl
    rw [drain, drain, h]
    rcases pollNext s with ⟨_ | _ | a, s'⟩ <;> simp only [ih]

@[simp] theorem trace_boxed (s : σ) : trace (Boxed.mk s) = trace s := by
  ext seen
  simp only [trace, drain_boxed, Set.mem_ofPred_eq]

end PollStream
