import Mathlib.Data.List.Induction
import Mathlib.Tactic.Common

/-!
# Runs of a partial step function

A machine is a partial function `step : σ → α → Option σ`: an action is either
refused or leads to one state. A run is a list of actions, so a statement about
every run is a statement about every order of the steps of all parties.
-/

namespace Machine

universe u v

variable {σ : Type u} {α : Type v}

/-- Take the actions in order; `none` as soon as one of them is refused. -/
def run (step : σ → α → Option σ) : σ → List α → Option σ
  | s, [] => some s
  | s, a :: rest => (step s a).bind fun t => run step t rest

variable {step : σ → α → Option σ}

@[simp] theorem run_nil (s : σ) : run step s [] = some s := rfl

@[simp] theorem run_cons (s : σ) (a : α) (rest : List α) :
    run step s (a :: rest) = (step s a).bind fun t => run step t rest := rfl

theorem run_append (s : σ) (before after : List α) :
    run step s (before ++ after) = (run step s before).bind fun t => run step t after := by
  induction before generalizing s with
  | nil => rfl
  | cons a rest ih =>
    cases h : step s a with
    | none => simp [h]
    | some t => simpa [h] using ih t

theorem run_concat_some {s t : σ} {acts : List α} {a : α} :
    run step s (acts ++ [a]) = some t ↔
      ∃ m, run step s acts = some m ∧ step m a = some t := by
  simp [run_append, Option.bind_eq_some_iff]

/-- A property kept by every step holds at the end of every run. -/
theorem run_invariant {P : σ → Prop}
    (preserved : ∀ s a t, P s → step s a = some t → P t)
    {s t : σ} {acts : List α} (start : P s) (h : run step s acts = some t) : P t := by
  induction acts generalizing s with
  | nil =>
    obtain rfl : s = t := by simpa using h
    exact start
  | cons a rest ih =>
    obtain ⟨m, hm, hrest⟩ := Option.bind_eq_some_iff.mp h
    exact ih (preserved s a m start hm) hrest

/-- The same for a property of the state and of the actions taken so far. -/
theorem run_history {P : List α → σ → Prop} {s : σ} (start : P [] s)
    (preserved : ∀ acts m a t, run step s acts = some m → P acts m →
      step m a = some t → P (acts ++ [a]) t)
    {t : σ} {acts : List α} (h : run step s acts = some t) : P acts t := by
  induction acts using List.reverseRecOn generalizing t with
  | nil =>
    obtain rfl : s = t := by simpa using h
    exact start
  | append_singleton acts a ih =>
    obtain ⟨m, hm, hstep⟩ := run_concat_some.mp h
    exact preserved acts m a t hm (ih hm) hstep

/-- Where each step lowers a measure, the measure bounds the length of a run. -/
theorem run_length_add_le {R : α → Prop} (measure : σ → Nat)
    (lower : ∀ s a t, R a → step s a = some t → measure t < measure s)
    {s t : σ} {acts : List α} (all : ∀ a ∈ acts, R a) (h : run step s acts = some t) :
    acts.length + measure t ≤ measure s := by
  induction acts generalizing s with
  | nil =>
    obtain rfl : s = t := by simpa using h
    simp
  | cons a rest ih =>
    obtain ⟨m, hm, hrest⟩ := Option.bind_eq_some_iff.mp h
    have later := ih (fun b hb => all b (List.mem_cons_of_mem _ hb)) hrest
    have first := lower s a m (all a List.mem_cons_self) hm
    rw [List.length_cons]
    omega

/-- Some action of the run was taken in a state in which `Q` held of the two. -/
def Takes (step : σ → α → Option σ) (Q : σ → α → Prop) (s : σ) (acts : List α) : Prop :=
  ∃ before a after m, acts = before ++ a :: after ∧ run step s before = some m ∧ Q m a

theorem not_takes_nil (Q : σ → α → Prop) (s : σ) : ¬ Takes step Q s [] := by
  rintro ⟨before, a, after, m, split, -⟩
  simp at split

theorem takes_concat {Q : σ → α → Prop} {s m : σ} {acts : List α} {a : α}
    (reached : run step s acts = some m) :
    Takes step Q s (acts ++ [a]) ↔ Takes step Q s acts ∨ Q m a := by
  constructor
  · rintro ⟨before, b, after, m', split, reached', hQ⟩
    rcases List.eq_nil_or_concat after with rfl | ⟨init, last, rfl⟩
    · obtain ⟨rfl, rfl⟩ : acts = before ∧ a = b := by simpa using split
      obtain rfl : m = m' := by simpa [reached] using reached'
      exact .inr hQ
    · rw [List.concat_eq_append, ← List.cons_append, ← List.append_assoc] at split
      exact .inl ⟨before, b, init, m', (List.append_inj' split rfl).1, reached', hQ⟩
  · rintro (⟨before, b, after, m', rfl, reached', hQ⟩ | hQ)
    · exact ⟨before, b, after ++ [a], m', by simp, reached', hQ⟩
    · exact ⟨acts, a, [], m, rfl, reached, hQ⟩

/-- A property that a step brings about exactly when `Q` holds of it, and that
then stays, holds after a run exactly when `Q` held of one of its steps. The
actions may be restricted to those with `R`. -/
theorem run_takes {P : σ → Prop} {Q : σ → α → Prop} {R : α → Prop} {s t : σ} {acts : List α}
    (h : run step s acts = some t) (start : ¬ P s) (all : ∀ a ∈ acts, R a)
    (each : ∀ m a t, R a → step m a = some t → (P t ↔ P m ∨ Q m a)) :
    P t ↔ Takes step Q s acts := by
  induction acts using List.reverseRecOn generalizing t with
  | nil =>
    obtain rfl : s = t := by simpa using h
    simp [start, not_takes_nil]
  | append_singleton acts a ih =>
    obtain ⟨m, hm, hstep⟩ := run_concat_some.mp h
    rw [each m a t (all a (by simp)) hstep, takes_concat hm,
      ih hm fun b hb => all b (List.mem_append_left _ hb)]

/-- A property of a state, an action and the state after it, for each step of a run. -/
def EachStep (step : σ → α → Option σ) (P : σ → α → σ → Prop) (s : σ) (acts : List α) : Prop :=
  ∀ before a after m t, acts = before ++ a :: after → run step s before = some m →
    step m a = some t → P m a t

theorem EachStep.front {P : σ → α → σ → Prop} {s : σ} {acts more : List α}
    (each : EachStep step P s (acts ++ more)) : EachStep step P s acts := by
  intro before a after m t split reached taken
  exact each before a (after ++ more) m t (by rw [split, List.append_assoc]; rfl) reached taken

theorem EachStep.last {P : σ → α → σ → Prop} {s m t : σ} {acts : List α} {a : α}
    (each : EachStep step P s (acts ++ [a])) (reached : run step s acts = some m)
    (taken : step m a = some t) : P m a t :=
  each acts a [] m t rfl reached taken

/-- Where a property fails of the steps with `Q`, and of no others, it holds of each step
of a run exactly when the run takes none of them. -/
theorem eachStep_iff {P : σ → α → σ → Prop} {Q : σ → α → Prop} {s u : σ} {acts : List α}
    (reached : run step s acts = some u)
    (each : ∀ before m a t, run step s before = some m → step m a = some t →
      (P m a t ↔ ¬ Q m a)) :
    EachStep step P s acts ↔ ¬ Takes step Q s acts := by
  constructor
  · rintro all ⟨before, a, after, m, split, hm, hQ⟩
    rw [split, run_append, hm, Option.bind_some, run_cons] at reached
    obtain ⟨t, ht, -⟩ := Option.bind_eq_some_iff.mp reached
    exact (each before m a t hm ht).mp (all before a after m t split hm ht) hQ
  · intro avoids before a after m t split hm ht
    exact (each before m a t hm ht).mpr fun hQ => avoids ⟨before, a, after, m, split, hm, hQ⟩

end Machine
