import Mathlib.Tactic.Common

/-!
# Loops

The body of a loop takes a state to the next one or to a result. A loop returns where
enough iterations give a result.
-/

namespace Loop

universe u v

variable {σ : Type u} {ρ : Type v}

def run (body : σ → σ ⊕ ρ) : Nat → σ → Option ρ
  | 0, _ => none
  | fuel + 1, s =>
    match body s with
    | .inl t => run body fuel t
    | .inr result => some result

/-- The states that the iterations lead through. -/
inductive Reaches (body : σ → σ ⊕ ρ) : σ → σ → Prop
  | refl (s : σ) : Reaches body s s
  | step {s t u : σ} : body s = .inl t → Reaches body t u → Reaches body s u

def Returns (body : σ → σ ⊕ ρ) (s : σ) (result : ρ) : Prop := ∃ fuel, run body fuel s = some result

def Terminates (body : σ → σ ⊕ ρ) (s : σ) : Prop := ∃ result, Returns body s result

variable {body : σ → σ ⊕ ρ} {s t : σ}

theorem returns_of_inr {result : ρ} (done : body s = .inr result) : Returns body s result := by
  refine ⟨1, ?_⟩
  rw [run, done]

theorem returns_step (next : body s = .inl t) (result : ρ) :
    Returns body s result ↔ Returns body t result := by
  constructor
  · rintro ⟨fuel, h⟩
    cases fuel with
    | zero => cases h
    | succ fuel =>
      rw [run, next] at h
      exact ⟨fuel, h⟩
  · rintro ⟨fuel, h⟩
    refine ⟨fuel + 1, ?_⟩
    rw [run, next]
    exact h

theorem Reaches.returns_iff (h : Reaches body s t) (result : ρ) :
    Returns body s result ↔ Returns body t result := by
  induction h with
  | refl => exact Iff.rfl
  | step next _ ih => exact (returns_step next result).trans ih

theorem Reaches.trans {u : σ} (h : Reaches body s t) (later : Reaches body t u) :
    Reaches body s u := by
  induction h with
  | refl => exact later
  | step next _ ih => exact .step next (ih later)

theorem Returns.unique {r r' : ρ} (h : Returns body s r) (h' : Returns body s r') : r = r' := by
  obtain ⟨fuel, h⟩ := h
  induction fuel generalizing s with
  | zero => cases h
  | succ fuel ih =>
    rw [run] at h
    cases next : body s with
    | inl t =>
      rw [next] at h
      exact ih ((returns_step next r').mp h') h
    | inr result =>
      obtain ⟨fuel', h'⟩ := h'
      cases fuel' with
      | zero => cases h'
      | succ fuel' =>
        rw [run, next] at h'
        rw [next] at h
        exact Option.some.inj (h.symm.trans h')

/-- A loop whose iterations lower a measure returns. -/
theorem terminates_of_measure (measure : σ → Nat)
    (lower : ∀ t u, Reaches body s t → body t = .inl u → measure u < measure t) :
    Terminates body s := by
  induction bound : measure s using Nat.strongRecOn generalizing s with
  | ind n ih =>
    cases next : body s with
    | inl t =>
      have smaller : measure t < n := bound ▸ lower s t (.refl s) next
      obtain ⟨result, returned⟩ :=
        ih _ smaller (fun u v reached => lower u v (.step next reached)) rfl
      exact ⟨result, (returns_step next result).mpr returned⟩
    | inr result => exact ⟨result, returns_of_inr next⟩

/-- A loop that is back in the same state does not return. -/
theorem not_terminates_of_fixed (fixed : body s = .inl s) : ¬ Terminates body s := by
  rintro ⟨result, fuel, h⟩
  induction fuel with
  | zero => cases h
  | succ fuel ih =>
    rw [run, fixed] at h
    exact ih h

/-- A property of the state before each iteration and the one after it. -/
def EachIteration (body : σ → σ ⊕ ρ) (P : σ → σ → Prop) (s : σ) : Prop :=
  ∀ t u, Reaches body s t → body t = .inl u → P t u

/-- Where an iteration advances unless its state is stuck, and what advances lowers a
measure, the loop returns and all its iterations advance just where it reaches no state that
is stuck. -/
theorem terminates_advancing_iff {P : σ → σ → Prop} {Stuck : σ → Prop} (measure : σ → Nat)
    (lower : ∀ t u, body t = .inl u → P t u → measure u < measure t)
    (advances : ∀ t u, body t = .inl u → ¬ Stuck t → P t u)
    (stuck : ∀ t, Stuck t → ∃ u, body t = .inl u ∧ ¬ P t u) :
    Terminates body s ∧ EachIteration body P s ↔ ∀ t, Reaches body s t → ¬ Stuck t := by
  constructor
  · rintro ⟨-, each⟩ t reached isStuck
    obtain ⟨u, next, fails⟩ := stuck t isStuck
    exact fails (each t u reached next)
  · intro free
    have each : EachIteration body P s :=
      fun t u reached next => advances t u next (free t reached)
    have lowered (t u : σ) (reached : Reaches body s t) (next : body t = .inl u) :
        measure u < measure t :=
      lower t u next (each t u reached next)
    exact ⟨terminates_of_measure measure lowered, each⟩

end Loop
