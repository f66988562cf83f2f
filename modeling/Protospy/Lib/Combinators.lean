import Protospy.Lib.PollStream

/-!
# Stream combinators

`Fuse`, `Peekable`, `ReadyChunks`, `Chain`, a stream over a list, the empty
stream, and a future polled under a timer. Each follows the documented behaviour
of the combinator of that name in the `futures` crate (for the timer, in
`tokio`), one poll at a time.
-/

namespace PollStream

universe u v w

variable {σ : Type u} {τ : Type w} {ι : Type v} [AsyncStream σ ι] [AsyncStream τ ι]

/-- Stops polling the inner stream once it has ended. -/
structure Fuse (σ : Type u) where
  stream : σ
  done : Bool

def Fuse.new (s : σ) : Fuse σ := ⟨s, false⟩

instance : AsyncStream (Fuse σ) ι where
  pollNext f :=
    if f.done then (.ready none, f)
    else match pollNext f.stream with
      | (.pending, s) => (.pending, ⟨s, false⟩)
      | (.ready (some a), s) => (.ready (some a), ⟨s, false⟩)
      | (.ready none, s) => (.ready none, ⟨s, true⟩)

/-- Holds at most one item that was read ahead. -/
structure Peekable (σ : Type u) (ι : Type v) where
  stream : Fuse σ
  peeked : Option ι

namespace Peekable

def new (s : σ) : Peekable σ ι := ⟨.new s, none⟩

instance : AsyncStream (Peekable σ ι) ι where
  pollNext p := match p.peeked with
    | some a => (.ready (some a), ⟨p.stream, none⟩)
    | none => let r := pollNext p.stream
      (r.1, ⟨r.2, none⟩)

def pollPeek (p : Peekable σ ι) : Poll (Option ι) × Peekable σ ι :=
  match p.peeked with
  | some a => (.ready (some a), p)
  | none => match pollNext p.stream with
    | (.pending, f) => (.pending, ⟨f, none⟩)
    | (.ready answer, f) => (.ready answer, ⟨f, answer⟩)

def isTerminated (p : Peekable σ ι) : Bool := p.peeked.isNone && p.stream.done

end Peekable

/-- Groups the items that are ready at one poll, at most `cap` of them. -/
structure ReadyChunks (σ : Type u) where
  stream : Fuse σ
  cap : Nat

namespace ReadyChunks

def new (s : σ) (cap : Nat) : ReadyChunks σ := ⟨.new s, cap⟩

def intoInner (r : ReadyChunks σ) : σ := r.stream.stream

/-- The loop of one poll; `room` is what is left of the capacity. -/
def collect : Nat → List ι → Fuse σ → Poll (Option (List ι)) × Fuse σ
  | 0, items, f => (.ready (some items), f)
  | room + 1, items, f => match pollNext f with
    | (.pending, g) => (if items.isEmpty then .pending else .ready (some items), g)
    | (.ready (some a), g) => collect room (items ++ [a]) g
    | (.ready none, g) => (.ready (if items.isEmpty then none else some items), g)

instance : AsyncStream (ReadyChunks σ) (List ι) where
  pollNext r := let out := collect r.cap [] r.stream
    (out.1, ⟨out.2, r.cap⟩)

end ReadyChunks

/-- The first stream to its end, then the second. -/
inductive Chain (σ : Type u) (τ : Type w) where
  | first (s : σ) (t : τ)
  | second (t : τ)

instance : AsyncStream (Chain σ τ) ι where
  pollNext
    | .first s t => match pollNext s with
      | (.pending, s') => (.pending, .first s' t)
      | (.ready (some a), s') => (.ready (some a), .first s' t)
      | (.ready none, _) => ((pollNext t).1, .second (pollNext t).2)
    | .second t => ((pollNext t).1, .second (pollNext t).2)

/-- The items of a list, all ready. -/
structure Iter (ι : Type v) where
  items : List ι

instance : AsyncStream (Iter ι) ι where
  pollNext
    | ⟨[]⟩ => (.ready none, ⟨[]⟩)
    | ⟨a :: rest⟩ => (.ready (some a), ⟨rest⟩)

def Iter.empty : Iter ι := ⟨[]⟩

/-- A stream that gives the listed answers, then its end. -/
structure Script (ι : Type v) where
  answers : List (Poll (Option ι))

instance : AsyncStream (Script ι) ι where
  pollNext
    | ⟨[]⟩ => (.ready none, ⟨[]⟩)
    | ⟨answer :: rest⟩ => (answer, ⟨rest⟩)

/-- Poll a future under a timer that fires after `n` further fruitless polls;
the future is polled before the timer. The outcome is `none` on a timeout. -/
def timeout {α : Type v} {s : Type u} (poll : s → Poll α × s) : Nat → s → Option α × s
  | n, s => match poll s, n with
    | (.ready a, t), _ => (some a, t)
    | (.pending, t), 0 => (none, t)
    | (.pending, t), n + 1 => timeout poll n t

section Timeout

variable {α : Type v} {s : Type u} {poll : s → Poll α × s} {t t' : s} {a : α}

theorem timeout_ready (n : Nat) (h : poll t = (.ready a, t')) :
    timeout poll n t = (some a, t') := by
  rw [timeout.eq_def]
  simp only [h]

theorem timeout_zero (h : poll t = (.pending, t')) : timeout poll 0 t = (none, t') := by
  rw [timeout.eq_def]
  simp only [h]

theorem timeout_succ (n : Nat) (h : poll t = (.pending, t')) :
    timeout poll (n + 1) t = timeout poll n t' := by
  rw [timeout.eq_def]
  simp only [h]

/-- What every poll of the future keeps, the timed future keeps. -/
theorem timeout_invariant {P : s → Prop} (preserved : ∀ t, P t → P (poll t).2)
    (n : Nat) (start : P t) : P (timeout poll n t).2 := by
  induction n generalizing t with
  | zero =>
    have step := preserved t start
    rcases h : poll t with ⟨_ | a, t'⟩ <;> rw [h] at step
    · rwa [timeout_zero h]
    · rwa [timeout_ready 0 h]
  | succ n ih =>
    have step := preserved t start
    rcases h : poll t with ⟨_ | a, t'⟩ <;> rw [h] at step
    · rw [timeout_succ n h]
      exact ih step
    · rwa [timeout_ready (n + 1) h]

end Timeout

namespace Fuse

variable {s t : σ}

theorem pollNext_done (s : σ) : pollNext (Fuse.mk s true) = (.ready none, ⟨s, true⟩) := rfl

theorem pollNext_pending (h : pollNext s = (.pending, t)) :
    pollNext (Fuse.mk s false) = (.pending, ⟨t, false⟩) := by
  simp [pollNext, AsyncStream.pollNext, h]

theorem pollNext_item {a : ι} (h : pollNext s = (.ready (some a), t)) :
    pollNext (Fuse.mk s false) = (.ready (some a), ⟨t, false⟩) := by
  simp [pollNext, AsyncStream.pollNext, h]

theorem pollNext_end (h : pollNext s = (.ready none, t)) :
    pollNext (Fuse.mk s false) = (.ready none, ⟨t, true⟩) := by
  simp [pollNext, AsyncStream.pollNext, h]

end Fuse

section Traces

theorem trace_fuse_done (s : σ) : trace (Fuse.mk s true) = ended :=
  trace_end (Fuse.pollNext_done s)

/-- While it has not ended, a fused stream answers as the inner one. -/
theorem trace_fuse (s : σ) : trace (Fuse.mk s false) = trace s := by
  symm
  refine trace_eq_of_simulation (fun s (f : Fuse σ) => f = ⟨s, false⟩) ?_ rfl
  rintro s _ rfl
  rcases hs : pollNext s with ⟨_ | _ | a, t⟩
  · exact ⟨0, _, .succ (Fuse.pollNext_pending hs) (.zero _), rfl⟩
  · exact ⟨0, _, _, .zero _, Fuse.pollNext_end hs⟩
  · exact ⟨0, _, _, .zero _, Fuse.pollNext_item hs, rfl⟩

theorem trace_iter (items : List ι) : trace (Iter.mk items) = after items ended := by
  induction items with
  | nil => exact trace_end rfl
  | cons a items ih => rw [trace_item (t := ⟨items⟩) rfl, ih]; rfl

theorem trace_chain_second (t : τ) : trace (Chain.second t : Chain σ τ) = trace t := by
  symm
  refine trace_eq_of_simulation (fun t (c : Chain σ τ) => c = .second t) ?_ rfl
  rintro t _ rfl
  have hc : pollNext (Chain.second t : Chain σ τ) =
      ((pollNext t).1, .second (pollNext t).2) := rfl
  rcases ht : pollNext t with ⟨_ | _ | a, t'⟩ <;> rw [ht] at hc
  · exact ⟨0, _, .succ hc (.zero _), rfl⟩
  · exact ⟨0, _, _, .zero _, hc⟩
  · exact ⟨0, _, _, .zero _, hc, rfl⟩

theorem trace_chain_iter (items : List ι) (t : τ) :
    trace (Chain.first (Iter.mk items) t) = after items (trace t) := by
  induction items with
  | nil =>
    have hc : pollNext (Chain.first (Iter.mk ([] : List ι)) t) =
        ((pollNext t).1, .second (pollNext t).2) := rfl
    rcases ht : pollNext t with ⟨_ | _ | a, t'⟩ <;> rw [ht] at hc
    · rw [trace_pending hc, trace_chain_second, after_nil, trace_pending ht]
    · rw [trace_end hc, after_nil, trace_end ht]
    · rw [trace_item hc, trace_chain_second, after_nil, trace_item ht]
  | cons a items ih =>
    rw [trace_item (t := .first ⟨items⟩ t) rfl, ih]
    rfl

end Traces

namespace Peekable

theorem pollNext_some (f : Fuse σ) (a : ι) :
    pollNext (⟨f, some a⟩ : Peekable σ ι) = (.ready (some a), ⟨f, none⟩) := rfl

theorem pollNext_none (f : Fuse σ) :
    pollNext (⟨f, none⟩ : Peekable σ ι) = ((pollNext f).1, ⟨(pollNext f).2, none⟩) := rfl

theorem trace_eq (p : Peekable σ ι) : trace p = after p.peeked.toList (trace p.stream) := by
  have unpeeked : ∀ f : Fuse σ, trace (⟨f, none⟩ : Peekable σ ι) = trace f := by
    intro f
    symm
    refine trace_eq_of_simulation (fun f (p : Peekable σ ι) => p = ⟨f, none⟩) ?_ rfl
    rintro f _ rfl
    have hp := pollNext_none f
    rcases hf : pollNext f with ⟨_ | _ | a, g⟩ <;> rw [hf] at hp
    · exact ⟨0, _, .succ hp (.zero _), rfl⟩
    · exact ⟨0, _, _, .zero _, hp⟩
    · exact ⟨0, _, _, .zero _, hp, rfl⟩
  obtain ⟨f, _ | a⟩ := p
  · exact unpeeked f
  · rw [trace_item (pollNext_some f a), unpeeked]
    rfl

theorem trace_new (s : σ) : trace (Peekable.new s : Peekable σ ι) = trace s := by
  rw [trace_eq]
  exact trace_fuse s

theorem trace_of_isTerminated {p : Peekable σ ι} (h : p.isTerminated = true) :
    trace p = ended := by
  obtain ⟨⟨s, d⟩, peeked⟩ := p
  obtain ⟨rfl, rfl⟩ : peeked = none ∧ d = true := by simpa [isTerminated] using h
  rw [trace_eq]
  exact trace_fuse_done s

theorem isTerminated_of_end {p q : Peekable σ ι} (h : pollNext p = (.ready none, q)) :
    q.isTerminated = true := by
  obtain ⟨⟨s, d⟩, _ | a⟩ := p
  · rw [pollNext_none] at h
    cases d with
    | true =>
      obtain rfl : (⟨⟨s, true⟩, none⟩ : Peekable σ ι) = q := (Prod.mk.inj h).2
      rfl
    | false =>
      rcases hs : pollNext s with ⟨_ | _ | a, t⟩
      · simp [Fuse.pollNext_pending hs] at h
      · rw [Fuse.pollNext_end hs] at h
        obtain rfl : (⟨⟨t, true⟩, none⟩ : Peekable σ ι) = q := (Prod.mk.inj h).2
        rfl
      · simp [Fuse.pollNext_item hs] at h
  · simp [pollNext_some] at h

theorem trace_pollPeek (p : Peekable σ ι) : trace p.pollPeek.2 = trace p := by
  obtain ⟨f, _ | a⟩ := p
  · have hp := pollNext_none f
    rcases hf : pollNext f with ⟨_ | _ | a, g⟩ <;> rw [hf] at hp <;>
      simp only [pollPeek, hf]
    · rw [trace_pending hp]
    · rw [trace_end hp]
      exact trace_of_isTerminated (isTerminated_of_end hp)
    · rw [trace_item hp, trace_eq, trace_eq]
      rfl
  · rfl

theorem isTerminated_pollPeek {p : Peekable σ ι} (h : p.isTerminated = true) :
    p.pollPeek.2.isTerminated = true := by
  obtain ⟨⟨s, d⟩, peeked⟩ := p
  obtain ⟨rfl, rfl⟩ : peeked = none ∧ d = true := by simpa [isTerminated] using h
  rfl

end Peekable

namespace ReadyChunks

variable {p : Peekable σ ι}

/-- Nothing is lost between the chunk that one poll returns and the stream it
leaves; an end is only answered when the inner stream reports its end. -/
def Splits (p : Peekable σ ι) (sofar : List ι) :
    Poll (Option (List ι)) × Fuse (Peekable σ ι) → Prop
  | (.pending, f) => sofar = [] ∧ f.done = false ∧ trace p = trace f.stream
  | (.ready (some items), f) => ∃ more, items = sofar ++ more ∧
      trace p = after more (trace f.stream)
  | (.ready none, f) => sofar = [] ∧ f.stream.isTerminated = true ∧
      trace p = trace f.stream

theorem collect_splits (room : Nat) (sofar : List ι) (p : Peekable σ ι) :
    Splits p sofar (collect room sofar ⟨p, false⟩) := by
  induction room generalizing sofar p with
  | zero => exact ⟨[], by simp, rfl⟩
  | succ room ih =>
    rcases hp : pollNext p with ⟨_ | _ | a, q⟩
    · simp only [collect, Fuse.pollNext_pending hp]
      cases sofar with
      | nil => exact ⟨rfl, rfl, trace_pending hp⟩
      | cons b rest => exact ⟨[], by simp, trace_pending hp⟩
    · simp only [collect, Fuse.pollNext_end hp]
      have stopped := Peekable.isTerminated_of_end hp
      have quiet : trace p = trace q := by
        rw [trace_end hp, Peekable.trace_of_isTerminated stopped]
      cases sofar with
      | nil => exact ⟨rfl, stopped, quiet⟩
      | cons b rest => exact ⟨[], by simp, quiet⟩
    · simp only [collect, Fuse.pollNext_item hp]
      have step := ih (sofar ++ [a]) q
      rcases hc : collect room (sofar ++ [a]) ⟨q, false⟩ with ⟨_ | _ | items, g⟩ <;>
        rw [hc] at step
      · simp [Splits] at step
      · simp [Splits] at step
      · obtain ⟨more, rfl, htrace⟩ := step
        refine ⟨a :: more, by simp, ?_⟩
        rw [trace_item hp, htrace]
        rfl

/-- The same for a chunk awaited under a timer. -/
def TimedSplits (p : Peekable σ ι) :
    Option (Option (List ι)) × ReadyChunks (Peekable σ ι) → Prop
  | (none, r) => trace p = trace r.intoInner
  | (some none, r) => r.intoInner.isTerminated = true ∧ trace p = trace r.intoInner
  | (some (some items), r) => trace p = after items (trace r.intoInner)

theorem timeout_splits (n cap : Nat) (p : Peekable σ ι) :
    TimedSplits p (timeout pollNext n (ReadyChunks.mk ⟨p, false⟩ cap)) := by
  have hpoll : ∀ p : Peekable σ ι, pollNext (ReadyChunks.mk ⟨p, false⟩ cap) =
      ((collect cap [] ⟨p, false⟩).1, ⟨(collect cap [] ⟨p, false⟩).2, cap⟩) := fun _ => rfl
  induction n generalizing p with
  | zero =>
    have step := collect_splits cap [] p
    have hp := hpoll p
    rcases hc : collect cap [] ⟨p, false⟩ with ⟨_ | _ | items, g⟩ <;> rw [hc] at step hp
    · rw [timeout_zero hp]
      exact step.2.2
    · rw [timeout_ready 0 hp]
      exact step.2
    · obtain ⟨more, rfl, htrace⟩ := step
      rw [timeout_ready 0 hp]
      exact htrace
  | succ n ih =>
    have step := collect_splits cap [] p
    have hp := hpoll p
    rcases hc : collect cap [] ⟨p, false⟩ with ⟨_ | _ | items, ⟨q, d⟩⟩ <;> rw [hc] at step hp
    · obtain ⟨-, rfl, htrace⟩ := step
      rw [timeout_succ n hp]
      have rest := ih q
      rcases ht : timeout pollNext n (ReadyChunks.mk ⟨q, false⟩ cap) with ⟨_ | _ | items, r⟩ <;>
        rw [ht] at rest
      · exact htrace.trans rest
      · exact ⟨rest.1, htrace.trans rest.2⟩
      · exact htrace.trans rest
    · rw [timeout_ready (n + 1) hp]
      exact step.2
    · obtain ⟨more, rfl, htrace⟩ := step
      rw [timeout_ready (n + 1) hp]
      exact htrace

end ReadyChunks

end PollStream
