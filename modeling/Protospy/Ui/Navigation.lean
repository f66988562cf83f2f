import Protospy.Lib.Arrangement
import Protospy.Lib.Keyed
import Protospy.Ui.Store
import Protospy.Ui.Text

/-!
# Moving through the list of exchanges

The list as it is shown (`state/store.ts`, `components/trace-group.tsx`), and the keys and
buttons that select the next and the previous exchange (`components/app-shell.tsx`).
-/

namespace Protospy.Ui

open Arrangement

inductive ListOrder where
  | newest
  | oldest
  deriving DecidableEq

/-- The store and what decides which part of it is shown and how. -/
structure ListState where
  store : Store
  wellFormed : store.WellFormed
  selectedId : Option Nat
  filter : Text
  traceFilter : Option Text
  order : ListOrder
  traceGroupOn : Bool

/-! ## The list -/

section Visible

-- Letter case is mapped as the browser does it.
variable (toLowerCase : Text → Text)

def matchesFilter (ex : Exchange) (filter : Text) : Bool :=
  if filter = [] then true
  else
    let q := toLowerCase filter
    let contains (field : Option String) := Text.includes q (toLowerCase (field.getD "").toList)
    contains ex.method || contains ex.uri || contains ex.status

def selectVisibleExchanges (s : ListState) : List Exchange :=
  let visible := ((s.store.ids.filterMap s.store.exchanges).filter fun ex =>
    matchesFilter toLowerCase ex s.filter).filter fun ex =>
      s.traceFilter.isNone || ex.traceId = s.traceFilter
  match s.order with
  | .newest => visible.reverse
  | .oldest => visible

def selectVisibleIds (s : ListState) : List Nat := (selectVisibleExchanges toLowerCase s).map (·.id)

end Visible

/-! ## The list by traces -/

inductive ListEntry where
  | card (traceId : Text) (members : List Exchange)
  | row (x : Exchange)

/-- The rows of an entry whose card, if it is one, is open, as it is until a click closes it. -/
def ListEntry.rows : ListEntry → List Exchange
  | .card _ members => members
  | .row x => [x]

def collectTrace (byTrace : Text → List Exchange) (x : Exchange) : Text → List Exchange :=
  match x.traceId with
  | none => byTrace
  | some t => Function.update byTrace t (byTrace t ++ [x])

def byTrace (exchanges : List Exchange) : Text → List Exchange :=
  exchanges.foldl collectTrace fun _ => []

/-- `seen.has(t)`. -/
def isSeen (seen : List Text) (t : Text) : Bool := seen.any fun s => s = t

def renderEntry (byTrace : Text → List Exchange) (state : List Text × List ListEntry)
    (x : Exchange) : List Text × List ListEntry :=
  let (seen, entries) := state
  match x.traceId with
  | none => (seen, entries ++ [.row x])
  | some t =>
    if 1 < (byTrace t).length then
      if isSeen seen t then (seen, entries) else (seen ++ [t], entries ++ [.card t (byTrace t)])
    else (seen, entries ++ [.row x])

def groupedExchangeList (exchanges : List Exchange) : List ListEntry :=
  (exchanges.foldl (renderEntry (byTrace exchanges)) ([], [])).2

/-- The rows that `ListPanel` shows for the visible exchanges while every card is open and no
column of the table is sorted by a click. -/
def displayedRows (traceGroupOn : Bool) (exchanges : List Exchange) : List Exchange :=
  if traceGroupOn then (groupedExchangeList exchanges).flatMap ListEntry.rows else exchanges

/-! ## Keys and buttons -/

def indexOf (ids : List Nat) (selectedId : Option Nat) : Int :=
  match selectedId.bind fun id => ids.idxOf? id with
  | some i => i
  | none => -1

def clamp (ids : List Nat) (i : Int) : Int := min (max i 0) (ids.length - 1)

/-- `ids[i]`, which is undefined outside. -/
def idAt (ids : List Nat) (i : Int) : Option Nat := if i < 0 then none else ids[i.toNat]?

/-- What a button selects that moves by `delta`. -/
def step (delta : Int) (ids : List Nat) (selectedId : Option Nat) : Option Nat :=
  match idAt ids (clamp ids (indexOf ids selectedId + delta)) with
  | some next => some next
  | none => selectedId

def onPrev (ids : List Nat) (selectedId : Option Nat) : Option Nat := step (-1) ids selectedId

def onNext (ids : List Nat) (selectedId : Option Nat) : Option Nat := step 1 ids selectedId

/-- What the keys select: `j` moves by one, `k` back by one. -/
def move (delta : Int) (ids : List Nat) (selectedId : Option Nat) : Option Nat :=
  if ids.length = 0 then selectedId
  else
    idAt ids
      (if indexOf ids selectedId = -1 then if 0 < delta then 0 else ids.length - 1
        else clamp ids (indexOf ids selectedId + delta))

/-! ## The rows of a grouped list -/

theorem collectTrace_apply (m : Text → List Exchange) (x : Exchange) (t : Text) :
    collectTrace m x t = m t ++ members Exchange.traceId t [x] := by
  cases trace : x.traceId with
  | none =>
    have other : x.traceId ≠ some t := by
      rw [trace]
      exact (Option.some_ne_none t).symm
    simp only [collectTrace, trace]
    rw [members_cons_of_ne other]
    exact (List.append_nil _).symm
  | some t' =>
    simp only [collectTrace, trace]
    by_cases same : t = t'
    · subst same
      rw [members_cons_self trace, Function.update_self]
      rfl
    · have other : x.traceId ≠ some t := by
        rw [trace]
        exact fun h => same (Option.some.inj h).symm
      rw [members_cons_of_ne other, Function.update_of_ne same]
      exact (List.append_nil _).symm

theorem byTrace_eq_members (exchanges : List Exchange) (t : Text) :
    byTrace exchanges t = members Exchange.traceId t exchanges := by
  have each (l : List Exchange) (m : Text → List Exchange) :
      l.foldl collectTrace m t = m t ++ members Exchange.traceId t l := by
    induction l generalizing m with
    | nil => exact (List.append_nil _).symm
    | cons x l ih =>
      rw [List.foldl_cons, ih, collectTrace_apply, List.append_assoc, ← members_append,
        List.singleton_append]
  exact each exchanges fun _ => []

/-- The exchange is not in one of the cards that are there. -/
def unseen (seen : List Text) (x : Exchange) : Bool :=
  match x.traceId with
  | none => true
  | some t => !isSeen seen t

theorem isSeen_iff (seen : List Text) (t : Text) : isSeen seen t = true ↔ t ∈ seen := by
  rw [isSeen, List.any_eq_true]
  constructor
  · rintro ⟨s, inside, same⟩
    exact of_decide_eq_true same ▸ inside
  · exact fun inside => ⟨t, inside, decide_eq_true rfl⟩

theorem isSeen_eq_false {seen : List Text} {t : Text} (fresh : t ∉ seen) :
    isSeen seen t = false :=
  eq_false_of_ne_true (mt (isSeen_iff seen t).mp fresh)

theorem unseen_of_trace {x : Exchange} {t : Text} (trace : x.traceId = some t) (seen : List Text) :
    unseen seen x = !isSeen seen t := by
  simp only [unseen, trace]

theorem members_filter_unseen {seen : List Text} {t : Text} (fresh : t ∉ seen)
    (l : List Exchange) :
    members Exchange.traceId t (l.filter (unseen seen)) = members Exchange.traceId t l := by
  rw [members, List.filter_filter]
  refine List.filter_congr fun x _ => ?_
  by_cases trace : x.traceId = some t
  · rw [unseen_of_trace trace, isSeen_eq_false fresh, Bool.not_false, Bool.and_true]
  · rw [isMember, decide_eq_false trace, Bool.false_and]

theorem others_filter_unseen (seen : List Text) (t : Text) (l : List Exchange) :
    others Exchange.traceId t (l.filter (unseen seen)) = l.filter (unseen (seen ++ [t])) := by
  rw [others, List.filter_filter]
  refine List.filter_congr fun x _ => ?_
  cases trace : x.traceId with
  | none => simp [isMember, unseen, trace]
  | some t' =>
    rw [unseen_of_trace trace, unseen_of_trace trace, isMember, trace, isSeen, isSeen,
      List.any_append, List.any_cons, List.any_nil, Bool.or_false, Bool.not_or, Bool.and_comm]
    simp only [Option.some.injEq, eq_comm]

/-- What is known of the cards while the rest of the list is rendered: a card that is there
has more than one member, and of the other traces the rest has all members or none. -/
structure Rendering (exchanges : List Exchange) (seen : List Text) (rest : List Exchange) : Prop where
  cards : ∀ t ∈ seen, 1 < (byTrace exchanges t).length
  fresh : ∀ t, t ∉ seen → members Exchange.traceId t rest = [] ∨
    byTrace exchanges t = members Exchange.traceId t rest

theorem Rendering.tail {exchanges rest : List Exchange} {seen : List Text} {x : Exchange}
    (h : Rendering exchanges seen (x :: rest))
    (passed : ∀ t, t ∉ seen → x.traceId = some t → members Exchange.traceId t rest = []) :
    Rendering exchanges seen rest := by
  refine ⟨h.cards, fun t fresh => ?_⟩
  by_cases trace : x.traceId = some t
  · exact Or.inl (passed t fresh trace)
  · rw [← members_cons_of_ne trace rest]
    exact h.fresh t fresh

theorem Rendering.card {exchanges rest : List Exchange} {seen : List Text} {x : Exchange} {t : Text}
    (h : Rendering exchanges seen (x :: rest)) (trace : x.traceId = some t)
    (several : 1 < (byTrace exchanges t).length) : Rendering exchanges (seen ++ [t]) rest := by
  constructor
  · intro t' inside
    rcases List.mem_append.mp inside with old | new
    · exact h.cards t' old
    · exact List.mem_singleton.mp new ▸ several
  · intro t' fresh
    rw [List.mem_append, List.mem_singleton, not_or] at fresh
    have other : x.traceId ≠ some t' := fun here =>
      fresh.2 (Option.some.inj (here.symm.trans trace))
    rw [← members_cons_of_ne other rest]
    exact h.fresh t' fresh.1

/-! One lemma for each way to render an exchange: it stands alone, its card is there, its
card comes now, or it is the only one of its trace. -/

theorem renderEntry_alone {x : Exchange} (alone : x.traceId = none)
    (byTrace : Text → List Exchange) (seen : List Text) (entries : List ListEntry) :
    renderEntry byTrace (seen, entries) x = (seen, entries ++ [.row x]) := by
  simp only [renderEntry, alone]

section Traced

variable {x : Exchange} {t : Text} (trace : x.traceId = some t)
  {byTrace : Text → List Exchange} {seen : List Text} (entries : List ListEntry)

include trace

theorem renderEntry_seen (several : 1 < (byTrace t).length) (inside : t ∈ seen) :
    renderEntry byTrace (seen, entries) x = (seen, entries) := by
  simp only [renderEntry, trace, if_pos several, if_pos ((isSeen_iff seen t).mpr inside)]

theorem renderEntry_card (several : 1 < (byTrace t).length) (fresh : t ∉ seen) :
    renderEntry byTrace (seen, entries) x = (seen ++ [t], entries ++ [.card t (byTrace t)]) := by
  simp only [renderEntry, trace, if_pos several, if_neg (mt (isSeen_iff seen t).mp fresh)]

theorem renderEntry_single (single : ¬ 1 < (byTrace t).length) :
    renderEntry byTrace (seen, entries) x = (seen, entries ++ [.row x]) := by
  simp only [renderEntry, trace, if_neg single]

end Traced

/-- The first exchange of a trace has all members of the trace in the rest. -/
theorem Rendering.first {exchanges rest : List Exchange} {seen : List Text} {x : Exchange} {t : Text}
    (h : Rendering exchanges seen (x :: rest)) (trace : x.traceId = some t) (fresh : t ∉ seen) :
    byTrace exchanges t = x :: members Exchange.traceId t rest := by
  rw [← members_cons_self trace rest]
  rcases h.fresh t fresh with none | all
  · rw [members_cons_self trace rest] at none
    exact absurd none (List.cons_ne_nil _ _)
  · exact all

/-- The entries that are rendered for the rest gather what is in no card yet. -/
theorem rows_renderEntry {exchanges : List Exchange} (rest : List Exchange) {seen : List Text}
    (entries : List ListEntry) (h : Rendering exchanges seen rest) :
    (rest.foldl (renderEntry (byTrace exchanges)) (seen, entries)).2.flatMap ListEntry.rows =
      entries.flatMap ListEntry.rows ++ gather Exchange.traceId (rest.filter (unseen seen)) := by
  induction rest generalizing seen entries with
  | nil => rw [List.foldl_nil, List.filter_nil, gather_nil, List.append_nil]
  | cons x rest ih =>
    rw [List.foldl_cons]
    cases trace : x.traceId with
    | none =>
      have shown : unseen seen x = true := by simp only [unseen, trace]
      have tail := h.tail fun t _ here => absurd (trace.symm.trans here) (by simp)
      rw [renderEntry_alone trace, ih _ tail, List.filter_cons, if_pos shown,
        gather_cons_none trace, List.flatMap_append, List.append_assoc]
      rfl
    | some t =>
      by_cases inside : t ∈ seen
      · have hidden : unseen seen x = false := by
          rw [unseen_of_trace trace, (isSeen_iff seen t).mpr inside, Bool.not_true]
        have tail := h.tail fun t' fresh here =>
          absurd inside (Option.some.inj (trace.symm.trans here) ▸ fresh)
        rw [renderEntry_seen trace entries (h.cards t inside) inside, ih _ tail, List.filter_cons,
          if_neg (by rw [hidden]; decide)]
      · have shown : unseen seen x = true := by
          rw [unseen_of_trace trace, isSeen_eq_false inside, Bool.not_false]
        have whole := h.first trace inside
        rw [List.filter_cons, if_pos shown, gather_cons_some trace, members_filter_unseen inside]
        by_cases several : 1 < (byTrace exchanges t).length
        · rw [renderEntry_card trace entries several inside, ih _ (h.card trace several),
            others_filter_unseen, List.flatMap_append, List.append_assoc, List.flatMap_singleton,
            ListEntry.rows, whole, List.cons_append]
        · have single : members Exchange.traceId t rest = [] := by
            rw [whole, List.length_cons] at several
            exact List.length_eq_zero_iff.mp (by omega)
          have tail := h.tail fun t' _ here =>
            Option.some.inj (trace.symm.trans here) ▸ single
          have apart : ∀ y ∈ rest.filter (unseen seen), y.traceId ≠ some t := fun y member here =>
            List.filter_eq_nil_iff.mp single y (List.mem_of_mem_filter member) (decide_eq_true here)
          rw [renderEntry_single trace entries several, ih _ tail, single, others_eq_self apart,
            List.flatMap_append, List.append_assoc]
          rfl

theorem rows_groupedExchangeList (exchanges : List Exchange) :
    (groupedExchangeList exchanges).flatMap ListEntry.rows = gather Exchange.traceId exchanges := by
  have start : Rendering exchanges [] exchanges :=
    ⟨fun t inside => absurd inside List.not_mem_nil, fun t _ => Or.inr (byTrace_eq_members exchanges t)⟩
  have all : exchanges.filter (unseen []) = exchanges := by
    refine List.filter_eq_self.mpr fun x _ => ?_
    cases trace : x.traceId with
    | none => simp only [unseen, trace]
    | some t => rw [unseen_of_trace trace, isSeen_eq_false List.not_mem_nil, Bool.not_false]
  rw [groupedExchangeList, rows_renderEntry exchanges [] start, all]
  rfl

/-! ## What the keys and buttons select -/

theorem indexOf_of_idxOf? {ids : List Nat} {id i : Nat} (found : ids.idxOf? id = some i) :
    indexOf ids (some id) = i := by
  rw [indexOf, Option.bind_some, found]

theorem idxOf?_split {before : List Nat} {x : Nat} (first : x ∉ before) (after : List Nat) :
    (before ++ x :: after).idxOf? x = some before.length := by
  induction before with
  | nil => rw [List.nil_append, List.idxOf?_cons, if_pos (beq_self_eq_true x), List.length_nil]
  | cons y before ih =>
    have other : (y == x) = false := beq_false_of_ne fun same => first (same ▸ List.mem_cons_self)
    rw [List.cons_append, List.idxOf?_cons, other, ih (mt (List.mem_cons_of_mem y) first),
      List.length_cons]
    rfl

theorem indexOf_hidden {ids : List Nat} {selectedId : Option Nat}
    (hidden : ∀ id ∈ ids, selectedId ≠ some id) : indexOf ids selectedId = -1 := by
  cases selectedId with
  | none => rfl
  | some id =>
    have absent : ids.idxOf? id = none :=
      List.idxOf?_eq_none_iff.mpr fun member => hidden id member rfl
    rw [indexOf, Option.bind_some, absent]

theorem idAt_ofNat (ids : List Nat) (n : Nat) : idAt ids n = ids[n]? := by
  rw [idAt, if_neg (by omega), Int.toNat_natCast]

/-- In a list that is not empty an index that is clamped is one of the list. -/
theorem exists_idAt_clamp {ids : List Nat} (nonempty : ids ≠ []) (i : Int) :
    ∃ id, idAt ids (clamp ids i) = some id := by
  have some' := List.length_pos_iff.mpr nonempty
  obtain ⟨n, isNat⟩ : ∃ n : Nat, clamp ids i = n := ⟨(clamp ids i).toNat, by rw [clamp]; omega⟩
  have inside : n < ids.length := by
    rw [clamp] at isNat
    omega
  exact ⟨ids[n], by rw [isNat, idAt_ofNat, List.getElem?_eq_getElem inside]⟩

/-- From a place in the list the buttons go to the places next to it. -/
theorem step_split {before after : List Nat} {x : Nat} (first : x ∉ before) :
    onNext (before ++ x :: after) (some x) = some (after.headD x) ∧
      onPrev (before ++ x :: after) (some x) = some (before.getLastD x) := by
  have index := indexOf_of_idxOf? (idxOf?_split first after)
  have length : (before ++ x :: after).length = before.length + (after.length + 1) := by
    rw [List.length_append, List.length_cons]
  constructor
  · cases after with
    | nil =>
      have place : clamp (before ++ [x]) (before.length + 1) = before.length := by
        rw [clamp, length, List.length_nil]
        omega
      have here : (before ++ [x])[before.length]? = some x := by simp
      rw [onNext, step, index, place, idAt_ofNat, here, List.headD_nil]
    | cons y after =>
      have place : clamp (before ++ x :: y :: after) (before.length + 1) = (before.length + 1 : Nat) := by
        rw [clamp, length, List.length_cons]
        omega
      have here : (before ++ x :: y :: after)[before.length + 1]? = some y := by simp
      rw [onNext, step, index, place, idAt_ofNat, here, List.headD_cons]
  · rcases List.eq_nil_or_concat before with rfl | ⟨init, y, rfl⟩
    · have place : clamp ([] ++ x :: after) (([] : List Nat).length + -1) = (0 : Nat) := by
        rw [clamp, length, List.length_nil]
        omega
      rw [onPrev, step, index, place, idAt_ofNat]
      rfl
    · rw [List.concat_eq_append] at index length ⊢
      have place : clamp (init ++ [y] ++ x :: after) ((init ++ [y]).length + -1) = init.length := by
        rw [clamp, length, List.length_append, List.length_singleton]
        omega
      have here : (init ++ [y] ++ x :: after)[init.length]? = some y := by simp
      rw [onPrev, step, index, place, idAt_ofNat, here, List.getLastD_concat]

theorem step_of_idAt {ids : List Nat} {selectedId : Option Nat} {delta : Int} {id : Nat}
    (there : idAt ids (clamp ids (indexOf ids selectedId + delta)) = some id) :
    step delta ids selectedId = some id := by
  rw [step, there]

/-- Where the selection is in the list, the keys select what the buttons select. -/
theorem move_eq_step {ids : List Nat} {id : Nat} (shown : id ∈ ids) (delta : Int) :
    move delta ids (some id) = step delta ids (some id) := by
  have nonempty : ids ≠ [] := List.ne_nil_of_mem shown
  obtain ⟨next, there⟩ := exists_idAt_clamp nonempty (indexOf ids (some id) + delta)
  have found : indexOf ids (some id) ≠ -1 := by
    cases place : ids.idxOf? id with
    | none => exact absurd shown (List.idxOf?_eq_none_iff.mp place)
    | some i =>
      rw [indexOf_of_idxOf? place]
      omega
  rw [step_of_idAt there, move, if_neg (mt List.length_eq_zero_iff.mp nonempty), if_neg found,
    there]

/-- Without a selection in the list, `j` and Next select its first row, but `k` the last and
Previous the first. -/
theorem move_hidden {ids : List Nat} {selectedId : Option Nat} (nonempty : ids ≠ [])
    (hidden : ∀ id ∈ ids, selectedId ≠ some id) :
    move 1 ids selectedId = ids.head? ∧ onNext ids selectedId = ids.head? ∧
      move (-1) ids selectedId = ids.getLast? ∧ onPrev ids selectedId = ids.head? := by
  have index := indexOf_hidden hidden
  have some' := List.length_pos_iff.mpr nonempty
  obtain ⟨x, rest, split⟩ := List.exists_cons_of_ne_nil nonempty
  have first : idAt ids 0 = some x := by
    rw [split]
    rfl
  have head : ids.head? = some x := by rw [split, List.head?_cons]
  have start (i : Int) (low : i ≤ 0) : clamp ids i = 0 := by
    rw [clamp]
    omega
  have last : idAt ids (ids.length - 1) = ids.getLast? := by
    have place : (ids.length : Int) - 1 = (ids.length - 1 : Nat) := by omega
    rw [place, idAt_ofNat, List.getLast?_eq_getElem?]
  refine ⟨?_, ?_, ?_, ?_⟩
  · rw [move, if_neg (by omega), index, if_pos rfl, if_pos (by omega), first, head]
  · rw [head]
    exact step_of_idAt (by rw [index, start _ (by omega), first])
  · rw [move, if_neg (by omega), index, if_pos rfl, if_neg (by omega), last]
  · rw [head]
    exact step_of_idAt (by rw [index, start _ (by omega), first])

theorem getLast?_eq_head?_iff {ids : List Nat} (distinct : ids.Nodup) :
    ids.getLast? = ids.head? ↔ ids.length ≤ 1 := by
  cases ids with
  | nil => simp
  | cons x rest =>
    rcases List.eq_nil_or_concat rest with rfl | ⟨init, y, rfl⟩
    · simp
    · have other : y ≠ x := by
        rintro rfl
        exact (List.nodup_cons.mp distinct).1 (by simp)
      have last : (x :: init.concat y).getLast? = some y := by
        rw [List.concat_eq_append, ← List.cons_append, List.getLast?_concat]
      rw [last, List.head?_cons, Option.some_inj, List.length_cons, List.length_concat]
      omega

/-- Keys and buttons select the same, unless two rows are there and none of them is selected. -/
theorem keys_agree_iff {ids : List Nat} (distinct : ids.Nodup) (selectedId : Option Nat) :
    (move 1 ids selectedId = onNext ids selectedId ∧
        move (-1) ids selectedId = onPrev ids selectedId) ↔
      (∃ id ∈ ids, selectedId = some id) ∨ ids.length ≤ 1 := by
  by_cases shown : ∃ id ∈ ids, selectedId = some id
  · obtain ⟨id, member, rfl⟩ := shown
    exact ⟨fun _ => Or.inl ⟨id, member, rfl⟩,
      fun _ => ⟨move_eq_step member 1, move_eq_step member (-1)⟩⟩
  · rw [or_iff_right shown]
    by_cases empty : ids = []
    · subst empty
      have stays (delta : Int) : step delta [] selectedId = selectedId := by
        have none (i : Int) : idAt [] i = none := by
          rw [idAt]
          split <;> rfl
        rw [step, none]
      exact ⟨fun _ => Nat.zero_le _, fun _ => ⟨(stays 1).symm, (stays (-1)).symm⟩⟩
    · have hidden : ∀ id ∈ ids, selectedId ≠ some id :=
        fun id member selected => shown ⟨id, member, selected⟩
      obtain ⟨key, button, back, backButton⟩ := move_hidden empty hidden
      rw [key, button, back, backButton, ← getLast?_eq_head?_iff distinct]
      exact ⟨And.right, fun same => ⟨rfl, same⟩⟩

/-! ## Navigation over the shown list -/

theorem selectVisibleIds_nodup (toLowerCase : Text → Text) (s : ListState) :
    (selectVisibleIds toLowerCase s).Nodup := by
  have all : ((s.store.ids.filterMap s.store.exchanges).map (·.id)).Nodup := by
    rw [List.map_filterMap]
    refine List.Nodup.filterMap (fun id id' other here there => ?_) s.wellFormed.nodup
    obtain ⟨ex, found, rfl⟩ := Option.map_eq_some_iff.mp here
    obtain ⟨ex', found', same⟩ := Option.map_eq_some_iff.mp there
    rw [← s.wellFormed.keyed id ex found, ← s.wellFormed.keyed id' ex' found']
    exact same.symm
  have part : ((((s.store.ids.filterMap s.store.exchanges).filter fun ex =>
      matchesFilter toLowerCase ex s.filter).filter fun ex =>
        s.traceFilter.isNone || ex.traceId = s.traceFilter).map (·.id)).Nodup :=
    all.sublist ((List.filter_sublist.trans List.filter_sublist).map _)
  rw [selectVisibleIds, selectVisibleExchanges]
  cases s.order with
  | newest =>
    rw [List.map_reverse]
    exact List.nodup_reverse.mpr part
  | oldest => exact part

variable (toLowerCase : Text → Text)

/-- The rows that are on the screen. -/
def ListState.rows (s : ListState) : List Exchange :=
  displayedRows s.traceGroupOn (selectVisibleExchanges toLowerCase s)

/-- The rows are those of the list, in its order within each trace, and where the list is
grouped the rows of a trace stand together. -/
structure ListState.Arranged (s : ListState) : Prop where
  perm : (s.rows toLowerCase).Perm (selectVisibleExchanges toLowerCase s)
  order : ∀ t, members Exchange.traceId t (s.rows toLowerCase) =
    members Exchange.traceId t (selectVisibleExchanges toLowerCase s)
  together : s.traceGroupOn = true → Arrangement.Contiguous Exchange.traceId (s.rows toLowerCase)

/-- Keys and buttons select the same exchange. -/
def ListState.KeysAgree (s : ListState) : Prop :=
  move 1 (selectVisibleIds toLowerCase s) s.selectedId =
      onNext (selectVisibleIds toLowerCase s) s.selectedId ∧
    move (-1) (selectVisibleIds toLowerCase s) s.selectedId =
      onPrev (selectVisibleIds toLowerCase s) s.selectedId

/-- From each row they select the row that is shown after it and the one before it. -/
def ListState.FollowsRows (s : ListState) : Prop :=
  ∀ before x after, (s.rows toLowerCase).map (·.id) = before ++ x :: after →
    onNext (selectVisibleIds toLowerCase s) (some x) = some (after.headD x) ∧
    onPrev (selectVisibleIds toLowerCase s) (some x) = some (before.getLastD x) ∧
    move 1 (selectVisibleIds toLowerCase s) (some x) = some (after.headD x) ∧
    move (-1) (selectVisibleIds toLowerCase s) (some x) = some (before.getLastD x)

theorem ListState.arranged (s : ListState) : s.Arranged toLowerCase := by
  by_cases grouped : s.traceGroupOn = true
  · have rows : s.rows toLowerCase =
        gather Exchange.traceId (selectVisibleExchanges toLowerCase s) := by
      rw [ListState.rows, displayedRows, if_pos grouped, rows_groupedExchangeList]
    constructor
    · rw [rows]
      exact gather_perm _ _
    · intro t
      rw [rows, members_gather]
    · intro _
      rw [rows]
      exact contiguous_gather _ _
  · have rows : s.rows toLowerCase = selectVisibleExchanges toLowerCase s := by
      rw [ListState.rows, displayedRows, if_neg grouped]
    constructor
    · rw [rows]
    · intro t
      rw [rows]
    · exact fun on => absurd on grouped

/-- The rows are the list itself just where the list is not grouped or no trace is interrupted. -/
theorem ListState.rows_eq_iff (s : ListState) :
    s.rows toLowerCase = selectVisibleExchanges toLowerCase s ↔
      (s.traceGroupOn = true →
        Arrangement.Contiguous Exchange.traceId (selectVisibleExchanges toLowerCase s)) := by
  rw [ListState.rows, displayedRows]
  by_cases grouped : s.traceGroupOn = true
  · rw [if_pos grouped, rows_groupedExchangeList, gather_eq_self_iff]
    exact ⟨fun h _ => h, fun h => h grouped⟩
  · rw [if_neg grouped]
    exact ⟨fun _ on => absurd on grouped, fun _ => rfl⟩

theorem ListState.followsRows_iff (s : ListState) :
    s.FollowsRows toLowerCase ↔
      s.rows toLowerCase = selectVisibleExchanges toLowerCase s := by
  have distinct := selectVisibleIds_nodup toLowerCase s
  have perm := (s.arranged toLowerCase).perm
  have stepped {before after : List Nat} {x : Nat}
      (split : selectVisibleIds toLowerCase s = before ++ x :: after) :
      onNext (selectVisibleIds toLowerCase s) (some x) = some (after.headD x) ∧
        onPrev (selectVisibleIds toLowerCase s) (some x) = some (before.getLastD x) := by
    rw [split] at distinct ⊢
    exact step_split fun member =>
      (List.nodup_append.mp distinct).2.2 x member x List.mem_cons_self rfl
  constructor
  · intro follows
    have neighbours : SameNeighbours ((s.rows toLowerCase).map (·.id))
        (selectVisibleIds toLowerCase s) := by
      intro before x after before' after' shown split
      obtain ⟨next, prev, -⟩ := follows before x after shown
      obtain ⟨next', prev'⟩ := stepped split
      exact ⟨Option.some.inj (next.symm.trans next'), Option.some.inj (prev.symm.trans prev')⟩
    have same : (s.rows toLowerCase).map (·.id) = selectVisibleIds toLowerCase s :=
      eq_of_sameNeighbours neighbours (perm.map _) ((perm.map _).nodup_iff.mpr distinct)
    exact Keyed.eq_of_map_key distinct perm.subset same
  · intro same before x after shown
    have split : selectVisibleIds toLowerCase s = before ++ x :: after := by
      rw [← shown, same]
      rfl
    have member : x ∈ selectVisibleIds toLowerCase s := split ▸ by simp
    obtain ⟨next, prev⟩ := stepped split
    exact ⟨next, prev, (move_eq_step member 1).trans next, (move_eq_step member (-1)).trans prev⟩

/-- Navigation follows the shown list just where the selection is in it or there is at most
one row, and where no trace that is grouped is interrupted in the list. -/
theorem navigation_follows_iff (s : ListState) :
    (s.Arranged toLowerCase ∧ s.KeysAgree toLowerCase ∧ s.FollowsRows toLowerCase) ↔
      ((∃ id ∈ selectVisibleIds toLowerCase s, s.selectedId = some id) ∨
        (selectVisibleIds toLowerCase s).length ≤ 1) ∧
      (s.traceGroupOn = true →
        Arrangement.Contiguous Exchange.traceId (selectVisibleExchanges toLowerCase s)) := by
  have keys := keys_agree_iff (selectVisibleIds_nodup toLowerCase s) s.selectedId
  have rows := (s.followsRows_iff toLowerCase).trans (s.rows_eq_iff toLowerCase)
  rw [ListState.KeysAgree, keys, rows]
  exact and_iff_right (s.arranged toLowerCase)

def tracedHeaders : Wire.ProxyHeaders := [⟨"traceparent", "00-t-1-01"⟩]

def getOf (id : Nat) (uri : String) (headers : Wire.ProxyHeaders) : Wire.EventMessage :=
  ⟨⟨id, ""⟩, .request, .request "GET" uri "1.1" headers .noBody⟩

/-- Exchange 1 has no trace, and exchange 3 has another uri. -/
def interleavedMessages : List Wire.EventMessage :=
  [getOf 0 "/a" tracedHeaders, getOf 1 "/a" [], getOf 2 "/a" tracedHeaders, getOf 3 "/b" tracedHeaders]

/-- A grouped list of three exchanges, of which the first and the last are of one trace. The
selected exchange does not pass the filter. -/
def interleavedState : ListState where
  store := interleavedMessages.foldl apply .empty
  wellFormed := Store.WellFormed.empty.foldl_apply _
  selectedId := some 3
  filter := "/a".toList
  traceFilter := none
  order := .oldest
  traceGroupOn := true

/-- `k` selects the last row and Previous the first, and Next goes from the first row to the
last one. -/
theorem navigation_interleaved :
    ¬ interleavedState.KeysAgree id ∧ ¬ interleavedState.FollowsRows id := by
  constructor
  · rintro ⟨-, same⟩
    exact absurd same (by decide +kernel)
  · intro follows
    have next := (follows [] 0 [2, 1] (by decide +kernel)).1
    exact absurd next (by decide +kernel)

end Protospy.Ui
