import Protospy.Lib.Base64
import Protospy.Lib.Lines
import Protospy.Lib.Machine
import Protospy.Lib.Ranked
import Protospy.Ui.Text

/-!
# The headers pane (`components/headers-pane.tsx`, `lib/utils.ts`)

One side of an exchange's headers, with its filter, the credential that is revealed and the
row whose value was copied.
-/

namespace Protospy

namespace Ui

/-! ## The list of headers -/

/-- An object in an array of headers; `ref` is its identity. -/
structure HeaderObject where
  ref : Nat
  name : Text
  value : Text
  deriving DecidableEq

structure HeaderArray where
  list : List HeaderObject
  distinct : (list.map HeaderObject.ref).Nodup

def HeaderArray.indexOf (headers : HeaderArray) (h : HeaderObject) : Nat :=
  headers.list.findIdx fun other => other.ref = h.ref

def pinnedHeaderNames : List Text :=
  ["content-type".toList, "content-encoding".toList, "authorization".toList, "traceparent".toList,
    "cache-control".toList]

def mask : Text := "**********".toList

def authorization : Text := "authorization".toList

def maskHeaderValue (name value : Text) : Text :=
  if Text.toLowerCase name = authorization then
    if ' ' ∈ value then value.takeWhile (· ≠ ' ') ++ ' ' :: mask
    else value.take 8 ++ mask
  else value

/-- `atob` gives a character for each byte; `none` where it throws. -/
def atob (t : Text) : Option Text :=
  (Base64.decode t).map fun bytes => bytes.map fun b => Char.ofNat b.toNat

def decodeBasicAuth (value : Text) : Option Text :=
  if "basic ".toList.isPrefixOf (Text.toLowerCase value) then atob (Text.trim (value.drop 6))
  else none

section Filter

-- Letter case is mapped as the browser does it where the user's query is compared.
variable (lower : Text → Text)

def matchesQuery (query : Text) (h : HeaderObject) : Bool :=
  Text.includes (lower query) (lower h.name) || Text.includes (lower query) (lower h.value)

def filterHeaders (headers : List HeaderObject) (query : Text) : List HeaderObject :=
  if query = [] then headers else headers.filter (matchesQuery lower query)

/-- The place among the pinned names, and their number for a name that is not one of them. -/
def pinIndex (h : HeaderObject) : Nat := pinnedHeaderNames.idxOf (Text.toLowerCase h.name)

def isPinned (h : HeaderObject) : Bool := pinnedHeaderNames.any (· = Text.toLowerCase h.name)

def sortHeadersByPin (headers : List HeaderObject) : List HeaderObject :=
  Ranked.sort pinIndex (headers.filter isPinned) ++ headers.filter fun h => !isPinned h

end Filter

/-! ## The pane -/

inductive HeaderView where
  | raw
  | decoded
  deriving DecidableEq

structure Reveal where
  row : Nat
  view : HeaderView
  deriving DecidableEq

/-- The state of the pane. `id` is its key, the exchange that is shown; `pending` are the
timers that are running. -/
structure HeadersPane where
  id : Nat
  headers : HeaderArray
  query : Text
  reveal : Option Reveal
  copiedRow : Option Nat
  timerRef : Option Nat
  pending : List Nat
  nextTimer : Nat

namespace HeadersPane

def mount (id : Nat) (headers : HeaderArray) : HeadersPane :=
  ⟨id, headers, [], none, none, none, [], 0⟩

def displayHeaders (lower : Text → Text) (s : HeadersPane) : List HeaderObject :=
  sortHeadersByPin (filterHeaders lower s.headers.list s.query)

def masked (h : HeaderObject) : Text := maskHeaderValue h.name h.value

/-- Masking hides something. -/
def isMaskable (h : HeaderObject) : Bool := masked h ≠ h.value

def decoded (h : HeaderObject) : Option Text := if isMaskable h then decodeBasicAuth h.value else none

def view (s : HeadersPane) (h : HeaderObject) : Option HeaderView :=
  s.reveal.bind fun r => if r.row = s.headers.indexOf h then some r.view else none

def isDecoded (s : HeadersPane) (h : HeaderObject) : Bool :=
  s.view h = some .decoded && (decoded h).isSome

def shown (s : HeadersPane) (h : HeaderObject) : Text :=
  if !isMaskable h then h.value
  else if s.isDecoded h then (decoded h).getD []
  else if s.view h = some .raw then h.value
  else masked h

def copyTarget (s : HeadersPane) (h : HeaderObject) : Text :=
  if s.isDecoded h then (decoded h).getD [] else h.value

/-- `clearTimeout(timerRef.current)`. -/
def clearTimer (s : HeadersPane) : HeadersPane :=
  { s with pending := s.pending.filter fun t => s.timerRef ≠ some t, timerRef := none }

/-- The row is marked as copied, for two seconds. -/
def copyValue (s : HeadersPane) (row : Nat) : HeadersPane :=
  let cleared := s.clearTimer
  { cleared with
    copiedRow := some row
    timerRef := some s.nextTimer
    pending := s.nextTimer :: cleared.pending
    nextTimer := s.nextTimer + 1 }

def clearCopiedRow (s : HeadersPane) (row : Nat) : HeadersPane :=
  if s.copiedRow = some row then { s.clearTimer with copiedRow := none } else s

end HeadersPane

/-- What happens to the pane; rows are counted as they are displayed. -/
inductive PaneAction where
  | render (id : Nat) (headers : HeaderArray)
  | setQuery (query : Text)
  | pressReveal (i : Nat)
  | pressDecode (i : Nat)
  | copy (i : Nat)
  | mouseLeave (i : Nat)
  | copyFails
  | timeout (timer : Nat)

namespace HeadersPane

variable (lower : Text → Text)

def step (s : HeadersPane) : PaneAction → Option HeadersPane
  | .render id headers => some (if id = s.id then { s with headers } else mount id headers)
  | .setQuery query => some { s with query }
  | .pressReveal i =>
    (s.displayHeaders lower)[i]?.bind fun h =>
      if isMaskable h then
        some { s with
          reveal := if s.view h = none then some ⟨s.headers.indexOf h, .raw⟩ else none }
      else none
  | .pressDecode i =>
    (s.displayHeaders lower)[i]?.bind fun h =>
      if isMaskable h && (decoded h).isSome && (s.view h).isSome then
        some { s with
          reveal := some ⟨s.headers.indexOf h, if s.isDecoded h then .raw else .decoded⟩ }
      else none
  | .copy i => (s.displayHeaders lower)[i]?.map fun h => s.copyValue (s.headers.indexOf h)
  | .mouseLeave i => (s.displayHeaders lower)[i]?.map fun h => s.clearCopiedRow (s.headers.indexOf h)
  | .copyFails => some { s.clearTimer with copiedRow := none }
  | .timeout timer =>
    if timer ∈ s.pending then
      some { s with copiedRow := none, pending := s.pending.filter (· ≠ timer) }
    else none

end HeadersPane

/-! ## The order of the rows -/

theorem bucket_pinned {headers : List HeaderObject} {k : Nat} {name : Text}
    (place : pinnedHeaderNames[k]? = some name) :
    Ranked.bucket pinIndex k (headers.filter isPinned) =
      headers.filter fun h => Text.toLowerCase h.name = name := by
  have distinct : pinnedHeaderNames.Nodup := by decide
  obtain ⟨inside, rfl⟩ := List.getElem?_eq_some_iff.mp place
  rw [Ranked.bucket, List.filter_filter]
  refine List.filter_congr fun h _ => ?_
  rw [Bool.eq_iff_iff, Bool.and_eq_true, decide_eq_true_iff, decide_eq_true_iff]
  refine ⟨?_, fun same => ?_⟩
  · rintro ⟨ranked, pinned⟩
    obtain ⟨n, member, same⟩ := List.any_eq_true.mp pinned
    have found := List.getElem_idxOf (List.idxOf_lt_length_of_mem (of_decide_eq_true same ▸ member))
    simp only [pinIndex] at ranked
    subst ranked
    exact found.symm
  · refine ⟨?_, List.any_eq_true.mpr ⟨_, List.getElem_mem inside, decide_eq_true same.symm⟩⟩
    rw [pinIndex, same, distinct.idxOf_getElem]

/-- The pinned headers come first, name by name; within a name, and behind the pinned ones,
the headers keep their order. -/
theorem sortHeadersByPin_eq (headers : List HeaderObject) :
    sortHeadersByPin headers =
      (pinnedHeaderNames.flatMap fun name => headers.filter fun h => Text.toLowerCase h.name = name) ++
        headers.filter fun h => !isPinned h := by
  have below : ∀ h ∈ headers.filter isPinned, pinIndex h < 5 := by
    intro h member
    obtain ⟨n, inNames, same⟩ := List.any_eq_true.mp (List.mem_filter.mp member).2
    exact List.idxOf_lt_length_of_mem (of_decide_eq_true same ▸ inNames)
  have places : List.range 5 = [0, 1, 2, 3, 4] := rfl
  rw [sortHeadersByPin, Ranked.sort_eq_buckets below, places]
  simp only [List.flatMap_cons, List.flatMap_nil, pinnedHeaderNames]
  rw [bucket_pinned (k := 0) rfl, bucket_pinned (k := 1) rfl, bucket_pinned (k := 2) rfl,
    bucket_pinned (k := 3) rfl, bucket_pinned (k := 4) rfl]

theorem sortHeadersByPin_perm (headers : List HeaderObject) :
    (sortHeadersByPin headers).Perm headers :=
  ((Ranked.sort_perm _).append_right _).trans (List.filter_append_perm _ _)

/-- The query leaves a header in the list. -/
def isListed (lower : Text → Text) (query : Text) (h : HeaderObject) : Bool :=
  query = [] || matchesQuery lower query h

theorem filterHeaders_eq (lower : Text → Text) (headers : List HeaderObject) (query : Text) :
    filterHeaders lower headers query = headers.filter (isListed lower query) := by
  rw [filterHeaders]
  split
  · rename_i empty
    exact (List.filter_eq_self.mpr fun h _ => by rw [isListed, decide_eq_true empty]; rfl).symm
  · rename_i some'
    exact List.filter_congr fun h _ => by rw [isListed, decide_eq_false some', Bool.false_or]

/-- A header is found at its own place, whatever other headers look like it. -/
theorem HeaderArray.getElem?_indexOf {headers : HeaderArray} {h : HeaderObject}
    (member : h ∈ headers.list) : headers.list[headers.indexOf h]? = some h := by
  have inside : headers.indexOf h < headers.list.length :=
    List.findIdx_lt_length.mpr ⟨h, member, decide_eq_true rfl⟩
  have same : headers.list[headers.indexOf h].ref = h.ref :=
    of_decide_eq_true (List.findIdx_getElem (w := inside))
  rw [List.getElem?_eq_getElem inside,
    List.inj_on_of_nodup_map headers.distinct (List.getElem_mem inside) member same]

namespace HeadersPane

variable {lower : Text → Text} {s t : HeadersPane} {h : HeaderObject}

theorem mem_headers (displayed : h ∈ s.displayHeaders lower) : h ∈ s.headers.list := by
  have filtered := (sortHeadersByPin_perm _).mem_iff.mp displayed
  rw [filterHeaders_eq] at filtered
  exact (List.mem_filter.mp filtered).1

theorem getElem?_of_displayed {i : Nat} (displayed : (s.displayHeaders lower)[i]? = some h) :
    s.headers.list[s.headers.indexOf h]? = some h :=
  HeaderArray.getElem?_indexOf (mem_headers (List.mem_of_getElem? displayed))

/-- What is displayed are the headers that the query leaves, with the pinned ones first, each
group in the order of the array; and each is known by its place in the array. -/
theorem displayHeaders_arranged (lower : Text → Text) (s : HeadersPane) :
    (s.displayHeaders lower =
      (pinnedHeaderNames.flatMap fun name => s.headers.list.filter fun h =>
        decide (Text.toLowerCase h.name = name) && isListed lower s.query h) ++
        s.headers.list.filter fun h => !isPinned h && isListed lower s.query h) ∧
      ∀ h ∈ s.displayHeaders lower, s.headers.list[s.headers.indexOf h]? = some h := by
  refine ⟨?_, fun h displayed => HeaderArray.getElem?_indexOf (mem_headers displayed)⟩
  rw [displayHeaders, sortHeadersByPin_eq, filterHeaders_eq]
  simp only [List.filter_filter]

/-! ## What is revealed -/

/-- Neither another exchange nor another credential was asked for. -/
def StaysWith (id : Nat) : PaneAction → Prop
  | .render id' _ => id' = id
  | .pressReveal _ => False
  | _ => True

/-- The last press of a reveal button was on the header in a row, in the same exchange. -/
def RevealedBy (lower : Text → Text) (start : HeadersPane) (acts : List PaneAction)
    (s : HeadersPane) (h : HeaderObject) : Prop :=
  ∃ before i after m, acts = before ++ .pressReveal i :: after ∧
    Machine.run (step lower) start before = some m ∧ m.id = s.id ∧
    (m.displayHeaders lower)[i]? = some h ∧ ∀ a ∈ after, StaysWith s.id a

/-- The headers of an exchange come at once and stay. -/
def KeepsHeaders (s : HeadersPane) : PaneAction → Prop
  | .render id headers => id = s.id → headers = s.headers ∨ s.headers.list = []
  | _ => True

theorem RevealedBy.later {start : HeadersPane} {acts : List PaneAction} {a : PaneAction}
    (revealed : RevealedBy lower start acts s h) (same : t.id = s.id) (stays : StaysWith s.id a) :
    RevealedBy lower start (acts ++ [a]) t h := by
  obtain ⟨before, i, after, m, rfl, reached, here, displayed, quiet⟩ := revealed
  refine ⟨before, i, after ++ [a], m, by rw [List.append_assoc]; rfl, reached, here.trans same.symm,
    displayed, ?_⟩
  rw [same]
  exact List.forall_mem_append.mpr ⟨quiet, List.forall_mem_singleton.mpr stays⟩

/-- What a step does to the credential that is revealed. -/
theorem step_reveal {a : PaneAction} (taken : s.step lower a = some t) :
    (t.reveal = s.reveal ∧ t.id = s.id ∧ StaysWith s.id a ∧
      (t.headers = s.headers ∨ ∃ headers, a = .render s.id headers ∧ t.headers = headers)) ∨
    t.reveal = none ∨
    (∃ i h, a = .pressReveal i ∧ (s.displayHeaders lower)[i]? = some h ∧
      t.reveal = some ⟨s.headers.indexOf h, .raw⟩ ∧ t.id = s.id ∧ t.headers = s.headers) ∨
    ∃ i r view, a = .pressDecode i ∧ s.reveal = some r ∧ t.reveal = some ⟨r.row, view⟩ ∧
      t.id = s.id ∧ t.headers = s.headers := by
  cases a with
  | render id headers =>
    obtain rfl := Option.some.inj taken
    by_cases same : id = s.id
    · subst same
      rw [if_pos rfl]
      exact .inl ⟨rfl, rfl, rfl, .inr ⟨headers, rfl, rfl⟩⟩
    · rw [if_neg same]
      exact .inr (.inl rfl)
  | setQuery query =>
    obtain rfl := Option.some.inj taken
    exact .inl ⟨rfl, rfl, trivial, .inl rfl⟩
  | pressReveal i =>
    obtain ⟨h, displayed, pressed⟩ := Option.bind_eq_some_iff.mp taken
    split at pressed
    · obtain rfl := Option.some.inj pressed
      dsimp only
      split
      · exact .inr (.inr (.inl ⟨i, h, rfl, displayed, rfl, rfl, rfl⟩))
      · exact .inr (.inl rfl)
    · cases pressed
  | pressDecode i =>
    obtain ⟨h, displayed, pressed⟩ := Option.bind_eq_some_iff.mp taken
    split at pressed
    · rename_i enabled
      obtain rfl := Option.some.inj pressed
      have viewed : (s.view h).isSome = true := (Bool.and_eq_true_iff.mp enabled).2
      rw [view] at viewed
      cases revealed : s.reveal with
      | none =>
        rw [revealed] at viewed
        cases viewed
      | some r =>
        rw [revealed, Option.bind_some] at viewed
        split at viewed
        · rename_i row
          exact .inr (.inr (.inr ⟨i, r, _, rfl, rfl, by rw [row], rfl, rfl⟩))
        · cases viewed
    · cases pressed
  | copy i =>
    obtain ⟨h, -, rfl⟩ := Option.map_eq_some_iff.mp taken
    exact .inl ⟨rfl, rfl, trivial, .inl rfl⟩
  | mouseLeave i =>
    obtain ⟨h, -, rfl⟩ := Option.map_eq_some_iff.mp taken
    rw [clearCopiedRow]
    split
    · exact .inl ⟨rfl, rfl, trivial, .inl rfl⟩
    · exact .inl ⟨rfl, rfl, trivial, .inl rfl⟩
  | copyFails =>
    obtain rfl := Option.some.inj taken
    exact .inl ⟨rfl, rfl, trivial, .inl rfl⟩
  | timeout timer =>
    rw [step] at taken
    split at taken
    · obtain rfl := Option.some.inj taken
      exact .inl ⟨rfl, rfl, trivial, .inl rfl⟩
    · cases taken

/-- In every run a revealed row holds the header that the user pressed. -/
theorem revealed_of_run {id : Nat} {headers : HeaderArray} {acts : List PaneAction}
    (ran : Machine.run (step lower) (mount id headers) acts = some s)
    (keeps : Machine.EachStep (step lower) (fun s a _ => KeepsHeaders s a) (mount id headers) acts)
    {r : Reveal} (revealed : s.reveal = some r) :
    ∃ h, s.headers.list[r.row]? = some h ∧ RevealedBy lower (mount id headers) acts s h := by
  refine Machine.run_history (P := fun acts s =>
    Machine.EachStep (step lower) (fun s a _ => KeepsHeaders s a) (mount id headers) acts →
      ∀ r, s.reveal = some r → ∃ h, s.headers.list[r.row]? = some h ∧
        RevealedBy lower (mount id headers) acts s h) ?_ ?_ ran keeps r revealed
  · intro _ r none
    cases none
  · intro acts m a t reached ih taken keeps r revealed
    have before := ih keeps.front
    rcases step_reveal taken with ⟨same, id', stays, kept⟩ | none |
      ⟨i, h, rfl, displayed, pressed, id', headers'⟩ | ⟨i, old, view, rfl, wasRevealed, pressed, id', headers'⟩
    · obtain ⟨h, row, by'⟩ := before r (same ▸ revealed)
      refine ⟨h, ?_, by'.later id' stays⟩
      rcases kept with headers' | ⟨headers', rfl, now⟩
      · rw [headers']
        exact row
      · rcases keeps.last reached taken rfl with unchanged | empty
        · rw [now, unchanged]
          exact row
        · rw [empty] at row
          cases row
    · cases none.symm.trans revealed
    · obtain rfl := Option.some.inj (pressed.symm.trans revealed)
      refine ⟨h, ?_, acts, i, [], m, rfl, reached, id'.symm, displayed, List.forall_mem_nil _⟩
      rw [headers']
      exact getElem?_of_displayed displayed
    · obtain rfl := Option.some.inj (pressed.symm.trans revealed)
      obtain ⟨h, row, by'⟩ := before old wasRevealed
      exact ⟨h, headers'.symm ▸ row, by'.later id' trivial⟩

theorem view_eq_none {m : HeadersPane} (hidden : m.view h = none) : m.shown h = masked h := by
  rw [shown, isDecoded, hidden]
  by_cases maskable : isMaskable h = true
  · rw [maskable]
    rfl
  · have plain : masked h = h.value := by simpa [isMaskable] using maskable
    rw [eq_false_of_ne_true maskable, plain]
    rfl

/-- In every run a credential is shown only after the user has pressed its own reveal button,
in the exchange that is shown, and then no other credential is shown. -/
theorem unmasked_only_revealed {id : Nat} {headers : HeaderArray} {acts : List PaneAction}
    (ran : Machine.run (step lower) (mount id headers) acts = some s)
    (keeps : Machine.EachStep (step lower) (fun s a _ => KeepsHeaders s a) (mount id headers) acts)
    (present : h ∈ s.headers.list) (unmasked : s.shown h ≠ masked h) :
    RevealedBy lower (mount id headers) acts s h ∧
      ∀ other ∈ s.headers.list, s.shown other ≠ masked other → other = h := by
  have place {h : HeaderObject} (present : h ∈ s.headers.list) (unmasked : s.shown h ≠ masked h) :
      ∃ r, s.reveal = some r ∧ s.headers.list[r.row]? = some h := by
    have viewed : s.view h ≠ none := fun hidden => unmasked (view_eq_none hidden)
    cases revealed : s.reveal with
    | none => exact absurd (by rw [view, revealed]; rfl) viewed
    | some r =>
      rw [view, revealed, Option.bind_some] at viewed
      split at viewed
      · rename_i row
        exact ⟨r, rfl, row ▸ HeaderArray.getElem?_indexOf present⟩
      · exact absurd rfl viewed
  obtain ⟨r, revealed, row⟩ := place present unmasked
  constructor
  · obtain ⟨pressed, row', by'⟩ := revealed_of_run ran keeps revealed
    exact Option.some.inj (row'.symm.trans row) ▸ by'
  · intro other present' unmasked'
    obtain ⟨r', revealed', row'⟩ := place present' unmasked'
    obtain rfl := Option.some.inj (revealed.symm.trans revealed')
    exact Option.some.inj (row'.symm.trans row)

section Bearer

private def bearer : HeaderObject := ⟨4, authorization, "Bearer t".toList⟩

private def bearerHeaders : HeaderArray := ⟨[⟨3, "accept".toList, "a".toList⟩, bearer], by decide⟩

private def revealedPane : HeadersPane :=
  { mount 7 bearerHeaders with reveal := some ⟨1, .raw⟩ }

/-- The token is displayed first, in the second place of the array. -/
theorem bearer_revealed :
    RevealedBy Text.toLowerCase (mount 7 bearerHeaders) [.pressReveal 0] revealedPane bearer ∧
      ∀ other ∈ revealedPane.headers.list,
        revealedPane.shown other ≠ masked other → other = bearer := by
  refine unmasked_only_revealed (s := revealedPane) rfl ?_ ?_ ?_
  · intro before a after m t split _ _
    cases before with
    | nil =>
      obtain ⟨rfl, -⟩ := List.cons.inj split
      exact trivial
    | cons b before => simp at split
  · exact List.mem_cons_of_mem _ List.mem_cons_self
  · decide

end Bearer

/-! ## The row that was copied -/

/-- One timer runs while a row is marked, and it is the one that would be cleared. -/
def TimersOk (s : HeadersPane) : Prop :=
  s.copiedRow = none ∧ s.pending = [] ∨
    ∃ row timer, s.copiedRow = some row ∧ s.pending = [timer] ∧ s.timerRef = some timer

theorem pending_clearTimer (ok : s.TimersOk) : s.clearTimer.pending = [] := by
  rcases ok with ⟨-, none⟩ | ⟨row, timer, -, one, ref⟩
  · rw [clearTimer, none]
    rfl
  · rw [clearTimer, one, ref]
    simp

theorem timersOk_of_same (ok : s.TimersOk) (row : t.copiedRow = s.copiedRow)
    (pending : t.pending = s.pending) (ref : t.timerRef = s.timerRef) : t.TimersOk := by
  rw [TimersOk, row, pending, ref]
  exact ok

theorem timersOk_step {a : PaneAction} (ok : s.TimersOk) (taken : s.step lower a = some t) :
    t.TimersOk := by
  cases a with
  | render id headers =>
    obtain rfl := Option.some.inj taken
    split
    · exact timersOk_of_same ok rfl rfl rfl
    · exact .inl ⟨rfl, rfl⟩
  | setQuery query =>
    obtain rfl := Option.some.inj taken
    exact timersOk_of_same ok rfl rfl rfl
  | pressReveal i =>
    obtain ⟨h, -, pressed⟩ := Option.bind_eq_some_iff.mp taken
    split at pressed
    · obtain rfl := Option.some.inj pressed
      exact timersOk_of_same ok rfl rfl rfl
    · cases pressed
  | pressDecode i =>
    obtain ⟨h, -, pressed⟩ := Option.bind_eq_some_iff.mp taken
    split at pressed
    · obtain rfl := Option.some.inj pressed
      exact timersOk_of_same ok rfl rfl rfl
    · cases pressed
  | copy i =>
    obtain ⟨h, -, rfl⟩ := Option.map_eq_some_iff.mp taken
    refine .inr ⟨s.headers.indexOf h, s.nextTimer, rfl, ?_, rfl⟩
    rw [copyValue]
    dsimp only
    rw [pending_clearTimer ok]
  | mouseLeave i =>
    obtain ⟨h, -, rfl⟩ := Option.map_eq_some_iff.mp taken
    rw [clearCopiedRow]
    split
    · exact .inl ⟨rfl, pending_clearTimer ok⟩
    · exact ok
  | copyFails =>
    obtain rfl := Option.some.inj taken
    exact .inl ⟨rfl, pending_clearTimer ok⟩
  | timeout timer =>
    rw [step] at taken
    split at taken
    · rename_i running
      obtain rfl := Option.some.inj taken
      refine .inl ⟨rfl, ?_⟩
      rcases ok with ⟨-, none⟩ | ⟨row, only, -, one, -⟩
      · rw [none] at running
        exact absurd running List.not_mem_nil
      · rw [one] at running
        obtain rfl := List.mem_singleton.mp running
        dsimp only
        rw [one]
        simp
    · cases taken

/-- In every run a row is marked exactly while one timer runs, and that timer takes the mark
away. -/
theorem copied_row_expires {id : Nat} {headers : HeaderArray} {acts : List PaneAction}
    (ran : Machine.run (step lower) (mount id headers) acts = some s) :
    s.copiedRow = none ∧ s.pending = [] ∨
      ∃ row timer t, s.copiedRow = some row ∧ s.pending = [timer] ∧
        s.step lower (.timeout timer) = some t ∧ t.copiedRow = none ∧ t.pending = [] := by
  have ok : s.TimersOk := Machine.run_invariant (P := TimersOk)
    (fun _ _ _ ok taken => timersOk_step ok taken) (.inl ⟨rfl, rfl⟩) ran
  rcases ok with none | ⟨row, timer, marked, one, -⟩
  · exact .inl none
  · have running : timer ∈ s.pending := by rw [one]; exact List.mem_singleton_self _
    refine .inr ⟨row, timer, _, marked, one, if_pos running, rfl, ?_⟩
    dsimp only
    rw [one]
    simp

theorem accept_copied_twice : ∃ s : HeadersPane,
    Machine.run (step Text.toLowerCase)
      (mount 1 ⟨[⟨2, "Accept".toList, "*/*".toList⟩], by decide⟩) [.copy 0, .copy 0] = some s ∧
    ∃ row timer t, s.copiedRow = some row ∧ s.pending = [timer] ∧
      s.step Text.toLowerCase (.timeout timer) = some t ∧ t.copiedRow = none ∧ t.pending = [] := by
  have ran : Machine.run (step Text.toLowerCase)
      (mount 1 ⟨[⟨2, "Accept".toList, "*/*".toList⟩], by decide⟩) [.copy 0, .copy 0] = some _ := rfl
  refine ⟨_, ran, (copied_row_expires ran).resolve_left ?_⟩
  rintro ⟨unmarked, -⟩
  cases unmarked

end HeadersPane

/-! ## Basic credentials -/

theorem trim_between {before text after : Text} (left : ∀ c ∈ before, Text.isWhitespace c = true)
    (solid : ∀ c ∈ text, Text.isWhitespace c = false)
    (right : ∀ c ∈ after, Text.isWhitespace c = true) :
    Text.trim (before ++ (text ++ after)) = text := by
  have start : text.dropWhile Text.isWhitespace = text := by
    cases text with
    | nil => rfl
    | cons c text => exact List.dropWhile_cons_of_neg (by simp [solid c List.mem_cons_self])
  have finish : text.reverse.dropWhile Text.isWhitespace = text.reverse := by
    cases split : text.reverse with
    | nil => rfl
    | cons c rest =>
      have member : c ∈ text := List.mem_reverse.mp (split ▸ List.mem_cons_self)
      exact List.dropWhile_cons_of_neg (by simp [solid c member])
  rw [Text.trim, Text.trimStart, List.dropWhile_append_of_pos left, Text.trimEnd]
  cases text with
  | nil =>
    have none : after.dropWhile Text.isWhitespace = [] := by
      have all : (after ++ []).dropWhile Text.isWhitespace = [].dropWhile Text.isWhitespace :=
        List.dropWhile_append_of_pos right
      rwa [List.append_nil] at all
    rw [List.nil_append, none]
    rfl
  | cons c text =>
    have stays : (c :: text ++ after).dropWhile Text.isWhitespace = c :: text ++ after :=
      List.dropWhile_cons_of_neg (by simp [solid c List.mem_cons_self])
    rw [stays, List.reverse_append,
      List.dropWhile_append_of_pos fun d member => right d (List.mem_reverse.mp member), finish,
      List.reverse_reverse]

theorem isWhitespace_digit {n : Nat} (small : n < 64) : Text.isWhitespace (Base64.digit n) = false := by
  have each : ∀ n < 64, Text.isWhitespace (Base64.digit n) = false := by decide
  exact each n small

theorem encode_solid (bytes : Bytes) : ∀ c ∈ Base64.encode bytes, Text.isWhitespace c = false ∧ c ≠ '*' := by
  intro c member
  rcases List.mem_append.mp member with isDigit | pad
  · obtain ⟨n, inDigits, rfl⟩ := List.mem_map.mp isDigit
    have each : ∀ n < 64, Base64.digit n ≠ '*' := by decide
    have small := Base64.digits_small bytes n inDigits
    exact ⟨isWhitespace_digit small, each n small⟩
  · obtain rfl := Base64.eq_of_mem_padding pad
    decide

/-- A credential as it is sent: the scheme in any letter case, and white space around the
encoded text. -/
structure BasicCredential where
  scheme : Text
  before : Text
  bytes : Bytes
  after : Text
  isBasic : Text.toLowerCase scheme = "basic".toList
  left : ∀ c ∈ before, Text.isWhitespace c = true
  right : ∀ c ∈ after, Text.isWhitespace c = true

namespace BasicCredential

variable (credential : BasicCredential)

/-- What follows the scheme. -/
def secret : Text := credential.before ++ (Base64.encode credential.bytes ++ credential.after)

def value : Text := credential.scheme ++ ' ' :: credential.secret

def plain : Text := credential.bytes.map fun b => Char.ofNat b.toNat

theorem no_space : ' ' ∉ credential.scheme := by
  intro member
  have mapped : ' ' ∈ Text.toLowerCase credential.scheme := List.mem_map.mpr ⟨' ', member, rfl⟩
  rw [credential.isBasic] at mapped
  revert mapped
  decide

theorem maskHeaderValue_value {name : Text} (named : Text.toLowerCase name = authorization) :
    maskHeaderValue name credential.value = credential.scheme ++ ' ' :: mask := by
  have scheme : credential.value.takeWhile (· ≠ ' ') = credential.scheme :=
    (Lines.split_at_mark credential.no_space credential.secret).1
  have space : ' ' ∈ credential.value := List.mem_append_right _ List.mem_cons_self
  rw [maskHeaderValue, if_pos named, if_pos space, scheme]

theorem decodeBasicAuth_value : decodeBasicAuth credential.value = some credential.plain := by
  have five : credential.scheme.length = 5 := by
    have length := congrArg List.length credential.isBasic
    rwa [Text.toLowerCase, List.length_map] at length
  have start : "basic ".toList.isPrefixOf (Text.toLowerCase credential.value) = true := by
    rw [List.isPrefixOf_iff_prefix, value, Text.toLowerCase, List.map_append, List.map_cons,
      ← Text.toLowerCase, credential.isBasic]
    exact ⟨Text.toLowerCase credential.secret, rfl⟩
  have rest : credential.value.drop 6 = credential.secret := by
    rw [value, List.append_cons, List.drop_left']
    rw [List.length_append, five]
    rfl
  rw [decodeBasicAuth, if_pos start, rest, secret,
    trim_between credential.left (fun c member => (encode_solid _ c member).1) credential.right, atob,
    Base64.decode_encode, Option.map_some, plain]

/-- Masking hides something of every credential. -/
theorem mask_ne_secret : mask ≠ credential.secret := by
  intro same
  have star : '*' ∈ credential.secret := same ▸ (by decide : '*' ∈ mask)
  rcases List.mem_append.mp star with left | rest
  · exact absurd (credential.left '*' left) (by decide)
  · rcases List.mem_append.mp rest with encoded | right
    · exact (encode_solid _ '*' encoded).2 rfl
    · exact absurd (credential.right '*' right) (by decide)

end BasicCredential

namespace HeadersPane

/-- A Basic credential is hidden but for its scheme, then readable as it was encoded after
its two buttons are pressed; copying follows what is shown. -/
theorem basic_credential_shown {lower : Text → Text} {s : HeadersPane} {i : Nat} {h : HeaderObject}
    (credential : BasicCredential) (displayed : (s.displayHeaders lower)[i]? = some h)
    (hidden : s.view h = none) (named : Text.toLowerCase h.name = authorization)
    (sent : h.value = credential.value) :
    s.shown h = credential.scheme ++ ' ' :: mask ∧
      ∃ m t, s.step lower (.pressReveal i) = some m ∧ m.shown h = h.value ∧
        m.step lower (.pressDecode i) = some t ∧ t.shown h = credential.plain ∧
        t.copyTarget h = credential.plain := by
  have hides : masked h = credential.scheme ++ ' ' :: mask := by
    rw [masked, sent, credential.maskHeaderValue_value named]
  have maskable : isMaskable h = true := by
    refine decide_eq_true fun same => credential.mask_ne_secret ?_
    rw [hides, sent] at same
    exact (List.cons.inj (List.append_cancel_left same)).2
  have readable : decoded h = some credential.plain := by
    rw [decoded, if_pos maskable, sent, credential.decodeBasicAuth_value]
  refine ⟨(view_eq_none hidden).trans hides, ?_⟩
  let m : HeadersPane := { s with reveal := some ⟨s.headers.indexOf h, .raw⟩ }
  let t : HeadersPane := { s with reveal := some ⟨s.headers.indexOf h, .decoded⟩ }
  have first : s.step lower (.pressReveal i) = some m := by
    rw [step, displayed, Option.bind_some, if_pos maskable, if_pos hidden]
  have raw : m.view h = some .raw := if_pos rfl
  have notDecoded : m.isDecoded h = false := by
    rw [isDecoded, raw]
    rfl
  have second : m.step lower (.pressDecode i) = some t := by
    have same : (m.displayHeaders lower)[i]? = some h := displayed
    have enabled : (isMaskable h && (decoded h).isSome && (m.view h).isSome) = true := by
      rw [maskable, readable, raw]
      rfl
    rw [step, same, Option.bind_some, if_pos enabled, notDecoded]
    rfl
  have isNow : t.isDecoded h = true := by
    have viewed : t.view h = some .decoded := if_pos rfl
    rw [isDecoded, viewed, readable]
    rfl
  refine ⟨m, t, first, ?_, second, ?_, ?_⟩
  · rw [shown, maskable, notDecoded, raw]
    rfl
  · rw [shown, maskable, isNow, readable]
    rfl
  · rw [copyTarget, isNow, readable]
    rfl

section Example

private def alice : BasicCredential :=
  ⟨"BASIC".toList, ['\t'], [97, 58, 98], ['\n'], by decide,
    List.forall_mem_singleton.mpr (by decide), List.forall_mem_singleton.mpr (by decide)⟩

private def aliceHeaders : HeaderArray := ⟨[⟨2, "Authorization".toList, alice.value⟩], by decide⟩

theorem alice_shown :
    (mount 1 aliceHeaders).shown ⟨2, "Authorization".toList, alice.value⟩ =
        "BASIC **********".toList ∧
      ∃ m t, (mount 1 aliceHeaders).step Text.toLowerCase (.pressReveal 0) = some m ∧
        m.shown ⟨2, "Authorization".toList, alice.value⟩ = alice.value ∧
        m.step Text.toLowerCase (.pressDecode 0) = some t ∧
        t.shown ⟨2, "Authorization".toList, alice.value⟩ = "a:b".toList ∧
        t.copyTarget ⟨2, "Authorization".toList, alice.value⟩ = "a:b".toList :=
  basic_credential_shown alice rfl rfl (by decide) rfl

end Example

end HeadersPane

end Ui

end Protospy
