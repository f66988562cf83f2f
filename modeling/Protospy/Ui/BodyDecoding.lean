import Protospy.Lib.Machine
import Protospy.Ui.DecodeBody
import Protospy.Ui.Store

/-!
# Decoding in the body pane (`hooks/useDecodeBody.ts`)

A body is decoded when it is complete, and the size that comes out is written back to the
store, which makes another object of the body and has it decoded again. Renders, effects
and the ends of decodings may come in any order.
-/

namespace Protospy

namespace Ui

/-- A body in the store; another body, or the same one with another field, has another
`ref`. -/
structure BodyObject where
  ref : Nat
  body : BodyState
  deriving DecidableEq

structure DecodeTask where
  object : BodyObject
  cancelled : Bool
  deriving DecidableEq

variable {V R L : Type}

inductive DecodeEntry (V R L : Type) where
  | done (object : BodyObject) (result : DecodeResult V R L)
  | failed (object : BodyObject)

namespace DecodeEntry

def object : DecodeEntry V R L → BodyObject
  | done object _ => object
  | failed object => object

def result : DecodeEntry V R L → Option (DecodeResult V R L)
  | done _ result => some result
  | failed _ => none

end DecodeEntry

/-- The pane of one body: what the store holds, what was rendered last, the body of the last
effect, the decodings that are under way and the entry. -/
structure Decoding (V R L : Type) where
  slot : Option BodyObject
  rendered : Option BodyObject
  effect : Option BodyObject
  nextRef : Nat
  tasks : List DecodeTask
  entry : Option (DecodeEntry V R L)

inductive DecodingAction (V R L : Type) where
  | update (body : Option BodyState)
  | render
  | runEffect
  | settle (i : Nat) (workers : Codecs V R L)

/-- All but the messages that change the body. -/
def DecodingAction.isInternal : DecodingAction V R L → Bool
  | update _ => false
  | _ => true

structure DecodeView (V R L : Type) where
  loading : Bool
  result : Option (DecodeResult V R L)

def sameObject (a b : Option BodyObject) : Bool := a.map BodyObject.ref = b.map BodyObject.ref

/-- The effect decodes a complete body. -/
def startDecoding : Option BodyObject → List DecodeTask
  | none => []
  | some object => if object.body.atEnd then [⟨object, false⟩] else []

def DecodeTask.cancel (task : DecodeTask) : DecodeTask := { task with cancelled := true }

namespace Decoding

def mount (body : Option BodyState) : Decoding V R L :=
  ⟨body.map (⟨0, ·⟩), body.map (⟨0, ·⟩), none, 1, [], none⟩

/-- `setBodyDecodedBytes` for the body of the pane. -/
def writeDecodedBytes (s : Decoding V R L) (decodedBytes : Nat) : Decoding V R L :=
  match s.slot with
  | none => s
  | some object =>
    if object.body.decodedBytes = some decodedBytes then s
    else { s with
      slot := some ⟨s.nextRef, { object.body with decodedBytes := some decodedBytes }⟩
      nextRef := s.nextRef + 1 }

-- The decompressors do the same each time; the workers may fail. `caching` tells that the
-- pane was given a place to write the size to.
variable (decompress : Bytes → Text → Option Bytes) (caching : Bool)

def finish (s : Decoding V R L) (object : BodyObject) (workers : Codecs V R L) : Decoding V R L :=
  match Codecs.decodeBody { workers with decompress } object.body with
  | none => { s with entry := some (.failed object) }
  | some r =>
    let s := { s with entry := some (.done object r) }
    match r.decodedBytes with
    | some n => if caching then s.writeDecodedBytes n else s
    | none => s

/-- A render or an effect happens only where there is something to do. -/
def step (s : Decoding V R L) : DecodingAction V R L → Option (Decoding V R L)
  | .update body => some { s with slot := body.map (⟨s.nextRef, ·⟩), nextRef := s.nextRef + 1 }
  | .render => if sameObject s.rendered s.slot then none else some { s with rendered := s.slot }
  | .runEffect =>
    if sameObject s.effect s.rendered then none
    else some { s with
      effect := s.rendered
      tasks := s.tasks.map DecodeTask.cancel ++ startDecoding s.rendered }
  | .settle i workers => s.tasks[i]?.map fun task =>
    let s := { s with tasks := s.tasks.eraseIdx i }
    if task.cancelled then s else s.finish decompress caching task.object workers

/-- What the hook returns. -/
def view (s : Decoding V R L) : DecodeView V R L :=
  match s.rendered with
  | none => ⟨false, none⟩
  | some object =>
    if !object.body.atEnd then ⟨false, none⟩
    else match s.entry with
      | none => ⟨true, none⟩
      | some entry => if entry.object.ref = object.ref then ⟨false, entry.result⟩ else ⟨true, none⟩

end Decoding

/-! ## The size of a decoded body -/

/-- The number of bytes after decompression. -/
def decodedSize (decompress : Bytes → Text → Option Bytes) (body : BodyState) : Option Nat :=
  (decodeBytes decompress body).bind fun bytes =>
    if body.contentEncoding.any fun encoding => isCompressed (Text.toLowerCase encoding.toList) then
      some bytes.length
    else none

/-- What classification does not change. -/
structure SameBytes (base r : DecodeResult V R L) : Prop where
  textAvailable : r.textAvailable = base.textAvailable
  wireBytes : r.wireBytes = base.wireBytes
  decodedBytes : r.decodedBytes = base.decodedBytes
  contentEncoding : r.contentEncoding = base.contentEncoding
  rawText : r.rawText = base.rawText
  bytes : r.bytes = base.bytes

theorem classify_sameBytes (codecs : Codecs V R L) (contentType : Option Text)
    (base : DecodeResult V R L) : SameBytes base (codecs.classify contentType base) := by
  have plain : SameBytes base (Codecs.plainResult contentType base) := by
    rw [Codecs.plainResult]
    split <;> exact ⟨rfl, rfl, rfl, rfl, rfl, rfl⟩
  have markup (r) (found : codecs.markupResult contentType base = some r) : SameBytes base r := by
    obtain ⟨kind, -, rfl⟩ := Option.map_eq_some_iff.mp found
    cases codecs.formatMarkup base.rawText kind <;> exact ⟨rfl, rfl, rfl, rfl, rfl, rfl⟩
  have json (r) (found : codecs.jsonResult contentType base = some r) : SameBytes base r := by
    rw [Codecs.jsonResult] at found
    split at found
    · obtain ⟨parsed, -, rfl⟩ := Option.map_eq_some_iff.mp found
      exact ⟨rfl, rfl, rfl, rfl, rfl, rfl⟩
    · cases found
  have ndjson (r) (found : codecs.ndjsonResult contentType base = some r) : SameBytes base r := by
    rw [Codecs.ndjsonResult] at found
    split at found
    · obtain ⟨parsed, -, rfl⟩ := Option.map_eq_some_iff.mp found
      exact ⟨rfl, rfl, rfl, rfl, rfl, rfl⟩
    · cases found
  rw [Codecs.classify]
  cases first : codecs.ndjsonResult contentType base with
  | some r => exact ndjson r first
  | none =>
    cases second : codecs.jsonResult contentType base with
    | some r => exact json r second
    | none =>
      cases third : codecs.markupResult contentType base with
      | some r => exact markup r third
      | none => exact plain

/-- The size does not depend on the workers. -/
theorem decodeBody_decodedBytes {codecs : Codecs V R L} {body : BodyState}
    {r : DecodeResult V R L} (decoded : codecs.decodeBody body = some r) :
    r.decodedBytes = decodedSize codecs.decompress body := by
  obtain ⟨bytes, read, rfl⟩ := Option.map_eq_some_iff.mp decoded
  rw [decodedSize, read, (classify_sameBytes codecs _ _).decodedBytes]
  rfl

/-- Writing a size to a body does not change what it decodes to. -/
theorem decodedSize_written (decompress : Bytes → Text → Option Bytes) (body : BodyState) (n : Nat) :
    decodedSize decompress { body with decodedBytes := some n } = decodedSize decompress body := rfl

/-- The write-back of the pane is the one of the store. -/
theorem Store.body_setBodyDecodedBytes (store : Store) (id : Nat) (direction : Direction) (n : Nat) :
    (store.setBodyDecodedBytes id direction n).body id direction =
      (store.body id direction).map fun body => { body with decodedBytes := some n } := by
  rw [Store.setBodyDecodedBytes, Store.body, Store.body]
  cases found : store.exchanges id with
  | none => rw [found]; rfl
  | some ex =>
    cases here : ex.body direction with
    | none =>
      dsimp only
      rw [here]
      dsimp only
      rw [found, Option.bind_some, here]
      rfl
    | some body =>
      dsimp only
      rw [here]
      dsimp only
      by_cases known : body.decodedBytes = some n
      · rw [if_pos known, found, Option.bind_some, here, Option.map_some, ← known]
      · rw [if_neg known]
        dsimp only
        rw [Function.update_self, Option.bind_some, Option.bind_some, here]
        cases direction <;> rfl

/-! ## What a step does -/

namespace Decoding

variable {decompress : Bytes → Text → Option Bytes} {caching : Bool} {s t : Decoding V R L}

/-- A size is written to the body that the store holds now, unless it is there already. -/
inductive WritesBack (s t : Decoding V R L) (size : Option Nat) : Prop
  | kept (slot : t.slot = s.slot) (ref : t.nextRef = s.nextRef)
      (known : ∀ object n, s.slot = some object → size = some n → object.body.decodedBytes = some n)
  | written (object : BodyObject) (n : Nat) (size : size = some n) (held : s.slot = some object)
      (unknown : object.body.decodedBytes ≠ some n)
      (slot : t.slot = some ⟨s.nextRef, { object.body with decodedBytes := some n }⟩)
      (ref : t.nextRef = s.nextRef + 1)

variable (decompress caching) in
inductive Steps (s : Decoding V R L) : DecodingAction V R L → Decoding V R L → Prop
  | update (body : Option BodyState) : Steps s (.update body)
      { s with slot := body.map (⟨s.nextRef, ·⟩), nextRef := s.nextRef + 1 }
  | render (changed : sameObject s.rendered s.slot = false) :
      Steps s .render { s with rendered := s.slot }
  | runEffect (changed : sameObject s.effect s.rendered = false) : Steps s .runEffect
      { s with
        effect := s.rendered
        tasks := s.tasks.map DecodeTask.cancel ++ startDecoding s.rendered }
  | dropped (i : Nat) (workers : Codecs V R L) (task : DecodeTask) (found : s.tasks[i]? = some task)
      (cancelled : task.cancelled = true) : Steps s (.settle i workers)
      { s with tasks := s.tasks.eraseIdx i }
  | finished (i : Nat) (workers : Codecs V R L) (task : DecodeTask) (entry : DecodeEntry V R L)
      (t : Decoding V R L) (found : s.tasks[i]? = some task) (live : task.cancelled = false)
      (rendered : t.rendered = s.rendered) (effect : t.effect = s.effect)
      (tasks : t.tasks = s.tasks.eraseIdx i) (set : t.entry = some entry)
      (object : entry.object = task.object)
      (decoded : Codecs.decodeBody { workers with decompress } task.object.body = entry.result)
      (writes : WritesBack s t (if caching then decodedSize decompress task.object.body else none)) :
      Steps s (.settle i workers) t

theorem writeDecodedBytes_spec (s : Decoding V R L) (n : Nat) :
    WritesBack s (s.writeDecodedBytes n) (some n) ∧
      (s.writeDecodedBytes n).rendered = s.rendered ∧ (s.writeDecodedBytes n).effect = s.effect ∧
      (s.writeDecodedBytes n).tasks = s.tasks ∧ (s.writeDecodedBytes n).entry = s.entry := by
  rw [writeDecodedBytes]
  cases held : s.slot with
  | none =>
    refine ⟨.kept rfl rfl fun object m here => ?_, rfl, rfl, rfl, rfl⟩
    rw [held] at here
    cases here
  | some object =>
    by_cases known : object.body.decodedBytes = some n
    · dsimp only
      rw [if_pos known]
      refine ⟨.kept rfl rfl fun object' m here size => ?_, rfl, rfl, rfl, rfl⟩
      obtain rfl := Option.some.inj (held.symm.trans here)
      exact known.trans size
    · dsimp only
      rw [if_neg known]
      exact ⟨.written object n rfl held known rfl rfl, rfl, rfl, rfl, rfl⟩

theorem steps_of_step {a : DecodingAction V R L} (taken : s.step decompress caching a = some t) :
    Steps decompress caching s a t := by
  cases a with
  | update body =>
    obtain rfl := Option.some.inj taken
    exact .update body
  | render =>
    rw [step] at taken
    split at taken
    · cases taken
    · rename_i changed
      obtain rfl := Option.some.inj taken
      exact .render (eq_false_of_ne_true changed)
  | runEffect =>
    rw [step] at taken
    split at taken
    · cases taken
    · rename_i changed
      obtain rfl := Option.some.inj taken
      exact .runEffect (eq_false_of_ne_true changed)
  | settle i workers =>
    obtain ⟨task, found, rfl⟩ := Option.map_eq_some_iff.mp taken
    dsimp only
    split
    · rename_i cancelled
      exact .dropped i workers task found cancelled
    · rename_i live
      rw [finish]
      cases decoded : Codecs.decodeBody { workers with decompress } task.object.body with
      | none =>
        refine .finished i workers task (.failed task.object) _ found (eq_false_of_ne_true live) rfl rfl
          rfl rfl rfl decoded (.kept rfl rfl fun object n _ size => ?_)
        have unread := Option.map_eq_none_iff.mp decoded
        split at size
        · rw [decodedSize, unread] at size
          cases size
        · cases size
      | some r =>
        have size := decodeBody_decodedBytes decoded
        dsimp only at size ⊢
        rw [size]
        cases count : decodedSize decompress task.object.body with
        | none =>
          refine .finished i workers task (.done task.object r) _ found (eq_false_of_ne_true live) rfl rfl
            rfl rfl rfl decoded (.kept rfl rfl fun object n _ size => ?_)
          rw [count, ite_self] at size
          cases size
        | some n =>
          cases caching with
          | false =>
            exact .finished i workers task (.done task.object r) _ found (eq_false_of_ne_true live) rfl rfl
              rfl rfl rfl decoded (.kept rfl rfl fun object n _ size => by cases size)
          | true =>
            obtain ⟨writes, rendered, effect, tasks, entry⟩ := writeDecodedBytes_spec
              { s with tasks := s.tasks.eraseIdx i, entry := some (DecodeEntry.done task.object r) } n
            refine .finished i workers task (.done task.object r) _ found (eq_false_of_ne_true live)
              rendered effect tasks entry rfl decoded ?_
            rw [if_pos rfl, count]
            cases writes with
            | kept slot ref known => exact .kept slot ref known
            | written object n size held unknown slot ref =>
              exact .written object n size held unknown slot ref

/-! ## What holds in every run -/

/-- The bodies that the pane keeps somewhere. -/
inductive Holds (s : Decoding V R L) : BodyObject → Prop
  | slot (object : BodyObject) (here : s.slot = some object) : Holds s object
  | rendered (object : BodyObject) (here : s.rendered = some object) : Holds s object
  | effect (object : BodyObject) (here : s.effect = some object) : Holds s object
  | task (task : DecodeTask) (here : task ∈ s.tasks) : Holds s task.object
  | entry (entry : DecodeEntry V R L) (here : s.entry = some entry) : Holds s entry.object

/-- The result is that of decoding the body with some workers. -/
def IsDecoded (decompress : Bytes → Text → Option Bytes) (body : BodyState)
    (result : Option (DecodeResult V R L)) : Prop :=
  ∃ workers : Codecs V R L, Codecs.decodeBody { workers with decompress } body = result

variable (decompress caching) in
structure Consistent (s : Decoding V R L) : Prop where
  fresh : ∀ object, s.Holds object → object.ref < s.nextRef
  same : ∀ object other, s.Holds object → s.Holds other → object.ref = other.ref → object = other
  decoded : ∀ entry, s.entry = some entry → IsDecoded decompress entry.object.body entry.result
  live : ∀ task ∈ s.tasks, task.cancelled = false →
    s.effect = some task.object ∧ task.object.body.atEnd = true
  started : ∀ object, s.effect = some object → object.body.atEnd = true →
    (∃ task ∈ s.tasks, task.cancelled = false) ∨
      ∃ entry, s.entry = some entry ∧ entry.object = object
  written : caching = true → ∀ entry r n, s.entry = some entry → entry.result = some r →
    r.decodedBytes = some n → s.slot = some entry.object →
    entry.object.body.decodedBytes = some n

theorem sameObject_iff {a b : Option BodyObject} :
    sameObject a b = true ↔ a.map BodyObject.ref = b.map BodyObject.ref := by
  rw [sameObject, decide_eq_true_eq]

theorem mem_startDecoding {body : Option BodyObject} {task : DecodeTask} :
    task ∈ startDecoding body ↔
      body = some task.object ∧ task.object.body.atEnd = true ∧ task.cancelled = false := by
  cases body with
  | none => simp [startDecoding]
  | some object =>
    obtain ⟨other, cancelled⟩ := task
    by_cases complete : object.body.atEnd = true
    · simp only [startDecoding, if_pos complete, List.mem_singleton, DecodeTask.mk.injEq,
        Option.some.injEq]
      constructor
      · rintro ⟨rfl, rfl⟩
        exact ⟨rfl, complete, rfl⟩
      · rintro ⟨rfl, -, rfl⟩
        exact ⟨rfl, rfl⟩
    · simp only [startDecoding, if_neg complete, List.not_mem_nil, Option.some.injEq, false_iff]
      rintro ⟨rfl, here, -⟩
      exact complete here

/-- Only the store makes new bodies. -/
theorem holds_of_steps {a : DecodingAction V R L} (taken : Steps decompress caching s a t)
    {object : BodyObject} (held : t.Holds object) :
    s.Holds object ∨
      object.ref = s.nextRef ∧ t.nextRef = s.nextRef + 1 ∧ t.slot = some object := by
  cases taken with
  | update body =>
    cases held with
    | slot _ here =>
      obtain ⟨state, rfl, rfl⟩ := Option.map_eq_some_iff.mp here
      exact .inr ⟨rfl, rfl, rfl⟩
    | rendered _ here => exact .inl (.rendered _ here)
    | effect _ here => exact .inl (.effect _ here)
    | task _ here => exact .inl (.task _ here)
    | entry _ here => exact .inl (.entry _ here)
  | render changed =>
    cases held with
    | slot _ here => exact .inl (.slot _ here)
    | rendered _ here => exact .inl (.slot _ here)
    | effect _ here => exact .inl (.effect _ here)
    | task _ here => exact .inl (.task _ here)
    | entry _ here => exact .inl (.entry _ here)
  | runEffect changed =>
    cases held with
    | slot _ here => exact .inl (.slot _ here)
    | rendered _ here => exact .inl (.rendered _ here)
    | effect _ here => exact .inl (.rendered _ here)
    | task task here =>
      rcases List.mem_append.mp here with before | started
      · obtain ⟨earlier, mem, rfl⟩ := List.mem_map.mp before
        exact .inl (.task earlier mem)
      · exact .inl (.rendered _ (mem_startDecoding.mp started).1)
    | entry _ here => exact .inl (.entry _ here)
  | dropped i workers task found cancelled =>
    cases held with
    | slot _ here => exact .inl (.slot _ here)
    | rendered _ here => exact .inl (.rendered _ here)
    | effect _ here => exact .inl (.effect _ here)
    | task _ here => exact .inl (.task _ (List.mem_of_mem_eraseIdx here))
    | entry _ here => exact .inl (.entry _ here)
  | finished i workers task entry _ found live rendered effect tasks set source decoded writes =>
    cases held with
    | slot _ here =>
      cases writes with
      | kept slot ref known => exact .inl (.slot _ (slot ▸ here))
      | written object n size held unknown slot ref =>
        obtain rfl := Option.some.inj (slot.symm.trans here)
        exact .inr ⟨rfl, ref, slot⟩
    | rendered _ here => exact .inl (.rendered _ (rendered ▸ here))
    | effect _ here => exact .inl (.effect _ (effect ▸ here))
    | task _ here => exact .inl (.task _ (List.mem_of_mem_eraseIdx (tasks ▸ here)))
    | entry other here =>
      obtain rfl := Option.some.inj (set.symm.trans here)
      rw [source]
      exact .inl (.task task (List.mem_of_getElem? found))

theorem nextRef_le_of_steps {a : DecodingAction V R L} (taken : Steps decompress caching s a t) :
    s.nextRef ≤ t.nextRef := by
  cases taken with
  | update body => exact Nat.le_succ _
  | render | runEffect | dropped => exact Nat.le_refl _
  | finished i workers task entry _ found live rendered effect tasks set source decoded writes =>
    cases writes with
    | kept slot ref known => exact ref.ge
    | written object n size held unknown slot ref => exact ref ▸ Nat.le_succ _

theorem consistent_mount (body : Option BodyState) :
    Consistent decompress caching (mount body : Decoding V R L) := by
  have unique : ∀ object, (mount body : Decoding V R L).Holds object → body.map (⟨0, ·⟩) = some object := by
    rintro object (⟨_, here⟩ | ⟨_, here⟩ | ⟨_, here⟩ | ⟨task, here⟩ | ⟨entry, here⟩)
    · exact here
    · exact here
    · cases here
    · cases here
    · cases here
  refine ⟨fun object held => ?_, fun object other held held' _ => ?_, ?_, ?_, ?_, ?_⟩
  · obtain ⟨state, -, rfl⟩ := Option.map_eq_some_iff.mp (unique object held)
    exact Nat.one_pos
  · exact Option.some.inj ((unique object held).symm.trans (unique other held'))
  · rintro entry ⟨⟩
  · rintro task ⟨⟩
  · rintro object ⟨⟩
  · rintro - entry r n ⟨⟩

theorem Consistent.of_steps {a : DecodingAction V R L} (ok : s.Consistent decompress caching)
    (taken : Steps decompress caching s a t) : t.Consistent decompress caching := by
  have fresh : ∀ object, t.Holds object → object.ref < t.nextRef := by
    intro object held
    rcases holds_of_steps taken held with before | ⟨ref, next, -⟩
    · exact Nat.lt_of_lt_of_le (ok.fresh object before) (nextRef_le_of_steps taken)
    · omega
  have same : ∀ object other, t.Holds object → t.Holds other → object.ref = other.ref →
      object = other := by
    intro object other held held' refs
    rcases holds_of_steps taken held with before | ⟨ref, -, slot⟩
    · rcases holds_of_steps taken held' with before' | ⟨ref', -, -⟩
      · exact ok.same object other before before' refs
      · have := ok.fresh object before
        omega
    · rcases holds_of_steps taken held' with before' | ⟨-, -, slot'⟩
      · have := ok.fresh other before'
        omega
      · exact Option.some.inj (slot.symm.trans slot')
  cases taken with
  | update body =>
    refine ⟨fresh, same, ok.decoded, ok.live, ok.started, fun _ entry r n set _ _ slot => ?_⟩
    -- the entry is older than the body that the store holds now
    obtain ⟨state, -, new⟩ := Option.map_eq_some_iff.mp slot
    have older := ok.fresh entry.object (.entry entry set)
    rw [← new] at older
    exact absurd older (Nat.lt_irrefl _)
  | render changed => exact ⟨fresh, same, ok.decoded, ok.live, ok.started, ok.written⟩
  | runEffect changed =>
    refine ⟨fresh, same, ok.decoded, fun task mem live => ?_, fun object rendered complete => ?_,
      ok.written⟩
    · rcases List.mem_append.mp mem with before | started
      · obtain ⟨earlier, -, rfl⟩ := List.mem_map.mp before
        cases live
      · have new := mem_startDecoding.mp started
        exact ⟨new.1, new.2.1⟩
    · refine .inl ⟨⟨object, false⟩, List.mem_append_right _ ?_, rfl⟩
      exact mem_startDecoding.mpr ⟨rendered, complete, rfl⟩
  | dropped i workers task found cancelled =>
    refine ⟨fresh, same, ok.decoded,
      fun other mem live => ok.live other (List.mem_of_mem_eraseIdx mem) live,
      fun object effect complete => ?_, ok.written⟩
    rcases ok.started object effect complete with ⟨other, mem, live⟩ | done
    · obtain ⟨j, at_j⟩ := List.mem_iff_getElem?.mp mem
      have differ : j ≠ i := by
        rintro rfl
        obtain rfl := Option.some.inj (at_j.symm.trans found)
        rw [cancelled] at live
        cases live
      exact .inl ⟨other, List.mem_eraseIdx_iff_getElem?.mpr ⟨j, differ, at_j⟩, live⟩
    · exact .inr done
  | finished i workers task entry _ found live rendered effect tasks set source decoded writes =>
    have current := ok.live task (List.mem_of_getElem? found) live
    refine ⟨fresh, same, fun other here => ?_, fun other mem running => ?_,
      fun object here complete => ?_, fun cached other r n here result size slot => ?_⟩
    · obtain rfl := Option.some.inj (set.symm.trans here)
      rw [source]
      exact ⟨workers, decoded⟩
    · rw [effect]
      exact ok.live other (List.mem_of_mem_eraseIdx (tasks ▸ mem)) running
    · rw [effect] at here
      exact .inr ⟨entry, set, source.trans (Option.some.inj (current.1.symm.trans here))⟩
    · obtain rfl := Option.some.inj (set.symm.trans here)
      have written : r.decodedBytes = decodedSize decompress task.object.body :=
        decodeBody_decodedBytes (decoded.trans result)
      rw [if_pos cached, ← written, size] at writes
      cases writes with
      | kept unchanged ref known => exact known _ n (unchanged ▸ slot) rfl
      | written object n' same' held unknown new ref =>
        obtain rfl := Option.some.inj same'
        rw [← Option.some.inj (new.symm.trans slot)]

theorem consistent_of_run {body : Option BodyState} {acts : List (DecodingAction V R L)}
    (reached : Machine.run (step decompress caching) (mount body) acts = some s) :
    s.Consistent decompress caching :=
  Machine.run_invariant (P := Consistent decompress caching)
    (fun _ _ _ ok taken => ok.of_steps (steps_of_step taken)) (consistent_mount body) reached

/-- What may be shown of a body. -/
inductive Shows (decompress : Bytes → Text → Option Bytes) :
    Option BodyState → DecodeView V R L → Prop
  | idle (body : Option BodyState) (incomplete : ∀ b, body = some b → b.atEnd = false) :
      Shows decompress body ⟨false, none⟩
  | loading (body : BodyState) (complete : body.atEnd = true) :
      Shows decompress (some body) ⟨true, none⟩
  | done (body : BodyState) (result : Option (DecodeResult V R L)) (complete : body.atEnd = true)
      (decoded : IsDecoded decompress body result) : Shows decompress (some body) ⟨false, result⟩

theorem Consistent.view_cases (ok : s.Consistent decompress caching) :
    (s.rendered = none ∧ s.view = ⟨false, none⟩) ∨
      ∃ object, s.rendered = some object ∧
        (object.body.atEnd = false ∧ s.view = ⟨false, none⟩ ∨
          object.body.atEnd = true ∧ (s.view = ⟨true, none⟩ ∨
            ∃ entry, s.entry = some entry ∧ entry.object = object ∧ s.view = ⟨false, entry.result⟩)) := by
  rw [view]
  cases rendered : s.rendered with
  | none => exact .inl ⟨rfl, rfl⟩
  | some object =>
    refine .inr ⟨object, rfl, ?_⟩
    dsimp only
    cases complete : object.body.atEnd with
    | false => exact .inl ⟨rfl, rfl⟩
    | true =>
      refine .inr ⟨rfl, ?_⟩
      rw [Bool.not_true, if_neg Bool.false_ne_true]
      cases set : s.entry with
      | none => exact .inl rfl
      | some entry =>
        dsimp only
        split
        · rename_i refs
          exact .inr ⟨entry, rfl, ok.same _ _ (.entry entry set) (.rendered object rendered) refs, rfl⟩
        · exact .inl rfl

theorem Consistent.shows (ok : s.Consistent decompress caching) :
    Shows decompress (s.rendered.map BodyObject.body) s.view := by
  rcases ok.view_cases with ⟨rendered, view⟩ | ⟨object, rendered, ⟨incomplete, view⟩ |
    ⟨complete, view | ⟨entry, set, rfl, view⟩⟩⟩
  · rw [rendered, view]
    exact .idle none fun b absent => by cases absent
  · rw [rendered, view]
    exact .idle _ fun b here => Option.some.inj here ▸ incomplete
  · rw [rendered, view]
    exact .loading _ complete
  · rw [rendered, view]
    exact .done _ _ complete (ok.decoded entry set)

/-- Whatever the order of messages, renders, effects and decodings: what is shown is that
the last body rendered is not complete, that it is being decoded or what it decodes to. -/
theorem shows_rendered {body : Option BodyState} {acts : List (DecodingAction V R L)}
    (reached : Machine.run (step decompress caching) (mount body) acts = some s) :
    Shows decompress (s.rendered.map BodyObject.body) s.view :=
  (consistent_of_run reached).shows

private def unzip (bytes : Bytes) (_ : Text) : Option Bytes := some (bytes ++ bytes)

private def noWorkers : Codecs Unit Unit Unit :=
  ⟨unzip, fun _ => none, fun _ => none, fun _ => none, fun _ _ => none⟩

private def zipped : BodyState := ⟨[.text "ab"], true, 2, none, none, some "gzip", none⟩

theorem zipped_shows : ∃ s : Decoding Unit Unit Unit,
    Machine.run (step unzip true) (mount (some zipped)) [.runEffect, .settle 0 noWorkers] = some s ∧
      s.view.result.isSome = true ∧ Shows unzip (s.rendered.map BodyObject.body) s.view := by
  have ran : Machine.run (step unzip true) (mount (some zipped))
      [.runEffect, .settle 0 noWorkers] = some _ := rfl
  exact ⟨_, ran, rfl, shows_rendered ran⟩

/-! ## Settling -/

section Costs

variable (decompress)

def sizeOf? (object : Option BodyObject) : Option Nat :=
  object.bind fun o => decodedSize decompress o.body

/-- A decoding that would write another size than that of the body in the store. -/
def isStray (slot : Option BodyObject) (task : DecodeTask) : Bool :=
  !task.cancelled && decide (decodedSize decompress task.object.body ≠ sizeOf? decompress slot)

/-- The size of the body in the store is yet to be written. -/
def isMiscounted (slot : Option BodyObject) : Bool :=
  slot.any fun o => decide ((decodedSize decompress o.body).isSome ∧
    o.body.decodedBytes ≠ decodedSize decompress o.body)

theorem isStray_iff {slot : Option BodyObject} {task : DecodeTask} :
    isStray decompress slot task = true ↔
      task.cancelled = false ∧ decodedSize decompress task.object.body ≠ sizeOf? decompress slot := by
  rw [isStray, Bool.and_eq_true, Bool.not_eq_true', decide_eq_true_eq]

def writeCost (slot : Option BodyObject) : Nat :=
  if isMiscounted decompress slot then 4 else 0

def renderCost (rendered slot : Option BodyObject) : Nat :=
  if sameObject rendered slot then 0 else 3

def effectCost (effect rendered slot : Option BodyObject) : Nat :=
  if sameObject effect rendered then 0
  else if sizeOf? decompress rendered = sizeOf? decompress slot then 2 else 10

def taskCost (slot : Option BodyObject) (tasks : List DecodeTask) : Nat :=
  tasks.length + 8 * tasks.countP (isStray decompress slot)

/-- Bounds the steps to come. A write costs a render, an effect and a decoding. -/
def pending (s : Decoding V R L) : Nat :=
  taskCost decompress s.slot s.tasks + effectCost decompress s.effect s.rendered s.slot +
    renderCost s.rendered s.slot + writeCost decompress s.slot

theorem writeCost_le (slot : Option BodyObject) : writeCost decompress slot ≤ 4 := by
  rw [writeCost]
  split <;> omega

theorem renderCost_le (rendered slot : Option BodyObject) : renderCost rendered slot ≤ 3 := by
  rw [renderCost]
  split <;> omega

theorem effectCost_le (effect rendered slot : Option BodyObject) :
    effectCost decompress effect rendered slot ≤ 10 := by
  rw [effectCost]
  split
  · omega
  · split <;> omega

theorem pending_le (s : Decoding V R L) : s.pending decompress ≤ 9 * s.tasks.length + 17 := by
  have strays := s.tasks.countP_le_length (p := isStray decompress s.slot)
  have write := writeCost_le decompress s.slot
  have render := renderCost_le s.rendered s.slot
  have effect := effectCost_le decompress s.effect s.rendered s.slot
  rw [pending, taskCost]
  omega

theorem sameObject_self (a : Option BodyObject) : sameObject a a = true := sameObject_iff.mpr rfl

theorem renderCost_self (slot : Option BodyObject) : renderCost slot slot = 0 :=
  if_pos (sameObject_self slot)

theorem effectCost_self (rendered slot : Option BodyObject) :
    effectCost decompress rendered rendered slot = 0 := if_pos (sameObject_self rendered)

theorem effectCost_slot_le (effect slot : Option BodyObject) :
    effectCost decompress effect slot slot ≤ 2 := by
  rw [effectCost, if_pos rfl]
  split <;> omega

/-- The decoding that an effect starts is paid by the effect. -/
theorem taskCost_effect_lt {effect rendered : Option BodyObject} (slot : Option BodyObject)
    (tasks : List DecodeTask) (changed : sameObject effect rendered = false) :
    taskCost decompress slot (tasks.map DecodeTask.cancel ++ startDecoding rendered) <
      taskCost decompress slot tasks + effectCost decompress effect rendered slot := by
  have dropped : (tasks.map DecodeTask.cancel).countP (isStray decompress slot) = 0 := by
    rw [List.countP_eq_zero]
    rintro task mem
    obtain ⟨earlier, -, rfl⟩ := List.mem_map.mp mem
    exact Bool.false_ne_true
  have length : (startDecoding rendered).length ≤ 1 := by
    cases rendered with
    | none => exact Nat.zero_le 1
    | some object =>
      rw [startDecoding]
      split <;> simp
  have strays := (startDecoding rendered).countP_le_length (p := isStray decompress slot)
  rw [taskCost, taskCost, effectCost, changed, List.length_append, List.length_map,
    List.countP_append, dropped]
  by_cases sizes : sizeOf? decompress rendered = sizeOf? decompress slot
  · have tame : (startDecoding rendered).countP (isStray decompress slot) = 0 := by
      rw [List.countP_eq_zero]
      intro task mem stray
      rw [isStray_iff, ← sizes, (mem_startDecoding.mp mem).1] at stray
      exact stray.2 rfl
    rw [if_pos sizes, tame, if_neg Bool.false_ne_true]
    omega
  · rw [if_neg sizes, if_neg Bool.false_ne_true]
    omega

theorem taskCost_eraseIdx {tasks : List DecodeTask} {i : Nat} {task : DecodeTask}
    (found : tasks[i]? = some task) (slot : Option BodyObject) :
    taskCost decompress slot tasks = taskCost decompress slot (tasks.eraseIdx i) + 1 +
      8 * if isStray decompress slot task then 1 else 0 := by
  obtain ⟨bound, rfl⟩ := List.getElem?_eq_some_iff.mp found
  have perm := List.getElem_cons_eraseIdx_perm bound
  rw [taskCost, taskCost, ← perm.length_eq, ← perm.countP_eq, List.length_cons, List.countP_cons]
  omega

/-- Writing a size costs less than what it settles. -/
theorem cost_write_lt {task : DecodeTask} {object : BodyObject} {n : Nat} (ref : Nat)
    (live : task.cancelled = false) (size : decodedSize decompress task.object.body = some n)
    (unknown : object.body.decodedBytes ≠ some n) :
    writeCost decompress (some ⟨ref, { object.body with decodedBytes := some n }⟩) + 4 ≤
      writeCost decompress (some object) +
        8 * if isStray decompress (some object) task then 1 else 0 := by
  by_cases stray : isStray decompress (some object) task = true
  · rw [if_pos stray]
    have write := writeCost_le decompress
      (some ⟨ref, { object.body with decodedBytes := some n }⟩)
    omega
  · rw [isStray_iff, size] at stray
    have own : decodedSize decompress object.body = some n := by
      by_contra differ
      exact stray ⟨live, Ne.symm differ⟩
    have before : isMiscounted decompress (some object) = true := by
      simpa only [isMiscounted, Option.any_some, own, Option.isSome_some, true_and,
        decide_eq_true_eq] using unknown
    have after : isMiscounted decompress
        (some ⟨ref, { object.body with decodedBytes := some n }⟩) = false := by
      simp only [isMiscounted, Option.any_some, decodedSize_written, own, ne_eq, not_true,
        and_false, decide_false]
    rw [writeCost, writeCost, before, after, if_pos rfl, if_neg Bool.false_ne_true]
    omega

end Costs

theorem pending_lt_of_steps {a : DecodingAction V R L} (internal : a.isInternal = true)
    (taken : Steps decompress caching s a t) : t.pending decompress < s.pending decompress := by
  cases taken with
  | update body => cases internal
  | render changed =>
    have effect := effectCost_slot_le decompress s.effect s.slot
    simp only [pending, renderCost_self]
    rw [renderCost, changed, if_neg Bool.false_ne_true]
    omega
  | runEffect changed =>
    have started := taskCost_effect_lt decompress s.slot s.tasks changed
    simp only [pending, effectCost_self]
    omega
  | dropped i workers task found cancelled =>
    have erased := taskCost_eraseIdx decompress found s.slot
    simp only [pending]
    omega
  | finished i workers task entry _ found live rendered effect tasks set source decoded writes =>
    have erased := taskCost_eraseIdx decompress found s.slot
    rw [pending, pending, rendered, effect, tasks]
    cases writes with
    | kept slot ref known =>
      rw [slot]
      omega
    | written object n size held unknown slot ref =>
      have own : decodedSize decompress task.object.body = some n := by
        split at size
        · exact size
        · cases size
      have write := cost_write_lt decompress s.nextRef live own unknown
      have sizes : sizeOf? decompress (some ⟨s.nextRef, { object.body with decodedBytes := some n }⟩) =
          sizeOf? decompress (some object) := decodedSize_written decompress object.body n
      have render := renderCost_le s.rendered
        (some ⟨s.nextRef, { object.body with decodedBytes := some n }⟩)
      have strays : isStray decompress (some ⟨s.nextRef, { object.body with decodedBytes := some n }⟩) =
          isStray decompress (some object) := by
        funext other
        rw [isStray, isStray, sizes]
      rw [held] at erased ⊢
      rw [slot, effectCost, effectCost, sizes]
      rw [taskCost, strays]
      rw [taskCost] at erased
      rw [taskCost] at erased ⊢
      omega

/-- What the pane shows when nothing is left to do: the body in the store, decoded, with its
size beside it. -/
structure Settled (decompress : Bytes → Text → Option Bytes) (caching : Bool)
    (s : Decoding V R L) : Prop where
  loading : s.view.loading = false
  shows : Shows decompress (s.slot.map BodyObject.body) s.view
  written : caching = true → ∀ object r n, s.slot = some object → s.view.result = some r →
    r.decodedBytes = some n → object.body.decodedBytes = some n

theorem Consistent.eq_of_sameObject (ok : s.Consistent decompress caching)
    {a b : Option BodyObject} (left : ∀ object, a = some object → s.Holds object)
    (right : ∀ object, b = some object → s.Holds object) (same : sameObject a b = true) : a = b := by
  rw [sameObject_iff] at same
  cases a with
  | none => cases b with
    | none => rfl
    | some other => cases same
  | some object => cases b with
    | none => cases same
    | some other =>
      exact congrArg some (ok.same _ _ (left _ rfl) (right _ rfl) (Option.some.inj same))

theorem Consistent.settled (ok : s.Consistent decompress caching)
    (stopped : ∀ a : DecodingAction V R L, a.isInternal = true → s.step decompress caching a = none) :
    s.Settled decompress caching := by
  have rendered : s.rendered = s.slot := by
    refine ok.eq_of_sameObject (fun _ => .rendered _) (fun _ => .slot _) ?_
    by_contra changed
    have none := stopped .render rfl
    rw [step, if_neg changed] at none
    cases none
  have effect : s.effect = s.rendered := by
    refine ok.eq_of_sameObject (fun _ => .effect _) (fun _ => .rendered _) ?_
    by_contra changed
    have none := stopped .runEffect rfl
    rw [step, if_neg changed] at none
    cases none
  have idle : s.tasks = [] := by
    have workers : Codecs V R L := ⟨fun _ _ => none, fun _ => none, fun _ => none, fun _ => none,
      fun _ _ => none⟩
    have none := Option.map_eq_none_iff.mp (stopped (.settle 0 workers) rfl)
    exact List.length_eq_zero_iff.mp (Nat.le_zero.mp (List.getElem?_eq_none_iff.mp none))
  -- a complete body was decoded, as nothing decodes it any more
  have finished : ∀ object, s.slot = some object → object.body.atEnd = true →
      ∃ entry, s.entry = some entry ∧ entry.object = object ∧ s.view = ⟨false, entry.result⟩ := by
    intro object held complete
    rw [← rendered] at held
    rcases ok.started object (effect.trans held) complete with ⟨task, mem, -⟩ | ⟨entry, set, here⟩
    · rw [idle] at mem
      cases mem
    · refine ⟨entry, set, here, ?_⟩
      rw [view, held]
      dsimp only
      rw [complete, Bool.not_true, if_neg Bool.false_ne_true, set]
      dsimp only
      rw [if_pos (congrArg BodyObject.ref here)]
  have incomplete : ∀ object, s.slot = some object → object.body.atEnd = false →
      s.view = ⟨false, none⟩ := by
    intro object held missing
    rw [view, rendered, held]
    dsimp only
    rw [missing, Bool.not_false, if_pos rfl]
  refine ⟨?_, rendered ▸ ok.shows, fun cached object r n held result size => ?_⟩
  · cases held : s.slot with
    | none =>
      rw [view, rendered, held]
    | some object =>
      cases complete : object.body.atEnd with
      | true =>
        obtain ⟨entry, -, -, shown⟩ := finished object held complete
        rw [shown]
      | false => rw [incomplete object held complete]
  · cases complete : object.body.atEnd with
    | true =>
      obtain ⟨entry, set, rfl, shown⟩ := finished object held complete
      rw [shown] at result
      exact ok.written cached entry r n set result size held
    | false =>
      rw [incomplete object held complete] at result
      cases result

/-- When no more messages come, the pane stops after a bounded number of renders, effects and
decodings, in whatever order, and then it is settled. -/
theorem settles {body : Option BodyState} {acts more : List (DecodingAction V R L)}
    (reached : Machine.run (step decompress caching) (mount body) acts = some s)
    (internal : ∀ a ∈ more, a.isInternal = true)
    (later : Machine.run (step decompress caching) s more = some t) :
    more.length ≤ 9 * s.tasks.length + 17 ∧
      ((∀ a : DecodingAction V R L, a.isInternal = true → t.step decompress caching a = none) →
        t.Settled decompress caching) := by
  constructor
  · have bound := Machine.run_length_add_le (pending decompress)
      (fun _ _ _ own taken => pending_lt_of_steps own (steps_of_step taken)) internal later
    have start := pending_le decompress s
    omega
  · have whole : Machine.run (step decompress caching) (mount body) (acts ++ more) = some t := by
      rw [Machine.run_append, reached, Option.bind_some, later]
    exact (consistent_of_run whole).settled

/-- The size is written to the store after the first of two decodings. -/
theorem zipped_settles : ∃ s t : Decoding Unit Unit Unit,
    Machine.run (step unzip true) (mount (some zipped)) [.runEffect] = some s ∧
      Machine.run (step unzip true) s
        [.settle 0 noWorkers, .render, .runEffect, .settle 0 noWorkers] = some t ∧
      4 ≤ 9 * s.tasks.length + 17 ∧ t.Settled unzip true := by
  have ran : Machine.run (step unzip true) (mount (some zipped) : Decoding Unit Unit Unit)
      [.runEffect] = some _ := rfl
  have internal : ∀ a ∈ [.settle 0 noWorkers, .render, .runEffect, .settle 0 noWorkers],
      DecodingAction.isInternal a = true := by simp [DecodingAction.isInternal]
  obtain ⟨bound, settled⟩ := settles ran internal rfl
  refine ⟨_, _, ran, rfl, bound, settled fun a own => ?_⟩
  cases a with
  | update body => cases own
  | render => rfl
  | runEffect => rfl
  | settle i workers => rfl

end Decoding

end Ui

end Protospy
