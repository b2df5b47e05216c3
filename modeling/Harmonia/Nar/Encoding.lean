import Mathlib.Data.List.Basic
import Mathlib.Algebra.Order.Ring.Nat
import Harmonia.Nar.Writer

/-!
# What a writer delivers

The encoding of events as a function of the events alone, and the proof that a writer delivers
it: whatever the sink takes at a time, however the file readers cut up their contents, and
whether or not the caller flushes between events.
-/

namespace Harmonia.Nar

/-- The open directories behind an event. -/
def NarEvent.levelAfter {C : Type} (level : Nat) : NarEvent C → Nat
  | .startDirectory _ => level + 1
  | .endDirectory => level - 1
  | _ => level

/-- The bytes of an event, inside some open directories. -/
def encodeEvent (level : Nat) (event : NarEvent Bytes) : Bytes :=
  (if level = 0 then tokRoot else []) ++
    match event with
    | .file name executable size contents =>
      NarWriter.entry level name ++ (if executable then tokFileE else tokFile) ++
        toLeBytes size ++ contents ++ List.replicate (calcPadding size) 0 ++ closing level
    | .symlink name target =>
      NarWriter.entry level name ++ tokSym ++ putNixSlice target ++ closing level
    | .startDirectory name => NarWriter.entry level name ++ tokDir
    | .endDirectory => closing (level - 1)

/-- The bytes of some events. -/
def encode : Nat → List (NarEvent Bytes) → Bytes
  | _, [] => []
  | level, event :: events => encodeEvent level event ++ encode (event.levelAfter level) events

/-- No directory is closed that is not open. -/
def Nested {C : Type} : Nat → List (NarEvent C) → Prop
  | _, [] => True
  | level, .endDirectory :: events => 0 < level ∧ Nested (level - 1) events
  | level, event :: events => Nested (event.levelAfter level) events

/-- The first event closes no directory that is not open, and those behind it do not either. -/
theorem Nested.cons {C : Type} {level : Nat} {event : NarEvent C} {events : List (NarEvent C)}
    (nested : Nested level (event :: events)) :
    (event = .endDirectory → 0 < level) ∧ Nested (event.levelAfter level) events := by
  cases event with
  | endDirectory => exact ⟨fun _ => nested.1, nested.2⟩
  | _ => exact ⟨by simp, nested⟩

variable {R : Type} [AsyncBufRead R] [LawfulBufRead R]

/-- The event with the contents its reader has. -/
def NarEvent.contents (event : NarEvent R) : NarEvent Bytes := event.map view.unread

/-- The reader of an event is sound. -/
def NarEvent.Valid : NarEvent R → Prop
  | .file _ _ _ reader => view.Valid reader
  | _ => True

/-- The reader of an event will not fail. -/
def NarEvent.Regular : NarEvent R → Prop
  | .file _ _ _ reader => view.Regular reader
  | _ => True

section Send

variable {W : Type} [AsyncWrite W] [SteadyWrite W] [PatientWrite W]

namespace NarWriter

/-- `start_send` puts the bytes of an event behind what is outstanding. -/
theorem startSend_encodes {this : NarWriter R W} (sound : this.Sound)
    (free : this.reader = none) (rests : this.state.isFlushing = false) {event : NarEvent R}
    (valid : event.Valid) (open_ : event = .endDirectory → 0 < this.level) :
    ∃ next, this.startSend event = some next ∧ next.Sound ∧ (event.Regular → next.Steady) ∧
      next.level = event.levelAfter this.level ∧ next.writer = this.writer ∧
      next.outstanding = this.outstanding ++ encodeEvent this.level event.contents ∧
      next.patience = turns this.writer + event.patience := by
  obtain ⟨state, buffer, cutoff, reader, writer, level⟩ := this
  obtain rfl : reader = none := free
  have rooted : (if level = 0 then put (R := R) (W := W) ⟨state, buffer, cutoff, none, writer, level⟩ tokRoot
      else ⟨state, buffer, cutoff, none, writer, level⟩) =
        ⟨state, buffer ++ (if level = 0 then tokRoot else []), cutoff, none, writer, level⟩ := by
    split
    · rfl
    · rw [List.append_nil]
  -- Without a file the writer rests as it did.
  have resting {state' : WriterState} {bytes : Bytes} {level' : Nat}
      (rests' : state'.isFlushing = false) :
      Sound (R := R) (W := W) ⟨state', bytes, cutoff, none, writer, level'⟩ ∧
        Steady (R := R) (W := W) ⟨state', bytes, cutoff, none, writer, level'⟩ := by
    refine ⟨⟨sound.cutoff, ?_, ?_, ?_, fun some' => absurd rfl some', sound.steady⟩, ?_⟩
    · rintro _ cnt rfl
      cases rests'
    · rintro cnt rfl
      cases rests'
    · rintro reader none
      cases none
    · rintro reader none
      cases none
  simp only [startSend, rooted]
  cases event with
  | file name executable size reader =>
    refine ⟨_, rfl, ⟨sound.cutoff, ?_, ?_, ?_, ?_, sound.steady⟩, ?_, rfl, rfl, ?_, rfl⟩
    · rintro none
      cases none
    · rintro cnt same
      cases same
      exact calcPadding_lt size
    · rintro other same
      cases same
      exact valid
    · rintro _ rests
      cases rests
    · intro regular other same
      cases same
      exact regular
    · simp [outstanding, encodeEvent, NarEvent.contents, NarEvent.map, put]
  | symlink name target =>
    obtain ⟨sound', steady'⟩ := resting (rested_ne level rests)
    exact ⟨_, rfl, sound', fun _ => steady', rfl, rfl, by
      simp [outstanding, encodeEvent, NarEvent.contents, NarEvent.map, put], rfl⟩
  | startDirectory name =>
    obtain ⟨sound', steady'⟩ := resting rests
    exact ⟨_, rfl, sound', fun _ => steady', rfl, rfl, by
      simp [outstanding, encodeEvent, NarEvent.contents, NarEvent.map, put], rfl⟩
  | endDirectory =>
    have positive : level ≠ 0 := Nat.pos_iff_ne_zero.mp (open_ rfl)
    obtain ⟨sound', steady'⟩ := resting (rested_ne (level - 1) rests)
    simp only [if_neg positive]
    exact ⟨_, rfl, sound', fun _ => steady', rfl, rfl, by
      simp [outstanding, encodeEvent, NarEvent.contents, NarEvent.map, put, positive], rfl⟩

end NarWriter

variable [LawfulPatience W]

/-- A writer of sound and steady events delivers their encoding behind what it still had to. -/
theorem sendAll_delivers (patience : Nat) {events : List (NarEvent R × Bool)}
    {this : NarWriter R W} (sound : this.Sound) (steady : this.Steady)
    (valid : ∀ item ∈ events, item.1.Valid ∧ item.1.Regular)
    (nested : Nested this.level (events.map Prod.fst))
    (enough : this.patience + (events.map fun item => item.1.patience).sum < patience) :
    ∃ next, sendAll patience events this = (.ready (), next) ∧
      written next.writer = written this.writer ++ this.outstanding ++
        encode this.level (events.map fun item => item.1.contents) := by
  induction events generalizing this with
  | nil =>
    obtain ⟨before, next, awaited, sound', answer, keeps, free, _, _⟩ :=
      NarWriter.await_ready (fun sound => (NarWriter.pollSettle_readies sound).1) patience sound
        steady (by simpa using enough)
    have none := ((NarWriter.pollSettle_readies sound').2 next answer).1
    have joined := keeps.joined
    simp only [NarWriter.outstanding, free, none, List.append_nil] at joined
    refine ⟨next, awaited, ?_⟩
    rw [joined]
    exact (List.append_nil _).symm
  | cons item events ih =>
    obtain ⟨event, flush⟩ := item
    obtain ⟨⟨ok, regular⟩, okay⟩ : (event.Valid ∧ event.Regular) ∧
        ∀ item ∈ events, item.1.Valid ∧ item.1.Regular := List.forall_mem_cons.mp valid
    have nested : Nested this.level (event :: events.map Prod.fst) := nested
    obtain ⟨open_, nested'⟩ := nested.cons
    simp only [List.map_cons, List.sum_cons] at enough
    obtain ⟨_, first, awaited, _, _, keeps, free, rests, spent⟩ :=
      NarWriter.await_ready NarWriter.pollReady_readies patience sound steady (by omega)
    rw [← keeps.level] at open_ nested'
    obtain ⟨second, sent, sound', steady', level, writer, encoded, counted⟩ :=
      NarWriter.startSend_encodes keeps.sound free rests ok open_
    have steady' := steady' regular
    have fewer : second.patience + (events.map fun item => item.1.patience).sum < patience := by
      have left : first.patience = turns first.writer := by
        rw [NarWriter.patience, free]
        rfl
      omega
    have joined : written second.writer ++ second.outstanding =
        written this.writer ++ this.outstanding ++ encodeEvent this.level event.contents := by
      rw [writer, encoded, ← List.append_assoc, keeps.joined, keeps.level]
    rw [← level] at nested'
    rw [sendAll, awaited]
    simp only [sent, List.map_cons, encode]
    have after : event.contents.levelAfter this.level = second.level := by
      rw [level, keeps.level]
      cases event <;> rfl
    rw [after, ← List.append_assoc, ← joined]
    cases flush with
    | false => exact ih sound' steady' okay nested' fewer
    | true =>
      obtain ⟨_, third, awaited', _, _, keeps', _, _, spent'⟩ :=
        NarWriter.await_ready (fun sound => (NarWriter.pollSettle_readies sound).1) patience sound'
          steady' (by omega)
      simp only [↓reduceIte, awaited']
      rw [← keeps'.joined, ← keeps'.level]
      exact ih keeps'.sound (keeps'.steady steady') okay (keeps'.level ▸ nested') (by omega)

end Send

/-- A writer delivers the encoding of the events it is sent. -/
theorem writeNar_delivers {events : List (NarEvent R × Bool)} {sink : Sink} (steady : sink.Steady)
    (valid : ∀ item ∈ events, item.1.Valid ∧ item.1.Regular)
    (nested : Nested 0 (events.map Prod.fst)) :
    ∃ next, writeNar events sink = (.ready (), next) ∧ next.writer.written =
      sink.written ++ encode 0 (events.map fun item => item.1.contents) := by
  have sound : (NarWriter.new sink : NarWriter R).Sound := by
    refine ⟨(by decide : 8 ≤ 8192), ?_, ?_, ?_, fun some' => absurd rfl some', steady⟩
    · rintro _ cnt same
      cases same
    · rintro cnt same
      cases same
    · rintro reader none
      cases none
  have steady' : (NarWriter.new sink : NarWriter R).Steady := by
    rintro reader none
    cases none
  obtain ⟨next, sent, delivered⟩ := sendAll_delivers
    (sink.plan.length + (events.map fun item => item.1.patience).sum + 1) sound steady' valid nested
    (Nat.lt_succ_self _)
  refine ⟨next, sent, ?_⟩
  refine Eq.trans delivered ?_
  change sink.written ++ [] ++ _ = _
  rw [List.append_nil]
  rfl

end Harmonia.Nar
