import Harmonia.Nar.ByteStream

/-!
# Writing in any schedule

`archive/writer.rs` once more, poll by poll: the writer may be asked whether it is ready, sent an event
once it is, and flushed or closed, in any order, while what it writes to and the readers of the files
put it off wherever they like. At every moment what has been written begins the encoding of the events
sent so far, and behind a flush or a close it is all of it. A poll only adds to what has been written,
so the same holds in the middle of it.
-/

namespace Harmonia.Nar

section Runs

variable {R W : Type} [AsyncBufRead R] [LawfulBufRead R] [AsyncWrite W] [SteadyWrite W]
  [PatientWrite W]

/-- The states of a writer that has been polled in some order, with whether the last poll was ready
and the events that have been sent. -/
inductive Reaches (start : W) : Bool → List (NarEvent R) → NarWriter R W → Prop
  | new : Reaches start false [] (.new start)
  | ready {ready : Bool} {sent : List (NarEvent R)} {this next : NarWriter R W} {answer : Poll Unit}
    (before : Reaches start ready sent this) (polled : this.pollReady = (answer, next)) :
    Reaches start (answer = .ready ()) sent next
  | send {sent : List (NarEvent R)} {this next : NarWriter R W} {event : NarEvent R}
    (before : Reaches start true sent this) (valid : event.Valid) (regular : event.Regular)
    (put : this.startSend event = some next) : Reaches start false (sent ++ [event]) next
  | settle {ready : Bool} {sent : List (NarEvent R)} {this next : NarWriter R W} {answer : Poll Unit}
    (before : Reaches start ready sent this) (polled : this.pollSettle = (answer, next)) :
    Reaches start (answer = .ready ()) sent next

/-- The encoding of the events that have been sent. -/
def reference (sent : List (NarEvent R)) : Bytes := encode 0 (sent.map NarEvent.contents)

/-- What is true of a writer at every moment. -/
structure OnTrack (start : W) (ready : Bool) (sent : List (NarEvent R)) (this : NarWriter R W) :
    Prop where
  /-- Its fields fit together. -/
  sound : this.Sound
  /-- The reader of the file that is copied will not fail. -/
  steady : this.Steady
  /-- The open directories are those of the events. -/
  level : this.level = levelBehind 0 (sent.map NarEvent.contents)
  /-- What has been written and what is outstanding are the encoding of the events. -/
  joined : written this.writer ++ this.outstanding = written start ++ reference sent
  /-- When it is ready, no file is being copied. -/
  free : ready = true → this.reader = none ∧ this.state.isFlushing = false

/-- A poll keeps a writer on track, and it is ready or put off. -/
theorem OnTrack.polled {start : W} {ready : Bool} {sent : List (NarEvent R)}
    {this next : NarWriter R W} {answer : Poll Unit} (track : OnTrack start ready sent this)
    (readies : NarWriter.Readies this (answer, next)) :
    OnTrack start (answer = .ready ()) sent next ∧ (answer = .ready () ∨ answer = .pending) := by
  cases readies with
  | ready keeps free rests spent =>
    exact ⟨⟨keeps.sound, keeps.steady track.steady, keeps.level.trans track.level,
      keeps.joined.trans track.joined, fun _ => ⟨free, rests⟩⟩, .inl rfl⟩
  | pending keeps less =>
    exact ⟨⟨keeps.sound, keeps.steady track.steady, keeps.level.trans track.level,
      keeps.joined.trans track.joined, fun no => by cases no⟩, .inr rfl⟩
  | error unsteady short => exact absurd track.steady unsteady

/-- The open directories behind one more event. -/
theorem levelBehind_append {C : Type} (level : Nat) (events : List (NarEvent C)) (event : NarEvent C) :
    levelBehind level (events ++ [event]) = event.levelAfter (levelBehind level events) := by
  induction events generalizing level with
  | nil => rfl
  | cons first events ih => exact ih (first.levelAfter level)

/-- Sending an event keeps a writer on track that is ready. -/
theorem OnTrack.sent {start : W} {sent : List (NarEvent R)} {this next : NarWriter R W}
    {event : NarEvent R} (track : OnTrack start true sent this) (valid : event.Valid)
    (regular : event.Regular) (put : this.startSend event = some next) :
    OnTrack start false (sent ++ [event]) next := by
  obtain ⟨free, rests⟩ := track.free rfl
  -- A directory that is not open cannot be closed.
  have open_ : event = .endDirectory → 0 < this.level := by
    rintro rfl
    by_contra closed
    have zero : this.level = 0 := Nat.eq_zero_of_not_pos closed
    simp [NarWriter.startSend, zero, NarWriter.put] at put
  obtain ⟨after, put', sound, steady, level, writer, encoded, _⟩ :=
    NarWriter.startSend_encodes track.sound free rests valid open_
  obtain rfl : after = next := Option.some.inj (put'.symm.trans put)
  have behind : event.contents.levelAfter this.level = event.levelAfter this.level := by
    cases event <;> rfl
  refine ⟨sound, steady regular, ?_, ?_, fun no => by cases no⟩
  · rw [List.map_append, List.map_singleton, levelBehind_append, level, ← track.level, behind]
  · rw [writer, encoded, ← List.append_assoc, track.joined, reference, reference, List.map_append,
      encode_append, ← track.level, List.append_assoc]
    rw [List.map_singleton, encode, encode, List.append_nil]

variable [LawfulPatience W]

/-- A writer to something steady is always on track. -/
theorem Reaches.onTrack {start : W} (steady : Steady start) {ready : Bool} {sent : List (NarEvent R)}
    {this : NarWriter R W} (reaches : Reaches start ready sent this) :
    OnTrack start ready sent this := by
  induction reaches with
  | new =>
    have idle : (NarWriter.new start : NarWriter R W).Idle := NarWriter.new_idle steady
    exact ⟨idle.sound, idle.steady, rfl, rfl, fun no => by cases no⟩
  | @ready _ _ this _ _ _ polled ih =>
    have readies := NarWriter.pollReady_readies ih.sound
    rw [polled] at readies
    exact (ih.polled readies).1
  | send _ valid regular put ih => exact ih.sent valid regular put
  | @settle _ _ this _ _ _ polled ih =>
    have readies := (NarWriter.pollSettle_readies ih.sound).1
    rw [polled] at readies
    exact (ih.polled readies).1

/-- At every moment, what has been written begins the encoding of the events sent so far; behind a
flush or a close that is ready, it is all of it. The padding of the encoding is that of the format. -/
theorem schedule_independent {start : W} (steady : Steady start) {ready : Bool}
    {sent : List (NarEvent R)} {this : NarWriter R W} (reaches : Reaches start ready sent this) :
    written this.writer <+: written start ++ reference sent ∧
      (∀ next, this.pollSettle = (.ready (), next) →
        written next.writer = written start ++ reference sent) ∧
      ∀ size, calcPadding size = (8 - size.toNat % 8) % 8 := by
  have track := reaches.onTrack steady
  refine ⟨⟨this.outstanding, track.joined⟩, ?_, calcPadding_eq⟩
  intro next settled
  obtain ⟨readies, empties⟩ := NarWriter.pollSettle_readies track.sound
  have none := (empties next settled).1
  rw [settled] at readies
  cases readies with
  | ready keeps free rests spent =>
    have joined := keeps.joined
    rw [NarWriter.outstanding, free, none, track.joined, List.append_nil] at joined
    exact joined

end Runs

/-- A sink that is put off, takes a header, two bytes one by one and three bytes, and is put off again. -/
def slowSink : Sink := ⟨[], [.pending, .take 500, .take 1, .take 1, .take 3, .pending], 63⟩

/-- A file of two bytes, whose reader is put off. -/
def slowFile : NarEvent BufReader := .file [] false 2 ⟨8, [], ⟨[0x21, 0x22], [.pending], 0⟩⟩

/-- A file is sent to that sink and the writer is polled for a flush three times: the header, the contents and
half of the padding are written. Behind the fourth poll everything is. -/
theorem schedule_independent_sample : ∃ this next : NarWriter BufReader,
    Reaches slowSink false [slowFile] this ∧
      this.writer.written = tokRoot ++ tokFile ++ toLeBytes 2 ++ [0x21, 0x22, 0, 0, 0] ∧
      this.writer.written <+: reference [slowFile] ∧
      this.pollSettle = (.ready (), next) ∧ next.writer.written = reference [slowFile] := by
  have valid : slowFile.Valid := (by decide : 0 < 8)
  have regular : slowFile.Regular := by
    intro turn member
    rw [List.mem_singleton.mp member]
    rfl
  have sent : Reaches slowSink false [slowFile] _ := .send (.ready .new rfl) valid regular rfl
  have reached : Reaches slowSink false [slowFile] _ := .settle (.settle (.settle sent rfl) rfl) rfl
  obtain ⟨begins, settled, _⟩ := schedule_independent (by decide : slowSink.Steady) reached
  exact ⟨_, _, reached, by decide +kernel, begins, rfl, settled _ rfl⟩

end Harmonia.Nar
