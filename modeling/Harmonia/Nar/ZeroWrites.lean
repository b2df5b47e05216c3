import Harmonia.Nar.Encoding
import Harmonia.Protocol.ZeroWrites

/-!
# Archives over writers that take nothing

What goes through the buffer of an archive's writer comes to a `WriteZero` error. The contents of a
file do not go through it: they are offered again and again.
-/

namespace Harmonia

variable {W : Type} [AsyncWrite W] [SaneWrite W]

/-! ## Archives -/

namespace Nar

variable {R : Type} [AsyncBufRead R]

omit [SaneWrite W] in
/-- A buffer that has been written out is empty. -/
theorem flushBuffer_ready (fuel : Nat) {buffer rest : Bytes} {writer next : W}
    (ready : flushBuffer fuel buffer writer = (.ready (), rest, next)) : rest = [] := by
  induction fuel generalizing buffer writer with
  | zero => cases ready
  | succ fuel ih =>
    rw [flushBuffer] at ready
    split at ready
    case isTrue none =>
      cases ready
      exact none
    case isFalse =>
      generalize pollWrite writer buffer = result at ready
      obtain ⟨poll, inner⟩ := result
      cases poll with
      | ready count =>
        dsimp only at ready
        split at ready
        case isTrue => cases ready
        case isFalse => exact ih ready
      | _ => cases ready

/-- Writing out a buffer comes back, with a `WriteZero` error if nothing is taken. -/
theorem flushBuffer_prompt (fuel : Nat) {buffer : Bytes} {writer : Watched W}
    (quiet : writer.zero = false) (enough : buffer.length < fuel) :
    Prompt (fun state : Bytes × Watched W => state.2.zero) (flushBuffer fuel buffer writer) := by
  induction fuel generalizing buffer writer with
  | zero => exact absurd enough (Nat.not_lt_zero _)
  | succ fuel ih =>
    rw [flushBuffer]
    split
    case isTrue => exact .of_quiet (by rintro ⟨⟩) quiet
    case isFalse some =>
      have answers := pollWrite_answers writer some
      generalize pollWrite writer buffer = result at answers
      cases answers with
      | @took next count positive within same =>
        simp only [if_neg (Nat.pos_iff_ne_zero.mp positive)]
        apply ih (same.trans quiet)
        rw [List.length_drop]
        omega
      | nothing noted => exact ⟨(by rintro ⟨⟩), fun _ => ⟨wroteZero, rfl, rfl⟩⟩
      | pending same => exact .of_quiet (by rintro ⟨⟩) (same.trans quiet)
      | error same => exact .of_quiet (by rintro ⟨⟩) (same.trans quiet)

omit [SaneWrite W] in
/-- What has been noted stays noted while contents are copied. -/
theorem copyContents_noted (fuel : Nat) {reader : R} {writer : Watched W} (zero : writer.zero = true) :
    (copyContents fuel reader writer).2.2.zero = true := by
  induction fuel generalizing reader writer with
  | zero => exact zero
  | succ fuel ih =>
    rw [copyContents]
    generalize pollFillBuf reader = result
    obtain ⟨poll, next⟩ := result
    cases poll with
    | ready buf =>
      dsimp only
      split
      case isTrue => exact zero
      case isFalse =>
        have after := TeeWriter.pollWrite_noted zero buf
        generalize pollWrite writer buf = result at after
        obtain ⟨poll, writer⟩ := result
        cases poll with
        | ready count =>
          dsimp only
          cases consume next count with
          | none => exact after
          | some next => exact ih after
        | _ => exact after
    | _ => exact zero

/-- Copying contents comes back if something is taken whenever there is something. -/
theorem copyContents_returns [LawfulBufRead R] (fuel : Nat) {reader : R} {writer : Watched W}
    (valid : view.Valid reader) (quiet : writer.zero = false) (enough : budget reader < fuel)
    (takes : (copyContents fuel reader writer).2.2.zero = false) :
    (copyContents fuel reader writer).1 ≠ .panic ∧
      view.Valid (copyContents fuel reader writer).2.1 := by
  induction fuel generalizing reader writer with
  | zero => exact absurd enough (Nat.not_lt_zero _)
  | succ fuel ih =>
    rw [copyContents] at takes ⊢
    have filled := fills valid
    generalize pollFillBuf reader = result at filled takes
    cases filled with
    | @ready next kept regular same bounded ends =>
      have fewer := kept.budget
      dsimp only at takes ⊢
      split
      case isTrue => exact ⟨(by rintro ⟨⟩), kept.valid⟩
      case isFalse some =>
        rw [if_neg some] at takes
        have answers := pollWrite_answers writer some
        generalize pollWrite writer (view.visible next) = result at answers takes
        cases answers with
        | @took sink count positive within same =>
          obtain ⟨after, took, valid', _, _, _, _, _, less⟩ := consumes kept.valid within
          simp only [took] at takes ⊢
          exact ih valid' (same.trans quiet) (by omega) takes
        | @nothing sink noted =>
          -- The loop goes on, but the note stays.
          dsimp only at takes
          cases eaten : consume next 0 with
          | none =>
            rw [eaten] at takes
            exact absurd takes (by rw [noted]; rintro ⟨⟩)
          | some after =>
            rw [eaten] at takes
            dsimp only at takes
            exact absurd takes (by rw [copyContents_noted fuel noted]; rintro ⟨⟩)
        | pending same => exact ⟨(by rintro ⟨⟩), kept.valid⟩
        | error same => exact ⟨(by rintro ⟨⟩), kept.valid⟩
    | pending kept regular same less => exact ⟨(by rintro ⟨⟩), kept.valid⟩
    | error kept same irregular => exact ⟨(by rintro ⟨⟩), kept.valid⟩

namespace NarWriter

/-- What is noted of the writer below. -/
def noted (this : NarWriter R (Watched W)) : Bool := this.writer.zero

/-- The reader of the file that is copied is sound. -/
def Reading [LawfulBufRead R] (this : NarWriter R W) : Prop :=
  ∀ reader, this.reader = some reader → view.Valid reader

variable [PatientWrite W]

omit [SaneWrite W] in
/-- The first half of `poll_ready`: the buffer in front of a file is written out. -/
def pollFront (this : NarWriter R W) : Poll Unit × NarWriter R W :=
  let state := if this.state.isFlushing = false ∧ this.cutoff < this.buffer.length then
    .flushing 0 else this.state
  match state with
  | .flushing cnt =>
    match flushBuffer (this.buffer.length + 1) this.buffer this.writer with
    | (.ready _, buffer, writer) =>
      (.ready (), { this with
        state := rested this.level .ready
        buffer := buffer ++ List.replicate cnt 0
        writer := writer })
    | (result, buffer, writer) =>
      (result, { this with state := state, buffer := buffer, writer := writer })
  | _ => (.ready (), this)

omit [SaneWrite W] in
/-- `poll_ready` in two halves. -/
theorem pollReady_halves (this : NarWriter R W) :
    this.pollReady =
      match this.pollFront with
      | (.ready _, this) => this.pollContents
      | result => result := by
  rw [pollReady, pollFront]
  generalize (if this.state.isFlushing = false ∧ this.cutoff < this.buffer.length then
    WriterState.flushing 0 else this.state) = state
  cases state with
  | flushing cnt =>
    generalize flushBuffer (this.buffer.length + 1) this.buffer this.writer = result
    obtain ⟨poll, buffer, writer⟩ := result
    cases poll <;> rfl
  | ready => rfl
  | eof => rfl

/-- The writer below takes something of the contents of a file whenever it is offered some. -/
def Feeds (this : NarWriter R (Watched W)) : Prop :=
  ∀ middle : NarWriter R (Watched W), this.pollFront = (.ready (), middle) → middle.noted = false →
    middle.pollContents.2.noted = false

variable [LawfulBufRead R]

/-- What a call comes to that returns. -/
structure Returns (result : Poll Unit × NarWriter R (Watched W)) : Prop where
  /-- It is prompt. -/
  prompt : Prompt noted result
  /-- The reader is as it should be. -/
  reading : result.2.Reading

omit [PatientWrite W] in
/-- The first half of `poll_ready`. -/
theorem pollFront_returns {this : NarWriter R (Watched W)} (reading : this.Reading)
    (quiet : this.noted = false) : Returns this.pollFront ∧
      ∀ next, this.pollFront = (.ready (), next) → next.noted = false ∧ next.reader = this.reader := by
  rw [pollFront]
  split
  case h_1 cnt flushes =>
    have prompt := flushBuffer_prompt (this.buffer.length + 1) quiet (Nat.lt_succ_self this.buffer.length)
    generalize flushBuffer (this.buffer.length + 1) this.buffer this.writer = result at prompt
    obtain ⟨poll, buffer, writer⟩ := result
    cases poll with
    | ready _ =>
      have calm : writer.zero = false := prompt.quiet
      refine ⟨⟨.of_quiet nofun calm, reading⟩, ?_⟩
      rintro next same
      cases same
      exact ⟨calm, rfl⟩
    | pending => exact ⟨⟨prompt, reading⟩, nofun⟩
    | error error => exact ⟨⟨prompt, reading⟩, nofun⟩
    | panic => exact absurd rfl prompt.1
  case h_2 =>
    refine ⟨⟨.of_quiet nofun quiet, reading⟩, ?_⟩
    rintro next same
    cases same
    exact ⟨quiet, rfl⟩

/-- The second half of `poll_ready`. -/
theorem pollContents_returns {this : NarWriter R (Watched W)} (reading : this.Reading)
    (quiet : this.noted = false) (takes : this.pollContents.2.noted = false) :
    Returns this.pollContents ∧ (this.pollContents.1 = .ready () → this.pollContents.2.reader = none) := by
  rw [pollContents] at takes ⊢
  cases some : this.reader with
  | none => exact ⟨⟨.of_quiet (by rintro ⟨⟩) quiet, reading⟩, fun _ => some⟩
  | some reader =>
    rw [some] at takes
    have enough : budget reader < this.patience + 1 := by
      rw [patience, some]
      exact Nat.lt_succ_of_le (Nat.le_add_left _ _)
    have returns := copyContents_returns (this.patience + 1) (reading reader some) quiet enough
    dsimp only at takes ⊢
    generalize copyContents (this.patience + 1) reader this.writer = result at returns takes
    obtain ⟨poll, next, writer⟩ := result
    cases poll with
    | ready _ =>
      refine ⟨⟨.of_quiet (by rintro ⟨⟩) takes, ?_⟩, fun _ => rfl⟩
      rintro other none
      cases none
    | pending =>
      refine ⟨⟨.of_quiet (by rintro ⟨⟩) takes, ?_⟩, by rintro ⟨⟩⟩
      rintro other same
      cases same
      exact (returns takes).2
    | error error =>
      refine ⟨⟨.of_quiet (by rintro ⟨⟩) takes, ?_⟩, by rintro ⟨⟩⟩
      rintro other same
      cases same
      exact (returns takes).2
    | panic => exact absurd rfl (returns takes).1

/-- `poll_ready`. -/
theorem pollReady_returns {this : NarWriter R (Watched W)} (reading : this.Reading)
    (quiet : this.noted = false) (feeds : this.Feeds) : Returns this.pollReady ∧
      ∀ next, this.pollReady = (.ready (), next) → next.noted = false ∧ next.reader = none := by
  obtain ⟨returns, front⟩ := pollFront_returns reading quiet
  rw [pollReady_halves]
  generalize half : this.pollFront = result at returns front
  obtain ⟨poll, middle⟩ := result
  cases poll with
  | ready _ =>
    obtain ⟨quiet', _⟩ := front middle rfl
    have takes := feeds middle half quiet'
    obtain ⟨returns', done⟩ := pollContents_returns returns.reading quiet' takes
    refine ⟨returns', ?_⟩
    intro next same
    have copied : middle.pollContents = (.ready (), next) := same
    rw [copied] at takes done
    exact ⟨takes, done rfl⟩
  | pending => exact ⟨returns, nofun⟩
  | error error => exact ⟨returns, nofun⟩
  | panic => exact ⟨returns, nofun⟩

/-- Without a file nothing is copied. -/
theorem feeds_of_free {this : NarWriter R (Watched W)} (reading : this.Reading)
    (quiet : this.noted = false) (free : this.reader = none) : this.Feeds := by
  intro middle front quiet'
  obtain ⟨_, same⟩ := (pollFront_returns reading quiet).2 middle front
  rw [pollContents, same.trans free]
  exact quiet'

omit [SaneWrite W] [LawfulBufRead R] in
/-- Behind no file, a flush leaves nothing in the buffer. -/
theorem pollReady_clears {this next : NarWriter R W} (free : this.reader = none)
    (ready : pollReady { this with state := .flushing 0 } = (.ready (), next)) : next.buffer = [] := by
  rw [pollReady_halves, pollFront] at ready
  simp only [WriterState.isFlushing, Bool.true_eq_false, false_and, ↓reduceIte] at ready
  generalize flushed : flushBuffer (this.buffer.length + 1) this.buffer this.writer = result at ready
  obtain ⟨poll, rest, writer⟩ := result
  cases poll with
  | ready _ =>
    have none := flushBuffer_ready _ flushed
    simp only [pollContents, free] at ready
    cases ready
    rw [none]
    rfl
  | _ => cases ready

/-- `poll_flush_buf`. -/
theorem pollFlushBuf_returns {this : NarWriter R (Watched W)} (reading : this.Reading)
    (quiet : this.noted = false) (feeds : this.Feeds) : Returns this.pollFlushBuf ∧
      ∀ next, this.pollFlushBuf = (.ready (), next) → next.noted = false := by
  obtain ⟨returns, readied⟩ := pollReady_returns reading quiet feeds
  rw [pollFlushBuf, flushLoop]
  generalize this.pollReady = result at returns readied
  obtain ⟨poll, next⟩ := result
  cases poll with
  | ready _ =>
    obtain ⟨quiet', free⟩ := readied next rfl
    dsimp only
    split
    case isTrue =>
      refine ⟨returns, ?_⟩
      rintro last same
      cases same
      exact quiet'
    case isFalse =>
      have reading' : Reading { next with state := .flushing 0 } := returns.reading
      have free' : NarWriter.reader { next with state := .flushing 0 } = none := free
      have feeds' := feeds_of_free reading' quiet' free'
      obtain ⟨returns', readied'⟩ := pollReady_returns reading' quiet' feeds'
      have clears {last : NarWriter R (Watched W)} := @pollReady_clears _ _ _ _ _ next last free
      rw [flushLoop]
      generalize pollReady { next with state := .flushing 0 } = result at returns' readied' clears
      obtain ⟨poll, last⟩ := result
      cases poll with
      | ready _ =>
        have none := clears rfl
        dsimp only
        rw [if_pos none]
        refine ⟨returns', ?_⟩
        rintro final same
        cases same
        exact (readied' last rfl).1
      | pending => exact ⟨returns', by intro _ same; cases same⟩
      | error error => exact ⟨returns', by intro _ same; cases same⟩
      | panic => exact ⟨returns', by intro _ same; cases same⟩
  | pending => exact ⟨returns, by intro _ same; cases same⟩
  | error error => exact ⟨returns, by intro _ same; cases same⟩
  | panic => exact ⟨returns, by intro _ same; cases same⟩

/-- `poll_flush` and `poll_close`. -/
theorem pollSettle_returns {this : NarWriter R (Watched W)} (reading : this.Reading)
    (quiet : this.noted = false) (feeds : this.Feeds) : Returns this.pollSettle := by
  obtain ⟨returns, flushed⟩ := pollFlushBuf_returns reading quiet feeds
  rw [pollSettle]
  generalize this.pollFlushBuf = result at returns flushed
  obtain ⟨poll, next⟩ := result
  cases poll with
  | ready _ =>
    have settled := pollFlush_same next.writer
    exact ⟨.of_quiet settled.1 (settled.2.trans (flushed next rfl)), returns.reading⟩
  | pending => exact returns
  | error error => exact returns
  | panic => exact returns

omit [AsyncBufRead R] [LawfulBufRead R] [AsyncWrite W] [SaneWrite W] [PatientWrite W] in
/-- `start_send` does not touch the writer below. -/
theorem startSend_starts {this : NarWriter R W} {event : NarEvent R}
    (open_ : event = .endDirectory → 0 < this.level) :
    ∃ next, this.startSend event = some next ∧ next.writer = this.writer := by
  have rooted : (if this.level = 0 then this.put tokRoot else this).writer = this.writer ∧
      (if this.level = 0 then this.put tokRoot else this).level = this.level := by
    split <;> exact ⟨rfl, rfl⟩
  unfold startSend
  generalize (if this.level = 0 then this.put tokRoot else this) = root at rooted
  cases event with
  | endDirectory =>
    have positive : root.level ≠ 0 := by
      rw [rooted.2]
      exact Nat.pos_iff_ne_zero.mp (open_ rfl)
    simp only [if_neg positive]
    exact ⟨_, rfl, rooted.1⟩
  | _ => exact ⟨_, rfl, rooted.1⟩

omit [AsyncWrite W] [SaneWrite W] [PatientWrite W] in
/-- `start_send` keeps the reader sound. -/
theorem startSend_reading {this next : NarWriter R W} {event : NarEvent R} (reading : this.Reading)
    (valid : event.Valid) (put : this.startSend event = some next) : next.Reading := by
  have rooted : (if this.level = 0 then this.put tokRoot else this).reader = this.reader := by
    split <;> rfl
  unfold startSend at put
  generalize (if this.level = 0 then this.put tokRoot else this) = root at put rooted
  have reading' : root.Reading := by
    rw [Reading, rooted]
    exact reading
  cases event with
  | file name executable size reader =>
    cases put
    rintro other same
    cases same
    exact valid
  | symlink name target =>
    cases put
    exact reading'
  | startDirectory name =>
    cases put
    exact reading'
  | endDirectory =>
    dsimp only at put
    split at put
    case isTrue => cases put
    case isFalse =>
      cases put
      exact reading'

end NarWriter

end Nar

namespace Nar

/-- The calls of a `NarWriter`. -/
inductive NarCall (R : Type) where
  /-- `poll_ready`. -/
  | ready
  /-- `start_send`. -/
  | send (event : NarEvent R)
  /-- `poll_flush` or `poll_close`. -/
  | settle

/-- The `NarWriter`: the writer below takes something of the contents of a file. The events are well
formed. -/
def narAdapter (R W : Type) [AsyncBufRead R] [LawfulBufRead R] [AsyncWrite W] [PatientWrite W] :
    Adapter where
  State := NarWriter R (Watched W)
  Call := NarCall R
  poll _ call this :=
    match call with
    | .ready => (Poll.count this.pollReady.1, this.pollReady.2)
    | .send event =>
      match this.startSend event with
      | some next => (.ready 0, next)
      | none => (.panic, this)
    | .settle => (Poll.count this.pollSettle.1, this.pollSettle.2)
  slice _ := []
  noted := NarWriter.noted
  begin this := { this with writer := ⟨this.writer.inner, false⟩ }
  Meets call this :=
    match call with
    | .send event => event.Valid ∧ (event = .endDirectory → 0 < this.level)
    | _ => this.Feeds

/-- In every run whose calls meet what they rely on, a `NarWriter` heeds the writer below. -/
theorem narAdapter_heeds {R : Type} [AsyncBufRead R] [LawfulBufRead R] [PatientWrite W]
    {writer : Watched W} {this : NarWriter R (Watched W)}
    (run : (narAdapter R W).Run (NarWriter.new writer) this) {call : NarCall R}
    (meets : (narAdapter R W).Meets call ((narAdapter R W).begin this)) :
    (narAdapter R W).Heeds call ((narAdapter R W).begin this) := by
  refine @Adapter.Run.heeds (narAdapter R W) NarWriter.Reading _ ?_ ?_ ?_ this run call meets
  · rintro reader none
    cases none
  · exact fun state reading => reading
  · intro call state reading meets
    have quiet : NarWriter.noted ((narAdapter R W).begin state) = false := rfl
    generalize (narAdapter R W).begin state = state at reading meets quiet ⊢
    -- Nothing of a call depends on the rounds.
    have both : (∀ rounds, Accepting NarWriter.noted [] ((narAdapter R W).poll rounds call state)) ∧
        ∀ rounds, NarWriter.Reading ((narAdapter R W).poll rounds call state).2 := by
      cases call with
      | ready =>
        have returns := (NarWriter.pollReady_returns reading quiet meets).1
        exact ⟨fun _ => returns.prompt.accepting, fun _ => returns.reading⟩
      | settle =>
        have returns := NarWriter.pollSettle_returns reading quiet meets
        exact ⟨fun _ => returns.prompt.accepting, fun _ => returns.reading⟩
      | send event =>
        obtain ⟨valid, open_⟩ := meets
        obtain ⟨next, put, same⟩ := NarWriter.startSend_starts open_
        have polled (rounds : Nat) : (narAdapter R W).poll rounds (.send event) state = (.ready 0, next) := by
          simp only [narAdapter, put]
        have quiet' : NarWriter.noted next = false := (congrArg Watched.zero same).trans quiet
        have reading' := NarWriter.startSend_reading reading valid put
        constructor
        · intro rounds
          rw [polled]
          exact ⟨.of_quiet nofun quiet', fun _ _ some => absurd rfl some⟩
        · intro rounds
          rw [polled]
          exact reading'
    refine ⟨⟨0, fun rounds _ => both.1 rounds⟩, ?_⟩
    rintro answer next ⟨enough, polled⟩ _
    have reading' := both.2 enough
    rw [polled enough (Nat.le_refl _)] at reading'
    exact reading'

end Nar

instance : SaneWrite Sink where
  writes this buf := by
    have writes := this.pollWrite_writes buf
    show (this.pollWrite buf).1 ≠ .panic
    generalize this.pollWrite buf = result at writes
    cases writes <;> exact nofun
  within {this next buf count} answer := by
    have writes := this.pollWrite_writes buf
    rw [show this.pollWrite buf = (.ready count, next) from answer] at writes
    cases writes with
    | ready within => exact within
  flushes this := by
    have settles := this.pollSettle_settles
    show this.pollSettle.1 ≠ .panic
    generalize this.pollSettle = result at settles
    cases settles <;> exact nofun

/-- In every run of a framed writer, and in every run of another one whose calls meet what they rely
on, no call stalls on a writer below that answers `Ok(0)`, and none answers `Ok(0)` itself. -/
theorem no_adapter_stalls (W1 W2 R : Type) [AsyncWrite W1] [SaneWrite W1] [AsyncWrite W2] [SaneWrite W2]
    [AsyncBufRead R] [LawfulBufRead R] [PatientWrite W1] (spare : Protocol.Spare) :
    (∀ start this, (Protocol.framedAdapter W1 spare).Run start this → ∀ call,
      (Protocol.framedAdapter W1 spare).Heeds call ((Protocol.framedAdapter W1 spare).begin this)) ∧
    (∀ start this, (Protocol.nixAdapter W1 spare).Run start this → ∀ call,
      (Protocol.nixAdapter W1 spare).Meets call ((Protocol.nixAdapter W1 spare).begin this) →
        (Protocol.nixAdapter W1 spare).Heeds call ((Protocol.nixAdapter W1 spare).begin this)) ∧
    (∀ writer1 writer2 capacity this,
      (teeAdapter W1 W2).Run (TeeWriter.new writer1 writer2 capacity) this → ∀ call,
        (teeAdapter W1 W2).Meets call ((teeAdapter W1 W2).begin this) →
          (teeAdapter W1 W2).Heeds call ((teeAdapter W1 W2).begin this)) ∧
    ∀ writer this, (Nar.narAdapter R W1).Run (Nar.NarWriter.new writer) this → ∀ call,
      (Nar.narAdapter R W1).Meets call ((Nar.narAdapter R W1).begin this) →
        (Nar.narAdapter R W1).Heeds call ((Nar.narAdapter R W1).begin this) := by
  refine ⟨?_, ?_, ?_, ?_⟩
  · exact fun start this _ call => Protocol.framedAdapter_heeds spare this call
  · exact fun start this _ call meets => Protocol.nixAdapter_heeds spare this meets
  · exact fun writer1 writer2 capacity this run call meets => teeAdapter_heeds run meets
  · exact fun writer this run call meets => Nar.narAdapter_heeds run meets

/-- A sink that answers `Ok(0)` once. -/
def onceMute : Watched Sink := ⟨⟨[], [.take 0], 0⟩, false⟩

/-- A framed writer with a byte to flush. -/
def framedByte : Protocol.FramedWriter (Watched Sink) :=
  ⟨onceMute, false, false, toLeBytes 0 ++ [1], 32⟩

/-- A framed writer is flushed, and a slice is written to a new `TeeWriter`, over sinks that answer
`Ok(0)`. -/
theorem no_adapter_stalls_sample :
    (Protocol.framedAdapter Sink fun _ _ _ => 0).Heeds .flush framedByte ∧
      (teeAdapter Sink Sink).Heeds (.write [1]) (TeeWriter.new onceMute onceMute 4) := by
  have all := no_adapter_stalls Sink Sink BufReader fun _ _ _ => 0
  refine ⟨all.1 framedByte framedByte .start .flush, ?_⟩
  have meets : (teeAdapter Sink Sink).Meets (.write [1]) (TeeWriter.new onceMute onceMute 4) :=
    ⟨fun _ => rfl, .inl (by decide : 1 < 4)⟩
  exact all.2.2.1 onceMute onceMute 4 _ .start (.write [1]) meets

/-! ## What stalls -/

/-- A writer that never takes anything. -/
inductive Mute where
  /-- Its only state. -/
  | mute

instance : AsyncWrite Mute where
  pollWrite this _ := (.ready 0, this)
  pollFlush this := (.ready (), this)
  written _ := []

instance : PatientWrite Mute where
  turns _ := 0

/-- A `TeeWriter` over writers that take nothing goes on for ever. -/
theorem tee_spins (rounds : Nat) (this : TeeWriter Mute Mute) (behind1 : this.written1 < this.buf.length)
    (behind2 : this.written2 < this.buf.length) : (this.flushLoop rounds).1 = .panic := by
  obtain ⟨buf, written1, written2, _, _, capacity⟩ := this
  induction rounds with
  | zero => rfl
  | succ rounds ih =>
    have first : TeeWriter.offer1 (⟨buf, written1, written2, .mute, .mute, capacity⟩ : TeeWriter Mute Mute) =
        (.ready (), ⟨buf, written1, written2, .mute, .mute, capacity⟩) := if_pos behind1
    have second : TeeWriter.offer2 (⟨buf, written1, written2, .mute, .mute, capacity⟩ : TeeWriter Mute Mute) =
        (.ready (), ⟨buf, written1, written2, .mute, .mute, capacity⟩) := if_pos behind2
    rw [TeeWriter.flushLoop, if_pos (.inl behind1), first]
    simp only [second]
    exact ih

/-- The contents of a file that are offered to a writer that takes nothing are offered for ever. -/
theorem copy_spins (fuel : Nat) (buffer : Bytes) (some : buffer ≠ []) (inner : Source) :
    (Nar.copyContents fuel (⟨8, buffer, inner⟩ : BufReader) Mute.mute).1 = .panic := by
  induction fuel with
  | zero => rfl
  | succ fuel ih =>
    have filled : pollFillBuf (⟨8, buffer, inner⟩ : BufReader) = (.ready buffer, ⟨8, buffer, inner⟩) :=
      if_neg some
    rw [Nar.copyContents, filled]
    simp only [if_neg some]
    exact ih

/-- A byte in a `TeeWriter`, a byte of a file and a slice of nine bytes for an empty buffer of eight, over a
writer that takes nothing: the flush of the first does not come back, nor does the copying of the
second, and the third is answered with `Ok(0)`. -/
theorem zero_write_stalls :
    (∀ rounds, ((⟨[1], 0, 0, .mute, .mute, 8⟩ : TeeWriter Mute Mute).pollFlushAll rounds).1 = .panic) ∧
      (∀ fuel, (Nar.copyContents fuel (⟨8, [1], ⟨[], [], 0⟩⟩ : BufReader) Mute.mute).1 = .panic) ∧
      ((⟨.mute, [], 8, 8⟩ : Protocol.NixWriter Mute).pollWriteData (fun _ _ _ => 0)
        (List.replicate 9 1)).1 = .ready 0 := by
  refine ⟨?_, ?_, rfl⟩
  · intro rounds
    have spins := tee_spins rounds ⟨[1], 0, 0, .mute, .mute, 8⟩ (by decide) (by decide)
    rw [TeeWriter.pollFlushAll, TeeWriter.pollFlushBuf, if_neg (by decide)]
    generalize (⟨[1], 0, 0, .mute, .mute, 8⟩ : TeeWriter Mute Mute).flushLoop rounds = result at spins
    obtain ⟨poll, next⟩ := result
    obtain rfl : poll = .panic := spins
    rfl
  · exact fun fuel => copy_spins fuel [1] (by decide) ⟨[], [], 0⟩

end Harmonia
