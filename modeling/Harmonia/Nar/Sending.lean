import Harmonia.Nar.Encoding

/-!
# Sending one event

`SinkExt::send`: an event is put down and flushed before the next one. A writer that is sent events
this way is at rest between them. When the reader of a file fails, so does the flush, and the tokens
that close the file are never written.
-/

namespace Harmonia.Nar

section Definitions

variable {R W : Type} [AsyncBufRead R] [AsyncWrite W] [PatientWrite W]

/-- `send`: wait until the writer is ready, put the event down, and flush. -/
def send (patience : Nat) (event : NarEvent R) (this : NarWriter R W) : Poll Unit × NarWriter R W :=
  match await NarWriter.pollReady patience this with
  | (.ready _, this) =>
    match this.startSend event with
    | some this => await NarWriter.pollSettle patience this
    | none => (.panic, this)
  | result => result

/-- Send one event after the other, until one fails. -/
def sendEvents (patience : Nat) : List (NarEvent R) → NarWriter R W → Poll Unit × NarWriter R W
  | [], this => (.ready (), this)
  | event :: events, this =>
    match send patience event this with
    | (.ready _, this) => sendEvents patience events this
    | result => result

/-- More patience does not change what sending an event comes to. -/
theorem send_more {fewer more : Nat} {event : NarEvent R} {this next : NarWriter R W}
    {answer : Poll Unit} (sent : send fewer event this = (answer, next)) (returns : answer ≠ .panic)
    (le : fewer ≤ more) : send more event this = (answer, next) := by
  rw [send] at sent ⊢
  generalize first : await NarWriter.pollReady fewer this = result at sent
  obtain ⟨readied, second⟩ := result
  have notPanic : readied ≠ .panic := by
    rintro rfl
    cases sent
    exact returns rfl
  rw [await_more first notPanic le]
  cases readied with
  | ready _ =>
    dsimp only at sent ⊢
    cases begun : second.startSend event with
    | none =>
      rw [begun] at sent
      cases sent
      exact absurd rfl returns
    | some third =>
      rw [begun] at sent
      exact await_more sent returns le
  | pending => exact sent
  | error error => exact sent
  | panic => exact absurd rfl notPanic

/-- More patience does not change what sending events comes to. -/
theorem sendEvents_more {fewer more : Nat} {events : List (NarEvent R)} {this next : NarWriter R W}
    {answer : Poll Unit} (sent : sendEvents fewer events this = (answer, next))
    (returns : answer ≠ .panic) (le : fewer ≤ more) :
    sendEvents more events this = (answer, next) := by
  induction events generalizing this with
  | nil => exact sent
  | cons event events ih =>
    rw [sendEvents] at sent ⊢
    generalize first : send fewer event this = result at sent
    obtain ⟨readied, second⟩ := result
    have notPanic : readied ≠ .panic := by
      rintro rfl
      cases sent
      exact returns rfl
    rw [send_more first notPanic le]
    cases readied with
    | ready _ => exact ih sent
    | pending => exact sent
    | error error => exact sent
    | panic => exact absurd rfl notPanic

end Definitions

variable {R W : Type} [AsyncBufRead R] [LawfulBufRead R] [AsyncWrite W] [SteadyWrite W]
  [PatientWrite W]

/-- A writer between two events. -/
structure NarWriter.Idle (this : NarWriter R W) : Prop where
  /-- Its fields fit together. -/
  sound : this.Sound
  /-- No file is being copied. -/
  free : this.reader = none
  /-- No zeros come next. -/
  rests : this.state.isFlushing = false
  /-- Nothing is waiting to be written out. -/
  none : this.buffer = []

namespace NarWriter.Idle

omit [PatientWrite W] in
/-- An idle writer has delivered all it was sent. -/
theorem outstanding {this : NarWriter R W} (idle : this.Idle) : this.outstanding = [] := by
  rw [NarWriter.outstanding, idle.free]
  exact idle.none

omit [PatientWrite W] in
/-- An idle writer has no reader that could fail. -/
theorem steady {this : NarWriter R W} (idle : this.Idle) : this.Steady := by
  intro reader some
  rw [idle.free] at some
  cases some

/-- The answers an idle writer may still get are those of what it writes to. -/
theorem patience {this : NarWriter R W} (idle : this.Idle) : this.patience = turns this.writer := by
  rw [NarWriter.patience, idle.free]
  rfl

end NarWriter.Idle

omit [PatientWrite W] in
/-- A new writer is idle. -/
theorem NarWriter.new_idle {writer : W} (steady : Harmonia.Steady writer) :
    (NarWriter.new writer : NarWriter R W).Idle := by
  refine ⟨⟨(by decide : 8 ≤ 8192), ?_, ?_, ?_, fun some => absurd rfl some, steady⟩, rfl, rfl, rfl⟩
  · rintro _ cnt same
    cases same
  · rintro cnt same
    cases same
  · rintro reader none
    cases none

section Send

variable [LawfulPatience W]

/-- What an idle writer is after it has got ready and an event has been put down. -/
theorem send_begins {patience : Nat} {event : NarEvent R} {this : NarWriter R W} (idle : this.Idle)
    (valid : event.Valid) (open_ : event = .endDirectory → 0 < this.level)
    (enough : turns this.writer < patience) :
    ∃ first second, await NarWriter.pollReady patience this = (.ready (), first) ∧
      first.startSend event = some second ∧ second.Sound ∧ (event.Regular → second.Steady) ∧
      second.level = event.levelAfter this.level ∧ written second.writer ++ second.outstanding =
        written this.writer ++ encodeEvent this.level event.contents ∧
      second.patience ≤ turns this.writer + event.patience := by
  obtain ⟨_, first, awaited, _, _, keeps, free, rests, spent⟩ :=
    NarWriter.await_ready NarWriter.pollReady_readies patience idle.sound idle.steady
      (idle.patience ▸ enough)
  rw [← keeps.level] at open_
  obtain ⟨second, sent, sound, steady, level, writer, encoded, counted⟩ :=
    NarWriter.startSend_encodes keeps.sound free rests valid open_
  refine ⟨first, second, awaited, sent, sound, steady, keeps.level ▸ level, ?_, ?_⟩
  · rw [writer, encoded, ← List.append_assoc, keeps.joined, keeps.level, idle.outstanding,
      List.append_nil]
  · have left : first.patience = turns first.writer := by
      rw [NarWriter.patience, free]
      rfl
    have before := idle.patience
    omega

/-- Sending an event whose reader does not fail. -/
theorem send_delivers {patience : Nat} {event : NarEvent R} {this : NarWriter R W}
    (idle : this.Idle) (valid : event.Valid) (regular : event.Regular)
    (open_ : event = .endDirectory → 0 < this.level)
    (enough : turns this.writer + event.patience < patience) :
    ∃ next, send patience event this = (.ready (), next) ∧ next.Idle ∧
      next.level = event.levelAfter this.level ∧
      written next.writer = written this.writer ++ encodeEvent this.level event.contents ∧
      turns next.writer ≤ turns this.writer + event.patience ∧
      ∃ before, pollFlush before = (.ready (), next.writer) := by
  obtain ⟨first, second, awaited, sent, sound, steady, level, joined, spent⟩ :=
    send_begins idle valid open_ (by omega : turns this.writer < patience)
  obtain ⟨before, next, awaited', sound', answer, keeps, free, rests, spent'⟩ :=
    NarWriter.await_ready (fun sound => (NarWriter.pollSettle_readies sound).1) patience sound
      (steady regular) (by omega)
  obtain ⟨none, flushed⟩ := (NarWriter.pollSettle_readies sound').2 next answer
  have idle' : next.Idle := ⟨keeps.sound, free, rests, none⟩
  refine ⟨next, ?_, idle', keeps.level.trans level, ?_, ?_, flushed⟩
  · rw [send, awaited]
    simp only [sent]
    exact awaited'
  · have after := keeps.joined
    rw [idle'.outstanding, List.append_nil] at after
    exact after.trans joined
  · have left := idle'.patience
    omega

end Send

/-! ## Readers that fail -/

omit [LawfulBufRead R] in
/-- The readers that are pending until they fail. -/
structure Doom (Doomed : R → Prop) : Prop where
  /-- Such a reader gives nothing. -/
  polls : ∀ {reader : R}, Doomed reader →
    (∃ next, pollFillBuf reader = (.pending, next) ∧ Doomed next) ∨
      ∃ error next, pollFillBuf reader = (.error error, next)

section Doomed

variable {Doomed : R → Prop}

omit [LawfulBufRead R] [SteadyWrite W] [PatientWrite W] in
/-- Copying from such a reader. -/
theorem copyContents_doomed (doom : Doom Doomed) {reader : R} (doomed : Doomed reader) (fuel : Nat)
    (writer : W) :
    (∃ next, copyContents (fuel + 1) reader writer = (.pending, next, writer) ∧ Doomed next) ∨
      ∃ error next, copyContents (fuel + 1) reader writer = (.error error, next, writer) := by
  rw [copyContents]
  rcases doom.polls doomed with ⟨next, filled, doomed'⟩ | ⟨error, next, filled⟩
  · rw [filled]
    exact .inl ⟨next, rfl, doomed'⟩
  · rw [filled]
    exact .inr ⟨error, next, rfl⟩

namespace NarWriter

/-- The file's reader is such a reader. -/
def Fated (Doomed : R → Prop) (this : NarWriter R W) : Prop :=
  ∃ reader, this.reader = some reader ∧ Doomed reader

/-- The answer of a poll is not ready. -/
inductive Stuck (Doomed : R → Prop) : Poll Unit × NarWriter R W → Prop
  | pending {next : NarWriter R W} (fated : next.Fated Doomed) : Stuck Doomed (.pending, next)
  | error {next : NarWriter R W} {error : IoError} : Stuck Doomed (.error error, next)

omit [LawfulBufRead R] [SteadyWrite W] in
/-- The second half of `poll_ready`. -/
theorem pollContents_stuck (doom : Doom Doomed) {this : NarWriter R W} (fated : this.Fated Doomed) :
    Stuck Doomed this.pollContents := by
  obtain ⟨reader, some, doomed⟩ := fated
  rw [pollContents, some]
  rcases copyContents_doomed doom doomed this.patience this.writer with
    ⟨next, copied, doomed'⟩ | ⟨error, next, copied⟩
  · simp only [copied]
    exact .pending ⟨next, rfl, doomed'⟩
  · simp only [copied]
    exact .error

/-- `poll_ready`. -/
theorem pollReady_stuck [LawfulPatience W] (doom : Doom Doomed) {this : NarWriter R W}
    (sound : this.Sound) (fated : this.Fated Doomed) : Stuck Doomed this.pollReady := by
  rw [pollReady]
  split
  case h_1 cnt flushes =>
    have flushed := flushBuffer_flushes (this.buffer.length + 1) sound.steady (Nat.lt_succ_self _)
    generalize flushBuffer (this.buffer.length + 1) this.buffer this.writer = result at flushed
    cases flushed with
    | ready taken steady spent => exact pollContents_stuck doom fated
    | pending joined shorter steady less => exact .pending fated
  case h_2 => exact pollContents_stuck doom fated

/-- `poll_flush` and `poll_close`. -/
theorem pollSettle_stuck [LawfulPatience W] (doom : Doom Doomed) {this : NarWriter R W}
    (sound : this.Sound) (fated : this.Fated Doomed) : Stuck Doomed this.pollSettle := by
  have stuck := pollReady_stuck doom sound fated
  rw [pollSettle, pollFlushBuf, flushLoop]
  generalize this.pollReady = result at stuck
  cases stuck with
  | pending fated => exact .pending fated
  | error => exact .error

/-- Waiting for a flush comes to an error, short of what was to be delivered. -/
theorem await_fails [LawfulPatience W] (doom : Doom Doomed) (patience : Nat) {this : NarWriter R W}
    (sound : this.Sound) (fated : this.Fated Doomed) (enough : this.patience < patience) :
    ∃ error next, await pollSettle patience this = (.error error, next) ∧
      (written next.writer).length < (written this.writer ++ this.outstanding).length := by
  induction patience generalizing this with
  | zero => exact absurd enough (Nat.not_lt_zero _)
  | succ patience ih =>
    have stuck := pollSettle_stuck doom sound fated
    have readies := (pollSettle_readies sound).1
    rw [await]
    generalize this.pollSettle = result at stuck readies
    cases readies with
    | ready keeps free rests spent => cases stuck
    | pending keeps less =>
      cases stuck with
      | pending fated' =>
        obtain ⟨error, next, awaited, short⟩ := ih keeps.sound fated' (by omega)
        exact ⟨error, next, awaited, keeps.joined ▸ short⟩
    | error unsteady short => exact ⟨_, _, rfl, short⟩

end NarWriter

/-- Sending a file whose reader fails. -/
theorem send_fails [LawfulPatience W] (doom : Doom Doomed) {patience : Nat} {name : Bytes}
    {executable : Bool} {size : UInt64} {reader : R} {this : NarWriter R W} (idle : this.Idle)
    (valid : view.Valid reader) (doomed : Doomed reader)
    (enough : turns this.writer + budget reader < patience) :
    ∃ error next, send patience (.file name executable size reader) this = (.error error, next) ∧
      (written next.writer).length < (written this.writer ++
        encodeEvent this.level (.file name executable size (view.unread reader))).length := by
  obtain ⟨first, second, awaited, sent, sound, _, _, joined, spent⟩ :=
    @send_begins R W _ _ _ _ _ _ patience (.file name executable size reader) this idle valid
      (fun same => by cases same) (by omega : turns this.writer < patience)
  have fated : second.Fated Doomed := by
    rw [NarWriter.startSend] at sent
    cases sent
    exact ⟨reader, rfl, doomed⟩
  obtain ⟨error, next, awaited', short⟩ :=
    NarWriter.await_fails doom patience sound fated (Nat.lt_of_le_of_lt spent enough)
  rw [joined] at short
  refine ⟨error, next, ?_, short⟩
  rw [send, awaited]
  simp only [sent]
  exact awaited'

end Doomed

end Harmonia.Nar
