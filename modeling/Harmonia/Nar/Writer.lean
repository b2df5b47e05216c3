import Mathlib.Data.List.Basic
import Mathlib.Algebra.Order.Ring.Nat
import Harmonia.Io.Read
import Harmonia.Io.Write
import Harmonia.Nar.Parser

/-!
# Writing an archive

`archive/writer.rs`. The writer gathers what an event puts down in a buffer. The contents of a
file do not go through it: once the buffer in front of them has been written out, they are
copied from the file's reader to the sink, and their padding and closing tokens are gathered
behind them. What a writer still has to deliver (`outstanding`) is an account of all this, and
no poll changes it together with what has been delivered.
-/

namespace Harmonia.Nar

/-- `State` of a `NarWriter`. -/
inductive WriterState where
  /-- `Ready`. -/
  | ready
  /-- `Flushing`: the buffer is being written out, and so many zeros come next. -/
  | flushing (cnt : Nat)
  /-- `Eof`. -/
  | eof
  deriving DecidableEq, Repr

/-- `is_flushing`. -/
def WriterState.isFlushing : WriterState → Bool
  | .flushing _ => true
  | _ => false

/-- `NarWriter`; unless it is said otherwise, it writes to a sink. -/
structure NarWriter (R : Type) (W : Type := Sink) where
  /-- What is being done. -/
  state : WriterState
  /-- Bytes to be written out. -/
  buffer : Bytes
  /-- A larger buffer is written out before the next event. -/
  cutoff : Nat
  /-- The file whose contents come next. -/
  reader : Option R
  /-- Where the archive goes. -/
  writer : W
  /-- Open directories. -/
  level : Nat
  deriving DecidableEq, Repr

/-- The error of a sink that takes nothing. -/
def wroteZero : IoError := ⟨.writeZero, "wrote zero bytes"⟩

/-- Write out a buffer. -/
def flushBuffer {W : Type} [AsyncWrite W] : Nat → Bytes → W → Poll Unit × Bytes × W
  | 0, buffer, writer => (.panic, buffer, writer)
  | fuel + 1, buffer, writer =>
    if buffer = [] then (.ready (), buffer, writer)
    else
      match pollWrite writer buffer with
      | (.ready cnt, writer) =>
        if cnt = 0 then (.error wroteZero, buffer, writer)
        else flushBuffer fuel (buffer.drop cnt) writer
      | (.pending, writer) => (.pending, buffer, writer)
      | (.error error, writer) => (.error error, buffer, writer)
      | (.panic, writer) => (.panic, buffer, writer)

/-- The closing tokens of a file or a symbolic link, and of its entry. -/
def closing (level : Nat) : Bytes := tokPar ++ if level = 0 then [] else tokPar

section Definitions

variable {R W : Type} [AsyncBufRead R] [AsyncWrite W] [PatientWrite W]

/-- Copy the contents of a file to the sink. -/
def copyContents : Nat → R → W → Poll Unit × R × W
  | 0, reader, writer => (.panic, reader, writer)
  | fuel + 1, reader, writer =>
    match pollFillBuf reader with
    | (.ready buf, reader) =>
      if buf = [] then (.ready (), reader, writer)
      else
        match pollWrite writer buf with
        | (.ready amt, writer) =>
          match consume reader amt with
          | some reader => copyContents fuel reader writer
          | none => (.panic, reader, writer)
        | (.pending, writer) => (.pending, reader, writer)
        | (.error error, writer) => (.error error, reader, writer)
        | (.panic, writer) => (.panic, reader, writer)
    | (.pending, reader) => (.pending, reader, writer)
    | (.error error, reader) => (.error error, reader, writer)
    | (.panic, reader) => (.panic, reader, writer)

namespace NarWriter

/-- `NarWriter::new`. -/
def new (writer : W) : NarWriter R W := ⟨.ready, [], 8192, none, writer, 0⟩

/-- Answers of the reader and the sink still to come. -/
def patience (this : NarWriter R W) : Nat :=
  turns this.writer + this.reader.elim 0 budget

/-- The state behind a flush and behind a file. -/
def rested (level : Nat) (state : WriterState) : WriterState := if level = 0 then .eof else state

/-- The second half of `poll_ready`: copy the contents of a file and close it. -/
def pollContents (this : NarWriter R W) : Poll Unit × NarWriter R W :=
  match this.reader with
  | none => (.ready (), this)
  | some reader =>
    match copyContents (this.patience + 1) reader this.writer with
    | (.ready _, _, writer) =>
      (.ready (), { this with
        state := rested this.level this.state
        buffer := this.buffer ++ closing this.level
        reader := none
        writer := writer })
    | (.pending, reader, writer) => (.pending, { this with reader := some reader, writer := writer })
    | (.error error, reader, writer) =>
      (.error error, { this with reader := some reader, writer := writer })
    | (.panic, reader, writer) => (.panic, { this with reader := some reader, writer := writer })

/-- `poll_ready`. -/
def pollReady (this : NarWriter R W) : Poll Unit × NarWriter R W :=
  let state := if this.state.isFlushing = false ∧ this.cutoff < this.buffer.length then
    .flushing 0 else this.state
  match state with
  | .flushing cnt =>
    match flushBuffer (this.buffer.length + 1) this.buffer this.writer with
    | (.ready _, buffer, writer) =>
      pollContents { this with
        state := rested this.level .ready
        buffer := buffer ++ List.replicate cnt 0
        writer := writer }
    | (.pending, buffer, writer) =>
      (.pending, { this with state := state, buffer := buffer, writer := writer })
    | (.error error, buffer, writer) =>
      (.error error, { this with state := state, buffer := buffer, writer := writer })
    | (.panic, buffer, writer) =>
      (.panic, { this with state := state, buffer := buffer, writer := writer })
  | _ => this.pollContents

/-- The loop of `poll_flush_buf`. -/
def flushLoop : Nat → NarWriter R W → Poll Unit × NarWriter R W
  | 0, this => (.panic, this)
  | fuel + 1, this =>
    match this.pollReady with
    | (.ready _, this) =>
      if this.buffer = [] then (.ready (), this)
      else flushLoop fuel { this with state := .flushing 0 }
    | result => result

/-- `poll_flush_buf`. -/
def pollFlushBuf (this : NarWriter R W) : Poll Unit × NarWriter R W := this.flushLoop 2

/-- `poll_flush` and `poll_close`, which differ in what they ask of the sink. -/
def pollSettle (this : NarWriter R W) : Poll Unit × NarWriter R W :=
  match this.pollFlushBuf with
  | (.ready _, this) =>
    let (result, writer) := pollFlush this.writer
    (result, { this with writer := writer })
  | result => result

/-- Put bytes down in the buffer. -/
def put (this : NarWriter R W) (bytes : Bytes) : NarWriter R W :=
  { this with buffer := this.buffer ++ bytes }

/-- The tokens and the name in front of an entry. -/
def entry (level : Nat) (name : Bytes) : Bytes :=
  if level > 0 then tokEntry ++ putNixSlice name ++ tokNode else []

/-- `start_send`; the subtraction of a level is checked. -/
def startSend (this : NarWriter R W) (event : NarEvent R) : Option (NarWriter R W) :=
  let this := if this.level = 0 then this.put tokRoot else this
  match event with
  | .file name executable size reader =>
    let this := this.put (entry this.level name ++ (if executable then tokFileE else tokFile) ++
      toLeBytes size)
    some { this with state := .flushing (calcPadding size), reader := some reader }
  | .symlink name target =>
    let this := this.put (entry this.level name ++ tokSym ++ putNixSlice target ++
      closing this.level)
    some { this with state := rested this.level this.state }
  | .startDirectory name =>
    let this := this.put (entry this.level name ++ tokDir)
    some { this with level := this.level + 1 }
  | .endDirectory =>
    if this.level = 0 then none
    else
      let level := this.level - 1
      let this := this.put (closing level)
      some { this with level := level, state := rested level this.state }

end NarWriter

/-- Send events and close. After each event the caller may ask for a flush. -/
def sendAll (patience : Nat) : List (NarEvent R × Bool) → NarWriter R W → Poll Unit × NarWriter R W
  | [], this => await NarWriter.pollSettle patience this
  | (event, flush) :: events, this =>
    match await NarWriter.pollReady patience this with
    | (.ready _, this) =>
      match this.startSend event with
      | some this =>
        if flush then
          match await NarWriter.pollSettle patience this with
          | (.ready _, this) => sendAll patience events this
          | result => result
        else sendAll patience events this
      | none => (.panic, this)
    | result => result

/-- The answers that the reader of an event still has to give. -/
def NarEvent.patience : NarEvent R → Nat
  | .file _ _ _ reader => budget reader
  | _ => 0

/-- Write the archive of some events to a sink. -/
def writeNar (events : List (NarEvent R × Bool)) (writer : Sink) : Poll Unit × NarWriter R :=
  sendAll (writer.plan.length + (events.map fun item => item.1.patience).sum + 1) events
    (NarWriter.new writer)

end Definitions

/-! ## What a poll delivers -/

section Buffer

variable {W : Type} [AsyncWrite W] [SteadyWrite W] [PatientWrite W]

/-- What writing out a buffer to a steady writer does. -/
inductive Flushes (buffer : Bytes) (writer : W) : Poll Unit × Bytes × W → Prop
  | ready {next : W} (taken : written next = written writer ++ buffer) (steady : Steady next)
    (spent : turns next ≤ turns writer) : Flushes buffer writer (.ready (), [], next)
  | pending {rest : Bytes} {next : W} (joined : written next ++ rest = written writer ++ buffer)
    (shorter : rest.length ≤ buffer.length) (steady : Steady next)
    (less : turns next < turns writer) : Flushes buffer writer (.pending, rest, next)

/-- Writing out a buffer. -/
theorem flushBuffer_flushes [LawfulPatience W] (fuel : Nat) {buffer : Bytes} {writer : W}
    (steady : Steady writer) (enough : buffer.length < fuel) :
    Flushes buffer writer (flushBuffer fuel buffer writer) := by
  induction fuel generalizing buffer writer with
  | zero => exact absurd enough (Nat.not_lt_zero _)
  | succ fuel ih =>
    rw [flushBuffer]
    by_cases none : buffer = []
    · subst none
      rw [if_pos rfl]
      exact .ready (List.append_nil _).symm steady (Nat.le_refl _)
    · rw [if_neg none]
      have wrote := pollWrite_writes steady none
      generalize pollWrite writer buffer = result at wrote
      cases wrote with
      | @ready next count some within taken steady' spent =>
        have zero : ¬ count = 0 := Nat.pos_iff_ne_zero.mp some
        simp only [if_neg zero]
        have shorter : (buffer.drop count).length < fuel := by
          rw [List.length_drop]
          omega
        have joined : written next ++ buffer.drop count = written writer ++ buffer := by
          rw [taken, List.append_assoc, List.take_append_drop]
        have later := ih steady' shorter
        generalize flushBuffer fuel (buffer.drop count) next = result at later
        cases later with
        | ready taken' steady'' spent' =>
          exact .ready (taken'.trans joined) steady'' (Nat.le_trans spent' spent)
        | pending joined' shorter' steady'' less =>
          refine .pending (joined'.trans joined) (Nat.le_trans shorter' ?_) steady''
            (Nat.lt_of_lt_of_le less spent)
          rw [List.length_drop]
          exact Nat.sub_le _ _
      | pending same steady' less => exact .pending (by rw [same]) (Nat.le_refl _) steady' less

end Buffer

variable {R W : Type} [AsyncBufRead R] [LawfulBufRead R] [AsyncWrite W] [SteadyWrite W]
  [PatientWrite W]

/-- What copying the contents of a file to a steady writer does. -/
inductive Copies (reader : R) (writer : W) : Poll Unit × R × W → Prop
  | ready {next : R} {sink : W} (taken : written sink = written writer ++ view.unread reader)
    (steady : Steady sink) (spent : turns sink ≤ turns writer) :
    Copies reader writer (.ready (), next, sink)
  | pending {next : R} {sink : W} (valid : view.Valid next)
    (regular : view.Regular reader → view.Regular next)
    (joined : written sink ++ view.unread next = written writer ++ view.unread reader)
    (steady : Steady sink) (less : turns sink + budget next < turns writer + budget reader) :
    Copies reader writer (.pending, next, sink)
  | error {next : R} {sink : W} {error : IoError} (irregular : ¬ view.Regular reader)
    (joined : written sink ++ view.unread next = written writer ++ view.unread reader) :
    Copies reader writer (.error error, next, sink)

/-- Copying that goes on from where a write left it. -/
theorem Copies.of_next {reader next : R} {writer sink : W} {result : Poll Unit × R × W}
    (regular : view.Regular reader → view.Regular next)
    (joined : written sink ++ view.unread next = written writer ++ view.unread reader)
    (plan : turns sink ≤ turns writer) (spent : budget next ≤ budget reader)
    (later : Copies next sink result) : Copies reader writer result := by
  cases later with
  | ready taken steady spent' => exact .ready (taken.trans joined) steady (Nat.le_trans spent' plan)
  | pending valid regular' joined' steady less =>
    exact .pending valid (regular' ∘ regular) (joined'.trans joined) steady (by omega)
  | error irregular joined' =>
    exact .error (fun ok => irregular (regular ok)) (joined'.trans joined)

/-- Copying the contents of a file. -/
theorem copyContents_copies [LawfulPatience W] (fuel : Nat) {reader : R} {writer : W}
    (valid : view.Valid reader) (steady : Steady writer)
    (enough : turns writer + budget reader < fuel) :
    Copies reader writer (copyContents fuel reader writer) := by
  induction fuel generalizing reader writer with
  | zero => exact absurd enough (Nat.not_lt_zero _)
  | succ fuel ih =>
    rw [copyContents]
    have filled := fills valid
    generalize pollFillBuf reader = result at filled
    cases filled with
    | @ready next kept regular same bounded ends =>
      have fewer := kept.budget
      by_cases none : view.visible next = []
      · simp only [if_pos none]
        have gone : view.unread reader = [] := by
          rw [← kept.unread, View.unread, none, ends none]
          rfl
        exact .ready (by rw [gone, List.append_nil]) steady (Nat.le_refl _)
      · simp only [if_neg none]
        have wrote := pollWrite_writes steady none
        generalize pollWrite writer (view.visible next) = result at wrote
        cases wrote with
        | @ready sink count some within taken steady' spent =>
          obtain ⟨after, took, valid', regular', shown, rest, _, _, less⟩ :=
            consumes kept.valid within
          simp only [took]
          refine .of_next (regular' ∘ regular) ?_ spent (by omega) (ih valid' steady' (by omega))
          rw [taken, View.unread, shown, rest, List.append_assoc, ← List.append_assoc (List.take _ _),
            List.take_append_drop, ← View.unread, kept.unread]
        | pending same' steady' less =>
          exact .pending kept.valid regular (by rw [same', kept.unread]) steady' (by omega)
    | pending kept regular same less =>
      exact .pending kept.valid regular (by rw [kept.unread]) steady (by omega)
    | error kept same irregular => exact .error irregular (by rw [kept.unread])

namespace NarWriter

/-- What the writer still has to deliver of the events it was sent. -/
def outstanding (this : NarWriter R W) : Bytes :=
  match this.reader with
  | none => this.buffer
  | some reader =>
    match this.state with
    | .flushing cnt =>
      this.buffer ++ view.unread reader ++ List.replicate cnt 0 ++ closing this.level
    | _ => view.unread reader ++ this.buffer ++ closing this.level

/-- The writer's fields fit together. -/
structure Sound (this : NarWriter R W) : Prop where
  /-- The padding of a file is not large enough to be written out before its contents. -/
  cutoff : 8 ≤ this.cutoff
  /-- Zeros come next only behind a file. -/
  idle : this.reader = none → ∀ cnt, this.state = .flushing cnt → cnt = 0
  /-- There are fewer than eight of them. -/
  word : ∀ cnt, this.state = .flushing cnt → cnt < 8
  /-- The file's reader is sound. -/
  valid : ∀ reader, this.reader = some reader → view.Valid reader
  /-- Once the buffer has been written out, only the padding is behind a file. -/
  padding : this.reader ≠ none → this.state.isFlushing = false → this.buffer.length < 8
  /-- What the archive is written to is steady. -/
  steady : Harmonia.Steady this.writer

/-- The file's reader will not fail. -/
def Steady (this : NarWriter R W) : Prop :=
  ∀ reader, this.reader = some reader → view.Regular reader

/-- What a poll keeps: above all, what is delivered and outstanding together. -/
structure Keeps (this next : NarWriter R W) : Prop where
  /-- The writer stays sound. -/
  sound : next.Sound
  /-- It stays steady. -/
  steady : this.Steady → next.Steady
  /-- The open directories. -/
  level : next.level = this.level
  /-- What is delivered and outstanding. -/
  joined : written next.writer ++ next.outstanding = written this.writer ++ this.outstanding

omit [PatientWrite W] in
/-- What is kept adds up. -/
theorem Keeps.trans {first second third : NarWriter R W} (left : Keeps first second)
    (right : Keeps second third) : Keeps first third :=
  ⟨right.sound, right.steady ∘ left.steady, right.level.trans left.level,
    right.joined.trans left.joined⟩

/-- What `poll_ready` does. -/
inductive Readies (this : NarWriter R W) : Poll Unit × NarWriter R W → Prop
  | ready {next : NarWriter R W} (keeps : Keeps this next) (free : next.reader = none)
    (rests : next.state.isFlushing = false) (spent : next.patience ≤ this.patience) :
    Readies this (.ready (), next)
  | pending {next : NarWriter R W} (keeps : Keeps this next)
    (less : next.patience < this.patience) : Readies this (.pending, next)
  | error {next : NarWriter R W} {error : IoError} (unsteady : ¬ this.Steady)
    (short : (written next.writer).length < (written this.writer ++ this.outstanding).length) :
    Readies this (.error error, next)

/-- A poll that goes on from where another left the writer. -/
theorem Readies.of_keeps {this next : NarWriter R W} {result : Poll Unit × NarWriter R W}
    (keeps : Keeps this next) (spent : next.patience ≤ this.patience)
    (later : Readies next result) : Readies this result := by
  cases later with
  | ready keeps' free rests spent' =>
    exact .ready (keeps.trans keeps') free rests (Nat.le_trans spent' spent)
  | pending keeps' less => exact .pending (keeps.trans keeps') (Nat.lt_of_lt_of_le less spent)
  | error unsteady short =>
    exact .error (fun ok => unsteady (keeps.steady ok)) (keeps.joined ▸ short)

/-- No zeros come next in a state that rests. -/
theorem rested_ne (level : Nat) {state : WriterState} (rests : state.isFlushing = false) :
    (rested level state).isFlushing = false := by
  unfold rested
  split
  · rfl
  · exact rests

/-- Copying the contents of a file and closing it. -/
theorem pollContents_readies [LawfulPatience W] {this : NarWriter R W} (sound : this.Sound)
    (rests : this.state.isFlushing = false) : Readies this this.pollContents := by
  obtain ⟨state, buffer, cutoff, reader, writer, level⟩ := this
  have quiet (cnt : Nat) : state ≠ .flushing cnt := by
    intro same
    rw [same] at rests
    cases rests
  cases reader with
  | none =>
    exact .ready ⟨sound, id, rfl, rfl⟩ rfl rests (Nat.le_refl _)
  | some reader =>
    have steadily : Harmonia.Steady writer := sound.steady
    have padding : buffer.length < 8 := sound.padding (Option.some_ne_none _) rests
    have copied := copyContents_copies (patience ⟨state, buffer, cutoff, some reader, writer, level⟩ + 1)
      (sound.valid reader rfl) steadily (Nat.lt_succ_self _)
    change Copies reader writer _ at copied
    simp only [pollContents]
    have before : outstanding ⟨state, buffer, cutoff, some reader, writer, level⟩ =
        view.unread reader ++ buffer ++ closing level := by
      cases state with
      | flushing cnt => exact absurd rfl (quiet cnt)
      | _ => rfl
    generalize copyContents (patience ⟨state, buffer, cutoff, some reader, writer, level⟩ + 1) reader
      writer = result at copied ⊢
    cases copied with
    | @ready next sink taken steady spent =>
      have rests' := rested_ne level rests
      have quiet' (cnt : Nat) : rested level state ≠ .flushing cnt := by
        intro same
        rw [same] at rests'
        cases rests'
      refine .ready ⟨⟨sound.cutoff, ?_, ?_, ?_, ?_, steady⟩, ?_, rfl, ?_⟩ rfl rests' ?_
      · exact fun _ cnt same => absurd same (quiet' cnt)
      · exact fun cnt same => absurd same (quiet' cnt)
      · intro reader none
        cases none
      · exact fun some' => absurd rfl some'
      · intro ok reader none
        cases none
      · change written sink ++ (buffer ++ closing level) = written writer ++ _
        rw [taken, before]
        simp only [List.append_assoc]
      · change turns sink + 0 ≤ turns writer + budget reader
        omega
    | @pending next sink valid regular joined steady less =>
      refine .pending ⟨⟨sound.cutoff, ?_, ?_, ?_, ?_, steady⟩, ?_, rfl, ?_⟩ less
      · exact fun _ cnt same => absurd same (quiet cnt)
      · exact fun cnt same => absurd same (quiet cnt)
      · intro reader same
        cases same
        exact valid
      · exact fun _ _ => padding
      · intro ok other same
        cases same
        exact regular (ok reader rfl)
      · have after : outstanding ⟨state, buffer, cutoff, some next, sink, level⟩ =
            view.unread next ++ buffer ++ closing level := by
          cases state with
          | flushing cnt => exact absurd rfl (quiet cnt)
          | _ => rfl
        change written sink ++ outstanding ⟨state, buffer, cutoff, some next, sink, level⟩ = _
        rw [before, after, List.append_assoc, ← List.append_assoc, joined]
        simp only [List.append_assoc]
    | @error next sink error irregular joined =>
      refine .error (fun ok => irregular (ok reader rfl)) ?_
      -- The tokens that close the file are never written.
      have lengths := congrArg List.length joined
      have closes : 0 < (closing level).length := by
        rw [closing, List.length_append]
        exact Nat.lt_of_lt_of_le (by decide : 0 < tokPar.length) (Nat.le_add_right _ _)
      change (written sink).length < (written writer ++ outstanding
        ⟨state, buffer, cutoff, some reader, writer, level⟩).length
      rw [before]
      simp only [List.length_append] at lengths ⊢
      omega

/-- Flushing a buffer that is behind no contents, and then the contents in front of which it
stands. -/
theorem pollReady_flushing [LawfulPatience W] {this : NarWriter R W} (sound : this.Sound) {cnt : Nat}
    (flushing : this.state = .flushing cnt) : Readies this this.pollReady := by
  obtain ⟨state, buffer, cutoff, reader, writer, level⟩ := this
  obtain rfl : state = .flushing cnt := flushing
  have steadily : Harmonia.Steady writer := sound.steady
  have flushed := flushBuffer_flushes (buffer.length + 1) steadily (Nat.lt_succ_self buffer.length)
  have word : cnt < 8 := sound.word cnt rfl
  simp only [pollReady, WriterState.isFlushing, Bool.true_eq_false, false_and, ↓reduceIte]
  generalize flushBuffer (buffer.length + 1) buffer writer = result at flushed
  cases flushed with
  | @ready next taken steady spent =>
    have rests : (rested level .ready).isFlushing = false := rested_ne level rfl
    have quiet (other : Nat) : rested level .ready ≠ .flushing other := by
      intro same
      rw [same] at rests
      cases rests
    have sound' : Sound ⟨rested level .ready, [] ++ List.replicate cnt 0, cutoff, reader, next, level⟩ := by
      refine ⟨sound.cutoff, ?_, ?_, sound.valid, ?_, steady⟩
      · exact fun _ other same => absurd same (quiet other)
      · exact fun other same => absurd same (quiet other)
      · intro _ _
        rw [List.nil_append, List.length_replicate]
        exact word
    refine .of_keeps ⟨sound', id, rfl, ?_⟩ ?_ (pollContents_readies sound' rests)
    · change written next ++ outstanding _ = _
      rw [taken]
      cases reader with
      | none =>
        obtain rfl : cnt = 0 := sound.idle rfl cnt rfl
        simp [outstanding]
      | some reader =>
        have after : outstanding ⟨rested level .ready, [] ++ List.replicate cnt 0, cutoff,
            some reader, next, level⟩ =
              view.unread reader ++ ([] ++ List.replicate cnt 0) ++ closing level := by
          unfold rested
          split <;> rfl
        rw [after]
        simp [outstanding]
    · exact Nat.add_le_add_right spent _
  | @pending rest next joined shorter steady less =>
    refine .pending ⟨⟨sound.cutoff, sound.idle, sound.word, sound.valid, ?_, steady⟩,
      id, rfl, ?_⟩ (Nat.add_lt_add_right less _)
    · intro _ rests
      cases rests
    · cases reader with
      | none => exact joined
      | some reader =>
        change written next ++ (rest ++ view.unread reader ++ _ ++ _) =
          written writer ++ (buffer ++ view.unread reader ++ _ ++ _)
        simp only [← List.append_assoc, joined]

/-- `poll_ready` makes room for an event, and keeps what is to be delivered. -/
theorem pollReady_readies [LawfulPatience W] {this : NarWriter R W} (sound : this.Sound) :
    Readies this this.pollReady := by
  by_cases flushing : this.state.isFlushing = true
  · cases state : this.state with
    | flushing cnt => exact pollReady_flushing sound state
    | ready =>
      rw [state] at flushing
      cases flushing
    | eof =>
      rw [state] at flushing
      cases flushing
  · have rests := Bool.not_eq_true _ ▸ flushing
    by_cases large : this.cutoff < this.buffer.length
    · -- The buffer has grown beyond the cutoff: no file is waiting.
      have free : this.reader = none := by
        by_contra some'
        have padding := sound.padding some' rests
        have cutoff := sound.cutoff
        omega
      obtain ⟨state, buffer, cutoff, reader, writer, level⟩ := this
      obtain rfl : reader = none := free
      have same : pollReady (R := R) (W := W) ⟨state, buffer, cutoff, none, writer, level⟩ =
          pollReady ⟨.flushing 0, buffer, cutoff, none, writer, level⟩ := by
        change state.isFlushing = false at rests
        change cutoff < buffer.length at large
        have flushes : (WriterState.flushing 0).isFlushing = true := rfl
        simp only [pollReady, rests, large, flushes, and_self, ↓reduceIte, Bool.true_eq_false,
          false_and]
      have sound' : Sound (R := R) (W := W) ⟨.flushing 0, buffer, cutoff, none, writer, level⟩ := by
        refine ⟨sound.cutoff, ?_, ?_, sound.valid, ?_, sound.steady⟩
        · intro _ cnt same
          cases same
          rfl
        · intro cnt same
          cases same
          decide
        · exact fun some' => absurd rfl some'
      rw [same]
      exact .of_keeps ⟨sound', id, rfl, rfl⟩ (Nat.le_refl _) (pollReady_flushing sound' rfl)
    · have same : this.pollReady = this.pollContents := by
        have small : ¬ (this.state.isFlushing = false ∧ this.cutoff < this.buffer.length) :=
          fun both => large both.2
        rw [pollReady, if_neg small]
        cases state : this.state with
        | flushing cnt =>
          rw [state] at rests
          cases rests
        | _ => rfl
      rw [same]
      exact pollContents_readies sound rests

omit [LawfulBufRead R] in
/-- Behind no file, a flush leaves nothing in the buffer. -/
theorem pollReady_empties [LawfulPatience W] {this next : NarWriter R W}
    (steady : Harmonia.Steady this.writer) (free : this.reader = none)
    (flushing : this.state = .flushing 0) (ready : this.pollReady = (.ready (), next)) :
    next.buffer = [] := by
  obtain ⟨state, buffer, cutoff, reader, writer, level⟩ := this
  obtain rfl : state = .flushing 0 := flushing
  obtain rfl : reader = none := free
  have flushed := flushBuffer_flushes (buffer.length + 1) steady (Nat.lt_succ_self buffer.length)
  simp only [pollReady, WriterState.isFlushing, Bool.true_eq_false, false_and, ↓reduceIte] at ready
  generalize flushBuffer (buffer.length + 1) buffer writer = result at flushed ready
  cases flushed with
  | ready taken steady spent =>
    cases ready
    rfl
  | pending joined shorter steady less => cases ready

/-- `poll_flush_buf` is a `poll_ready` that leaves nothing in the buffer. -/
theorem pollFlushBuf_readies [LawfulPatience W] {this : NarWriter R W} (sound : this.Sound) :
    Readies this this.pollFlushBuf ∧
      ∀ next, this.pollFlushBuf = (.ready (), next) → next.buffer = [] := by
  rw [pollFlushBuf, flushLoop]
  have first := pollReady_readies sound
  generalize this.pollReady = result at first
  cases first with
  | @ready next keeps free rests spent =>
    by_cases none : next.buffer = []
    · simp only [if_pos none]
      refine ⟨.ready keeps free rests spent, ?_⟩
      rintro other same
      cases same
      exact none
    · have sound' : Sound { next with state := .flushing 0 } := by
        refine ⟨keeps.sound.cutoff, ?_, ?_, keeps.sound.valid, ?_, keeps.sound.steady⟩
        · intro _ cnt same
          cases same
          rfl
        · intro cnt same
          cases same
          decide
        · exact fun some' => absurd free some'
      have same : outstanding { next with state := .flushing 0 } = next.outstanding := by
        simp only [outstanding, free]
      have keeps' : Keeps this { next with state := .flushing 0 } :=
        ⟨sound', keeps.steady, keeps.level, by rw [same]; exact keeps.joined⟩
      simp only [if_neg none, flushLoop]
      have second := pollReady_flushing sound' rfl
      have empties {last : NarWriter R W}
          (ready : pollReady { next with state := .flushing 0 } = (.ready (), last)) : last.buffer = [] :=
        @pollReady_empties R W _ _ _ _ _ { next with state := .flushing 0 } last keeps.sound.steady
          free rfl ready
      generalize pollReady { next with state := .flushing 0 } = result at second empties
      cases second with
      | @ready last keeps'' free' rests' spent' =>
        have gone : last.buffer = [] := empties rfl
        simp only [if_pos gone]
        refine ⟨.ready (keeps'.trans keeps'') free' rests' (Nat.le_trans spent' spent), ?_⟩
        rintro other same
        cases same
        exact gone
      | pending keeps'' less =>
        refine ⟨.pending (keeps'.trans keeps'') (Nat.lt_of_lt_of_le less spent), ?_⟩
        rintro other same
        cases same
      | error unsteady short =>
        refine ⟨.error (fun ok => unsteady (keeps'.steady ok)) (keeps'.joined ▸ short), ?_⟩
        rintro other same
        cases same
  | pending keeps less =>
    refine ⟨.pending keeps less, ?_⟩
    rintro other same
    cases same
  | error unsteady short =>
    refine ⟨.error unsteady short, ?_⟩
    rintro other same
    cases same

/-- Flushing or closing is a `poll_ready` that leaves nothing in the buffer, and what the archive is
written to has been flushed. -/
theorem pollSettle_readies [LawfulPatience W] {this : NarWriter R W} (sound : this.Sound) :
    Readies this this.pollSettle ∧ ∀ next, this.pollSettle = (.ready (), next) →
      next.buffer = [] ∧ ∃ before, pollFlush before = (.ready (), next.writer) := by
  obtain ⟨flushed, empties⟩ := pollFlushBuf_readies sound
  rw [pollSettle]
  generalize this.pollFlushBuf = result at flushed empties
  cases flushed with
  | @ready next keeps free rests spent =>
    have settled := pollFlush_settles keeps.sound.steady
    have none := empties next rfl
    have other {sink : W} (same : written sink = written next.writer)
        (steady : Harmonia.Steady sink) : Keeps this { next with writer := sink } := by
      refine ⟨⟨keeps.sound.cutoff, keeps.sound.idle, keeps.sound.word, keeps.sound.valid,
        keeps.sound.padding, steady⟩, keeps.steady, keeps.level, ?_⟩
      change written sink ++ next.outstanding = _
      rw [same]
      exact keeps.joined
    simp only
    generalize answer : pollFlush next.writer = result at settled
    cases settled with
    | @ready sink same steady spent' =>
      refine ⟨.ready (other same steady) free rests (Nat.le_trans ?_ spent), ?_⟩
      · exact Nat.add_le_add_right spent' _
      · rintro last same
        cases same
        exact ⟨none, next.writer, answer⟩
    | @pending sink same steady less =>
      refine ⟨.pending (other same steady) (Nat.lt_of_lt_of_le ?_ spent), ?_⟩
      · exact Nat.add_lt_add_right less _
      · rintro last same
        cases same
  | pending keeps less =>
    refine ⟨.pending keeps less, ?_⟩
    rintro other same
    cases same
  | error unsteady short =>
    refine ⟨.error unsteady short, ?_⟩
    rintro other same
    cases same

/-- Repeating a poll of a steady writer ends, and it is ready. -/
theorem await_ready {poll : NarWriter R W → Poll Unit × NarWriter R W}
    (polls : ∀ {this : NarWriter R W}, this.Sound → Readies this (poll this)) (turns : Nat)
    {this : NarWriter R W} (sound : this.Sound) (steady : this.Steady)
    (enough : this.patience < turns) :
    ∃ before next, await poll turns this = (.ready (), next) ∧ before.Sound ∧
      poll before = (.ready (), next) ∧ Keeps this next ∧ next.reader = none ∧
      next.state.isFlushing = false ∧ next.patience ≤ this.patience := by
  induction turns generalizing this with
  | zero => exact absurd enough (Nat.not_lt_zero _)
  | succ turns ih =>
    have polled := polls sound
    rw [await]
    generalize answer : poll this = result at polled
    cases polled with
    | @ready next keeps free rests spent =>
      exact ⟨this, next, rfl, sound, answer, keeps, free, rests, spent⟩
    | @pending next keeps less =>
      obtain ⟨before, last, awaited, sound', answer, keeps', free, rests, spent⟩ :=
        ih keeps.sound (keeps.steady steady) (by omega)
      exact ⟨before, last, awaited, sound', answer, keeps.trans keeps', free, rests, by omega⟩
    | error unsteady short => exact absurd steady unsteady

end NarWriter

end Harmonia.Nar
