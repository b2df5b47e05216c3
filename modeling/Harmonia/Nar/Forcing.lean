import Mathlib.Data.List.Basic
import Mathlib.Algebra.Order.Ring.Nat
import Harmonia.Io.Lending
import Harmonia.Nar.PaddedReader
import Harmonia.Nar.Reader

/-!
# The adapters of an archive

`NarBytesReader` shows of the reader below what has been parsed, and `PaddedReader` what belongs to the
contents of a file. Here they stand over any reader (`padded_reader.rs`, the end of `read_nar.rs`), and
the rest of a last word is read with whatever `poll_read` the reader below has.
-/

namespace Harmonia.Nar

open Library Forcing

/-! ## `NarBytesReader` -/

/-- Inside an archive the automaton uses a byte of every slice that has one. -/
theorem drive_uses {inner next : Inner} (reached : Reached inner) (live : inner.isEof = false)
    {buf : Bytes} (nonempty : buf ≠ []) {used : Nat} (ran : drive true inner buf = .done next used) :
    0 < used := by
  have goes : inner.state ≠ .eof := by
    intro ended
    rw [Inner.isEof, ended] at live
    cases live
  obtain ⟨waiting, count, idle, more⟩ := reached.idle goes
  exact (drive_lawful true).run_progress (m := driveMachine true) idle more nonempty ran

namespace NarReader

variable {R : Type} [BytesAdapter R]

instance : BytesAdapter (NarReader R) where
  pollReadInto := pollRead
  prepareFor this additional :=
    (prepareFor this.reader additional).map fun reader => { this with reader := reader }

/-- A `NarBytesReader` shows what has been parsed. It is forced in vain once the archive has ended. -/
def narMeter (below : Meter R) : Meter (NarReader R) where
  Sound this := below.Sound this.reader ∧ Reached this.state ∧ this.parsed ≤ below.shown this.reader
  shown := parsed
  Returns this := (this.parsed = 0 ∧ this.state.isEof = true) ∨ below.Returns this.reader
  Ended this := this.parsed = 0 ∧ this.state.isEof = true
  Clear this := this.state.isEof = false ∧ below.Clear this.reader

omit [BytesAdapter R] in
/-- Showing what has been parsed of a buffer. -/
theorem showParsed_answers {below : Meter R} {this next : NarReader R} {buf : Bytes} {returns : Prop}
    {wanted : Nat → Prop} (sound : (narMeter below).Sound next) (within : next.parsed ≤ buf.length)
    (kept : this.parsed ≤ next.parsed)
    (enough : ¬ (buf = [] ∧ next.state.isEof = false) → wanted next.parsed) :
    (narMeter below).Answers this returns wanted (showParsed next buf) := by
  have size : (buf.take next.parsed).length = next.parsed := List.length_take_of_le within
  unfold showParsed
  split
  · exact .error sound kept
  · rename_i goesOn
    rw [if_neg (Nat.not_lt.mpr within)]
    exact .ready sound size (by rw [size]; exact kept) (by rw [size]; exact enough goesOn)

omit [BytesAdapter R] in
/-- Polling the reader below, and parsing what has become visible. -/
theorem pollWith_answers {below : Meter R} {this : NarReader R} (sound : (narMeter below).Sound this)
    {poll : R → Poll Bytes × R} {returns : Prop} (grows : Prop)
    (polled : below.Answers this.reader returns (fun length => grows → below.shown this.reader < length)
      (poll this.reader)) :
    (narMeter below).Answers this ((this.parsed = 0 ∧ this.state.isEof = true) ∨ returns)
      (fun length => (length = 0 → (narMeter below).Ended this) ∧
        (this.state.isEof = false → grows → this.parsed < length))
      (this.pollWith poll) := by
  obtain ⟨ok, reached, within⟩ := sound
  unfold pollWith
  split
  · rename_i ended
    have gone : this.state.isEof ≠ false := by
      rw [ended.2]
      exact Bool.noConfusion
    exact .ready ⟨ok, reached, within⟩ ended.1.symm (Nat.le_of_eq ended.1)
      ⟨fun _ => ended, fun live => absurd live gone⟩
  · rename_i goesOn
    have live (nothing : this.parsed = 0) : this.state.isEof = false :=
      Bool.eq_false_of_not_eq_true fun ended => goesOn ⟨nothing, ended⟩
    generalize poll this.reader = result at polled
    cases polled with
    | @ready next buf ok' shows_ kept grown =>
      have parsed : this.parsed ≤ buf.length := Nat.le_trans within kept
      dsimp only
      split
      · rename_i more
        have rest : buf.drop this.parsed ≠ [] := by
          intro none
          have length := congrArg List.length none
          rw [List.length_drop, List.length_nil] at length
          omega
        rcases drive_safe true reached.valid (buf.drop this.parsed) with
          ⟨state, used, ran, _⟩ | ⟨state, error, ran, _⟩
        · have size := ((drive_lawful true).run_used (m := driveMachine true) _ _ ran).1
          rw [List.length_drop] at size
          rw [ran]
          apply showParsed_answers
          · exact ⟨ok', .done reached ran, by dsimp only; omega⟩
          · dsimp only
            omega
          · exact Nat.le_add_right _ _
          · intro _
            constructor
            · intro zero
              dsimp only at zero
              have positive := drive_uses reached (live (by omega)) rest ran
              omega
            · intro live _
              exact Nat.lt_add_of_pos_right (drive_uses reached live rest ran)
        · rw [ran]
          exact .error ⟨ok', .failed reached ran, by dsimp only; omega⟩ (Nat.le_refl _)
      · rename_i same
        apply showParsed_answers
        · exact ⟨ok', reached, by dsimp only; omega⟩
        · exact parsed
        · exact Nat.le_refl _
        · intro goesOn
          constructor
          · -- The empty buffer of an archive that goes on is an error.
            intro zero
            have nothing : buf = [] := List.eq_nil_of_length_eq_zero (by dsimp only at zero; omega)
            exact absurd ⟨nothing, live zero⟩ goesOn
          · intro _ wanted
            have longer := grown wanted
            omega
    | pending ok' kept => exact .pending ⟨ok', reached, Nat.le_trans within kept⟩ (Nat.le_refl _)
    | error ok' kept => exact .error ⟨ok', reached, Nat.le_trans within kept⟩ (Nat.le_refl _)
    | panic stuck =>
      refine .panic fun sure => ?_
      rcases sure with ended | returned
      · exact goesOn ended
      · exact stuck returned

variable [Metered R]

/-- Filling the buffer of an archive. -/
theorem pollFill_answers {this : NarReader R} (sound : (narMeter meter).Sound this) :
    (narMeter meter).Answers this ((narMeter meter).Returns this)
      (fun length => length = 0 → (narMeter meter).Ended this) (pollFillBuf this) :=
  (pollWith_answers sound False
    ((Metered.fills sound.1).imp id fun _ _ wrong => wrong.elim)).imp id fun _ shown => shown.1

/-- What is consumed is parsed no more. -/
theorem consume_takes {this next : NarReader R} {amt : Nat} (sound : (narMeter meter).Sound this)
    (took : consume this amt = some next) :
    (narMeter meter).Sound next ∧ this.parsed ≤ next.parsed + amt := by
  obtain ⟨ok, reached, within⟩ := sound
  change this.consumeParsed amt = some next at took
  unfold consumeParsed at took
  split at took
  · cases took
  · obtain ⟨reader, taken, rfl⟩ := Option.map_eq_some_iff.mp took
    obtain ⟨ok', kept⟩ := Metered.takes ok taken
    dsimp only
    exact ⟨⟨ok', reached, by dsimp only; omega⟩, by omega⟩

instance : Metered (NarReader R) where
  meter := narMeter meter
  fills := pollFill_answers
  forces sound := (pollWith_answers sound _ (Metered.forces sound.1)).imp
    (fun clear => .inr clear.2) fun _ shown clear => shown.2 clear.1 clear.2
  reads room sound := Meter.pollRead_reads room (pollFill_answers sound) consume_takes
  takes := consume_takes
  prepares := by
    intro this next additional sound made
    obtain ⟨ok, reached, within⟩ := sound
    obtain ⟨reader, prepared, rfl⟩ := Option.map_eq_some_iff.mp made
    obtain ⟨ok', kept⟩ := Metered.prepares ok prepared
    exact ⟨⟨ok', reached, Nat.le_trans within kept⟩, Nat.le_refl _⟩

/-- Over a reader that makes progress, a forced poll makes progress inside the archive and only there. -/
theorem forced_iff {this next : NarReader R} {buf : Bytes} (sound : (narMeter meter).Sound this)
    (clear : meter.Clear this.reader) (answer : pollForceFillBuf this = (.ready buf, next)) :
    this.parsed < buf.length ↔ this.state.isEof = false := by
  constructor
  · intro grown
    by_contra ended
    have eof : this.state.state = .eof := by simpa [Inner.isEof] using ended
    have stays (rest : Bytes) : drive true this.state rest = .done this.state 0 := by
      apply (drive_lawful true).run_stop (m := driveMachine true)
      change driveStep true this.state rest = _
      simp only [driveStep, eof]
    have shown {now : NarReader R} {visible : Bytes} (same : now.parsed = this.parsed)
        (shows_ : showParsed now visible = (.ready buf, next)) : False := by
      unfold showParsed at shows_
      split at shows_
      · cases shows_
      · split at shows_
        · cases shows_
        · cases shows_
          rw [List.length_take] at grown
          omega
    change this.pollWith pollForceFillBuf = _ at answer
    unfold pollWith at answer
    split at answer
    · cases answer
      exact absurd grown (Nat.not_lt_zero _)
    · generalize pollForceFillBuf this.reader = result at answer
      obtain ⟨below, reader⟩ := result
      cases below with
      | ready visible =>
        dsimp only at answer
        rw [stays] at answer
        split at answer
        · exact @shown ⟨reader, this.parsed + 0, this.state⟩ visible rfl answer
        · exact @shown ⟨reader, this.parsed, this.state⟩ visible rfl answer
      | pending => cases answer
      | error error => cases answer
      | panic => cases answer
  · intro live
    have answers := pollWith_answers sound _ (Metered.forces sound.1)
    change this.pollWith pollForceFillBuf = _ at answer
    rw [answer] at answers
    cases answers with
    | ready _ _ _ shown => exact shown.2 live clear

instance : DrainInto (NarReader R) R where
  pollDrain this := drainAll (budget this + 1) this
  intoInner := reader

instance : MeteredDrain (NarReader R) R where
  drains := drainAll_sound _
  inner sound := sound.1

end NarReader

/-! ## `PaddedReader` -/

namespace PaddedReader

variable {R : Type} [BytesAdapter R]

/-- The error of contents that are forced at their end. -/
def forceEof : IoError := ⟨.unexpectedEof, "EOF while force reading"⟩

/-- `poll_fill_buf`. -/
def fillBuf (this : PaddedReader R) : Poll Bytes × PaddedReader R := this.fillWith pollReadInto

/-- `poll_force_fill_buf`. -/
def forceBuf (this : PaddedReader R) : Poll Bytes × PaddedReader R :=
  match this.remainingUsize with
  | none => (.panic, this)
  | some (content, rem, trailing) =>
    match this.state with
    | .content _ => this.pollContent content rem trailing pollForceFillBuf
    | .readPadding start stop => readTail pollReadInto 8 this start stop
    | _ => (.error forceEof, this)

instance : AsyncBytesRead (PaddedReader R) where
  pollFillBuf := fillBuf
  consume := consumePadded
  budget this := budget this.reader
  pollForceFillBuf := forceBuf

instance : BytesAdapter (PaddedReader R) where
  pollReadInto this room := readBuf pollReadInto (room + 20) this room []
  prepareFor this additional :=
    (prepareFor this.reader additional).map fun reader => { this with reader := reader }

/-- `poll_read` fills the buffer and consumes of it. -/
def PlainRead (R : Type) [BytesAdapter R] : Prop :=
  ∀ (reader : R) (room : Nat), pollReadInto reader room = Harmonia.pollRead reader room

/-- Over a reader whose `poll_read` fills and consumes, filling is what it is elsewhere. -/
theorem fillBuf_eq (plain : PlainRead R) (this : PaddedReader R) : this.fillBuf = this.pollFill := by
  have same : (pollReadInto : R → Nat → Poll Bytes × R) = Harmonia.pollRead :=
    funext fun reader => funext (plain reader)
  rw [fillBuf, pollFill, same]

/-! ### What is shown -/

/-- How much of whole words and a trailer is shown when so many bytes are visible below. -/
def shownOf (words trailer visible : Nat) : Nat :=
  if visible < words then visible
  else if visible < words + alignNat trailer then words
  else words + trailer

/-- More is shown when more is visible. -/
theorem shownOf_mono {words trailer less more : Nat} (grows : less ≤ more) :
    shownOf words trailer less ≤ shownOf words trailer more := by
  unfold shownOf
  split <;> split <;> (try split) <;> (try split) <;> omega

/-- No more is shown than there is. -/
theorem shownOf_le (words trailer visible : Nat) : shownOf words trailer visible ≤ words + trailer := by
  unfold shownOf
  split <;> (try split) <;> omega

/-- As long as not everything is visible, not everything is shown. -/
theorem shownOf_lt {words trailer visible : Nat} (room : visible < words + alignNat trailer) :
    shownOf words trailer visible < words + trailer := by
  unfold shownOf
  unfold alignNat at room ⊢
  split <;> omega

/-- Taking bytes away takes away no more of what is shown. -/
theorem shownOf_sub {words trailer visible left amt : Nat} (within : amt ≤ words)
    (taken : visible ≤ left + amt) :
    shownOf words trailer visible ≤ shownOf (words - amt) trailer left + amt := by
  unfold shownOf
  split <;> split <;> (try split) <;> (try split) <;> omega

/-- The reads of a last word, after so many of its bytes. -/
inductive Tail (reader : R) (stop : Nat) : R → Nat → Prop
  | start : Tail reader stop reader stop
  | read {now next : R} {count : Nat} {bytes : Bytes} (before : Tail reader stop now count)
    (short : count < 8) (answer : pollReadInto now (8 - count) = (.ready bytes, next)) :
    Tail reader stop next (count + bytes.length)

/-- All the reads of a last word return. -/
def TailReturns (reader : R) (stop : Nat) : Prop :=
  ∀ now count, Tail reader stop now count → count < 8 → (pollReadInto now (8 - count)).1 ≠ .panic

/-- The reads of a last word are the first and those after it. -/
theorem Tail.of_read {reader next now : R} {stop count : Nat} {bytes : Bytes} (short : stop < 8)
    (answer : pollReadInto reader (8 - stop) = (.ready bytes, next))
    (later : Tail next (stop + bytes.length) now count) : Tail reader stop now count := by
  induction later with
  | start => exact .read .start short answer
  | read _ short answer ih => exact .read ih short answer

/-- The counts of a reader fit together. -/
structure Placed (this : PaddedReader R) : Prop where
  /-- The last word is not whole. -/
  trailer : this.trailerSize < 8
  /-- There is a place for the last word. -/
  word : this.padding.length = 8
  /-- The counts inside the last word. -/
  inside : match this.state with
    | .readPadding start stop => start < this.trailerSize ∧ stop ≤ 8
    | .padding start => start < this.trailerSize
    | _ => True

omit [BytesAdapter R] in
/-- The counts do not depend on the reader below. -/
theorem Placed.over_reader {this : PaddedReader R} (placed : this.Placed) (reader : R) :
    Placed { this with reader := reader } := ⟨placed.trailer, placed.word, placed.inside⟩

omit [BytesAdapter R] in
/-- The counts fit in either of two states. -/
theorem placed_if {reader : R} {trailer : Nat} {padding : Bytes} {yes no : PadState} {chosen : Prop}
    [Decidable chosen] (first : chosen → Placed ⟨reader, trailer, padding, yes⟩)
    (second : ¬ chosen → Placed ⟨reader, trailer, padding, no⟩) :
    Placed ⟨reader, trailer, padding, if chosen then yes else no⟩ := by
  split
  · rename_i holds
    exact first holds
  · rename_i fails
    exact second fails

omit [BytesAdapter R] in
/-- What has not been consumed of the last word. -/
theorem Placed.length {this : PaddedReader R} (placed : this.Placed) (start : Nat) :
    ((this.padding.take this.trailerSize).drop start).length = this.trailerSize - start := by
  have small := placed.trailer
  rw [List.length_drop, List.length_take, placed.word]
  omega

omit [BytesAdapter R] in
/-- The counts inside a last word that is being read. -/
theorem remainingUsize_reading {reader : R} {trailer start : Nat} (padding : Bytes) (stop : Nat)
    (inside : start < trailer) :
    remainingUsize ⟨reader, trailer, padding, .readPadding start stop⟩ =
      some (0, trailer - start, alignNat trailer - start) :=
  if_pos (Nat.le_of_lt inside)

omit [BytesAdapter R] in
/-- The counts inside a last word that has been read. -/
theorem remainingUsize_read {reader : R} {trailer start : Nat} (padding : Bytes)
    (inside : start < trailer) :
    remainingUsize ⟨reader, trailer, padding, .padding start⟩ =
      some (0, trailer - start, alignNat trailer - start) :=
  if_pos (Nat.le_of_lt inside)

variable [Metered R]

/-- Behind a poll of the reader below, the whole words are all there and the loop for what is behind them
makes progress whenever it forces. -/
def GathersClear (this : PaddedReader R) (words : Nat) (poll : R → Poll Bytes × R) : Prop :=
  ∀ buf next, poll this.reader = (.ready buf, next) → words ≤ buf.length →
    ClearUntil (words + this.aligned) next buf.length

/-- A `PaddedReader` shows the contents, the last word and the padding of them only when they are visible
together. It is at its end when nothing is left of them, or when the reader below is and whole words are
missing. It is forced in vain when all of this is visible, and once some of the last word has been
consumed. -/
def paddedMeter : Meter (PaddedReader R) where
  Sound this := meter.Sound this.reader ∧ this.Placed
  shown this :=
    match this.state with
    | .content rem => shownOf rem.toNat this.trailerSize (meter.shown this.reader)
    | .readPadding start _ => if start = 0 then 0 else this.trailerSize - start
    | .padding start => this.trailerSize - start
    | .eof => 0
  Returns this :=
    match this.state with
    | .content rem => this.remainingUsize ≠ none ∧ meter.Returns this.reader ∧
        this.GathersClear rem.toNat pollFillBuf
    | .readPadding _ stop => TailReturns this.reader stop
    | _ => True
  Ended this :=
    match this.state with
    | .content rem => rem.toNat + this.trailerSize = 0 ∨ (0 < rem.toNat ∧ meter.Ended this.reader)
    | .readPadding _ _ | .padding _ => False
    | .eof => True
  Clear this :=
    match this.state with
    | .content rem => this.remainingUsize ≠ none ∧ meter.Clear this.reader ∧
        meter.shown this.reader < rem.toNat + this.aligned ∧ this.GathersClear rem.toNat pollForceFillBuf
    | .readPadding start stop => start = 0 ∧ TailReturns this.reader stop
    | _ => True

/-- Polling for contents. -/
theorem pollContent_answers {this : PaddedReader R} {words : UInt64} (sound : paddedMeter.Sound this)
    (content : this.state = .content words) {poll : R → Poll Bytes × R} {returns : Prop}
    (grows ends : Prop)
    (polled : meter.Answers this.reader returns
      (fun length => (grows → meter.shown this.reader < length) ∧ (length = 0 → ends)) (poll this.reader)) :
    paddedMeter.Answers this (returns ∧ this.GathersClear words.toNat poll)
      (fun length => (grows → meter.shown this.reader < words.toNat + this.aligned →
          paddedMeter.shown this < length) ∧
        (length = 0 → words.toNat + this.trailerSize = 0 ∨ (0 < words.toNat ∧ ends)))
      (this.pollContent words.toNat (words.toNat + this.trailerSize) (words.toNat + this.aligned)
        poll) := by
  obtain ⟨reader, trailer, padding, state⟩ := this
  cases content
  obtain ⟨ok, placed⟩ := sound
  have tail := le_alignNat trailer
  have before : paddedMeter.shown ⟨reader, trailer, padding, .content words⟩ =
      shownOf words.toNat trailer (meter.shown reader) := rfl
  -- What is shown and how much it is, after the reader below has been polled.
  have wraps {next : R} (ok' : meter.Sound next) :
      paddedMeter.Sound ⟨next, trailer, padding, .content words⟩ := ⟨ok', placed.over_reader next⟩
  have showsMore {next : R} (kept : meter.shown reader ≤ meter.shown next) :
      paddedMeter.shown ⟨reader, trailer, padding, .content words⟩ ≤
        paddedMeter.shown ⟨next, trailer, padding, .content words⟩ := shownOf_mono kept
  unfold pollContent
  simp only [aligned] at *
  generalize answered : poll reader = result at polled
  cases polled with
  | @ready next buf ok' shows_ kept grown =>
    dsimp only
    split
    · rename_i whole
      have gathered := forceUntil_clear (words.toNat + alignNat trailer)
        (words.toNat + alignNat trailer + budget next) ok' (Nat.le_of_eq shows_)
      generalize forceUntil (words.toNat + alignNat trailer)
        (words.toNat + alignNat trailer + budget next) next buf = result at gathered
      cases gathered with
      | @ready last more ok'' enough kept' shows_' =>
        have length : (more.take (words.toNat + trailer)).length = words.toNat + trailer :=
          List.length_take_of_le (by omega)
        have after : paddedMeter.shown ⟨last, trailer, padding, .content words⟩ =
            words.toNat + trailer := by
          change shownOf words.toNat trailer (meter.shown last) = _
          have visible := shows_' shows_
          unfold shownOf
          rw [if_neg (by omega), if_neg (by omega)]
        dsimp only
        rw [if_neg (by omega)]
        refine .ready (wraps ok'') (length.trans after.symm) ?_ ⟨fun now room => ?_, fun zero => ?_⟩
        · rw [length, before]
          exact shownOf_le _ _ _
        · rw [length, before]
          exact shownOf_lt room
        · exact .inl (length.symm.trans zero)
      | pending ok'' kept' => exact .pending (wraps ok'') (showsMore (by omega))
      | error ok'' kept' => exact .error (wraps ok'') (showsMore (by omega))
      | panic stuck =>
        refine .panic fun sure => stuck ⟨by omega, ?_⟩
        exact sure.2 buf next answered whole
    · rename_i part
      have after : paddedMeter.shown ⟨next, trailer, padding, .content words⟩ = buf.length := by
        change shownOf words.toNat trailer (meter.shown next) = _
        unfold shownOf
        rw [if_pos (by omega), shows_]
      refine .ready (wraps ok') after.symm ?_ ⟨fun now room => ?_, fun zero => ?_⟩
      · rw [← after]
        exact showsMore (by omega)
      · rw [before]
        have longer := grown.1 now
        unfold shownOf
        rw [if_pos (by omega)]
        exact longer
      · exact .inr ⟨by omega, grown.2 zero⟩
  | pending ok' kept => exact .pending (wraps ok') (showsMore kept)
  | error ok' kept => exact .error (wraps ok') (showsMore kept)
  | panic stuck => exact .panic fun sure => stuck sure.1

omit [BytesAdapter R] [Metered R] in
/-- A word that some bytes have been read into is a word. -/
theorem word_length {padding bytes : Bytes} {stop : Nat} (word : padding.length = 8)
    (within : stop + bytes.length ≤ 8) :
    (padding.take stop ++ bytes ++ padding.drop (stop + bytes.length)).length = 8 := by
  rw [List.length_append, List.length_append, List.length_take, List.length_drop, word]
  omega

/-- The last word, once it has been read. -/
theorem word_answers {this : PaddedReader R} {start stop : Nat} {returns : Prop}
    (sound : paddedMeter.Sound this) (state : this.state = .readPadding start stop) :
    paddedMeter.Answers this returns (fun length => length = this.trailerSize - start)
      (.ready ((this.padding.take this.trailerSize).drop start), { this with state := .padding start }) := by
  have length := sound.2.length start
  obtain ⟨reader, trailer, padding, _⟩ := this
  cases state
  obtain ⟨ok, small, word, inside⟩ := sound
  refine .ready ⟨ok, small, word, inside.1⟩ length ?_ length
  rw [length]
  change (if start = 0 then 0 else trailer - start) ≤ trailer - start
  split <;> omega

/-- Reading the last word apart shows what has not been consumed of it. -/
theorem readTail_answers (fuel : Nat) {this : PaddedReader R} {start stop : Nat}
    (sound : paddedMeter.Sound this) (state : this.state = .readPadding start stop)
    (enough : 8 ≤ fuel + stop) :
    paddedMeter.Answers this (TailReturns this.reader stop)
      (fun length => length = this.trailerSize - start) (readTail pollReadInto fuel this start stop) := by
  induction fuel generalizing this stop with
  | zero =>
    rw [Nat.zero_add] at enough
    unfold readTail
    rw [if_pos enough]
    exact word_answers sound state
  | succ fuel ih =>
    unfold readTail
    split
    · exact word_answers sound state
    · rename_i missing
      obtain ⟨reader, trailer, padding, _⟩ := this
      cases state
      obtain ⟨ok, small, word, inside⟩ := sound
      dsimp only
      have short : stop < 8 := Nat.not_le.mp missing
      have placed : Placed ⟨reader, trailer, padding, .readPadding start stop⟩ := ⟨small, word, inside⟩
      have read := Metered.reads (8 - stop) ok
      generalize answered : pollReadInto reader (8 - stop) = result at read
      cases read with
      | @ready next bytes ok' within =>
        dsimp only
        split
        · exact .error ⟨ok', placed.over_reader next⟩ (Nat.le_refl _)
        · rename_i nonempty
          have positive := List.length_pos_of_ne_nil nonempty
          have later := @ih ⟨next, trailer, padding.take stop ++ bytes ++
              padding.drop (stop + bytes.length), .readPadding start (stop + bytes.length)⟩
            (stop + bytes.length)
            ⟨ok', small, word_length word (by omega), inside.1, by omega⟩ rfl (by omega)
          have sure (returns : TailReturns reader stop) : TailReturns next (stop + bytes.length) :=
            fun now count tail more => returns now count (.of_read short answered tail) more
          generalize readTail pollReadInto fuel (⟨next, trailer, padding.take stop ++ bytes ++
              padding.drop (stop + bytes.length), .readPadding start (stop + bytes.length)⟩ :
                PaddedReader R) start (stop + bytes.length) = result at later
          cases later with
          | ready sound shows_ kept length => exact .ready sound shows_ kept length
          | pending sound kept => exact .pending sound kept
          | error sound kept => exact .error sound kept
          | panic stuck => exact .panic fun returns => stuck (sure returns)
      | pending ok' => exact .pending ⟨ok', placed.over_reader _⟩ (Nat.le_refl _)
      | error ok' => exact .error ⟨ok', placed.over_reader _⟩ (Nat.le_refl _)
      | panic =>
        refine .panic fun returns => returns reader stop .start short ?_
        rw [answered]

omit [BytesAdapter R] [Metered R] in
/-- The counts are in range, except inside the contents. -/
theorem Placed.uncounted {this : PaddedReader R} (placed : this.Placed)
    (counts : this.remainingUsize = none) : ∃ words, this.state = .content words := by
  obtain ⟨reader, trailer, padding, state⟩ := this
  obtain ⟨small, word, inside⟩ := placed
  cases state with
  | content words => exact ⟨words, rfl⟩
  | readPadding start stop =>
    rw [remainingUsize_reading padding stop inside.1] at counts
    cases counts
  | padding start =>
    rw [remainingUsize_read padding inside] at counts
    cases counts
  | eof => cases counts

omit [BytesAdapter R] [Metered R] in
/-- The counts inside the contents. -/
theorem remainingUsize_content {this : PaddedReader R} {words : UInt64} (content : this.state = .content words)
    (counts : this.remainingUsize ≠ none) :
    this.remainingUsize =
      some (words.toNat, words.toNat + this.trailerSize, words.toNat + this.aligned) := by
  unfold remainingUsize at counts ⊢
  rw [content] at counts ⊢
  dsimp only at counts ⊢
  split at counts
  · rename_i room
    rw [if_pos room]
  · exact absurd rfl counts

/-- Filling the buffer of contents. -/
theorem fillBuf_answers {this : PaddedReader R} (sound : paddedMeter.Sound this) :
    paddedMeter.Answers this (paddedMeter.Returns this) (fun length => length = 0 → paddedMeter.Ended this)
      this.fillBuf := by
  by_cases counts : this.remainingUsize = none
  · unfold fillBuf fillWith
    rw [counts]
    refine .panic fun returns => ?_
    obtain ⟨words, content⟩ := sound.2.uncounted counts
    obtain ⟨reader, trailer, padding, state⟩ := this
    cases content
    exact returns.1 counts
  · obtain ⟨reader, trailer, padding, state⟩ := this
    cases state with
    | content rem =>
      have known := remainingUsize_content rfl counts
      unfold fillBuf fillWith
      rw [known]
      have answers := pollContent_answers sound rfl False (meter.Ended reader)
        ((Metered.fills sound.1).imp id fun _ ends => ⟨fun wrong => wrong.elim, ends⟩)
      exact answers.imp (fun returns => returns.2) fun _ shown => shown.2
    | readPadding start stop =>
      have inside : start < trailer ∧ stop ≤ 8 := sound.2.inside
      unfold fillBuf fillWith
      rw [remainingUsize_reading padding stop inside.1]
      refine (readTail_answers 8 sound rfl (Nat.le_add_right _ _)).imp id fun _ length zero => ?_
      dsimp only at length
      omega
    | padding start =>
      have inside : start < trailer := sound.2.inside
      have length := sound.2.length start
      unfold fillBuf fillWith
      rw [remainingUsize_read padding inside]
      refine .ready sound length (Nat.le_of_eq length.symm) fun zero => ?_
      rw [length] at zero
      exact absurd inside (Nat.not_lt.mpr (Nat.sub_eq_zero_iff_le.mp zero))
    | eof => exact .ready sound rfl (Nat.le_refl _) fun _ => trivial

omit [Metered R] in
/-- No more is shown than there is of the contents. -/
theorem pollContent_le {this next : PaddedReader R} {content rem trailing : Nat} {buf : Bytes}
    {poll : R → Poll Bytes × R} (within : content ≤ rem)
    (answer : this.pollContent content rem trailing poll = (.ready buf, next)) : buf.length ≤ rem := by
  unfold pollContent at answer
  split at answer
  · rename_i visible reader polled
    split at answer
    · split at answer
      · split at answer
        · cases answer
        · cases answer
          exact List.length_take_le _ _
      · cases answer
      · cases answer
      · cases answer
    · cases answer
      omega
  · cases answer
  · cases answer
  · cases answer

/-- Forcing the buffer of contents. -/
theorem forceBuf_answers {this : PaddedReader R} (sound : paddedMeter.Sound this) :
    paddedMeter.Answers this (paddedMeter.Clear this)
      (fun length => paddedMeter.Clear this → paddedMeter.shown this < length) this.forceBuf := by
  by_cases counts : this.remainingUsize = none
  · unfold forceBuf
    rw [counts]
    refine .panic fun clear => ?_
    obtain ⟨words, content⟩ := sound.2.uncounted counts
    obtain ⟨reader, trailer, padding, state⟩ := this
    cases content
    exact clear.1 counts
  · obtain ⟨reader, trailer, padding, state⟩ := this
    cases state with
    | content rem =>
      have known := remainingUsize_content rfl counts
      unfold forceBuf
      rw [known]
      have answers := pollContent_answers sound rfl _ True
        ((Metered.forces sound.1).imp id fun _ grown => ⟨grown, fun _ => trivial⟩)
      refine answers.imp (fun clear => ⟨clear.2.1, clear.2.2.2⟩) fun _ shown clear => ?_
      exact shown.1 clear.2.1 clear.2.2.1
    | readPadding start stop =>
      have inside : start < trailer ∧ stop ≤ 8 := sound.2.inside
      unfold forceBuf
      rw [remainingUsize_reading padding stop inside.1]
      refine (readTail_answers 8 sound rfl (Nat.le_add_right _ _)).imp (fun clear => clear.2)
        fun _ length clear => ?_
      obtain rfl : start = 0 := clear.1
      rw [length]
      exact Nat.sub_pos_of_lt inside.1
    | padding start =>
      have inside : start < trailer := sound.2.inside
      unfold forceBuf
      rw [remainingUsize_read padding inside]
      exact .error sound (Nat.le_refl _)
    | eof => exact .error sound (Nat.le_refl _)

/-- Over a reader that makes progress, a forced poll for contents makes progress as long as they and their
padding are not all visible, and only then. -/
theorem forced_iff {this next : PaddedReader R} {words : UInt64} {buf : Bytes}
    (sound : paddedMeter.Sound this) (content : this.state = .content words)
    (clear : meter.Clear this.reader) (answer : pollForceFillBuf this = (.ready buf, next)) :
    paddedMeter.shown this < buf.length ↔
      meter.shown this.reader < words.toNat + this.aligned := by
  have forced : this.pollContent words.toNat (words.toNat + this.trailerSize)
      (words.toNat + this.aligned) pollForceFillBuf = (.ready buf, next) := by
    change this.forceBuf = _ at answer
    unfold forceBuf at answer
    by_cases counts : this.remainingUsize = none
    · rw [counts] at answer
      cases answer
    · rw [remainingUsize_content content counts] at answer
      dsimp only at answer
      rw [content] at answer
      exact answer
  constructor
  · intro grown
    by_contra whole
    have most := pollContent_le (Nat.le_add_right _ _) forced
    have all : paddedMeter.shown this = words.toNat + this.trailerSize := by
      obtain ⟨reader, trailer, padding, state⟩ := this
      cases content
      change shownOf words.toNat trailer (meter.shown reader) = _
      unfold aligned at whole
      unfold shownOf
      rw [if_neg (by dsimp only at whole; omega), if_neg whole]
    omega
  · intro room
    have answers := pollContent_answers sound content _ True
      ((Metered.forces sound.1).imp id fun _ grown => ⟨grown, fun _ => trivial⟩)
    rw [forced] at answers
    cases answers with
    | ready _ _ _ shown => exact shown.1 clear room

/-- Reading contents into some room. -/
theorem readBuf_reads (fuel : Nat) {this : PaddedReader R} (room : Nat) (filled : Bytes)
    (sound : paddedMeter.Sound this) :
    paddedMeter.Reads (room + filled.length) (readBuf pollReadInto fuel this room filled) := by
  induction fuel generalizing this room filled with
  | zero => exact .panic
  | succ fuel ih =>
    obtain ⟨reader, trailer, padding, state⟩ := this
    have kept := sound.2.over_reader
    obtain ⟨ok, small, word, inside⟩ := sound
    cases state with
    | content rem =>
      unfold readBuf
      dsimp only
      have read := Metered.reads (min rem.toNat room) ok
      generalize pollReadInto reader (min rem.toNat room) = result at read
      cases read with
      | @ready next bytes ok' within =>
        dsimp only
        split
        · exact .error ⟨ok', kept next⟩
        · have total : room - bytes.length + (filled ++ bytes).length = room + filled.length := by
            rw [List.length_append]
            omega
          rw [← total]
          apply ih
          refine ⟨ok', placed_if (fun _ => placed_if (fun some => ?_) fun _ => ?_) fun _ => ?_⟩
          · exact ⟨small, word, some, Nat.zero_le _⟩
          · exact ⟨small, word, trivial⟩
          · exact ⟨small, word, trivial⟩
      | pending ok' => exact .pending ⟨ok', kept _⟩
      | error ok' => exact .error ⟨ok', kept _⟩
      | panic => exact .panic
    | readPadding start stop =>
      unfold readBuf
      dsimp only
      have read := Metered.reads (8 - stop) ok
      generalize pollReadInto reader (8 - stop) = result at read
      have within_word : stop ≤ 8 := inside.2
      cases read with
      | @ready next bytes ok' within =>
        dsimp only
        split
        · exact .error ⟨ok', kept next⟩
        · have length : (padding.take stop ++ bytes ++ padding.drop (stop + bytes.length)).length = 8 :=
            word_length word (by omega)
          apply ih
          refine ⟨ok', placed_if (fun _ => ?_) fun _ => ?_⟩
          · exact ⟨small, length, inside.1⟩
          · exact ⟨small, length, inside.1, by omega⟩
      | pending ok' => exact .pending ⟨ok', kept _⟩
      | error ok' => exact .error ⟨ok', kept _⟩
      | panic => exact .panic
    | padding pos =>
      unfold readBuf
      dsimp only
      split
      · exact .panic
      · split
        · exact .panic
        · have slice : ((padding.take (min (trailer - pos) room)).drop pos).length ≤ room := by
            rw [List.length_drop, List.length_take]
            omega
          have total : room - ((padding.take (min (trailer - pos) room)).drop pos).length +
              (filled ++ (padding.take (min (trailer - pos) room)).drop pos).length =
                room + filled.length := by
            rw [List.length_append]
            omega
          rw [← total]
          apply ih
          refine ⟨ok, placed_if (fun _ => ?_) fun more => ?_⟩
          · exact ⟨small, word, trivial⟩
          · refine ⟨small, word, ?_⟩
            dsimp only
            omega
    | eof => exact .ready ⟨ok, small, word, trivial⟩ (Nat.le_add_left _ _)

/-- What is consumed is shown no more. -/
theorem consumePadded_takes {this next : PaddedReader R} {amt : Nat} (sound : paddedMeter.Sound this)
    (took : this.consumePadded amt = some next) :
    paddedMeter.Sound next ∧ paddedMeter.shown this ≤ paddedMeter.shown next + amt := by
  obtain ⟨reader, trailer, padding, state⟩ := this
  obtain ⟨ok, small, word, inside⟩ := sound
  cases state with
  | content rem =>
    have counts : remainingUsize ⟨reader, trailer, padding, .content rem⟩ ≠ none := by
      intro none
      simp only [consumePadded, none, Option.bind_eq_bind, Option.bind_none] at took
      cases took
    have known := remainingUsize_content rfl counts
    have before : paddedMeter.shown ⟨reader, trailer, padding, .content rem⟩ =
        shownOf rem.toNat trailer (meter.shown reader) := rfl
    have most := shownOf_le rem.toNat trailer (meter.shown reader)
    have eight : trailer < 8 := small
    simp only [consumePadded, known, Option.bind_eq_bind, Option.bind_some] at took
    split at took
    · cases took
    · split at took
      · rename_i all
        obtain ⟨after, taken, same⟩ := Option.bind_eq_some_iff.mp took
        cases same
        obtain ⟨ok', kept⟩ := Metered.takes ok taken
        refine ⟨⟨ok', small, word, trivial⟩, ?_⟩
        rw [before, all]
        exact Nat.le_add_left_of_le most
      · obtain ⟨after, taken, same⟩ := Option.bind_eq_some_iff.mp took
        obtain ⟨ok', kept⟩ := Metered.takes ok taken
        split at same
        · rename_i behind
          cases same
          refine ⟨⟨ok', small, word, ?_, by omega⟩, ?_⟩
          · dsimp only
            omega
          · rw [before]
            change _ ≤ (if amt - rem.toNat = 0 then 0 else trailer - (amt - rem.toNat)) + amt
            rw [if_neg (by omega)]
            omega
        · rename_i within
          cases same
          refine ⟨⟨ok', small, word, trivial⟩, ?_⟩
          have count : (rem - UInt64.ofNat amt).toNat = rem.toNat - amt := by
            have size : amt < 2 ^ 64 := Nat.lt_of_le_of_lt (Nat.not_lt.mp within) rem.toNat_lt
            have same : (UInt64.ofNat amt).toNat = amt := UInt64.toNat_ofNat_of_lt' size
            rw [UInt64.toNat_sub_of_le _ _ (by rw [UInt64.le_iff_toNat_le, same]; omega), same]
          rw [before]
          change _ ≤ shownOf (rem - UInt64.ofNat amt).toNat trailer (meter.shown after) + amt
          rw [count]
          exact shownOf_sub (Nat.not_lt.mp within) kept
  | readPadding start stop =>
    obtain ⟨first, last⟩ : start < trailer ∧ stop ≤ 8 := inside
    have before : paddedMeter.shown ⟨reader, trailer, padding, .readPadding start stop⟩ ≤
        trailer - start := by
      change (if start = 0 then 0 else trailer - start) ≤ trailer - start
      split <;> omega
    simp only [consumePadded, remainingUsize_reading padding stop first, Option.bind_eq_bind,
      Option.bind_some] at took
    split at took
    · cases took
    · split at took
      · rename_i all
        obtain ⟨after, taken, same⟩ := Option.bind_eq_some_iff.mp took
        cases same
        obtain ⟨ok', kept⟩ := Metered.takes ok taken
        exact ⟨⟨ok', small, word, trivial⟩, by omega⟩
      · obtain ⟨after, taken, same⟩ := Option.bind_eq_some_iff.mp took
        cases same
        obtain ⟨ok', kept⟩ := Metered.takes ok taken
        refine ⟨⟨ok', small, word, ?_, ?_⟩, ?_⟩
        · dsimp only
          omega
        · dsimp only at small
          exact Nat.max_le.mpr ⟨by omega, last⟩
        · change (if start = 0 then 0 else trailer - start) ≤
            (if start + amt = 0 then 0 else trailer - (start + amt)) + amt
          split <;> split <;> omega
  | padding start =>
    have first : start < trailer := inside
    simp only [consumePadded, remainingUsize_read padding first, Option.bind_eq_bind,
      Option.bind_some] at took
    split at took
    · cases took
    · split at took
      · rename_i all
        cases took
        refine ⟨⟨ok, small, word, trivial⟩, ?_⟩
        change trailer - start ≤ 0 + amt
        omega
      · cases took
        refine ⟨⟨ok, small, word, ?_⟩, ?_⟩
        · dsimp only
          omega
        · change trailer - start ≤ trailer - (start + amt) + amt
          omega
  | eof =>
    have same : next.state = .eof ∧ next.reader = reader ∧ next.trailerSize = trailer ∧
        next.padding = padding := by
      simp only [consumePadded, remainingUsize, Option.bind_eq_bind, Option.bind_some] at took
      split at took
      · cases took
      · split at took
        · cases took
          exact ⟨rfl, rfl, rfl, rfl⟩
        · cases took
          exact ⟨rfl, rfl, rfl, rfl⟩
    obtain ⟨reader', trailer', padding', state'⟩ := next
    obtain ⟨rfl, rfl, rfl, rfl⟩ := same
    exact ⟨⟨ok, small, word, trivial⟩, Nat.zero_le _⟩

instance : Metered (PaddedReader R) where
  meter := paddedMeter
  fills := fillBuf_answers
  forces := forceBuf_answers
  reads room sound := readBuf_reads (room + 20) room [] sound
  takes := consumePadded_takes
  prepares := by
    intro this next additional sound made
    obtain ⟨reader, prepared, rfl⟩ := Option.map_eq_some_iff.mp made
    obtain ⟨ok', kept⟩ := Metered.prepares sound.1 prepared
    refine ⟨⟨ok', sound.2.over_reader reader⟩, ?_⟩
    obtain ⟨reader', trailer, padding, state⟩ := this
    cases state with
    | content rem => exact shownOf_mono kept
    | readPadding start stop => exact Nat.le_refl _
    | padding start => exact Nat.le_refl _
    | eof => exact Nat.le_refl _

instance : DrainInto (PaddedReader R) R where
  pollDrain this := drainAll (budget this + 1) this
  intoInner := reader

instance : MeteredDrain (PaddedReader R) R where
  drains := drainAll_sound _
  inner sound := sound.1

omit [BytesAdapter R] [Metered R] in
/-- The counts of a new reader of contents fit together. -/
theorem new_placed (reader : R) (len : UInt64) : (PaddedReader.new reader len).Placed := by
  have low := clear_low_bits len
  have below : len &&& ~~~7 ≤ len := by
    rw [UInt64.le_iff_toNat_le, low]
    omega
  have trailer : (len - (len &&& ~~~7)).toNat = len.toNat % 8 := by
    rw [UInt64.toNat_sub_of_le _ _ below, low]
    omega
  refine ⟨?_, rfl, trivial⟩
  change (len - (len &&& ~~~7)).toNat < 8
  rw [trailer]
  exact Nat.mod_lt _ (by decide)

end PaddedReader

end Harmonia.Nar
