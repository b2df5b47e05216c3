import Mathlib.Data.List.Basic
import Mathlib.Algebra.Order.Ring.Nat
import Harmonia.Io.Gather
import Harmonia.Io.Prepare

/-!
# Adapters over any source

The implementations of `AsyncBytesRead` stand on one another in any order, and the lowest over
whatever `AsyncRead` there is: nothing is assumed of what it answers. All that is followed of the
bytes is how many of them a reader shows. `Meter` says that, and when `poll_force_fill_buf` is sure to
show more; `Metered` holds of a reader that keeps to it. The adapters that look at the bytes themselves
are elsewhere.
-/

namespace Harmonia.Forcing

/-- All the methods of `AsyncBytesRead`. The budget of a reader says how long a loop is followed that
nothing else bounds. -/
class BytesAdapter (R : Type) extends AsyncBytesRead R where
  /-- `poll_read` into a buffer with some room. -/
  pollReadInto : R → Nat → Poll Bytes × R
  /-- `prepare`; `none` is a panic. -/
  prepareFor : R → Nat → Option R

export BytesAdapter (pollReadInto prepareFor)

/-- How the bytes that a reader shows are counted. -/
structure Meter (R : Type) where
  /-- The reader's own bookkeeping is sound. -/
  Sound : R → Prop
  /-- How many bytes are visible. -/
  shown : R → Nat
  /-- `poll_fill_buf` is sure to return. -/
  Returns : R → Prop
  /-- The reader is at its end: nowhere else does `poll_fill_buf` show an empty buffer. -/
  Ended : R → Prop
  /-- `poll_force_fill_buf` is sure to make progress. -/
  Clear : R → Prop

namespace Meter

variable {R : Type}

/-- What a poll for bytes does. No bytes are lost from sight; it may fail to return only unless
`returns`. -/
inductive Answers (meter : Meter R) (reader : R) (returns : Prop) (wanted : Nat → Prop) :
    Poll Bytes × R → Prop
  | ready {next : R} {buf : Bytes} (sound : meter.Sound next) (shows_ : buf.length = meter.shown next)
    (kept : meter.shown reader ≤ buf.length) (enough : wanted buf.length) :
    Answers meter reader returns wanted (.ready buf, next)
  | pending {next : R} (sound : meter.Sound next) (kept : meter.shown reader ≤ meter.shown next) :
    Answers meter reader returns wanted (.pending, next)
  | error {next : R} {error : IoError} (sound : meter.Sound next)
    (kept : meter.shown reader ≤ meter.shown next) :
    Answers meter reader returns wanted (.error error, next)
  | panic {next : R} (stuck : ¬ returns) : Answers meter reader returns wanted (.panic, next)

/-- What a read into some room does. -/
inductive Reads (meter : Meter R) (room : Nat) : Poll Bytes × R → Prop
  | ready {next : R} {bytes : Bytes} (sound : meter.Sound next) (within : bytes.length ≤ room) :
    Reads meter room (.ready bytes, next)
  | pending {next : R} (sound : meter.Sound next) : Reads meter room (.pending, next)
  | error {next : R} {error : IoError} (sound : meter.Sound next) : Reads meter room (.error error, next)
  | panic {next : R} : Reads meter room (.panic, next)

/-- A poll that was sure to return has done so. -/
theorem Answers.returned {meter : Meter R} {reader : R} {returns : Prop} {wanted : Nat → Prop}
    {result : Poll Bytes × R} (answers : meter.Answers reader returns wanted result)
    (sure : returns) : result.1 ≠ .panic := by
  cases answers with
  | panic stuck => exact absurd sure stuck
  | ready => rintro ⟨⟩
  | pending => rintro ⟨⟩
  | error => rintro ⟨⟩

/-- A poll that returned has left a sound reader. -/
theorem Answers.left {meter : Meter R} {reader next : R} {returns : Prop} {wanted : Nat → Prop}
    {answer : Poll Bytes} (answers : meter.Answers reader returns wanted (answer, next))
    (returned : answer ≠ .panic) : meter.Sound next ∧ meter.shown reader ≤ meter.shown next := by
  cases answers with
  | ready sound shows_ kept => exact ⟨sound, shows_ ▸ kept⟩
  | pending sound kept => exact ⟨sound, kept⟩
  | error sound kept => exact ⟨sound, kept⟩
  | panic => exact absurd rfl returned

/-- What is asked of an answer may be weakened. -/
theorem Answers.imp {meter : Meter R} {reader : R} {returns returns' : Prop} {wanted wanted' : Nat → Prop}
    {result : Poll Bytes × R} (answers : meter.Answers reader returns wanted result)
    (sure : returns' → returns) (less : ∀ length, wanted length → wanted' length) :
    meter.Answers reader returns' wanted' result := by
  cases answers with
  | ready sound shows_ kept enough => exact .ready sound shows_ kept (less _ enough)
  | pending sound kept => exact .pending sound kept
  | error sound kept => exact .error sound kept
  | panic stuck => exact .panic fun now => stuck (sure now)

/-- A read that returned has left a sound reader. -/
theorem Reads.left {meter : Meter R} {room : Nat} {next : R} {answer : Poll Bytes}
    (reads : meter.Reads room (answer, next)) (returned : answer ≠ .panic) : meter.Sound next := by
  cases reads with
  | ready sound => exact sound
  | pending sound => exact sound
  | error sound => exact sound
  | panic => exact absurd rfl returned

end Meter

/-- What `poll_read` does where it fills the buffer and consumes of it. -/
theorem Meter.pollRead_reads {R : Type} [AsyncBufRead R] {meter : Meter R} {reader : R}
    {returns : Prop} {wanted : Nat → Prop} (room : Nat)
    (filled : meter.Answers reader returns wanted (pollFillBuf reader))
    (takes : ∀ {now next : R} {amt : Nat}, meter.Sound now → consume now amt = some next →
      meter.Sound next ∧ meter.shown now ≤ meter.shown next + amt) :
    meter.Reads room (pollRead reader room) := by
  unfold pollRead
  generalize pollFillBuf reader = result at filled
  cases filled with
  | @ready next buf sound shows_ kept enough =>
    dsimp only
    split
    · exact .ready sound (Nat.zero_le _)
    · split
      · rename_i after took
        have size : (buf.take (min buf.length room)).length ≤ room := by
          rw [List.length_take]
          omega
        exact .ready (takes sound took).1 size
      · exact .panic
  | pending sound kept => exact .pending sound
  | error sound kept => exact .error sound
  | panic stuck => exact .panic

/-- A reader whose bytes can be counted. -/
class Metered (R : Type) [BytesAdapter R] where
  /-- How they are counted. -/
  meter : Meter R
  /-- `poll_fill_buf`. -/
  fills : ∀ {reader : R}, meter.Sound reader →
    meter.Answers reader (meter.Returns reader) (fun length => length = 0 → meter.Ended reader)
      (pollFillBuf reader)
  /-- `poll_force_fill_buf`. -/
  forces : ∀ {reader : R}, meter.Sound reader →
    meter.Answers reader (meter.Clear reader)
      (fun length => meter.Clear reader → meter.shown reader < length) (pollForceFillBuf reader)
  /-- `poll_read`. -/
  reads : ∀ {reader : R} (room : Nat), meter.Sound reader →
    meter.Reads room (pollReadInto reader room)
  /-- `consume`. -/
  takes : ∀ {reader next : R} {amt : Nat}, meter.Sound reader → consume reader amt = some next →
    meter.Sound next ∧ meter.shown reader ≤ meter.shown next + amt
  /-- `prepare`. -/
  prepares : ∀ {reader next : R} {additional : Nat}, meter.Sound reader →
    prepareFor reader additional = some next →
      meter.Sound next ∧ meter.shown reader ≤ meter.shown next

export Metered (meter)

section Loops

variable {R : Type} [BytesAdapter R] [Metered R]

/-- The readers that a loop forces, with the length of the buffer it has. -/
inductive Gathering (need : Nat) (reader : R) (length : Nat) : R → Nat → Prop
  | start : Gathering need reader length reader length
  | force {now next : R} {held : Nat} {buf : Bytes} (before : Gathering need reader length now held)
    (short : held < need) (answer : pollForceFillBuf now = (.ready buf, next)) :
    Gathering need reader length next buf.length

/-- Whenever the loop forces, it is sure to make progress. -/
def ClearUntil (need : Nat) (reader : R) (length : Nat) : Prop :=
  ∀ now held, Gathering need reader length now held → held < need → meter.Clear now

omit [Metered R] in
/-- A loop is the first force and the loop from there. -/
theorem Gathering.of_force {need held length : Nat} {reader next now : R} {buf : Bytes}
    (short : length < need) (answer : pollForceFillBuf reader = (.ready buf, next))
    (later : Gathering need next buf.length now held) : Gathering need reader length now held := by
  induction later with
  | start => exact .force .start short answer
  | force _ short answer ih => exact .force ih short answer

/-- What the loop does. -/
inductive Gathers (need fuel : Nat) (reader : R) (buf : Bytes) : Poll Bytes × R → Prop
  | ready {next : R} {more : Bytes} (sound : meter.Sound next) (enough : need ≤ more.length)
    (kept : meter.shown reader ≤ meter.shown next)
    (shows_ : buf.length = meter.shown reader → more.length = meter.shown next) :
    Gathers need fuel reader buf (.ready more, next)
  | pending {next : R} (sound : meter.Sound next) (kept : meter.shown reader ≤ meter.shown next) :
    Gathers need fuel reader buf (.pending, next)
  | error {next : R} {error : IoError} (sound : meter.Sound next)
    (kept : meter.shown reader ≤ meter.shown next) : Gathers need fuel reader buf (.error error, next)
  | panic {next : R} (stuck : ¬ (need ≤ fuel + buf.length ∧ ClearUntil need reader buf.length)) :
    Gathers need fuel reader buf (.panic, next)

/-- The loop ends when every force of it makes progress: each takes it a byte further at least. -/
theorem forceUntil_clear (need fuel : Nat) {reader : R} {buf : Bytes} (sound : meter.Sound reader)
    (visible : buf.length ≤ meter.shown reader) :
    Gathers need fuel reader buf (forceUntil need fuel reader buf) := by
  induction fuel generalizing reader buf with
  | zero =>
    unfold forceUntil
    split
    · rename_i enough
      exact .ready sound enough (Nat.le_refl _) id
    · rename_i short
      refine .panic fun sure => short ?_
      have room := sure.1
      omega
  | succ fuel ih =>
    unfold forceUntil
    split
    · rename_i enough
      exact .ready sound enough (Nat.le_refl _) id
    · rename_i missing
      have short : buf.length < need := Nat.not_le.mp missing
      have forced := Metered.forces sound
      generalize answered : pollForceFillBuf reader = result at forced
      cases forced with
      | @ready next more sound' shows_ kept grown =>
        have later := ih sound' (Nat.le_of_eq shows_)
        dsimp only
        generalize forceUntil need fuel next more = result at later
        cases later with
        | ready sound'' enough kept' shows_' =>
          exact .ready sound'' enough (by omega) fun _ => shows_' shows_
        | pending sound'' kept' => exact .pending sound'' (by omega)
        | error sound'' kept' => exact .error sound'' (by omega)
        | panic stuck =>
          refine .panic fun sure => stuck ?_
          obtain ⟨room, clear⟩ := sure
          have longer := grown (clear reader buf.length .start short)
          constructor
          · omega
          · exact fun now held later lacks => clear now held (.of_force short answered later) lacks
      | pending sound' kept => exact .pending sound' kept
      | error sound' kept => exact .error sound' kept
      | panic stuck =>
        refine .panic fun sure => stuck ?_
        exact sure.2 reader buf.length .start short

end Loops

/-! ## `BytesReader` -/

open BytesReader

/-- A `BytesReader`, and whether slices of its buffer are held elsewhere each time that it is polled or
asked for room. -/
structure SharedReader (S : Type) where
  /-- The reader. -/
  reader : BytesReader S
  /-- Whether slices are held at the next times. -/
  held : Nat → Bool
  /-- How long a loop over the reader is followed. -/
  rounds : Nat

namespace SharedReader

variable {S : Type}

/-- A fresh reader. -/
def build (reservedBufSize maxBufSize : Nat) (held : Nat → Bool) (rounds : Nat) (inner : S) :
    SharedReader S :=
  ⟨BytesReader.build reservedBufSize maxBufSize (held 0) inner, held, rounds⟩

/-- The reader, whose slices are held or not. -/
def lent (this : SharedReader S) : BytesReader S := { this.reader with shared := this.held 0 }

/-- What the reader has become, until the next time. -/
def later (this : SharedReader S) (reader : BytesReader S) : SharedReader S :=
  ⟨reader, fun time => this.held (time + 1), this.rounds⟩

variable [AsyncRead S]

instance : AsyncBytesRead (SharedReader S) where
  pollFillBuf this := this.lent.pollFill.map id this.later
  consume this amt := (this.reader.advance amt).map fun reader => { this with reader := reader }
  budget := rounds
  pollForceFillBuf this := this.lent.pollForce.map id this.later

instance : BytesAdapter (SharedReader S) where
  pollReadInto := pollRead
  prepareFor this additional := (this.lent.prepareBuf additional).map this.later

/-- The next read gives nothing. -/
def ReadsNothing (reader : BytesReader S) : Prop :=
  (AsyncRead.pollRead reader.inner (roomy reader).remainingMut).1 = .ready []

/-- What an attempt to read more does to the filled part. -/
inductive Attempted (reader : BytesReader S) (nothing : Prop) : Poll Nat × BytesReader S → Prop
  | ready {next : BytesReader S} {count : Nat}
    (grown : next.buffer.length = reader.buffer.length + count) (none : count = 0 → nothing) :
    Attempted reader nothing (.ready count, next)
  | pending {next : BytesReader S} (same : next.buffer.length = reader.buffer.length) :
    Attempted reader nothing (.pending, next)
  | error {next : BytesReader S} {error : IoError} (same : next.buffer.length = reader.buffer.length) :
    Attempted reader nothing (.error error, next)

/-- Reading adds to the filled part. -/
theorem readMore_attempted (reader : BytesReader S) :
    Attempted reader ((AsyncRead.pollRead reader.inner reader.remainingMut).1 = .ready []) reader.readMore := by
  have returns := AsyncRead.returns reader.inner reader.remainingMut
  unfold readMore
  generalize AsyncRead.pollRead reader.inner reader.remainingMut = result at returns
  obtain ⟨answer, inner⟩ := result
  cases answer with
  | ready bytes =>
    refine .ready List.length_append fun zero => ?_
    rw [List.eq_nil_of_length_eq_zero zero]
  | pending => exact .pending rfl
  | error error => exact .error rfl
  | panic => exact absurd rfl returns

/-- Making room and reading once. -/
theorem pollForceInternal_attempted (reader : BytesReader S) :
    Attempted reader (ReadsNothing reader) reader.pollForceInternal := by
  unfold pollForceInternal
  split
  · rename_i needed
    rw [ReadsNothing, show roomy reader = reader.grow reader.reservedBufSize from if_pos needed]
    have same := congrArg List.length (grow_buffer reader reader.reservedBufSize)
    unfold reserve
    dsimp only
    by_cases refused : (reader.grow reader.reservedBufSize).capacity >
        (reader.grow reader.reservedBufSize).maxBufSize
    · rw [if_pos refused]
      exact .error same
    · rw [if_neg refused]
      have attempted := readMore_attempted (reader.grow reader.reservedBufSize)
      rw [grow_inner] at attempted
      dsimp only
      generalize (reader.grow reader.reservedBufSize).readMore = result at attempted
      cases attempted with
      | ready grown none => exact .ready (by omega) none
      | pending same' => exact .pending (same'.trans same)
      | error same' => exact .error (same'.trans same)
  · rename_i enough
    rw [ReadsNothing, show roomy reader = reader from if_neg enough]
    exact readMore_attempted reader

variable (S) in
/-- A `BytesReader` shows its filled part. It is at its end when that is empty and a read gives nothing. -/
def bytesMeter : Meter (SharedReader S) where
  Sound _ := True
  shown this := this.reader.buffer.length
  Returns _ := True
  Ended this := this.reader.buffer = [] ∧ ReadsNothing this.lent
  Clear _ := True

/-- Filling reads when nothing is visible. -/
theorem pollFill_answers (this : SharedReader S) :
    (bytesMeter S).Answers this True (fun length => length = 0 → (bytesMeter S).Ended this)
      (pollFillBuf this) := by
  change (bytesMeter S).Answers this True _ (this.lent.pollFill.map id this.later)
  unfold pollFill
  split
  · rename_i used
    have none : (bytesMeter S).shown this = 0 := congrArg List.length used
    have attempted := pollForceInternal_attempted this.lent
    generalize this.lent.pollForceInternal = result at attempted
    cases attempted with
    | ready grown nothing =>
      refine .ready trivial rfl (by omega) fun zero => ⟨used, nothing ?_⟩
      omega
    | pending same => exact .pending trivial (Nat.le_of_eq same.symm)
    | error same => exact .error trivial (Nat.le_of_eq same.symm)
  · rename_i some
    exact .ready trivial rfl (Nat.le_refl _) fun zero => absurd (List.eq_nil_of_length_eq_zero zero) some

/-- A forced read that adds nothing is an error. -/
theorem pollForce_answers (this : SharedReader S) :
    (bytesMeter S).Answers this True (fun length => True → this.reader.buffer.length < length)
      (pollForceFillBuf this) := by
  change (bytesMeter S).Answers this True _ (this.lent.pollForce.map id this.later)
  unfold pollForce
  have attempted := pollForceInternal_attempted this.lent
  generalize this.lent.pollForceInternal = result at attempted
  cases attempted with
  | @ready next count grown =>
    have before : (bytesMeter S).shown this = this.lent.buffer.length := rfl
    have grown : next.buffer.length = this.reader.buffer.length + count := grown
    dsimp only
    split
    · refine .error trivial ?_
      change this.reader.buffer.length ≤ next.buffer.length
      omega
    · rename_i positive
      refine .ready trivial rfl ?_ fun _ => ?_
      · change this.reader.buffer.length ≤ next.buffer.length
        omega
      · omega
  | pending same => exact .pending trivial (Nat.le_of_eq same.symm)
  | error same => exact .error trivial (Nat.le_of_eq same.symm)

/-- What is consumed is visible no more. -/
theorem advance_takes {this next : SharedReader S} {amt : Nat} (took : consume this amt = some next) :
    this.reader.buffer.length ≤ next.reader.buffer.length + amt := by
  obtain ⟨reader, taken, rfl⟩ := Option.map_eq_some_iff.mp took
  unfold advance at taken
  split at taken
  · cases taken
  · cases taken
    rw [List.length_drop]
    omega

instance : Metered (SharedReader S) where
  meter := bytesMeter S
  fills _ := pollFill_answers _
  forces _ := pollForce_answers _
  reads room _ := Meter.pollRead_reads room (pollFill_answers _) fun _ took =>
    ⟨trivial, advance_takes took⟩
  takes _ took := ⟨trivial, advance_takes took⟩
  prepares := by
    intro this next additional _ made
    obtain ⟨reader, prepared, rfl⟩ := Option.map_eq_some_iff.mp made
    refine ⟨trivial, ?_⟩
    change this.reader.buffer.length ≤ reader.buffer.length
    have prepares := prepareBuf_prepares this.lent additional
    rw [prepared] at prepares
    cases prepares with
    | same => exact Nat.le_refl _
    | grown more fits =>
      rw [grow_buffer]
      exact Nat.le_refl _

end SharedReader

/-! ## `Cursor<Bytes>` -/

/-- `Cursor<Bytes>`. -/
structure Cursor where
  /-- The bytes. -/
  data : Bytes
  /-- `position`. -/
  position : Nat
  /-- How long a loop over the reader is followed. -/
  rounds : Nat
  deriving DecidableEq, Repr

namespace Cursor

/-- The error of a cursor that is forced. -/
def noForce : IoError := ⟨.unexpectedEof, "bytes can't be force filled"⟩

/-- `poll_fill_buf`: everything behind the position; `Buf::advance` panics behind the end. -/
def pollFill (reader : Cursor) : Poll Bytes × Cursor :=
  if reader.data.length < reader.position then (.panic, reader)
  else (.ready (reader.data.drop reader.position), reader)

instance : AsyncBytesRead Cursor where
  pollFillBuf := pollFill
  consume reader amt := some { reader with position := reader.position + amt }
  budget := rounds
  pollForceFillBuf reader := (.error noForce, reader)

/-- `poll_read`. -/
def readSlice (reader : Cursor) (room : Nat) : Poll Bytes × Cursor :=
  let read := (reader.data.drop reader.position).take room
  (.ready read, { reader with position := reader.position + read.length })

instance : BytesAdapter Cursor where
  pollReadInto := readSlice
  prepareFor reader _ := some reader

/-- A cursor shows what is behind its position. -/
def cursorMeter : Meter Cursor where
  Sound _ := True
  shown reader := reader.data.length - reader.position
  Returns reader := reader.position ≤ reader.data.length
  Ended reader := reader.data.length ≤ reader.position
  Clear _ := True

instance : Metered Cursor where
  meter := cursorMeter
  fills := by
    intro reader _
    change cursorMeter.Answers _ _ _ reader.pollFill
    unfold pollFill
    split
    · rename_i behind
      exact .panic (Nat.not_le.mpr behind)
    · refine .ready trivial List.length_drop (Nat.le_of_eq List.length_drop.symm) fun zero => ?_
      rw [List.length_drop] at zero
      exact Nat.sub_eq_zero_iff_le.mp zero
  forces _ := .error trivial (Nat.le_refl _)
  reads room _ := .ready trivial (List.length_take_le _ _)
  takes := by
    intro reader next amt _ took
    cases took
    refine ⟨trivial, ?_⟩
    change reader.data.length - reader.position ≤ reader.data.length - (reader.position + amt) + amt
    omega
  prepares _ made := by
    cases made
    exact ⟨trivial, Nat.le_refl _⟩

end Cursor

end Harmonia.Forcing
