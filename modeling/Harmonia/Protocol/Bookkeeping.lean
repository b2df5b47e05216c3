import Harmonia.Io.Honest
import Harmonia.Protocol.Display

/-!
# Writers over writers that fail

The buffered writer and the framed writer over a writer that may fail but keeps its books: until it fails, they
keep theirs. So when a shutdown is done after all, the writer below has taken a whole body.
-/

namespace Harmonia.Protocol

open Library

/-- The allocator. -/
class Allocation where
  /-- What every allocation has to spare. -/
  spare : Spare

export Allocation (spare)

variable {W : Type} [AsyncWrite W]

/-! ## The buffered writer -/

namespace NixWriter

instance [Allocation] : AsyncWrite (NixWriter W) where
  pollWrite this buf := this.pollWriteData spare buf
  pollFlush this := this.pollFlushAll spare
  written := sent

/-- The writer below keeps its books, and the buffer is within its capacity. -/
structure Books (honesty : Honesty W) (this : NixWriter W) : Prop where
  /-- The writer below is honest. -/
  honest : honesty.Honest this.inner
  /-- The buffer is within its capacity. -/
  within : this.buf.length ≤ this.capacity

/-- What a flush of the buffer does: nothing is lost unless it fails. -/
inductive Clears (honesty : Honesty W) (this : NixWriter W) : Poll Unit × NixWriter W → Prop
  | ready {next : NixWriter W} (books : next.Books honesty) (same : next.sent = this.sent) (empty : next.buf = []) :
    Clears honesty this (.ready (), next)
  | pending {next : NixWriter W} (books : next.Books honesty) (same : next.sent = this.sent) :
    Clears honesty this (.pending, next)
  | error {next : NixWriter W} {error : IoError} : Clears honesty this (.error error, next)

/-- A flush goes on where a turn has left it. -/
theorem Clears.of_next {honesty : Honesty W} {this next : NixWriter W} {result : Poll Unit × NixWriter W}
    (same : next.sent = this.sent) (later : Clears honesty next result) : Clears honesty this result := by
  cases later with
  | ready books same' empty => exact .ready books (same'.trans same) empty
  | pending books same' => exact .pending books (same'.trans same)
  | error => exact .error

/-- The loop of `poll_flush_buf`. -/
theorem writeBuf_clears {honesty : Honesty W} (turns : Nat) {this : NixWriter W} (books : this.Books honesty)
    (enough : this.buf.length ≤ turns) : Clears honesty this (this.writeBuf turns) := by
  induction turns generalizing this with
  | zero => exact .ready books rfl (List.eq_nil_of_length_eq_zero (Nat.le_zero.mp enough))
  | succ turns ih =>
    rw [writeBuf]
    by_cases none : this.buf = []
    · rw [if_pos none]
      exact .ready books rfl none
    · rw [if_neg none]
      have booked := honesty.wrote books.honest none
      generalize pollWrite this.inner this.buf = result at booked
      cases booked with
      | @ready inner count within taken honest =>
        dsimp only
        by_cases zero : count = 0
        · rw [if_pos zero]
          exact .error
        · rw [if_neg zero, if_neg (Nat.not_lt_of_le within)]
          have length : (this.buf.drop count).length = this.buf.length - count := List.length_drop
          have fits := books.within
          refine .of_next ?_ (ih ⟨honest, ?_⟩ ?_)
          · show written inner ++ this.buf.drop count = this.sent
            rw [taken, List.append_assoc, List.take_append_drop]
            rfl
          · show (this.buf.drop count).length ≤ this.capacity - count
            omega
          · show (this.buf.drop count).length ≤ turns
            omega
      | @pending inner same honest =>
        refine .pending ⟨honest, books.within⟩ ?_
        show written inner ++ this.buf = _
        rw [same]
        rfl
      | error => exact .error

/-- `poll_flush_buf`. -/
theorem pollFlushBuf_clears {honesty : Honesty W} (spare : Spare) {this : NixWriter W}
    (books : this.Books honesty) : Clears honesty this (this.pollFlushBuf spare) := by
  have clears := writeBuf_clears this.buf.length books (Nat.le_refl _)
  unfold pollFlushBuf
  generalize this.writeBuf this.buf.length = result at clears
  cases clears with
  | @ready next books same empty =>
    dsimp only
    split
    case isTrue less =>
      refine .ready ⟨books.honest, ?_⟩ same empty
      show next.buf.length ≤ _
      rw [empty]
      exact Nat.zero_le _
    case isFalse => exact .ready books same empty
  | pending books same => exact .pending books same
  | error => exact .error

/-- `poll_flush`. -/
theorem pollFlushAll_clears {honesty : Honesty W} (spare : Spare) {this : NixWriter W}
    (books : this.Books honesty) : Clears honesty this (this.pollFlushAll spare) := by
  have clears := pollFlushBuf_clears spare books
  unfold pollFlushAll
  generalize this.pollFlushBuf spare = result at clears
  cases clears with
  | @ready next books same empty =>
    have emptied := honesty.flushed books.honest
    have still (inner : W) (taken : written inner = written next.inner) :
        sent { next with inner := inner } = this.sent := by
      show written inner ++ next.buf = _
      rw [taken]
      exact same
    dsimp only [settleInner]
    generalize pollFlush next.inner = below at emptied
    cases emptied with
    | ready taken honest => exact .ready ⟨honest, books.within⟩ (still _ taken) empty
    | pending taken honest => exact .pending ⟨honest, books.within⟩ (still _ taken)
    | error => exact .error
  | pending books same => exact .pending books same
  | error => exact .error

variable [Allocation]

/-- The end of `poll_write`, with room for the slice or nothing before it. -/
theorem put_booked {honesty : Honesty W} {this : NixWriter W} (books : this.Books honesty) {buf : Bytes}
    (some : buf ≠ []) (free : buf.length ≤ this.remainingMut ∨ this.buf = []) :
    Booked (Books honesty) this buf (this.put buf) := by
  have within := books.within
  unfold put
  by_cases large : this.capacity < buf.length
  · have empty : this.buf = [] := by
      rcases free with room | empty
      · unfold remainingMut at room
        omega
      · exact empty
    have booked := honesty.wrote books.honest some
    have flat (inner : W) : written ({ this with inner := inner } : NixWriter W) = written inner := by
      show written inner ++ this.buf = _
      rw [empty, List.append_nil]
    have before : written this = written this.inner := flat this.inner
    rw [if_pos large]
    generalize pollWrite this.inner buf = result at booked
    cases booked with
    | ready fits taken honest =>
      refine .ready fits ?_ ⟨honest, within⟩
      rw [flat, before, taken]
    | pending same honest =>
      refine .pending ?_ ⟨honest, within⟩
      rw [flat, before, same]
    | error => exact .error
  · rw [if_neg large]
    have room : this.buf.length + buf.length ≤ this.capacity := by
      rcases free with room | empty
      · unfold remainingMut at room
        omega
      · rw [empty, List.length_nil]
        omega
    refine .ready (Nat.le_refl _) ?_ ⟨books.honest, ?_⟩
    · show written this.inner ++ (this.buf ++ buf) = this.sent ++ _
      rw [List.take_length, ← List.append_assoc]
      rfl
    · show (this.buf ++ buf).length ≤ _
      rw [List.length_append]
      exact room

/-- The buffered writer keeps its books. -/
def honesty (below : Honesty W) : Honesty (NixWriter W) where
  Honest := Books below
  wrote {this buf} books some := by
    show Booked _ this buf (this.pollWriteData spare buf)
    unfold pollWriteData
    by_cases tight : this.remainingMut < buf.length
    · rw [if_pos tight]
      have clears := pollFlushBuf_clears spare books
      generalize this.pollFlushBuf spare = result at clears
      cases clears with
      | @ready next books same empty =>
        have booked := put_booked books some (.inr empty)
        dsimp only
        generalize next.put buf = result at booked
        cases booked with
        | ready within taken honest => exact .ready within (taken.trans (congrArg (· ++ _) same)) honest
        | pending taken honest => exact .pending (taken.trans same) honest
        | error => exact .error
      | pending books same => exact .pending same books
      | error => exact .error
    · rw [if_neg tight]
      exact put_booked books some (.inl (Nat.le_of_not_lt tight))
  flushed {this} books := by
    have clears := pollFlushAll_clears spare books
    show Emptied _ this (this.pollFlushAll spare)
    generalize this.pollFlushAll spare = result at clears
    cases clears with
    | ready books same empty => exact .ready same books
    | pending books same => exact .pending same books
    | error => exact .error

end NixWriter

/-! ## The framed writer -/

/-- A writer and what it has accepted so far. -/
structure Logged (V : Type) where
  /-- The writer. -/
  writer : V
  /-- What it has accepted. -/
  log : Bytes

namespace FramedWriter

section Tamed

variable {honesty : Honesty W}

/-- The framed writer over the tamed writer. -/
def tame (honesty : Honesty W) (this : FramedWriter W) : FramedWriter (Tame honesty) :=
  ⟨⟨this.inner⟩, this.flushing, this.shutdown, this.buf, this.capacity⟩

/-- The writer below keeps its books. -/
def Honest (honesty : Honesty W) (this : FramedWriter W) : Prop := honesty.Honest this.inner

/-- Something is done as it is over the tamed writer, unless it fails. -/
abbrev Tamely {α : Type} (honesty : Honesty W) : Poll α × FramedWriter W → Poll α × FramedWriter (Tame honesty) → Prop :=
  Follows (tame honesty) (Honest honesty)

/-- The loop over the buffer. -/
theorem writeBuf_tame (turns : Nat) {this : FramedWriter W} (honest : this.Honest honesty) :
    Tamely honesty (this.writeBuf turns) ((this.tame honesty).writeBuf turns) := by
  induction turns generalizing this with
  | zero => exact .same honest
  | succ turns ih =>
    rw [writeBuf, writeBuf]
    by_cases none : this.buf = []
    · rw [if_pos none, if_pos (show (this.tame honesty).buf = [] from none)]
      exact .same honest
    · rw [if_neg none, if_neg (show ¬(this.tame honesty).buf = [] from none)]
      have booked := honesty.wrote honest none
      have tamed : pollWrite (this.tame honesty).inner (this.tame honesty).buf =
          Tame.write ⟨this.inner⟩ this.buf := rfl
      rw [tamed, Tame.write]
      dsimp only
      generalize pollWrite this.inner this.buf = result at booked
      cases booked with
      | @ready inner count within taken honest =>
        dsimp only
        by_cases zero : count = 0
        · rw [if_pos zero]
          exact .error
        · have size : ¬(this.tame honesty).buf.length < count := Nat.not_lt_of_le within
          rw [if_neg zero, if_neg zero]
          dsimp only
          rw [if_neg zero, if_neg (Nat.not_lt_of_le within), if_neg size]
          exact ih honest
      | @pending inner same honest =>
        exact @Follows.same _ _ _ (tame honesty) _ .pending { this with inner := inner } honest
      | error => exact .error

/-- Over the writer and over the tamed one a frame begins alike. -/
theorem startFlush_tame (this : FramedWriter W) :
    (this.tame honesty).startFlush = this.startFlush.tame honesty := by
  unfold startFlush
  show (if this.flushing = false ∧ 8 < this.buf.length then _ else _) = _
  split
  · rfl
  · rfl

/-- `poll_flush_buf`. -/
theorem pollFlushBuf_tame (spare : Spare) {this : FramedWriter W} (honest : this.Honest honesty) :
    Tamely honesty (this.pollFlushBuf spare) ((this.tame honesty).pollFlushBuf spare) := by
  have begun : this.startFlush.Honest honesty := by
    unfold startFlush
    split
    · exact honest
    · exact honest
  rw [pollFlushBuf, pollFlushBuf, startFlush_tame]
  show Follows _ _ (if this.startFlush.flushing then _ else _) (if this.startFlush.flushing then _ else _)
  split
  case isTrue =>
    have wrote := writeBuf_tame this.startFlush.buf.length begun
    rw [show (this.startFlush.tame honesty).buf = this.startFlush.buf from rfl]
    generalize this.startFlush.writeBuf this.startFlush.buf.length = result at wrote
    generalize (this.startFlush.tame honesty).writeBuf this.startFlush.buf.length = result' at wrote
    cases wrote with
    | @same answer next kept =>
      cases answer with
      | ready value =>
        exact @Follows.same _ _ _ (tame honesty) _ _ { next with
          buf := toLeBytes 0, flushing := false
          capacity := reserved (spare (written next.inner).length) next.capacity 0 reservedBufSize } kept
      | pending => exact .same kept
      | error error => exact .same kept
      | panic => exact .same kept
    | error => exact .error
  case isFalse =>
    exact @Follows.same _ _ _ (tame honesty) _ _ { this.startFlush with
      capacity := reserved (spare (written this.startFlush.inner).length) this.startFlush.capacity
        this.startFlush.buf.length reservedBufSize } begun

/-- The end of `poll_write`. -/
theorem gather_tame {this : FramedWriter W} (honest : this.Honest honesty) (data : Bytes) :
    Tamely honesty (this.gather data) ((this.tame honesty).gather data) :=
  @Follows.same _ _ _ (tame honesty) _ _ { this with
    buf := this.buf ++ data.take (min data.length this.remainingMut) } honest

/-- `poll_write`. -/
theorem pollWriteData_tame (spare : Spare) {this : FramedWriter W} (honest : this.Honest honesty)
    (data : Bytes) : Tamely honesty (this.pollWriteData spare data) ((this.tame honesty).pollWriteData spare data) := by
  have flushed := pollFlushBuf_tame spare honest
  rw [pollWriteData, pollWriteData]
  show Follows _ _ (if this.remainingMut = 0 ∨ this.flushing = true then _ else _)
    (if this.remainingMut = 0 ∨ this.flushing = true then _ else _)
  split
  case isTrue =>
    generalize this.pollFlushBuf spare = result at flushed
    generalize (this.tame honesty).pollFlushBuf spare = result' at flushed
    cases flushed with
    | @same answer next kept =>
      cases answer with
      | ready value => exact gather_tame kept data
      | pending => exact .same kept
      | error error => exact .same kept
      | panic => exact .same kept
    | error => exact .error
  case isFalse => exact gather_tame honest data

/-- `poll_flush` of the writer below. -/
theorem flushInner_tame {this : FramedWriter W} (honest : this.Honest honesty) :
    Tamely honesty this.flushInner (this.tame honesty).flushInner := by
  have emptied := honesty.flushed honest
  have tamed : pollFlush (this.tame honesty).inner = Tame.flush ⟨this.inner⟩ := rfl
  rw [flushInner, flushInner, tamed, Tame.flush]
  dsimp only
  generalize pollFlush this.inner = result at emptied
  cases emptied with
  | @ready inner same honest =>
    exact @Follows.same _ _ _ (tame honesty) _ (.ready ()) { this with inner := inner } honest
  | @pending inner same honest =>
    exact @Follows.same _ _ _ (tame honesty) _ .pending { this with inner := inner } honest
  | error => exact .error

/-- `poll_flush`. -/
theorem pollFlushAll_tame (spare : Spare) {this : FramedWriter W} (honest : this.Honest honesty) :
    Tamely honesty (this.pollFlushAll spare) ((this.tame honesty).pollFlushAll spare) := by
  have flushed := pollFlushBuf_tame spare honest
  rw [pollFlushAll, pollFlushAll]
  generalize this.pollFlushBuf spare = result at flushed
  generalize (this.tame honesty).pollFlushBuf spare = result' at flushed
  cases flushed with
  | @same answer next kept =>
    cases answer with
    | ready value => exact flushInner_tame kept
    | pending => exact .same kept
    | error error => exact .same kept
    | panic => exact .same kept
  | error => exact .error

/-- `poll_shutdown`. -/
theorem pollShutdown_tame (spare : Spare) {this : FramedWriter W} (honest : this.Honest honesty) :
    Tamely honesty (this.pollShutdown spare) ((this.tame honesty).pollShutdown spare) := by
  have flushed := pollFlushBuf_tame spare honest
  rw [pollShutdown, pollShutdown]
  generalize this.pollFlushBuf spare = result at flushed
  generalize (this.tame honesty).pollFlushBuf spare = result' at flushed
  cases flushed with
  | @same answer next kept =>
    have shut (next : FramedWriter W) (kept : next.Honest honesty) :
        Tamely honesty (flushInner { next with shutdown := true })
          (flushInner { next.tame honesty with shutdown := true }) :=
      @flushInner_tame _ _ _ { next with shutdown := true } kept
    cases answer with
    | ready value =>
      show Follows _ _ (if next.shutdown then _ else _) (if next.shutdown then _ else _)
      split
      case isTrue => exact shut next kept
      case isFalse =>
        have wrote := writeBuf_tame next.buf.length kept
        rw [show (next.tame honesty).buf = next.buf from rfl]
        generalize next.writeBuf next.buf.length = result at wrote
        generalize (next.tame honesty).writeBuf next.buf.length = result' at wrote
        cases wrote with
        | @same answer next kept =>
          cases answer with
          | ready value => exact shut next kept
          | pending => exact .same kept
          | error error => exact .same kept
          | panic => exact .same kept
        | error => exact .error
    | pending => exact .same kept
    | error error => exact .same kept
    | panic => exact .same kept
  | error => exact .error

end Tamed

section Steady

variable [SteadyWrite W]

omit [AsyncWrite W] [SteadyWrite W] in
/-- A buffer without a frame is not flushed. -/
theorem startFlush_short {this : FramedWriter W} (few : this.buf.length ≤ 8) : this.startFlush = this :=
  if_neg fun more => Nat.not_lt.mpr few more.2

/-- Whatever `poll_flush` answers, the writer still stands for what it has accepted, also while it is being
shut down. -/
theorem Closes.flushed (spare : Spare) {start accepted : Bytes} {this : FramedWriter W}
    (closes : Closes start accepted this) :
    ∃ result next, this.pollFlushAll spare = (result, next) ∧ (result = .ready () ∨ result = .pending) ∧
      Closes start accepted next := by
  -- Nothing is left to be flushed but the writer below.
  have settled {inner : W} {shutdown : Bool} {buf : Bytes} {capacity : Nat} (steady : Steady inner)
      (few : buf.length ≤ 8)
      (stands : ∀ (next : W) (room : Nat), written next = written inner → Steady next →
        Closes start accepted ⟨next, false, shutdown, buf, room⟩) :
      ∃ result next, pollFlushAll spare ⟨inner, false, shutdown, buf, capacity⟩ = (result, next) ∧
        (result = .ready () ∨ result = .pending) ∧ Closes start accepted next := by
    have flushed := SteadyWrite.flushed steady
    cases answer : pollFlush inner with
    | mk result next =>
      have polled : pollFlushAll spare ⟨inner, false, shutdown, buf, capacity⟩ =
          (result, ⟨next, false, shutdown, buf,
            reserved (spare (written inner).length) capacity buf.length reservedBufSize⟩) := by
        rw [pollFlushAll, pollFlushBuf, startFlush_short few, if_neg Bool.false_ne_true]
        simp only [flushInner, answer]
      rw [answer] at flushed
      cases flushed with
      | ready same steady => exact ⟨_, _, polled, .inl rfl, stands _ _ same steady⟩
      | pending same steady => exact ⟨_, _, polled, .inr rfl, stands _ _ same steady⟩
  cases closes with
  | accepts accepts =>
    obtain ⟨result, next, polled, answer, accepts⟩ := accepts.flushed spare
    exact ⟨result, next, polled, answer, .accepts accepts⟩
  | closing steady few sent holds =>
    apply settled steady few
    intro next room same steady
    exact .closing steady few (same.symm ▸ sent) holds
  | closed steady sent holds =>
    apply settled steady (Nat.zero_le _)
    intro next room same steady
    exact .closed steady (same.trans sent) holds

/-- The writer below is steady. -/
theorem Closes.steady {start accepted : Bytes} {this : FramedWriter W} (closes : Closes start accepted this) :
    Steady this.inner := by
  cases closes with
  | accepts accepts =>
    cases accepts with
    | gathering steady => exact steady
    | flushing steady => exact steady
  | closing steady => exact steady
  | closed steady => exact steady

end Steady

end FramedWriter

namespace Logged

variable [Allocation]

/-- `poll_write`, with the log. -/
def write (this : Logged (FramedWriter W)) (buf : Bytes) : Poll Nat × Logged (FramedWriter W) :=
  match this.writer.pollWriteData spare buf with
  | (.ready count, writer) => (.ready count, ⟨writer, this.log ++ buf.take count⟩)
  | (.pending, writer) => (.pending, { this with writer := writer })
  | (.error error, writer) => (.error error, { this with writer := writer })
  | (.panic, writer) => (.panic, { this with writer := writer })

/-- Anything else, which leaves the log. -/
def keep (this : Logged (FramedWriter W)) (result : Poll Unit × FramedWriter W) :
    Poll Unit × Logged (FramedWriter W) := (result.1, { this with writer := result.2 })

instance : AsyncWrite (Logged (FramedWriter W)) where
  pollWrite := write
  pollFlush this := this.keep (this.writer.pollFlushAll spare)
  written := log

/-- `poll_shutdown`. -/
def pollShutdown (this : Logged (FramedWriter W)) : Poll Unit × Logged (FramedWriter W) :=
  this.keep (this.writer.pollShutdown spare)

/-- The writer stands for what it has logged, behind some bytes. -/
def Stands (below : Honesty W) (start : Bytes) (this : Logged (FramedWriter W)) : Prop :=
  FramedWriter.Accepts start this.log (this.writer.tame below)

/-- The same, although a shutdown may have begun. -/
def Closes (below : Honesty W) (start : Bytes) (this : Logged (FramedWriter W)) : Prop :=
  FramedWriter.Closes start this.log (this.writer.tame below)

omit [Allocation] in
/-- The writer below keeps its books. -/
theorem Closes.honest {below : Honesty W} {start : Bytes} {this : Logged (FramedWriter W)}
    (closes : this.Closes below start) : this.writer.Honest below :=
  FramedWriter.Closes.steady (W := Tame below) closes

/-- The framed writer keeps its books. -/
def honesty (below : Honesty W) (start : Bytes) : Honesty (Logged (FramedWriter W)) where
  Honest := Stands below start
  wrote {this buf} stands some := by
    have follows := FramedWriter.pollWriteData_tame spare (Closes.honest (.accepts stands)) buf
    have gathered := FramedWriter.Accepts.gathered spare stands buf
    show Booked _ this buf (this.write buf)
    unfold write
    generalize this.writer.pollWriteData spare buf = result at follows
    generalize (this.writer.tame below).pollWriteData spare buf = result' at follows gathered
    cases follows with
    | same kept =>
      cases gathered with
      | ready within accepts => exact .ready within rfl accepts
      | pending accepts => exact .pending rfl accepts
    | error => exact .error
  flushed {this} stands := by
    have follows := FramedWriter.pollFlushAll_tame spare (Closes.honest (.accepts stands))
    obtain ⟨answer, next, polled, either, accepts⟩ := FramedWriter.Accepts.flushed spare stands
    rw [polled] at follows
    show Emptied _ this (this.keep (this.writer.pollFlushAll spare))
    generalize this.writer.pollFlushAll spare = result at follows
    cases follows with
    | same kept =>
      rcases either with rfl | rfl
      · exact .ready rfl accepts
      · exact .pending rfl accepts
    | error => exact .error

/-- A flush leaves a shutdown where it is. -/
theorem Closes.emptied {below : Honesty W} {start : Bytes} {this : Logged (FramedWriter W)}
    (closes : this.Closes below start) : Emptied (Closes below start) this (pollFlush this) := by
  have follows := FramedWriter.pollFlushAll_tame spare closes.honest
  obtain ⟨answer, next, polled, either, later⟩ := FramedWriter.Closes.flushed spare closes
  rw [polled] at follows
  show Emptied _ this (this.keep (this.writer.pollFlushAll spare))
  generalize this.writer.pollFlushAll spare = result at follows
  cases follows with
  | same kept =>
    rcases either with rfl | rfl
    · exact .ready rfl later
    · exact .pending rfl later
  | error => exact .error

/-- What `poll_shutdown` does. -/
inductive Shuts (below : Honesty W) (start : Bytes) (this : Logged (FramedWriter W)) :
    Poll Unit × Logged (FramedWriter W) → Prop
  | ready {writer : FramedWriter W} {frames : List Frame} (honest : writer.Honest below)
    (sent : written writer.inner = start ++ framed frames) (holds : this.log = contents frames) :
    Shuts below start this (.ready (), { this with writer := writer })
  | pending {writer : FramedWriter W} (closes : Closes below start { this with writer := writer }) :
    Shuts below start this (.pending, { this with writer := writer })
  | error {error : IoError} {next : Logged (FramedWriter W)} : Shuts below start this (.error error, next)

/-- `poll_shutdown` completes the body, unless it fails. -/
theorem Closes.shuts {below : Honesty W} {start : Bytes} {this : Logged (FramedWriter W)}
    (closes : this.Closes below start) : Shuts below start this this.pollShutdown := by
  have follows := FramedWriter.pollShutdown_tame spare closes.honest
  have shut := FramedWriter.Closes.shut spare closes
  rw [pollShutdown]
  generalize this.writer.pollShutdown spare = result at follows
  generalize (this.writer.tame below).pollShutdown spare = result' at follows shut
  cases follows with
  | same kept =>
    cases shut with
    | ready sent holds => exact .ready kept sent holds
    | pending closes waits => exact .pending closes
  | error => exact .error

end Logged

/-- With an empty buffer, `poll_flush` is that of the writer below. -/
theorem NixWriter.pollFlushAll_empty (spare : Spare) {this : NixWriter W} (empty : this.buf = []) :
    ∃ capacity, this.pollFlushAll spare =
      ((pollFlush this.inner).1, { this with inner := (pollFlush this.inner).2, capacity := capacity }) := by
  have nothing : this.writeBuf this.buf.length = (.ready (), this) := by
    rw [empty]
    rfl
  rw [pollFlushAll, pollFlushBuf, nothing]
  dsimp only
  by_cases less : this.capacity < this.reservedBufSize
  · rw [if_pos less]
    exact ⟨_, rfl⟩
  · rw [if_neg less]
    exact ⟨this.capacity, rfl⟩

end Harmonia.Protocol
