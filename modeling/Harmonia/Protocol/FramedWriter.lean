import Harmonia.Io.Write
import Harmonia.Protocol.Framed

/-!
# Writing framed bodies

`daemon_wire/framed/writer.rs`. The writer gathers bytes behind eight bytes for the length; a flush
puts the length there and offers the frame to the writer below, as often as it takes. However the
frame, its length or the final zero is torn by pending polls, what the writer below has taken when
the shutdown is done is a well-formed body, and a `FramedReader` gives back what was written.
-/

namespace Harmonia.Protocol

open Library

/-- `DEFAULT_BUF_SIZE`. -/
def defaultBufSize : Nat := 32 * 1024

/-- `RESERVED_BUF_SIZE`. -/
def reservedBufSize : Nat := defaultBufSize / 2

/-- What an allocation has beyond the capacity that was asked for, by the capacity and the length before. -/
abbrev Slack := Nat → Nat → Fin (2 ^ 62)

/-- What every allocation of a buffer has to spare. It may depend on all that has happened to the buffer:
between two allocations of the same capacity and length the writer below has taken some bytes, so the count of
those tells them apart. -/
abbrev Spare := Nat → Slack

/-- `BytesMut::reserve`: the capacity of a buffer of so many bytes afterwards. -/
def reserved (slack : Slack) (capacity len additional : Nat) : Nat :=
  if additional ≤ capacity - len then capacity else len + additional + slack capacity len

/-- `FramedWriter`. -/
structure FramedWriter (W : Type) where
  /-- `inner`. -/
  inner : W
  /-- `flushing`. -/
  flushing : Bool
  /-- `shutdown`. -/
  shutdown : Bool
  /-- `buf`. -/
  buf : Bytes
  /-- `buf.capacity()`. -/
  capacity : Nat
  deriving DecidableEq, Repr

namespace FramedWriter

variable {W : Type}

/-- `new`; the allocation may have something to spare. -/
def new (inner : W) (extra : Fin (2 ^ 62)) : FramedWriter W :=
  ⟨inner, false, false, toLeBytes 0, defaultBufSize + extra⟩

/-- The error of a writer that takes nothing. -/
def writeZero : IoError := ⟨.writeZero, "failed to write the buffer"⟩

/-- `remaining_mut`. -/
def remainingMut (this : FramedWriter W) : Nat := this.capacity - this.buf.length

section Polls

variable [AsyncWrite W]

/-- The loop that offers the buffer until it is empty. Every turn takes one byte at least, so there
are no more turns than bytes. -/
def writeBuf : Nat → FramedWriter W → Poll Unit × FramedWriter W
  | 0, this => (.ready (), this)
  | turns + 1, this =>
    if this.buf = [] then (.ready (), this)
    else
      match pollWrite this.inner this.buf with
      | (.ready count, inner) =>
        if count = 0 then (.error writeZero, { this with inner := inner })
        else if this.buf.length < count then (.panic, { this with inner := inner })
        else
          writeBuf turns { this with
            inner := inner, buf := this.buf.drop count, capacity := this.capacity - count }
      | (.pending, inner) => (.pending, { this with inner := inner })
      | (.error error, inner) => (.error error, { this with inner := inner })
      | (.panic, inner) => (.panic, { this with inner := inner })

/-- A frame that is complete gets its length and is being flushed. -/
def startFlush (this : FramedWriter W) : FramedWriter W :=
  if this.flushing = false ∧ 8 < this.buf.length then
    { this with
      buf := toLeBytes (UInt64.ofNat (this.buf.length - 8)) ++ this.buf.drop 8, flushing := true }
  else this

/-- `poll_flush_buf`. -/
def pollFlushBuf (spare : Spare) (this : FramedWriter W) : Poll Unit × FramedWriter W :=
  let this := this.startFlush
  if this.flushing then
    match writeBuf this.buf.length this with
    | (.ready (), this) =>
      (.ready (), { this with
        buf := toLeBytes 0, flushing := false
        capacity := reserved (spare (written this.inner).length) this.capacity 0 reservedBufSize })
    | result => result
  else
    (.ready (), { this with
      capacity :=
        reserved (spare (written this.inner).length) this.capacity this.buf.length reservedBufSize })

/-- The end of `poll_write`: as much as there is room for. -/
def gather (this : FramedWriter W) (data : Bytes) : Poll Nat × FramedWriter W :=
  let write := min data.length this.remainingMut
  (.ready write, { this with buf := this.buf ++ data.take write })

/-- `poll_write`. -/
def pollWriteData (spare : Spare) (this : FramedWriter W) (data : Bytes) : Poll Nat × FramedWriter W :=
  if this.remainingMut = 0 ∨ this.flushing then
    match this.pollFlushBuf spare with
    | (.ready (), this) => this.gather data
    | (.pending, this) => (.pending, this)
    | (.error error, this) => (.error error, this)
    | (.panic, this) => (.panic, this)
  else this.gather data

/-- `poll_flush` of the writer below. -/
def flushInner (this : FramedWriter W) : Poll Unit × FramedWriter W :=
  match pollFlush this.inner with
  | (result, inner) => (result, { this with inner := inner })

/-- `poll_flush`. -/
def pollFlushAll (spare : Spare) (this : FramedWriter W) : Poll Unit × FramedWriter W :=
  match this.pollFlushBuf spare with
  | (.ready (), this) => this.flushInner
  | result => result

/-- `poll_shutdown`. -/
def pollShutdown (spare : Spare) (this : FramedWriter W) : Poll Unit × FramedWriter W :=
  match this.pollFlushBuf spare with
  | (.ready (), this) =>
    if this.shutdown then flushInner { this with shutdown := true }
    else
      match writeBuf this.buf.length this with
      | (.ready (), this) => flushInner { this with shutdown := true }
      | result => result
  | result => result

end Polls

/-! ## What a writer stands for -/

variable [AsyncWrite W] [SteadyWrite W]

/-- A writer that has not begun to shut down, behind some bytes the writer below had taken before:
what it has accepted is in frames that were sent or are being sent, and in its buffer. -/
inductive Accepts (start accepted : Bytes) : FramedWriter W → Prop
  | gathering {frames : List Frame} {data : Bytes} {inner : W} {capacity : Nat} (steady : Steady inner)
    (sent : written inner = start ++ frames.flatMap Frame.encode)
    (holds : accepted = contents frames ++ data) (room : 8 + data.length ≤ capacity)
    (small : capacity < 2 ^ 63) :
    Accepts start accepted ⟨inner, false, false, toLeBytes 0 ++ data, capacity⟩
  | flushing {frames : List Frame} {inner : W} {buf : Bytes} {capacity : Nat} (steady : Steady inner)
    (sent : written inner ++ buf = start ++ frames.flatMap Frame.encode)
    (holds : accepted = contents frames) (room : buf.length ≤ capacity) (small : capacity < 2 ^ 63) :
    Accepts start accepted ⟨inner, true, false, buf, capacity⟩

/-- A new writer has accepted nothing. -/
theorem Accepts.new {inner : W} (steady : Steady inner) (extra : Fin (2 ^ 62)) :
    Accepts (written inner) [] (.new inner extra) := by
  have bound := extra.isLt
  have size : defaultBufSize = 32768 := by decide
  have accepts := @Accepts.gathering W _ _ (written inner) [] [] [] inner (defaultBufSize + extra) steady
    (List.append_nil _).symm rfl (show 8 + 0 ≤ _ by omega) (by omega)
  rw [List.append_nil] at accepts
  exact accepts

/-- A writer that is being shut down: what is left in its buffer completes the body. -/
inductive Closes (start accepted : Bytes) : FramedWriter W → Prop
  | accepts {this : FramedWriter W} (accepts : Accepts start accepted this) : Closes start accepted this
  | closing {frames : List Frame} {inner : W} {buf : Bytes} {capacity : Nat} (steady : Steady inner)
    (few : buf.length ≤ 8) (sent : written inner ++ buf = start ++ framed frames)
    (holds : accepted = contents frames) :
    Closes start accepted ⟨inner, false, false, buf, capacity⟩
  | closed {frames : List Frame} {inner : W} {capacity : Nat} (steady : Steady inner)
    (sent : written inner = start ++ framed frames) (holds : accepted = contents frames) :
    Closes start accepted ⟨inner, false, true, [], capacity⟩

/-- What the loop over the buffer does, when the buffer completes some bytes. -/
inductive Offered (whole : Bytes) (this : FramedWriter W) : Poll Unit × FramedWriter W → Prop
  | ready {inner : W} {capacity : Nat} (steady : Steady inner) (sent : written inner = whole)
    (room : capacity ≤ this.capacity)
    (waits : ∀ patience : Patience W, patience.left inner ≤ patience.left this.inner) :
    Offered whole this (.ready (), { this with inner := inner, buf := [], capacity := capacity })
  | pending {inner : W} {buf : Bytes} {capacity : Nat} (steady : Steady inner)
    (sent : written inner ++ buf = whole) (room : buf.length ≤ capacity) (less : capacity ≤ this.capacity)
    (shorter : buf.length ≤ this.buf.length)
    (waits : ∀ patience : Patience W, patience.left inner < patience.left this.inner) :
    Offered whole this (.pending, { this with inner := inner, buf := buf, capacity := capacity })

/-- The loop over the buffer sends it in order. -/
theorem writeBuf_offered {whole : Bytes} {this : FramedWriter W} (turns : Nat) (steady : Steady this.inner)
    (sent : written this.inner ++ this.buf = whole) (room : this.buf.length ≤ this.capacity)
    (enough : this.buf.length ≤ turns) : Offered whole this (this.writeBuf turns) := by
  have waits (patience : Patience W) : patience.left this.inner ≤ patience.left this.inner := Nat.le_refl _
  obtain ⟨inner, flushing, shutdown, buf, capacity⟩ := this
  induction turns generalizing inner buf capacity with
  | zero =>
    have none : buf = [] := List.eq_nil_of_length_eq_zero (Nat.le_zero.mp enough)
    subst none
    exact .ready steady ((List.append_nil _).symm.trans sent) (Nat.le_refl _) waits
  | succ turns ih =>
    unfold writeBuf
    split
    case isTrue none =>
      change buf = [] at none
      subst none
      exact .ready steady ((List.append_nil _).symm.trans sent) (Nat.le_refl _) waits
    case isFalse some =>
      change buf ≠ [] at some
      have wrote := SteadyWrite.wrote steady some
      simp only
      cases answer : pollWrite inner buf with
      | mk result next =>
        rw [answer] at wrote
        cases wrote with
        | @ready _ count positive within taken steady' =>
          have whole' : written next ++ buf.drop count = whole := by
            rw [taken, List.append_assoc, List.take_append_drop, sent]
          have size : (buf.drop count).length = buf.length - count := List.length_drop
          change buf.length ≤ capacity at room
          change buf.length ≤ turns + 1 at enough
          have later := ih next (buf.drop count) (capacity - count) steady' whole'
            (show (buf.drop count).length ≤ capacity - count by omega)
            (show (buf.drop count).length ≤ turns by omega) (fun _ => Nat.le_refl _)
          simp only [if_neg (Nat.pos_iff_ne_zero.mp positive), if_neg (Nat.not_lt.mpr within)]
          have spent (patience : Patience W) : patience.left next ≤ patience.left inner :=
            patience.write_ready steady some answer
          generalize @writeBuf W _ turns _ = result at later
          cases later with
          | ready steady sent room waits =>
            exact .ready steady sent (Nat.le_trans room (Nat.sub_le _ _)) fun patience =>
              Nat.le_trans (waits patience) (spent patience)
          | pending steady sent room less shorter waits =>
            refine .pending steady sent room (Nat.le_trans less (Nat.sub_le _ _)) ?_ fun patience =>
              Nat.lt_of_lt_of_le (waits patience) (spent patience)
            exact Nat.le_trans shorter (size ▸ Nat.sub_le _ _)
        | pending same steady' =>
          refine .pending steady' (same.symm ▸ sent) room (Nat.le_refl _) (Nat.le_refl _) ?_
          intro patience
          exact patience.write_pending steady some answer

/-- What `poll_flush_buf` does before a shutdown. -/
inductive BufFlushed (start accepted : Bytes) (this : FramedWriter W) : Poll Unit × FramedWriter W → Prop
  | ready {frames : List Frame} {inner : W} {capacity : Nat} (steady : Steady inner)
    (sent : written inner = start ++ frames.flatMap Frame.encode) (holds : accepted = contents frames)
    (room : 8 ≤ capacity) (small : capacity < 2 ^ 63)
    (waits : ∀ patience : Patience W, patience.left inner ≤ patience.left this.inner) :
    BufFlushed start accepted this (.ready (), ⟨inner, false, false, toLeBytes 0, capacity⟩)
  | pending {next : FramedWriter W} (accepts : Accepts start accepted next)
    (waits : ∀ patience : Patience W, patience.left next.inner < patience.left this.inner) :
    BufFlushed start accepted this (.pending, next)

omit [SteadyWrite W] in
/-- A buffer has room for a length after it was reserved. -/
theorem reserved_room (slack : Slack) {capacity len : Nat} (few : len ≤ 8) (small : capacity < 2 ^ 63) :
    8 ≤ reserved slack capacity len reservedBufSize ∧ reserved slack capacity len reservedBufSize < 2 ^ 63 := by
  have size : reservedBufSize = 16384 := by decide
  have bound := (slack capacity len).isLt
  unfold reserved
  split
  · constructor <;> omega
  · constructor <;> omega

/-- `poll_flush_buf` with a frame that is being flushed. -/
theorem flushing_bufFlushed (spare : Spare) {start accepted buf : Bytes} {frames : List Frame} {inner : W}
    {capacity : Nat} (steady : Steady inner)
    (sent : written inner ++ buf = start ++ frames.flatMap Frame.encode)
    (holds : accepted = contents frames) (room : buf.length ≤ capacity) (small : capacity < 2 ^ 63) :
    BufFlushed start accepted ⟨inner, true, false, buf, capacity⟩
      (match writeBuf buf.length ⟨inner, true, false, buf, capacity⟩ with
        | (.ready (), this) =>
          (.ready (), { this with
            buf := toLeBytes 0, flushing := false
            capacity := reserved (spare (written this.inner).length) this.capacity 0 reservedBufSize })
        | result => result) := by
  have offered := @writeBuf_offered W _ _ _ ⟨inner, true, false, buf, capacity⟩ buf.length steady sent room
    (Nat.le_refl _)
  generalize @writeBuf W _ buf.length _ = result at offered
  cases offered with
  | @ready next capacity' steady' sent' room' waits =>
    change capacity' ≤ capacity at room'
    obtain ⟨fits, small'⟩ :=
      @reserved_room (spare (written next).length) capacity' 0 (Nat.zero_le _) (by omega)
    exact .ready steady' sent' holds fits small' waits
  | pending steady' sent' room' less shorter waits =>
    exact .pending (.flushing steady' sent' holds room' (Nat.lt_of_le_of_lt less small)) waits

/-- Only the writer below counts for how long a flush may be put off. -/
theorem BufFlushed.of_inner {start accepted : Bytes} {this other : FramedWriter W}
    {result : Poll Unit × FramedWriter W} (flushed : BufFlushed start accepted this result)
    (same : this.inner = other.inner) : BufFlushed start accepted other result := by
  cases flushed with
  | ready steady sent holds room small waits =>
    exact .ready steady sent holds room small (same ▸ waits)
  | pending accepts waits => exact .pending accepts (same ▸ waits)

/-- `poll_flush_buf` before a shutdown. -/
theorem Accepts.bufFlushed (spare : Spare) {start accepted : Bytes} {this : FramedWriter W}
    (accepts : Accepts start accepted this) :
    BufFlushed start accepted this (this.pollFlushBuf spare) := by
  cases accepts with
  | @flushing frames inner buf capacity steady sent holds room small =>
    have same : startFlush (⟨inner, true, false, buf, capacity⟩ : FramedWriter W) =
        ⟨inner, true, false, buf, capacity⟩ := if_neg (by simp)
    rw [pollFlushBuf, same]
    exact flushing_bufFlushed spare steady sent holds room small
  | @gathering frames data inner capacity steady sent holds room small =>
    have word : (toLeBytes 0).length = 8 := toLeBytes_length 0
    by_cases none : data = []
    · subst none
      have same : startFlush (⟨inner, false, false, toLeBytes 0 ++ [], capacity⟩ : FramedWriter W) =
          ⟨inner, false, false, toLeBytes 0, capacity⟩ := by
        rw [startFlush, List.append_nil]
        exact if_neg (by simp [word])
      obtain ⟨fits, small'⟩ :=
        @reserved_room (spare (written inner).length) capacity 8 (Nat.le_refl _) small
      rw [List.append_nil] at holds
      rw [pollFlushBuf, same]
      exact .ready steady sent holds (word ▸ fits) (word ▸ small') fun _ => Nat.le_refl _
    · -- The gathered bytes become a frame.
      have positive := List.length_pos_of_ne_nil none
      let frame : Frame := ⟨data, none, by omega⟩
      have size : (toLeBytes 0 ++ data).length = 8 + data.length := by rw [List.length_append, word]
      have begun : startFlush (⟨inner, false, false, toLeBytes 0 ++ data, capacity⟩ : FramedWriter W) =
          ⟨inner, true, false, frame.encode, capacity⟩ := by
        rw [startFlush, if_pos ⟨rfl, by rw [size]; omega⟩]
        simp only [size, Nat.add_sub_cancel_left]
        rw [← word, List.drop_left]
        rfl
      have encoded : frame.encode.length = 8 + data.length := by
        rw [Frame.encode, List.length_append, toLeBytes_length]
      have sent' : written inner ++ frame.encode = start ++ (frames ++ [frame]).flatMap Frame.encode := by
        rw [sent, List.flatMap_append, List.append_assoc]
        simp
      have holds' : accepted = contents (frames ++ [frame]) := by
        rw [holds, contents, contents, List.flatMap_append]
        simp [frame]
      rw [pollFlushBuf, begun]
      exact (flushing_bufFlushed spare steady sent' holds' (encoded ▸ room) small).of_inner rfl

/-- What `poll_write` does before a shutdown. -/
inductive Gathered (start accepted data : Bytes) : Poll Nat × FramedWriter W → Prop
  | ready {next : FramedWriter W} {count : Nat} (within : count ≤ data.length)
    (accepts : Accepts start (accepted ++ data.take count) next) :
    Gathered start accepted data (.ready count, next)
  | pending {next : FramedWriter W} (accepts : Accepts start accepted next) :
    Gathered start accepted data (.pending, next)

/-- What is written goes behind what was gathered. -/
theorem gather_gathered {start accepted gathered : Bytes} {frames : List Frame} {inner : W}
    {capacity : Nat} (steady : Steady inner) (sent : written inner = start ++ frames.flatMap Frame.encode)
    (holds : accepted = contents frames ++ gathered) (room : 8 + gathered.length ≤ capacity)
    (small : capacity < 2 ^ 63) (data : Bytes) :
    Gathered start accepted data
      (gather ⟨inner, false, false, toLeBytes 0 ++ gathered, capacity⟩ data) := by
  have word : (toLeBytes 0).length = 8 := toLeBytes_length 0
  have left : remainingMut (⟨inner, false, false, toLeBytes 0 ++ gathered, capacity⟩ : FramedWriter W) =
      capacity - (8 + gathered.length) := by
    rw [remainingMut, List.length_append, word]
  have size : (data.take (min data.length (capacity - (8 + gathered.length)))).length ≤
      capacity - (8 + gathered.length) := by
    rw [List.length_take]
    omega
  unfold gather
  rw [left]
  refine .ready (Nat.min_le_left _ _) ?_
  simp only [List.append_assoc]
  refine .gathering steady sent ?_ ?_ small
  · rw [holds, List.append_assoc]
  · rw [List.length_append]
    omega

/-- `poll_write` before a shutdown. -/
theorem Accepts.gathered (spare : Spare) {start accepted : Bytes} {this : FramedWriter W}
    (accepts : Accepts start accepted this) (data : Bytes) :
    Gathered start accepted data (this.pollWriteData spare data) := by
  unfold pollWriteData
  split
  case isTrue =>
    have flushed := accepts.bufFlushed spare
    generalize this.pollFlushBuf spare = result at flushed
    cases flushed with
    | ready steady sent holds room small waits =>
      have gathered := gather_gathered steady sent (holds.trans (List.append_nil _).symm) room small data
      rw [List.append_nil] at gathered
      exact gathered
    | pending accepts waits => exact .pending accepts
  case isFalse free =>
    cases accepts with
    | gathering steady sent holds room small => exact gather_gathered steady sent holds room small data
    | flushing => exact absurd (.inr rfl) free

/-- Whatever `poll_flush` answers, the writer still stands for what it has accepted. -/
theorem Accepts.flushed (spare : Spare) {start accepted : Bytes} {this : FramedWriter W}
    (accepts : Accepts start accepted this) :
    ∃ result next, this.pollFlushAll spare = (result, next) ∧ (result = .ready () ∨ result = .pending) ∧
      Accepts start accepted next := by
  have flushed := accepts.bufFlushed spare
  unfold pollFlushAll
  generalize this.pollFlushBuf spare = answer at flushed
  cases flushed with
  | pending accepts waits => exact ⟨.pending, _, rfl, .inr rfl, accepts⟩
  | @ready frames inner capacity steady sent holds room small waits =>
    have settled := SteadyWrite.flushed steady
    have stands (next : W) (same : written next = written inner) (steady : Steady next) :
        Accepts start accepted ⟨next, false, false, toLeBytes 0, capacity⟩ := by
      have accepts := @Accepts.gathering W _ _ start accepted frames [] next capacity steady
        (same.trans sent) (holds.trans (List.append_nil _).symm) room small
      rw [List.append_nil] at accepts
      exact accepts
    simp only [flushInner]
    generalize pollFlush inner = below at settled
    cases settled with
    | ready same steady => exact ⟨_, _, rfl, .inl rfl, stands _ same steady⟩
    | pending same steady => exact ⟨_, _, rfl, .inr rfl, stands _ same steady⟩

/-- What `poll_shutdown` does. -/
inductive Shut (start accepted : Bytes) (this : FramedWriter W) : Poll Unit × FramedWriter W → Prop
  | ready {next : FramedWriter W} {frames : List Frame} (sent : written next.inner = start ++ framed frames)
    (holds : accepted = contents frames) : Shut start accepted this (.ready (), next)
  | pending {next : FramedWriter W} (closes : Closes start accepted next)
    (waits : ∀ patience : Patience W, patience.left next.inner < patience.left this.inner) :
    Shut start accepted this (.pending, next)

/-- The end of a shutdown. -/
theorem flushInner_shut {start accepted : Bytes} {frames : List Frame} {this next : FramedWriter W}
    (steady : Steady next.inner) (sent : written next.inner = start ++ framed frames)
    (holds : accepted = contents frames) (idle : next.flushing = false) (shut : next.shutdown = true)
    (empty : next.buf = []) (waits : ∀ patience : Patience W, patience.left next.inner ≤ patience.left this.inner) :
    Shut start accepted this next.flushInner := by
  obtain ⟨inner, flushing, shutdown, buf, capacity⟩ := next
  cases idle
  cases shut
  cases empty
  have settled := SteadyWrite.flushed steady
  unfold flushInner
  cases answer : pollFlush inner with
  | mk result next =>
    rw [answer] at settled
    cases settled with
    | ready same steady' => exact .ready (same.trans sent) holds
    | pending same steady' =>
      refine .pending (.closed steady' (same.trans sent) holds) fun patience => ?_
      exact Nat.lt_of_lt_of_le (patience.flush_pending steady answer) (waits patience)

/-- The shutdown of a writer whose buffer completes the body. -/
theorem closing_shut {start accepted : Bytes} {frames : List Frame} {this : FramedWriter W} {inner : W}
    {buf : Bytes} {capacity : Nat} (steady : Steady inner) (few : buf.length ≤ 8)
    (room : buf.length ≤ capacity) (sent : written inner ++ buf = start ++ framed frames)
    (holds : accepted = contents frames)
    (waits : ∀ patience : Patience W, patience.left inner ≤ patience.left this.inner) :
    Shut start accepted this
      (match writeBuf buf.length ⟨inner, false, false, buf, capacity⟩ with
        | (.ready (), this) => flushInner { this with shutdown := true }
        | result => result) := by
  have offered := @writeBuf_offered W _ _ _ ⟨inner, false, false, buf, capacity⟩ buf.length steady sent room
    (Nat.le_refl _)
  generalize @writeBuf W _ buf.length _ = result at offered
  cases offered with
  | ready steady' sent' room' waits' =>
    exact flushInner_shut steady' sent' holds rfl rfl rfl fun patience =>
      Nat.le_trans (waits' patience) (waits patience)
  | pending steady' sent' room' less shorter waits' =>
    exact .pending (.closing steady' (Nat.le_trans shorter few) sent' holds) fun patience =>
      Nat.lt_of_lt_of_le (waits' patience) (waits patience)

omit [SteadyWrite W] in
/-- A buffer that was reserved has room for its bytes. -/
theorem le_reserved (slack : Slack) (capacity len : Nat) : len ≤ reserved slack capacity len reservedBufSize := by
  have size : reservedBufSize = 16384 := by decide
  unfold reserved
  split <;> omega

/-- `poll_shutdown`. -/
theorem Closes.shut (spare : Spare) {start accepted : Bytes} {this : FramedWriter W}
    (closes : Closes start accepted this) : Shut start accepted this (this.pollShutdown spare) := by
  cases closes with
  | accepts accepts =>
    have flushed := accepts.bufFlushed spare
    unfold pollShutdown
    generalize this.pollFlushBuf spare = result at flushed
    cases flushed with
    | @ready frames inner capacity steady sent holds room small waits =>
      have word : (toLeBytes 0).length = 8 := toLeBytes_length 0
      have whole : written inner ++ toLeBytes 0 = start ++ framed frames := by
        rw [sent, framed, List.append_assoc]
      exact closing_shut steady (Nat.le_of_eq word) (word ▸ room) whole holds waits
    | pending accepts waits => exact .pending (.accepts accepts) waits
  | @closing frames inner buf capacity steady few sent holds =>
    have same : startFlush (⟨inner, false, false, buf, capacity⟩ : FramedWriter W) =
        ⟨inner, false, false, buf, capacity⟩ := if_neg fun more => Nat.not_lt.mpr few more.2
    have flushed : pollFlushBuf spare (⟨inner, false, false, buf, capacity⟩ : FramedWriter W) =
        (.ready (), ⟨inner, false, false, buf,
          reserved (spare (written inner).length) capacity buf.length reservedBufSize⟩) := by
      rw [pollFlushBuf, same]
      rfl
    rw [pollShutdown, flushed]
    exact closing_shut steady few (le_reserved _ _ _) sent holds fun _ => Nat.le_refl _
  | @closed frames inner capacity steady sent holds =>
    exact flushInner_shut steady sent holds rfl rfl rfl fun _ => Nat.le_refl _

/-! ## Whole runs -/

/-- What the user of a writer calls. -/
inductive WriterCall where
  /-- `poll_write`. -/
  | write (data : Bytes)
  /-- `poll_flush`. -/
  | flush
  deriving DecidableEq, Repr

/-- The calls in order, each polled once, and what was accepted; `none` is an error or a panic. -/
def runCalls (spare : Spare) :
    List WriterCall → Bytes → FramedWriter W → Option (Bytes × FramedWriter W)
  | [], accepted, this => some (accepted, this)
  | .write data :: calls, accepted, this =>
    match this.pollWriteData spare data with
    | (.ready count, this) => runCalls spare calls (accepted ++ data.take count) this
    | (.pending, this) => runCalls spare calls accepted this
    | _ => none
  | .flush :: calls, accepted, this =>
    match this.pollFlushAll spare with
    | (.ready (), this) | (.pending, this) => runCalls spare calls accepted this
    | _ => none

/-- The calls never fail, and the writer stands for what was accepted. -/
theorem Accepts.run (spare : Spare) {start accepted : Bytes} {this : FramedWriter W}
    (accepts : Accepts start accepted this) (calls : List WriterCall) :
    ∃ whole next, runCalls spare calls accepted this = some (whole, next) ∧ Accepts start whole next := by
  induction calls generalizing accepted this with
  | nil => exact ⟨accepted, this, rfl, accepts⟩
  | cons call calls ih =>
    cases call with
    | write data =>
      have gathered := accepts.gathered spare data
      unfold runCalls
      generalize this.pollWriteData spare data = result at gathered
      cases gathered with
      | ready within accepts => exact ih accepts
      | pending accepts => exact ih accepts
    | flush =>
      obtain ⟨result, next, polled, answer, accepts⟩ := accepts.flushed spare
      unfold runCalls
      rw [polled]
      rcases answer with rfl | rfl
      · exact ih accepts
      · exact ih accepts

/-- A shutdown that is done has completed the body. -/
theorem Closes.await_shutdown (spare : Spare) {start accepted : Bytes} {this last : FramedWriter W}
    (closes : Closes start accepted this) {polls : Nat}
    (done : await (pollShutdown spare) polls this = (.ready (), last)) :
    ∃ frames, written last.inner = start ++ framed frames ∧ accepted = contents frames := by
  induction polls generalizing this with
  | zero => cases done
  | succ polls ih =>
    have shut := closes.shut spare
    unfold await at done
    generalize this.pollShutdown spare = result at shut done
    cases shut with
    | ready sent holds =>
      cases done
      exact ⟨_, sent, holds⟩
    | pending closes waits => exact ih closes done

/-- A shutdown is done when the writer below has run out of patience. -/
theorem Closes.shutdown_ends (spare : Spare) {start accepted : Bytes} {this : FramedWriter W}
    (closes : Closes start accepted this) (patience : Patience W) {polls : Nat}
    (enough : patience.left this.inner < polls) :
    ∃ last, await (pollShutdown spare) polls this = (.ready (), last) := by
  induction polls generalizing this with
  | zero => cases enough
  | succ polls ih =>
    have shut := closes.shut spare
    unfold await
    generalize this.pollShutdown spare = result at shut
    cases shut with
    | ready sent holds => exact ⟨_, rfl⟩
    | pending closes waits =>
      have less := waits patience
      exact ih closes (by omega)

end FramedWriter

/-! ## Reading it back -/

namespace FramedReader

variable {R : Type} [AsyncBufRead R]

/-- Someone fills the buffer of a body and consumes as much of it as they like, again and again until
the end of file; once they have no appetites left, they consume all of it. -/
def collect : Nat → List Nat → Bytes → FramedReader R → Option (Bytes × FramedReader R)
  | 0, _, _, _ => none
  | patience + 1, appetites, read, this =>
    match pollFillBuf this with
    | (.ready buf, this) =>
      if buf = [] then some (read, this)
      else
        let amt := min buf.length (appetites.headD buf.length)
        match consume this amt with
        | some this => collect patience appetites.tail (read ++ buf.take amt) this
        | none => none
    | (.pending, this) => collect patience appetites read this
    | _ => none

/-- Whatever the appetites are, the contents of the body are read, and the reader below stands behind
it. -/
theorem Holds.collected [LawfulBufRead R] {tail content : Bytes} {this : FramedReader R}
    (holds : Holds tail content this) {patience : Nat} (appetites : List Nat) (read : Bytes)
    (patient : budget this + appetites.length < patience) :
    ∃ next, collect patience appetites read this = some (read ++ content, next) ∧ next.state = .eof ∧
      view.unread next.reader = tail := by
  induction patience generalizing this content appetites read with
  | zero => cases patient
  | succ patience ih =>
    have polled := holds.polled
    unfold collect
    generalize pollFillBuf this = result at polled
    cases polled with
    | @shown next buf holds limit spent nonempty starts visible inside =>
      have within : min buf.length (appetites.headD buf.length) ≤ buf.length := Nat.min_le_left _ _
      obtain ⟨after, took, left, same, less⟩ := Polled.consumed holds visible inside within
      have positive := List.length_pos_of_ne_nil nonempty
      have fewer : budget after + appetites.tail.length < patience := by
        cases appetites with
        | nil =>
          simp only [List.headD_nil, Nat.min_self, List.tail_nil, List.length_nil] at less patient ⊢
          omega
        | cons amt rest =>
          simp only [List.tail_cons, List.length_cons] at patient ⊢
          omega
      obtain ⟨last, collects, ends, unread⟩ := ih left appetites.tail (read ++ buf.take _) fewer
      refine ⟨last, ?_, ends, unread⟩
      simp only [if_neg nonempty, took]
      rw [collects]
      obtain ⟨more, rfl⟩ := starts
      rw [List.drop_append_of_le_length within, List.append_assoc, ← List.append_assoc (buf.take _),
        List.take_append_drop]
    | @ended next none left limit spent past =>
      subst none
      obtain ⟨-, -, unread⟩ := left.at_end past
      exact ⟨next, by rw [List.append_nil]; rfl, past, unread⟩
    | @pending next holds limit less =>
      exact ih holds appetites read (by omega)

end FramedReader

/-- Whatever is written and flushed, a shutdown that is done has made the writer below take a body whose
contents are what was accepted, and is done unless the writer below is pending for ever. Whoever reads
the body reads that, then the end of file, and leaves what is behind it. -/
theorem framed_roundTrip {W R : Type} [AsyncWrite W] [SteadyWrite W] [AsyncBufRead R] [LawfulBufRead R]
    (spare : Spare) (extra : Fin (2 ^ 62)) {inner : W} (steady : Steady inner)
    (calls : List FramedWriter.WriterCall) :
    ∃ accepted writer, FramedWriter.runCalls spare calls [] (.new inner extra) = some (accepted, writer) ∧
      (∀ patience : Patience W, ∃ last,
        await (FramedWriter.pollShutdown spare) (patience.left writer.inner + 1) writer = (.ready (), last)) ∧
      ∀ polls last, await (FramedWriter.pollShutdown spare) polls writer = (.ready (), last) →
        ∃ frames, written last.inner = written inner ++ framed frames ∧ contents frames = accepted ∧
          ∀ (reader : R) (tail : Bytes) (appetites : List Nat), view.Valid reader → view.Regular reader →
            view.unread reader = framed frames ++ tail →
            ∃ next, FramedReader.collect (budget reader + appetites.length + 1) appetites [] (.new reader) =
              some (accepted, next) ∧ next.state = .eof ∧ view.unread next.reader = tail := by
  have fresh := FramedWriter.Accepts.new steady extra
  obtain ⟨accepted, writer, ran, accepts⟩ := fresh.run spare calls
  have closes : FramedWriter.Closes (written inner) accepted writer := .accepts accepts
  refine ⟨accepted, writer, ran, ?_, ?_⟩
  · intro patience
    exact closes.shutdown_ends spare patience (Nat.lt_succ_self _)
  · intro polls last done
    obtain ⟨frames, sent, holds⟩ := closes.await_shutdown spare done
    refine ⟨frames, sent, holds.symm, ?_⟩
    intro reader tail appetites valid regular arrives
    have body : FramedReader.Holds tail (contents frames) (.new reader) :=
      .length valid regular (by decide) arrives
    obtain ⟨next, collects, ends, unread⟩ := body.collected appetites [] (Nat.lt_succ_self _)
    exact ⟨next, holds ▸ collects, ends, unread⟩

/-- Two writes with a flush between them, to a sink that is pending at first and then takes three bytes
at a time. -/
theorem framed_roundTrip_trickle :
    ∃ accepted writer, FramedWriter.runCalls (fun _ _ _ => 0) [.write [1, 2], .flush, .flush, .write [3]] []
        (.new (⟨[], [.pending], 2⟩ : Sink) 0) = some (accepted, writer) ∧
      ∀ polls last, await (FramedWriter.pollShutdown fun _ _ _ => 0) polls writer = (.ready (), last) →
        ∃ frames, last.inner.written = framed frames ∧ contents frames = accepted := by
  have steady : Steady (⟨[], [.pending], 2⟩ : Sink) := by
    show Sink.Steady ⟨[], [.pending], 2⟩
    decide
  obtain ⟨accepted, writer, ran, -, closed⟩ := @framed_roundTrip Sink BytesReader _ _ _ _ (fun _ _ _ => 0) 0 _
    steady [.write [1, 2], .flush, .flush, .write [3]]
  refine ⟨accepted, writer, ran, ?_⟩
  intro polls last done
  obtain ⟨frames, sent, holds, -⟩ := closed polls last done
  exact ⟨frames, sent, holds⟩

end Harmonia.Protocol
