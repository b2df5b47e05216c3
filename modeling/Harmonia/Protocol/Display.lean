import Harmonia.Protocol.NixWriter

/-!
# Displayed values

`write_display` of the buffered writer, in `ser/writer.rs`: room for the text is to be made by a flush, the
text is put behind eight bytes for its length, and the length is put there once it is known. Whatever was
written and flushed before, everything the writer has accepted is delivered in order. But a flush leaves a
buffer that is smaller by what it held, and may reserve less than was asked for: the text is written as
`write_slice` writes it exactly when it fits into what the flush leaves.
-/

namespace Harmonia.Protocol

open Library

/-- `BytesMut`, as a buffer that is given to the builder. -/
structure BytesMut where
  /-- Its contents. -/
  bytes : Bytes
  /-- `capacity`. -/
  capacity : Nat
  /-- The contents are within the capacity. -/
  fits : bytes.length ≤ capacity

/-- `NixWriterBuilder`; the setters assert the sizes. -/
structure NixWriterBuilder where
  /-- `buf`. -/
  buf : Option BytesMut
  /-- `reserved_buf_size`. -/
  reservedBufSize : Nat
  /-- `display_buf_size`. -/
  displayBufSize : Nat
  /-- `initial_buf_size`. -/
  initialBufSize : Nat
  /-- A length fits into what is reserved. -/
  reserved : 8 ≤ reservedBufSize
  /-- A length fits into what is displayed. -/
  displayed : 8 ≤ displayBufSize

namespace NixWriterBuilder

variable {W : Type}

/-- What is in the buffer from the start. -/
def given (this : NixWriterBuilder) : Bytes :=
  match this.buf with
  | some buf => buf.bytes
  | none => []

/-- `build`; a new buffer may have more than its initial size. -/
def build (this : NixWriterBuilder) (extra : Nat) (writer : W) : NixWriter W :=
  match this.buf with
  | some buf => ⟨writer, buf.bytes, buf.capacity, this.reservedBufSize⟩
  | none => ⟨writer, [], this.initialBufSize + extra, this.reservedBufSize⟩

end NixWriterBuilder

namespace NixWriter

variable {W : Type}

section Calls

/-- The error of a text that does not fit. -/
def unsupported : IoError := ⟨.invalidData, "an error occurred when formatting an argument"⟩

/-- `put_u64_le` panics without room. -/
def putU64Le (this : NixWriter W) (value : UInt64) : Option (NixWriter W) :=
  if this.remainingMut < 8 then none else some { this with buf := this.buf ++ toLeBytes value }

/-- `write_fmt`: a text comes in pieces, and the first one that does not fit ends it. -/
def writeFmt (this : NixWriter W) : List Bytes → Bool × NixWriter W
  | [] => (true, this)
  | piece :: rest =>
    if piece.length ≤ this.remainingMut then writeFmt { this with buf := this.buf ++ piece } rest
    else (false, this)

/-- The part of `write_display` between the flush and the padding; the length of the text is the answer. -/
def render (this : NixWriter W) (msg : List Bytes) : Poll Nat × NixWriter W :=
  let offset := this.buf.length
  match this.putU64Le 0 with
  | none => (.panic, this)
  | some this =>
    match this.writeFmt msg with
    | (false, this) => (.error unsupported, { this with buf := this.buf.take offset })
    | (true, this) =>
      let len := this.buf.length - offset - 8
      (.ready len, { this with
        buf := this.buf.take offset ++ toLeBytes (UInt64.ofNat len) ++ this.buf.drop (offset + 8) })

variable [AsyncWrite W]

/-- The error of a writer that takes nothing. -/
def writeAllZero : IoError := ⟨.writeZero, "write zero"⟩

/-- `write_all`, which does not return when it is polled too few times. -/
def writeAll (spare : Spare) : Nat → NixWriter W → Bytes → Poll Unit × NixWriter W
  | 0, this, _ => (.panic, this)
  | polls + 1, this, buf =>
    if buf = [] then (.ready (), this)
    else
      match this.pollWriteData spare buf with
      | (.ready n, this) =>
        if buf.length < n then (.panic, this)
        else if n = 0 then (.error writeAllZero, this)
        else writeAll spare polls this (buf.drop n)
      | (.pending, this) => writeAll spare polls this buf
      | (.error error, this) => (.error error, this)
      | (.panic, this) => (.panic, this)

/-- `write_slice`. -/
def writeSlice (spare : Spare) (polls : Nat) (this : NixWriter W) (buf : Bytes) : Poll Unit × NixWriter W :=
  match this.writeAll spare polls (toLeBytes (UInt64.ofNat buf.length)) with
  | (.ready (), this) =>
    match this.writeAll spare polls buf with
    | (.ready (), this) => this.writeAll spare polls (zeros.take (calcPadding (UInt64.ofNat buf.length)))
    | result => result
  | result => result

/-- The flush of `write_display`. -/
def makeRoom (spare : Spare) (displayBufSize polls : Nat) (this : NixWriter W) : Poll Unit × NixWriter W :=
  if this.remainingMut < displayBufSize then await (pollFlushBuf spare) polls this else (.ready (), this)

/-- `write_display`, of a text that comes in pieces. -/
def writeDisplay (spare : Spare) (displayBufSize polls : Nat) (this : NixWriter W) (msg : List Bytes) :
    Poll Unit × NixWriter W :=
  match this.makeRoom spare displayBufSize polls with
  | (.ready (), this) =>
    match this.render msg with
    | (.ready len, this) => this.writeAll spare polls (zeros.take (calcPadding (UInt64.ofNat len)))
    | (.pending, this) => (.pending, this)
    | (.error error, this) => (.error error, this)
    | (.panic, this) => (.panic, this)
  | result => result

/-- A writer after some polls and displays, and what it has accepted. -/
inductive Reached (spare : Spare) (displayBufSize : Nat) (first : NixWriter W) (given : Bytes) :
    NixWriter W → Bytes → Prop
  | start : Reached spare displayBufSize first given first given
  | write {this next : NixWriter W} {accepted buf : Bytes} {n : Nat}
    (before : Reached spare displayBufSize first given this accepted)
    (polled : this.pollWriteData spare buf = (.ready n, next)) :
    Reached spare displayBufSize first given next (accepted ++ buf.take n)
  | writePending {this next : NixWriter W} {accepted buf : Bytes}
    (before : Reached spare displayBufSize first given this accepted)
    (polled : this.pollWriteData spare buf = (.pending, next)) :
    Reached spare displayBufSize first given next accepted
  | flush {this next : NixWriter W} {accepted : Bytes} {answer : Poll Unit}
    (before : Reached spare displayBufSize first given this accepted)
    (polled : this.pollFlushAll spare = (answer, next)) :
    Reached spare displayBufSize first given next accepted
  | display {this next : NixWriter W} {accepted : Bytes} {polls : Nat} {msg : List Bytes}
    (before : Reached spare displayBufSize first given this accepted)
    (done : this.writeDisplay spare displayBufSize polls msg = (.ready (), next)) :
    Reached spare displayBufSize first given next (accepted ++ putNixSlice msg.flatten)
  | refused {this next : NixWriter W} {accepted : Bytes} {polls : Nat} {msg : List Bytes} {error : IoError}
    (before : Reached spare displayBufSize first given this accepted)
    (failed : this.writeDisplay spare displayBufSize polls msg = (.error error, next)) :
    Reached spare displayBufSize first given next accepted

/-- A flush that is awaited leaves the writer below with these bytes. -/
def Delivers (spare : Spare) (this : NixWriter W) (bytes : Bytes) : Prop :=
  ∃ polls last, await (pollFlushAll spare) polls this = (.ready (), last) ∧ written last.inner = bytes

/-- All the writer has accepted. -/
def sent (this : NixWriter W) : Bytes := written this.inner ++ this.buf

/-- The room that a flush leaves: what was free, and what is reserved if that is less. -/
def flushedRoom (spare : Spare) (this : NixWriter W) : Nat :=
  if this.remainingMut < this.reservedBufSize then
    reserved (spare this.sent.length) this.remainingMut 0 (this.reservedBufSize - this.remainingMut)
  else this.remainingMut

/-- The room for a text and its length. -/
def room (spare : Spare) (displayBufSize : Nat) (this : NixWriter W) : Nat :=
  if this.remainingMut < displayBufSize then this.flushedRoom spare else this.remainingMut

end Calls

/-! ## What is rendered -/

/-- The pieces of a text are put down as far as they fit. -/
theorem writeFmt_spec (msg : List Bytes) (this : NixWriter W) :
    (msg.flatten.length ≤ this.remainingMut ∧
        this.writeFmt msg = (true, { this with buf := this.buf ++ msg.flatten })) ∨
      this.remainingMut < msg.flatten.length ∧
        ∃ more, this.writeFmt msg = (false, { this with buf := this.buf ++ more }) := by
  induction msg generalizing this with
  | nil =>
    refine .inl ⟨Nat.zero_le _, ?_⟩
    rw [writeFmt, List.flatten_nil, List.append_nil]
  | cons piece rest ih =>
    have total : (piece :: rest).flatten.length = piece.length + rest.flatten.length := by
      rw [List.flatten_cons, List.length_append]
    rw [writeFmt, total]
    by_cases fits : piece.length ≤ this.remainingMut
    · have left : remainingMut { this with buf := this.buf ++ piece } = this.remainingMut - piece.length := by
        show this.capacity - (this.buf ++ piece).length = this.capacity - this.buf.length - piece.length
        rw [List.length_append]
        omega
      rw [if_pos fits]
      rcases ih { this with buf := this.buf ++ piece } with ⟨room, put⟩ | ⟨tight, more, stopped⟩
      · refine .inl ⟨by omega, ?_⟩
        rw [put, List.flatten_cons, List.append_assoc]
      · refine .inr ⟨by omega, piece ++ more, ?_⟩
        rw [stopped, List.append_assoc]
    · rw [if_neg fits]
      refine .inr ⟨by omega, [], ?_⟩
      rw [List.append_nil]

/-- The buffer with a displayed text behind its length. -/
def shown (this : NixWriter W) (text : Bytes) : NixWriter W :=
  { this with buf := this.buf ++ (toLeBytes (UInt64.ofNat text.length) ++ text) }

/-- A text and its length are put down if there is room for both; without room for the length this panics,
and otherwise nothing is left of a text for which there is none. -/
theorem render_spec (this : NixWriter W) (msg : List Bytes) :
    (8 + msg.flatten.length ≤ this.remainingMut ∧
        this.render msg = (.ready msg.flatten.length, this.shown msg.flatten)) ∨
      this.remainingMut < 8 + msg.flatten.length ∧
        (this.render msg = (.panic, this) ∨ this.render msg = (.error unsupported, this)) := by
  unfold render putU64Le
  by_cases none : this.remainingMut < 8
  · rw [if_pos none]
    exact .inr ⟨by omega, .inl rfl⟩
  · rw [if_neg none]
    have word : (toLeBytes 0).length = 8 := toLeBytes_length 0
    have left : remainingMut { this with buf := this.buf ++ toLeBytes 0 } = this.remainingMut - 8 := by
      show this.capacity - (this.buf ++ toLeBytes 0).length = this.capacity - this.buf.length - 8
      rw [List.length_append, word]
      omega
    simp only
    rcases writeFmt_spec msg { this with buf := this.buf ++ toLeBytes 0 } with ⟨room, put⟩ | ⟨tight, more, stopped⟩
    · refine .inl ⟨by omega, ?_⟩
      have size : (this.buf ++ toLeBytes 0 ++ msg.flatten).length - this.buf.length - 8 = msg.flatten.length := by
        rw [List.length_append, List.length_append, word]
        omega
      have front : (this.buf ++ toLeBytes 0 ++ msg.flatten).take this.buf.length = this.buf := by
        rw [List.append_assoc, List.take_left]
      have back : (this.buf ++ toLeBytes 0 ++ msg.flatten).drop (this.buf.length + 8) = msg.flatten := by
        apply List.drop_left'
        rw [List.length_append, word]
      rw [put]
      simp only
      rw [size, front, back, shown, List.append_assoc]
    · refine .inr ⟨by omega, .inr ?_⟩
      have front : (this.buf ++ toLeBytes 0 ++ more).take this.buf.length = this.buf := by
        rw [List.append_assoc, List.take_left]
      rw [stopped]
      simp only
      rw [front]

/-- There are never more than seven bytes of padding. -/
theorem padding_zeros (len : UInt64) : zeros.take (calcPadding len) = List.replicate (calcPadding len) 0 := by
  show (List.replicate 8 (0 : UInt8)).take _ = _
  rw [List.take_replicate, Nat.min_eq_left (Nat.le_of_lt (calcPadding_lt len))]

/-! ## Everything accepted is delivered -/

section Steady

variable [AsyncWrite W] [SteadyWrite W] [PatientWrite W] [LawfulPatience W]

/-- The writer below is steady, and the buffer is within its capacity. -/
structure Stands (this : NixWriter W) : Prop where
  /-- The writer below is steady. -/
  steady : Steady this.inner
  /-- The buffer is within its capacity. -/
  within : this.buf.length ≤ this.capacity

/-- What writing out the buffer does: nothing that was accepted is lost, and the room stays. -/
inductive WroteOut (this : NixWriter W) : Poll Unit × NixWriter W → Prop
  | ready {next : NixWriter W} (stands : next.Stands) (same : next.sent = this.sent) (empty : next.buf = [])
    (room : next.remainingMut = this.remainingMut) (reserve : next.reservedBufSize = this.reservedBufSize)
    (spent : turns next.inner ≤ turns this.inner) : WroteOut this (.ready (), next)
  | pending {next : NixWriter W} (stands : next.Stands) (same : next.sent = this.sent)
    (room : next.remainingMut = this.remainingMut) (reserve : next.reservedBufSize = this.reservedBufSize)
    (less : turns next.inner < turns this.inner) : WroteOut this (.pending, next)

/-- The loop of `poll_flush_buf` writes out the buffer. -/
theorem writeBuf_wroteOut (turns' : Nat) {this : NixWriter W} (stands : this.Stands)
    (enough : this.buf.length ≤ turns') : WroteOut this (this.writeBuf turns') := by
  induction turns' generalizing this with
  | zero =>
    have none : this.buf = [] := List.eq_nil_of_length_eq_zero (Nat.le_zero.mp enough)
    exact .ready stands rfl none rfl rfl (Nat.le_refl _)
  | succ turns' ih =>
    rw [writeBuf]
    by_cases none : this.buf = []
    · rw [if_pos none]
      exact .ready stands rfl none rfl rfl (Nat.le_refl _)
    · rw [if_neg none]
      have wrote := pollWrite_writes stands.steady none
      generalize pollWrite this.inner this.buf = result at wrote
      cases wrote with
      | @ready inner count some within taken steady spent =>
        simp only
        rw [if_neg (Nat.ne_of_gt some), if_neg (Nat.not_lt_of_le within)]
        have length : (this.buf.drop count).length = this.buf.length - count := List.length_drop
        have fits := stands.within
        have later := @ih { this with inner := inner, buf := this.buf.drop count, capacity := this.capacity - count }
          ⟨steady, by
            show (this.buf.drop count).length ≤ this.capacity - count
            omega⟩ (by
            show (this.buf.drop count).length ≤ turns'
            omega)
        have joins : written inner ++ this.buf.drop count = this.sent := by
          rw [taken, List.append_assoc, List.take_append_drop]
          rfl
        have left : this.capacity - count - (this.buf.drop count).length = this.remainingMut := by
          unfold remainingMut
          omega
        generalize @writeBuf W _ turns' _ = result at later
        cases later with
        | ready stands same empty room reserve spent' =>
          exact .ready stands (same.trans joins) empty (room.trans left) reserve (Nat.le_trans spent' spent)
        | pending stands same room reserve less =>
          exact .pending stands (same.trans joins) (room.trans left) reserve (Nat.lt_of_lt_of_le less spent)
      | @pending inner same steady less =>
        refine .pending ⟨steady, stands.within⟩ ?_ rfl rfl less
        show written inner ++ this.buf = _
        rw [same]
        rfl

/-- What a flush of the buffer does. -/
inductive FlushedBuf (spare : Spare) (this : NixWriter W) : Poll Unit × NixWriter W → Prop
  | ready {next : NixWriter W} (stands : next.Stands) (same : next.sent = this.sent) (empty : next.buf = [])
    (room : next.remainingMut = this.flushedRoom spare) (reserve : next.reservedBufSize = this.reservedBufSize)
    (spent : turns next.inner ≤ turns this.inner) : FlushedBuf spare this (.ready (), next)
  | pending {next : NixWriter W} (stands : next.Stands) (same : next.sent = this.sent)
    (room : next.remainingMut = this.remainingMut) (reserve : next.reservedBufSize = this.reservedBufSize)
    (less : turns next.inner < turns this.inner) : FlushedBuf spare this (.pending, next)

/-- `poll_flush_buf`. -/
theorem pollFlushBuf_flushed (spare : Spare) {this : NixWriter W} (stands : this.Stands) :
    FlushedBuf spare this (this.pollFlushBuf spare) := by
  have wrote := writeBuf_wroteOut this.buf.length stands (Nat.le_refl _)
  unfold pollFlushBuf
  generalize this.writeBuf this.buf.length = result at wrote
  cases wrote with
  | @ready next stands same empty room reserve spent =>
    obtain ⟨inner, buf, capacity, reservedBufSize⟩ := next
    change buf = [] at empty
    change reservedBufSize = this.reservedBufSize at reserve
    subst empty reserve
    have taken : written inner = this.sent := (List.append_nil _).symm.trans same
    change capacity = this.remainingMut at room
    subst room
    simp only
    by_cases less : this.remainingMut < this.reservedBufSize
    · rw [if_pos less]
      refine .ready ⟨stands.steady, Nat.zero_le _⟩ same rfl ?_ rfl spent
      rw [taken]
      exact (if_pos less).symm
    · rw [if_neg less]
      refine .ready stands same rfl ?_ rfl spent
      exact (if_neg less).symm
  | pending stands same room reserve less => exact .pending stands same room reserve less

/-- A flush of the buffer is awaited. -/
theorem await_flushBuf (spare : Spare) (polls : Nat) {this : NixWriter W} (stands : this.Stands) :
    (∃ next : NixWriter W, await (pollFlushBuf spare) polls this = (.ready (), next) ∧ next.Stands ∧
        next.sent = this.sent ∧ next.remainingMut = this.flushedRoom spare ∧
        turns next.inner ≤ turns this.inner) ∨
      polls ≤ turns this.inner ∧ ∃ next, await (pollFlushBuf spare) polls this = (.panic, next) := by
  induction polls generalizing this with
  | zero => exact .inr ⟨Nat.zero_le _, this, rfl⟩
  | succ polls ih =>
    have flushed := pollFlushBuf_flushed spare stands
    rw [await]
    generalize this.pollFlushBuf spare = result at flushed
    cases flushed with
    | ready stands same empty room reserve spent => exact .inl ⟨_, rfl, stands, same, room, spent⟩
    | @pending next stands same room reserve less =>
      have keeps : next.flushedRoom spare = this.flushedRoom spare := by
        unfold flushedRoom
        rw [room, reserve, same]
      rcases ih stands with ⟨last, awaited, stands', same', room', spent⟩ | ⟨few, last, awaited⟩
      · exact .inl ⟨last, awaited, stands', same'.trans same, room'.trans keeps, by omega⟩
      · exact .inr ⟨by omega, last, awaited⟩

/-- A flush that is awaited writes out what was accepted. -/
theorem Stands.delivers (spare : Spare) {this : NixWriter W} (stands : this.Stands) :
    this.Delivers spare this.sent := by
  have ends (polls : Nat) : ∀ {this : NixWriter W}, this.Stands → turns this.inner < polls →
      ∃ last, await (pollFlushAll spare) polls this = (.ready (), last) ∧ written last.inner = this.sent := by
    induction polls with
    | zero => exact fun _ few => absurd few (Nat.not_lt_zero _)
    | succ polls ih =>
      intro this stands enough
      have flushed := pollFlushBuf_flushed spare stands
      rw [await, pollFlushAll]
      generalize this.pollFlushBuf spare = result at flushed
      cases flushed with
      | @ready next stands same empty room reserve spent =>
        have settled := pollFlush_settles stands.steady
        have all : written next.inner = this.sent := by
          rw [← same, sent, empty, List.append_nil]
        simp only [settleInner]
        generalize pollFlush next.inner = below at settled
        cases settled with
        | @ready inner same' steady spent' => exact ⟨_, rfl, same'.trans all⟩
        | @pending inner same' steady less =>
          obtain ⟨last, awaited, delivered⟩ := @ih { next with inner := inner } ⟨steady, stands.within⟩ (by
            show turns inner < polls
            omega)
          refine ⟨last, awaited, delivered.trans ?_⟩
          show written inner ++ next.buf = _
          rw [same', empty, List.append_nil, all]
      | @pending next stands same room reserve less =>
        obtain ⟨last, awaited, delivered⟩ := ih stands (by omega)
        exact ⟨last, awaited, delivered.trans same⟩
  obtain ⟨last, awaited, delivered⟩ := ends (turns this.inner + 1) stands (Nat.lt_succ_self _)
  exact ⟨_, last, awaited, delivered⟩

/-- What a write does. -/
inductive WroteData (this : NixWriter W) (buf : Bytes) : Poll Nat × NixWriter W → Prop
  | ready {next : NixWriter W} {n : Nat} (stands : next.Stands) (within : n ≤ buf.length)
    (some : buf ≠ [] → 0 < n) (same : next.sent = this.sent ++ buf.take n)
    (spent : turns next.inner ≤ turns this.inner) : WroteData this buf (.ready n, next)
  | pending {next : NixWriter W} (stands : next.Stands) (same : next.sent = this.sent)
    (less : turns next.inner < turns this.inner) : WroteData this buf (.pending, next)

omit [LawfulPatience W] in
/-- A slice that fits is put behind what is there. -/
theorem put_fits {this : NixWriter W} (stands : this.Stands) {buf : Bytes}
    (fits : buf.length ≤ this.remainingMut) : WroteData this buf (this.put buf) := by
  have within := stands.within
  unfold remainingMut at fits
  unfold put
  rw [if_neg (by omega)]
  refine .ready ⟨stands.steady, ?_⟩ (Nat.le_refl _) List.length_pos_iff.mpr ?_ (Nat.le_refl _)
  · show (this.buf ++ buf).length ≤ this.capacity
    rw [List.length_append]
    omega
  · rw [List.take_length]
    exact (List.append_assoc _ _ _).symm

/-- A slice that an empty buffer has no room for goes to the writer below. -/
theorem put_empty {this : NixWriter W} (stands : this.Stands) (empty : this.buf = []) (buf : Bytes) :
    WroteData this buf (this.put buf) := by
  by_cases large : this.capacity < buf.length
  · have some : buf ≠ [] := by
      intro none
      rw [none] at large
      exact Nat.not_lt_zero _ large
    have wrote := pollWrite_writes stands.steady some
    have before : this.sent = written this.inner := by
      rw [sent, empty, List.append_nil]
    have after (inner : W) : sent { this with inner := inner } = written inner := by
      show written inner ++ this.buf = _
      rw [empty, List.append_nil]
    unfold put
    rw [if_pos large]
    generalize pollWrite this.inner buf = result at wrote
    cases wrote with
    | @ready inner count positive within taken steady spent =>
      refine .ready ⟨steady, stands.within⟩ within (fun _ => positive) ?_ spent
      rw [after, taken, before]
    | @pending inner same steady less =>
      refine .pending ⟨steady, stands.within⟩ ?_ less
      rw [after, same, before]
  · apply put_fits stands
    unfold remainingMut
    rw [empty]
    exact Nat.le_of_not_lt large

/-- `poll_write`. -/
theorem pollWriteData_wrote (spare : Spare) {this : NixWriter W} (stands : this.Stands) (buf : Bytes) :
    WroteData this buf (this.pollWriteData spare buf) := by
  unfold pollWriteData
  by_cases tight : this.remainingMut < buf.length
  · have flushed := pollFlushBuf_flushed spare stands
    rw [if_pos tight]
    generalize this.pollFlushBuf spare = result at flushed
    cases flushed with
    | @ready next stands same empty room reserve spent =>
      have wrote := put_empty stands empty buf
      simp only
      generalize next.put buf = result at wrote
      cases wrote with
      | ready stands within some same' spent' =>
        refine .ready stands within some ?_ (Nat.le_trans spent' spent)
        rw [same', same]
      | pending stands same' less => exact .pending stands (same'.trans same) (Nat.lt_of_lt_of_le less spent)
    | pending stands same room reserve less => exact .pending stands same less
  · rw [if_neg tight]
    exact put_fits stands (Nat.le_of_not_lt tight)

/-- `write_all` puts a slice behind what was accepted, if it is polled often enough. -/
theorem writeAll_sends (spare : Spare) (polls : Nat) {this : NixWriter W} (stands : this.Stands) (buf : Bytes) :
    (∃ next : NixWriter W, this.writeAll spare polls buf = (.ready (), next) ∧ next.Stands ∧
        next.sent = this.sent ++ buf ∧ turns next.inner ≤ turns this.inner) ∨
      polls ≤ turns this.inner + buf.length ∧ ∃ next, this.writeAll spare polls buf = (.panic, next) := by
  induction polls generalizing this buf with
  | zero => exact .inr ⟨Nat.zero_le _, this, rfl⟩
  | succ polls ih =>
    rw [writeAll]
    by_cases none : buf = []
    · rw [if_pos none, none]
      exact .inl ⟨this, rfl, stands, (List.append_nil _).symm, Nat.le_refl _⟩
    · have wrote := pollWriteData_wrote spare stands buf
      rw [if_neg none]
      generalize this.pollWriteData spare buf = result at wrote
      cases wrote with
      | @ready next n stands within some same spent =>
        have positive := some none
        have length : (buf.drop n).length = buf.length - n := List.length_drop
        simp only
        rw [if_neg (Nat.not_lt_of_le within), if_neg (Nat.ne_of_gt positive)]
        rcases ih stands (buf.drop n) with ⟨last, done, stands', same', spent'⟩ | ⟨few, last, stuck⟩
        · refine .inl ⟨last, done, stands', ?_, Nat.le_trans spent' spent⟩
          rw [same', same, List.append_assoc, List.take_append_drop]
        · exact .inr ⟨by omega, last, stuck⟩
      | @pending next stands same less =>
        rcases ih stands buf with ⟨last, done, stands', same', spent'⟩ | ⟨few, last, stuck⟩
        · refine .inl ⟨last, done, stands', ?_, by omega⟩
          rw [same', same]
        · exact .inr ⟨by omega, last, stuck⟩

/-- `write_slice` puts a slice behind what was accepted. -/
theorem writeSlice_sends (spare : Spare) {polls : Nat} {this : NixWriter W} (stands : this.Stands) (buf : Bytes)
    (enough : turns this.inner + 8 + buf.length < polls) :
    ∃ next : NixWriter W, this.writeSlice spare polls buf = (.ready (), next) ∧ next.Stands ∧
      next.sent = this.sent ++ putNixSlice buf := by
  have word := toLeBytes_length (UInt64.ofNat buf.length)
  have padding : (zeros.take (calcPadding (UInt64.ofNat buf.length))).length ≤ 8 := by
    rw [List.length_take]
    exact Nat.min_le_right _ _
  unfold writeSlice
  rcases writeAll_sends spare polls stands (toLeBytes (UInt64.ofNat buf.length)) with
    ⟨first, done, stands, same, spent⟩ | ⟨few, _⟩
  · rw [done]
    simp only
    rcases writeAll_sends spare polls stands buf with ⟨second, done, stands, same', spent'⟩ | ⟨few, _⟩
    · rw [done]
      simp only
      rcases writeAll_sends spare polls stands (zeros.take (calcPadding (UInt64.ofNat buf.length))) with
        ⟨last, done, stands, same'', _⟩ | ⟨few, _⟩
      · refine ⟨last, done, stands, ?_⟩
        rw [same'', same', same, padding_zeros, putNixSlice]
        simp only [List.append_assoc]
      · omega
    · omega
  · omega

/-- The flush of `write_display` makes the room there is. -/
theorem makeRoom_makes (spare : Spare) (displayBufSize polls : Nat) {this : NixWriter W} (stands : this.Stands) :
    (∃ next : NixWriter W, this.makeRoom spare displayBufSize polls = (.ready (), next) ∧ next.Stands ∧
        next.sent = this.sent ∧ next.remainingMut = this.room spare displayBufSize ∧
        turns next.inner ≤ turns this.inner) ∨
      polls ≤ turns this.inner ∧ ∃ next, this.makeRoom spare displayBufSize polls = (.panic, next) := by
  unfold makeRoom room
  by_cases tight : this.remainingMut < displayBufSize
  · rw [if_pos tight, if_pos tight]
    exact await_flushBuf spare polls stands
  · rw [if_neg tight, if_neg tight]
    exact .inl ⟨this, rfl, stands, rfl, rfl, Nat.le_refl _⟩

/-- A text that fits is displayed as `write_slice` writes it. -/
theorem writeDisplay_fits (spare : Spare) (displayBufSize polls : Nat) {this : NixWriter W} (stands : this.Stands)
    {msg : List Bytes} (fits : 8 + msg.flatten.length ≤ this.room spare displayBufSize) :
    (∃ next : NixWriter W, this.writeDisplay spare displayBufSize polls msg = (.ready (), next) ∧ next.Stands ∧
        next.sent = this.sent ++ putNixSlice msg.flatten) ∨
      polls ≤ turns this.inner + 8 ∧
        ∃ next, this.writeDisplay spare displayBufSize polls msg = (.panic, next) := by
  unfold writeDisplay
  rcases makeRoom_makes spare displayBufSize polls stands with
    ⟨first, made, stands, same, room, spent⟩ | ⟨few, next, stuck⟩
  · rw [made]
    simp only
    rcases render_spec first msg with ⟨_, rendered⟩ | ⟨tight, _⟩
    · have within := stands.within
      have word := toLeBytes_length (UInt64.ofNat msg.flatten.length)
      have free : 8 + msg.flatten.length ≤ first.capacity - first.buf.length := by
        rw [← room] at fits
        exact fits
      have stands' : (first.shown msg.flatten).Stands := by
        refine ⟨stands.steady, ?_⟩
        show (first.buf ++ (toLeBytes _ ++ msg.flatten)).length ≤ first.capacity
        rw [List.length_append, List.length_append, word]
        omega
      have joins : (first.shown msg.flatten).sent =
          this.sent ++ (toLeBytes (UInt64.ofNat msg.flatten.length) ++ msg.flatten) := by
        rw [← same]
        exact (List.append_assoc _ _ _).symm
      have padding : (zeros.take (calcPadding (UInt64.ofNat msg.flatten.length))).length ≤ 8 := by
        rw [List.length_take]
        exact Nat.min_le_right _ _
      rw [rendered]
      simp only
      rcases writeAll_sends spare polls stands' (zeros.take (calcPadding (UInt64.ofNat msg.flatten.length))) with
        ⟨last, done, stands, same', _⟩ | ⟨few, last, stuck⟩
      · refine .inl ⟨last, done, stands, ?_⟩
        rw [same', joins, padding_zeros, putNixSlice]
        simp only [List.append_assoc]
      · have below : turns (first.shown msg.flatten).inner ≤ turns this.inner := spent
        exact .inr ⟨by omega, last, stuck⟩
    · omega
  · rw [stuck]
    exact .inr ⟨by omega, next, rfl⟩

/-- A text that does not fit is not displayed, and nothing of it is left if this is told. -/
theorem writeDisplay_tight (spare : Spare) (displayBufSize polls : Nat) {this : NixWriter W}
    (stands : this.Stands) {msg : List Bytes} (tight : this.room spare displayBufSize < 8 + msg.flatten.length) :
    ∃ next : NixWriter W, this.writeDisplay spare displayBufSize polls msg = (.panic, next) ∨
      this.writeDisplay spare displayBufSize polls msg = (.error unsupported, next) ∧ next.Stands ∧
        next.sent = this.sent := by
  unfold writeDisplay
  rcases makeRoom_makes spare displayBufSize polls stands with
    ⟨first, made, stands, same, room, _⟩ | ⟨_, next, stuck⟩
  · rw [made]
    simp only
    rcases render_spec first msg with ⟨fits, _⟩ | ⟨_, panics | fails⟩
    · omega
    · rw [panics]
      exact ⟨first, .inl rfl⟩
    · rw [fails]
      exact ⟨first, .inr ⟨rfl, stands, same⟩⟩
  · rw [stuck]
    exact ⟨next, .inl rfl⟩

/-- Whatever was written, flushed and displayed, the writer stands and holds what it has accepted. -/
theorem Reached.stands {spare : Spare} {displayBufSize : Nat} {first this : NixWriter W} {given accepted : Bytes}
    (stands : first.Stands) (reached : Reached spare displayBufSize first given this accepted) :
    this.Stands ∧ ∀ before, first.sent = before ++ given → this.sent = before ++ accepted := by
  induction reached with
  | start => exact ⟨stands, fun _ same => same⟩
  | @write this next accepted buf n _ polled ih =>
    have wrote := pollWriteData_wrote spare ih.1 buf
    rw [polled] at wrote
    cases wrote with
    | ready stands within some same spent =>
      refine ⟨stands, fun before start => ?_⟩
      rw [same, ih.2 before start, List.append_assoc]
  | @writePending this next accepted buf _ polled ih =>
    have wrote := pollWriteData_wrote spare ih.1 buf
    rw [polled] at wrote
    cases wrote with
    | pending stands same less => exact ⟨stands, fun before start => same.trans (ih.2 before start)⟩
  | @flush this next accepted answer _ polled ih =>
    have flushed := pollFlushBuf_flushed spare ih.1
    rw [pollFlushAll] at polled
    generalize this.pollFlushBuf spare = result at flushed polled
    cases flushed with
    | @ready middle stands same empty room reserve spent =>
      have settled := pollFlush_settles stands.steady
      simp only [settleInner] at polled
      generalize pollFlush middle.inner = below at settled polled
      cases settled with
      | ready same' steady spent' =>
        cases polled
        refine ⟨⟨steady, stands.within⟩, fun before start => ?_⟩
        rw [← ih.2 before start, ← same, sent, sent, same']
      | pending same' steady less =>
        cases polled
        refine ⟨⟨steady, stands.within⟩, fun before start => ?_⟩
        rw [← ih.2 before start, ← same, sent, sent, same']
    | pending stands same room reserve less =>
      cases polled
      exact ⟨stands, fun before start => same.trans (ih.2 before start)⟩
  | @display this next accepted polls msg _ done ih =>
    by_cases fits : 8 + msg.flatten.length ≤ this.room spare displayBufSize
    · rcases writeDisplay_fits spare displayBufSize polls ih.1 fits with ⟨last, shown, stands, same⟩ | ⟨_, last, stuck⟩
      · rw [done] at shown
        cases shown
        refine ⟨stands, fun before start => ?_⟩
        rw [same, ih.2 before start, List.append_assoc]
      · rw [done] at stuck
        cases stuck
    · obtain ⟨last, stuck | ⟨failed, _⟩⟩ := writeDisplay_tight spare displayBufSize polls ih.1 (Nat.lt_of_not_le fits)
      · rw [done] at stuck
        cases stuck
      · rw [done] at failed
        cases failed
  | @refused this next accepted polls msg error _ failed ih =>
    by_cases fits : 8 + msg.flatten.length ≤ this.room spare displayBufSize
    · rcases writeDisplay_fits spare displayBufSize polls ih.1 fits with ⟨last, shown, _⟩ | ⟨_, last, stuck⟩
      · rw [failed] at shown
        cases shown
      · rw [failed] at stuck
        cases stuck
    · obtain ⟨last, stuck | ⟨told, stands, same⟩⟩ :=
        writeDisplay_tight spare displayBufSize polls ih.1 (Nat.lt_of_not_le fits)
      · rw [failed] at stuck
        cases stuck
      · rw [failed] at told
        cases told
        exact ⟨stands, fun before start => same.trans (ih.2 before start)⟩

omit [PatientWrite W] [LawfulPatience W] in
/-- A new writer stands. -/
theorem build_stands (builder : NixWriterBuilder) (extra : Nat) {inner : W} (steady : Steady inner) :
    (builder.build extra inner).Stands ∧ (builder.build extra inner).sent = written inner ++ builder.given := by
  unfold NixWriterBuilder.build NixWriterBuilder.given
  cases builder.buf with
  | none => exact ⟨⟨steady, Nat.zero_le _⟩, rfl⟩
  | some buf => exact ⟨⟨steady, buf.fits⟩, rfl⟩

/-- After any writes, flushes and displays, told failures included, everything the writer has accepted is
delivered in order; and a text is displayed as `write_slice` writes it, behind all that was accepted before,
exactly when it fits with its length into the room that the flush of `write_display` leaves. -/
theorem writeDisplay_exact (spare : Spare) (builder : NixWriterBuilder) (extra : Nat) {inner : W}
    (steady : Steady inner) {this : NixWriter W} {accepted : Bytes}
    (reached : Reached spare builder.displayBufSize (builder.build extra inner) builder.given this accepted)
    (msg : List Bytes) :
    this.Delivers spare (written inner ++ accepted) ∧
      ((∃ polls next other, this.writeDisplay spare builder.displayBufSize polls msg = (.ready (), next) ∧
          this.writeSlice spare polls msg.flatten = (.ready (), other) ∧
          next.Delivers spare (written inner ++ accepted ++ putNixSlice msg.flatten) ∧
          other.Delivers spare (written inner ++ accepted ++ putNixSlice msg.flatten)) ↔
        8 + msg.flatten.length ≤ this.room spare builder.displayBufSize) := by
  obtain ⟨first, starts⟩ := build_stands builder extra steady
  obtain ⟨stands, holds⟩ := reached.stands first
  have all := holds _ starts
  refine ⟨?_, ?_, ?_⟩
  · rw [← all]
    exact stands.delivers spare
  · rintro ⟨polls, next, _, done, _⟩
    apply Decidable.byContradiction
    intro tight
    obtain ⟨last, stuck | ⟨failed, _⟩⟩ :=
      writeDisplay_tight spare builder.displayBufSize polls stands (Nat.lt_of_not_le tight)
    · rw [done] at stuck
      cases stuck
    · rw [done] at failed
      cases failed
  · intro fits
    obtain ⟨other, wrote, standsOther, sentOther⟩ := writeSlice_sends spare stands msg.flatten (Nat.lt_succ_self _)
    rcases writeDisplay_fits spare builder.displayBufSize (turns this.inner + 8 + msg.flatten.length + 1) stands fits
      with ⟨next, done, standsNext, sentNext⟩ | ⟨few, _⟩
    · rw [all] at sentOther sentNext
      refine ⟨_, next, other, done, wrote, ?_, ?_⟩
      · rw [← sentNext]
        exact standsNext.delivers spare
      · rw [← sentOther]
        exact standsOther.delivers spare
    · omega

end Steady

/-- A writer with a small buffer. -/
def sampleBuilder : NixWriterBuilder where
  buf := none
  reservedBufSize := 16
  displayBufSize := 16
  initialBufSize := 24
  reserved := Nat.le_add_left 8 8
  displayed := Nat.le_add_left 8 8

/-- Three bytes are displayed behind twelve. -/
theorem writeDisplay_exact_sample :
    ∃ this : NixWriter Sink, this.Delivers (fun _ _ _ => 0) (List.replicate 12 7) ∧
      ∃ polls next, this.writeDisplay (fun _ _ _ => 0) 16 polls [[65], [66, 67]] = (.ready (), next) ∧
        next.Delivers (fun _ _ _ => 0) (List.replicate 12 7 ++ putNixSlice [65, 66, 67]) := by
  have steady : Sink.Steady ⟨[], [.pending, .take 3], 63⟩ := by decide
  have exact' := @writeDisplay_exact Sink _ _ _ _ (fun _ _ _ => 0) sampleBuilder 0 ⟨[], [.pending, .take 3], 63⟩
    steady _ _ (@Reached.write Sink _ _ _ _ _ _ _ _ (List.replicate 12 7) 12 .start rfl) [[65], [66, 67]]
  obtain ⟨polls, next, _, done, _, delivered, _⟩ := exact'.2.mpr (by decide)
  exact ⟨_, exact'.1, polls, next, done, delivered⟩

/-- A writer whose buffer is nearly twice as large as a length. -/
def tightBuilder : NixWriterBuilder where
  buf := none
  reservedBufSize := 8
  displayBufSize := 8
  initialBufSize := 15
  reserved := Nat.le_refl 8
  displayed := Nat.le_refl 8

/-- Behind eight bytes that were written, a flush leaves room for seven, and displaying even the empty text
panics. -/
theorem display_panics :
    ∃ this : NixWriter Sink, Reached (fun _ _ _ => 0) tightBuilder.displayBufSize
        (tightBuilder.build 0 ⟨[], [], 63⟩) tightBuilder.given this (List.replicate 8 7) ∧
      this.writeDisplay (fun _ _ _ => 0) tightBuilder.displayBufSize 2 [] =
        (.panic, ⟨⟨List.replicate 8 7, [], 63⟩, [], 7, 8⟩) ∧
      ¬ ∃ polls next, this.writeDisplay (fun _ _ _ => 0) tightBuilder.displayBufSize polls [] =
        (.ready (), next) := by
  have reached : Reached (fun _ _ _ => 0) tightBuilder.displayBufSize (tightBuilder.build 0 ⟨[], [], 63⟩)
      tightBuilder.given (⟨⟨[], [], 63⟩, List.replicate 8 7, 15, 8⟩ : NixWriter Sink) (List.replicate 8 7) :=
    @Reached.write Sink _ _ _ _ _ _ _ _ (List.replicate 8 7) 8 .start rfl
  refine ⟨_, reached, by decide, ?_⟩
  rintro ⟨polls, next, done⟩
  have steady : Sink.Steady ⟨[], [], 63⟩ := by decide
  have stands : Stands (⟨⟨[], [], 63⟩, List.replicate 8 7, 15, 8⟩ : NixWriter Sink) := ⟨steady, by decide⟩
  obtain ⟨last, stuck | ⟨failed, _⟩⟩ := writeDisplay_tight (fun _ _ _ => 0) tightBuilder.displayBufSize polls stands
    (show room _ _ _ < 8 + List.length (List.flatten []) by decide)
  · rw [done] at stuck
    cases stuck
  · rw [done] at failed
    cases failed

end NixWriter

end Harmonia.Protocol
