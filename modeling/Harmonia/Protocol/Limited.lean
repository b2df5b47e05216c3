import Harmonia.Protocol.Chunked

/-!
# Byte strings within limits

`TryReadBytesLimited` over a `BytesReader` of whose buffer slices are handed out. While more is
forced the last answer is in hand, so then the buffer is shared; at the other times it may be or not,
as the slices given out before are still held or have been dropped. What is read is decided by the
bytes, except that the reader refuses a buffer that has become too large.
-/

namespace Harmonia.Protocol

open Library BytesReader

/-- A `BytesReader`, and whether slices of its buffer are held elsewhere at the next times. -/
structure SlicedReader where
  /-- The reader. -/
  reader : BytesReader
  /-- Whether slices are held. -/
  held : List Bool
  deriving Repr

namespace SlicedReader

/-- The reader, whose slices are held or not. -/
def lent (this : SlicedReader) : BytesReader := { this.reader with shared := this.held.headD true }

instance : AsyncBytesRead SlicedReader where
  pollFillBuf this := this.lent.pollFill.map id fun reader => ⟨reader, this.held.tail⟩
  consume this amt := (this.reader.advance amt).map fun reader => ⟨reader, this.held⟩
  budget this := budget this.reader
  -- What was visible before is in hand while more is forced.
  pollForceFillBuf this :=
    ({ this.reader with shared := true }).pollForce.map id fun reader => ⟨reader, this.held⟩

/-- `prepare`. -/
def prepare (this : SlicedReader) (additional : Nat) : Option SlicedReader :=
  (this.lent.prepareBuf additional).map fun reader => ⟨reader, this.held.tail⟩

/-- The bytes not yet consumed. -/
def unread (this : SlicedReader) : Bytes := this.reader.buffer ++ this.reader.inner.stream

end SlicedReader

/-- `RangeInclusive<usize>`. -/
structure RangeInclusive where
  /-- `start`. -/
  start : Nat
  /-- `end`. -/
  last : Nat
  deriving DecidableEq, Repr

/-- `contains`. -/
def RangeInclusive.contains (range : RangeInclusive) (value : Nat) : Prop :=
  range.start ≤ value ∧ value ≤ range.last

instance (range : RangeInclusive) (value : Nat) : Decidable (range.contains value) :=
  inferInstanceAs (Decidable (_ ∧ _))

/-- `TryReadBytesLimited`. -/
inductive TryReadBytesLimited where
  /-- `ReadLen`, with the bytes read so far. -/
  | readLen (limit : RangeInclusive) (read : Bytes)
  /-- `Fill`. -/
  | fill (len aligned : Nat)
  /-- `Done`. -/
  | done
  deriving Repr

namespace TryReadBytesLimited

/-- `new`. -/
def new (limit : RangeInclusive) : TryReadBytesLimited := .readLen limit []

/-- `poll_reader` in `Fill`. -/
def pollContents {R : Type} [AsyncBytesRead R] (len aligned : Nat) (reader : R) :
    Poll (Option Bytes) × (TryReadBytesLimited × R) :=
  match pollFillBuf reader with
  | (.ready buf, reader) =>
    match forceUntil aligned aligned reader buf with
    | (.ready buf, reader) =>
      match consume reader aligned with
      | some reader =>
        if (buf.take aligned).drop len ≠ zeros.take (aligned - len) then
          (.error (invalidData "non-zero padding"), .done, reader)
        else (.ready (some ((buf.take aligned).take len)), .done, reader)
      | none => (.panic, .done, reader)
    | (.pending, reader) => (.pending, .fill len aligned, reader)
    | (.error error, reader) => (.error error, .fill len aligned, reader)
    | (.panic, reader) => (.panic, .fill len aligned, reader)
  | (.pending, reader) => (.pending, .fill len aligned, reader)
  | (.error error, reader) => (.error error, .fill len aligned, reader)
  | (.panic, reader) => (.panic, .fill len aligned, reader)

/-- `poll_reader`. -/
def pollReader : TryReadBytesLimited × SlicedReader →
    Poll (Option Bytes) × (TryReadBytesLimited × SlicedReader)
  | (.readLen limit read, reader) =>
    match TryReadU64.pollReader 8 (read, reader) with
    | (.ready (some rawLen), read, reader) =>
      if ¬ limit.contains rawLen.toNat then
        (.error (invalidData "bytes length out of range"), .readLen limit read, reader)
      else if 2 ^ 64 ≤ rawLen.toNat + 7 then
        (.error (invalidData "aligned bytes length out of range"), .readLen limit read, reader)
      else if 0 < (calcAligned rawLen).toNat then
        match reader.prepare (calcAligned rawLen).toNat with
        | some reader => pollContents rawLen.toNat (calcAligned rawLen).toNat reader
        | none => (.panic, .readLen limit read, reader)
      else (.ready (some []), .done, reader)
    | (.ready none, _, reader) => (.ready none, .done, reader)
    | (.pending, read, reader) => (.pending, .readLen limit read, reader)
    | (.error error, read, reader) => (.error error, .readLen limit read, reader)
    | (.panic, read, reader) => (.panic, .readLen limit read, reader)
  | (.fill len aligned, reader) => pollContents len aligned reader
  | (.done, reader) => (.panic, .done, reader)

end TryReadBytesLimited

/-! ## One read -/

/-- There is room for a read. -/
theorem roomy_sound {reader : BytesReader} (sound : Sound reader) :
    Sound (roomy reader) ∧ 0 < (roomy reader).remainingMut ∧ (roomy reader).inner = reader.inner ∧
      (roomy reader).buffer = reader.buffer ∧
      (roomy reader).reservedBufSize = reader.reservedBufSize ∧
      (roomy reader).maxBufSize = reader.maxBufSize := by
  have positive := sound.reserve
  unfold roomy
  split
  · obtain ⟨grown, room, inner, buffer, reserved, limit, _⟩ := grow_sound sound
    rw [reserved] at room
    exact ⟨grown, Nat.lt_of_lt_of_le positive room, inner, buffer, reserved, limit⟩
  · exact ⟨sound, by omega, rfl, rfl, rfl, rfl⟩

/-- An empty buffer does not grow. -/
theorem roomy_empty {reader : BytesReader} (sound : Sound reader) (empty : reader.buffer = []) :
    (roomy reader).allocated = reader.allocated ∧
      ((roomy reader).offset = reader.offset ∨ (roomy reader).offset = 0) := by
  have enough : max (0 + reader.reservedBufSize) reader.allocated = reader.allocated := by
    have allocation := sound.allocation
    omega
  have reuse : 0 + reader.reservedBufSize ≤ reader.allocated ∧ 0 ≤ reader.offset :=
    ⟨by rw [Nat.zero_add]; exact sound.allocation, Nat.zero_le _⟩
  unfold roomy grow
  rw [empty, List.length_nil]
  split
  · simp only
    split
    · exact ⟨rfl, .inl rfl⟩
    · split
      · exact ⟨enough, .inr rfl⟩
      · exact ⟨rfl, .inr rfl⟩
  · exact ⟨rfl, .inl rfl⟩

/-- A shared buffer grows to what is needed. -/
theorem roomy_shared {reader : BytesReader} (shared : reader.shared = true) :
    roomy reader = reader ∨ (roomy reader).offset = 0 ∧
      (roomy reader).allocated =
        max (reader.buffer.length + reader.reservedBufSize) reader.allocated := by
  unfold roomy
  split
  · unfold grow
    simp only
    split
    · exact .inl rfl
    · exact .inr ⟨rfl, rfl⟩
  · exact .inl rfl

/-- What one read does. -/
inductive Attempt (reader : BytesReader) : Poll Nat × BytesReader → Prop
  | ready {inner : Source} {bytes : Bytes} (joined : reader.inner.stream = bytes ++ inner.stream)
    (ends : bytes = [] → reader.inner.stream = []) (steady : inner.Steady)
    (spent : inner.plan.length ≤ reader.inner.plan.length)
    (fit : bytes.length ≤ (roomy reader).remainingMut)
    (held : roomy reader = reader ∨ (roomy reader).capacity ≤ reader.maxBufSize) :
    Attempt reader
      (.ready bytes.length, { roomy reader with inner := inner, buffer := reader.buffer ++ bytes })
  | pending {inner : Source} (same : inner.stream = reader.inner.stream) (steady : inner.Steady)
    (less : inner.plan.length < reader.inner.plan.length)
    (held : roomy reader = reader ∨ (roomy reader).capacity ≤ reader.maxBufSize) :
    Attempt reader (.pending, { roomy reader with inner := inner, buffer := reader.buffer })
  | refused (needed : reader.remainingMut < reader.reservedBufSize)
    (large : reader.maxBufSize < (roomy reader).capacity) :
    Attempt reader (.error (tooLarge (roomy reader).capacity), roomy reader)

/-- Reading once from a source that does not fail. -/
theorem attempt {reader : BytesReader} (sound : Sound reader) (steady : reader.inner.Steady) :
    Attempt reader reader.pollForceInternal := by
  obtain ⟨_, room, inner, buffer, _, limit⟩ := roomy_sound sound
  -- What is left to do once there is room.
  have read (held : roomy reader = reader ∨ (roomy reader).capacity ≤ reader.maxBufSize) :
      Attempt reader (roomy reader).readMore := by
    have polled := reader.inner.pollRead_polled (roomy reader).remainingMut
    unfold readMore
    rw [inner, buffer, show AsyncRead.pollRead reader.inner (roomy reader).remainingMut =
      reader.inner.pollRead (roomy reader).remainingMut from rfl]
    generalize reader.inner.pollRead (roomy reader).remainingMut = result at polled
    cases polled with
    | ready joined empty within calm spent bounded smaller =>
      refine .ready joined ?_ (calm steady) spent within held
      intro nothing
      rcases empty nothing with zero | ended
      · omega
      · exact ended
    | pending same calm less smaller => exact .pending same (calm steady) less held
    | error same unsteady spent smaller => exact absurd steady unsteady
  unfold pollForceInternal
  by_cases needed : reader.remainingMut < reader.reservedBufSize
  · have grown : roomy reader = reader.grow reader.reservedBufSize := if_pos needed
    rw [if_pos needed, reserve, ← grown]
    by_cases large : reader.maxBufSize < (roomy reader).capacity
    · rw [limit, if_pos large]
      exact .refused needed large
    · rw [limit, if_neg large]
      exact read (.inr (Nat.le_of_not_lt large))
  · have same : roomy reader = reader := if_neg needed
    rw [if_neg needed]
    have result := read (.inl same)
    rw [same] at result
    exact result

/-! ## Words -/

namespace SlicedReader

/-- The source does not fail, and the allocation has not outgrown its limit. -/
structure Settled (this : SlicedReader) : Prop where
  /-- The bookkeeping. -/
  sound : Sound this.reader
  /-- The source. -/
  steady : this.reader.inner.Steady
  /-- The limit. -/
  within : this.reader.allocated ≤ this.reader.maxBufSize

/-- Filling an empty buffer leaves it where it is. -/
theorem attempt_lent {this : SlicedReader} (settled : this.Settled) (empty : this.reader.buffer = []) :
    Sound (roomy this.lent) ∧ 0 < (roomy this.lent).remainingMut ∧
      (roomy this.lent).allocated = this.reader.allocated ∧
      ((roomy this.lent).offset = this.reader.offset ∨ (roomy this.lent).offset = 0) ∧
      (roomy this.lent).reservedBufSize = this.reader.reservedBufSize ∧
      (roomy this.lent).maxBufSize = this.reader.maxBufSize ∧
      Attempt this.lent this.lent.pollForceInternal := by
  have sound : Sound this.lent := ⟨settled.sound.reserve, settled.sound.window, settled.sound.allocation⟩
  obtain ⟨grown, room, _, _, reserved, limit⟩ := roomy_sound sound
  obtain ⟨allocated, offset⟩ := roomy_empty sound empty
  exact ⟨grown, room, allocated, offset, reserved, limit, attempt sound settled.steady⟩

/-- What fills a settled reader keeps it settled. -/
inductive Filled (this : SlicedReader) : Poll Bytes × SlicedReader → Prop
  | ready {next : SlicedReader} (settled : next.Settled) (unread : next.unread = this.unread)
    (same : this.reader.buffer ≠ [] → next.reader.buffer = this.reader.buffer)
    (ends : next.reader.buffer = [] → next.reader.inner.stream = [])
    (spent : budget next ≤ budget this)
    (allocated : next.reader.allocated = this.reader.allocated)
    (offset : next.reader.offset ≤ this.reader.offset)
    (reserved : next.reader.reservedBufSize = this.reader.reservedBufSize)
    (limit : next.reader.maxBufSize = this.reader.maxBufSize) :
    Filled this (.ready next.reader.buffer, next)
  | pending {next : SlicedReader} (settled : next.Settled) (unread : next.unread = this.unread)
    (same : next.reader.buffer = this.reader.buffer) (less : budget next < budget this)
    (allocated : next.reader.allocated = this.reader.allocated)
    (offset : next.reader.offset ≤ this.reader.offset)
    (reserved : next.reader.reservedBufSize = this.reader.reservedBufSize)
    (limit : next.reader.maxBufSize = this.reader.maxBufSize) : Filled this (.pending, next)

/-- Filling a settled reader. -/
theorem pollFill_filled {this : SlicedReader} (settled : this.Settled) :
    Filled this (pollFillBuf this) := by
  have sound := settled.sound
  change Filled this (Prod.map id _ this.lent.pollFill)
  unfold pollFill
  by_cases empty : this.reader.buffer = []
  · obtain ⟨grown, room, allocated, offset, reserved, limit, attempted⟩ := attempt_lent settled empty
    have behind : (roomy this.lent).offset ≤ this.reader.offset := by
      rcases offset with same | zero
      · exact Nat.le_of_eq same
      · rw [zero]
        exact Nat.zero_le _
    have within : (roomy this.lent).allocated ≤ (roomy this.lent).maxBufSize := by
      rw [allocated, limit]
      exact settled.within
    have window := grown.window
    have capacity : (roomy this.lent).capacity =
        (roomy this.lent).allocated - (roomy this.lent).offset := rfl
    have space : (roomy this.lent).remainingMut =
        (roomy this.lent).capacity - (roomy this.lent).buffer.length := rfl
    rw [if_pos (show this.lent.buffer = [] from empty)]
    generalize this.lent.pollForceInternal = result at attempted
    cases attempted with
    | @ready inner bytes joined ends steady spent fit held =>
      have joined : this.reader.inner.stream = bytes ++ inner.stream := joined
      have length := congrArg List.length joined
      rw [List.length_append] at length
      have shown : this.lent.buffer ++ bytes = bytes := by
        show this.reader.buffer ++ bytes = bytes
        rw [empty, List.nil_append]
      have settled' : Settled ⟨{ roomy this.lent with inner := inner, buffer := bytes }, this.held.tail⟩ := by
        refine ⟨⟨grown.reserve, ?_, grown.allocation⟩, steady, within⟩
        show (roomy this.lent).offset + bytes.length ≤ (roomy this.lent).allocated
        omega
      rw [shown]
      refine .ready settled' ?_ (fun filled => absurd empty filled) ?_ ?_ allocated behind reserved limit
      · show bytes ++ inner.stream = this.reader.buffer ++ this.reader.inner.stream
        rw [empty, List.nil_append, joined]
      · intro nothing
        have nothing : bytes = [] := nothing
        have ended : this.reader.inner.stream = [] := ends nothing
        rw [joined, nothing] at ended
        exact ended
      · show bytes.length + (inner.stream.length + inner.plan.length) ≤ this.reader.buffer.length +
          (this.reader.inner.stream.length + this.reader.inner.plan.length)
        have spent : inner.plan.length ≤ this.reader.inner.plan.length := spent
        omega
    | @pending inner same steady less held =>
      have same : inner.stream = this.reader.inner.stream := same
      have less : inner.plan.length < this.reader.inner.plan.length := less
      have settled' : Settled
          ⟨{ roomy this.lent with inner := inner, buffer := this.lent.buffer }, this.held.tail⟩ := by
        refine ⟨⟨grown.reserve, ?_, grown.allocation⟩, steady, within⟩
        show (roomy this.lent).offset + this.reader.buffer.length ≤ (roomy this.lent).allocated
        rw [empty, List.length_nil]
        omega
      refine .pending settled' ?_ rfl ?_ allocated behind reserved limit
      · show this.reader.buffer ++ inner.stream = this.reader.buffer ++ this.reader.inner.stream
        rw [same]
      · show this.reader.buffer.length + (inner.stream.length + inner.plan.length) <
          this.reader.buffer.length + (this.reader.inner.stream.length + this.reader.inner.plan.length)
        rw [same]
        omega
    | refused needed large =>
      have large : this.reader.maxBufSize < (roomy this.lent).capacity := large
      omega
  · rw [if_neg (show this.lent.buffer ≠ [] from empty)]
    refine @Filled.ready this ⟨this.lent, this.held.tail⟩
      ⟨⟨sound.reserve, sound.window, sound.allocation⟩, settled.steady, settled.within⟩ rfl
      (fun _ => rfl) (fun nothing => absurd nothing empty) (Nat.le_refl _) rfl (Nat.le_refl _) rfl rfl

/-- A settled reader shows its buffer, and does not fail. -/
def slicedView : View SlicedReader where
  Valid := Settled
  Regular _ := True
  visible this := this.reader.buffer
  rest this := this.reader.inner.stream
  chunk this := this.unread.length
  limit this := this.reader.maxBufSize
  Refuses _ := False

/-- Taking bytes that are there. -/
theorem consume_eq {this : SlicedReader} {amt : Nat} (within : amt ≤ this.reader.buffer.length) :
    consume this amt = some ⟨{ this.reader with
      buffer := this.reader.buffer.drop amt, offset := this.reader.offset + amt }, this.held⟩ := by
  show (this.reader.advance amt).map _ = _
  rw [advance, if_neg (Nat.not_lt.mpr within)]
  rfl

instance : LawfulBufRead SlicedReader where
  view := slicedView
  fills := by
    intro this settled
    have filled := pollFill_filled settled
    generalize pollFillBuf this = result at filled
    cases filled with
    | @ready next settled' unread same ends spent _ _ _ limit =>
      have room : next.reader.buffer.length ≤ this.unread.length := by
        rw [← unread, SlicedReader.unread, List.length_append]
        exact Nat.le_add_right _ _
      exact .ready ⟨settled', unread, Nat.le_of_eq (congrArg List.length unread), limit, spent⟩ id same
        (fun _ => room) ends
    | pending settled' unread same less _ _ _ limit =>
      exact .pending ⟨settled', unread, Nat.le_of_eq (congrArg List.length unread), limit,
        Nat.le_of_lt less⟩ id same less
  consumes := by
    intro this amt settled within
    have within : amt ≤ this.reader.buffer.length := within
    have window := settled.sound.window
    refine ⟨_, consume_eq within, ⟨⟨settled.sound.reserve, ?_, settled.sound.allocation⟩, settled.steady,
      settled.within⟩, id, rfl, rfl, ?_, rfl, ?_⟩
    · show this.reader.offset + amt + (this.reader.buffer.drop amt).length ≤ this.reader.allocated
      rw [List.length_drop]
      omega
    · show (this.reader.buffer.drop amt ++ this.reader.inner.stream).length ≤
        (this.reader.buffer ++ this.reader.inner.stream).length
      rw [List.length_append, List.length_append, List.length_drop]
      omega
    · show (this.reader.buffer.drop amt).length + this.reader.inner.budget + amt ≤
        this.reader.buffer.length + this.reader.inner.budget
      rw [List.length_drop]
      omega
  covered := by
    intro this
    show (this.reader.buffer ++ this.reader.inner.stream).length ≤
      this.reader.buffer.length + (this.reader.inner.stream.length + this.reader.inner.plan.length)
    rw [List.length_append]
    omega

end SlicedReader

/-- What filling a buffer and taking bytes keeps, reading a word keeps. -/
theorem TryReadU64.pollReader_keeps {R : Type} [AsyncBufRead R] {I : Nat → R → Prop}
    (fill : ∀ {count : Nat} {reader : R}, I count reader → I count (pollFillBuf reader).2)
    (take : ∀ {count amt : Nat} {reader next : R}, I count reader → consume reader amt = some next →
      I (count + amt) next) (fuel : Nat) {read : Bytes} {reader : R} (holds : I read.length reader) :
    I (pollReader fuel (read, reader)).2.1.length (pollReader fuel (read, reader)).2.2 := by
  induction fuel generalizing read reader with
  | zero =>
    unfold pollReader
    split
    · exact holds
    · exact holds
  | succ fuel ih =>
    unfold pollReader
    split
    case isTrue =>
      have filled := fill holds
      unfold pollRead
      generalize pollFillBuf reader = result at filled
      obtain ⟨answer, shown⟩ := result
      cases answer with
      | ready buf =>
        simp only
        by_cases nothing : buf = []
        · rw [if_pos nothing]
          simp only [if_true]
          split
          · exact filled
          · exact filled
        · rw [if_neg nothing]
          cases took : consume shown (min buf.length (8 - read.length)) with
          | none => exact filled
          | some next =>
            have taken := take filled took
            have size : read.length + min buf.length (8 - read.length) =
                (read ++ buf.take (min buf.length (8 - read.length))).length := by
              rw [List.length_append, List.length_take]
              omega
            simp only
            split
            · rename_i none
              rw [none, List.append_nil] at size
              rw [size] at taken
              split
              · exact taken
              · exact taken
            · rw [size] at taken
              exact ih taken
      | pending => exact filled
      | error error => exact filled
      | panic => exact filled
    case isFalse => exact holds

namespace SlicedReader

/-- How far a reader has moved while a word was read: its allocation is the same one, and its window starts
no further behind than what was taken. -/
structure Near (start : BytesReader) (count : Nat) (this : SlicedReader) : Prop where
  /-- It stays settled. -/
  settled : this.Settled
  /-- The allocation. -/
  allocated : this.reader.allocated = start.allocated
  /-- The window. -/
  offset : this.reader.offset ≤ start.offset + count
  /-- `reserved_buf_size`. -/
  reserved : this.reader.reservedBufSize = start.reservedBufSize
  /-- `max_buf_size`. -/
  limit : this.reader.maxBufSize = start.maxBufSize

/-- Reading a word does not move far. -/
theorem near_word {start : BytesReader} (fuel : Nat) {read : Bytes} {this : SlicedReader}
    (near : Near start read.length this) :
    Near start (TryReadU64.pollReader fuel (read, this)).2.1.length
      (TryReadU64.pollReader fuel (read, this)).2.2 := by
  refine TryReadU64.pollReader_keeps ?_ ?_ fuel near
  · intro count this near
    have filled := pollFill_filled near.settled
    generalize pollFillBuf this = result at filled
    cases filled with
    | ready settled _ _ _ _ allocated offset reserved limit =>
      exact ⟨settled, allocated.trans near.allocated, Nat.le_trans offset near.offset,
        reserved.trans near.reserved, limit.trans near.limit⟩
    | pending settled _ _ _ allocated offset reserved limit =>
      exact ⟨settled, allocated.trans near.allocated, Nat.le_trans offset near.offset,
        reserved.trans near.reserved, limit.trans near.limit⟩
  · intro count amt this next near took
    by_cases within : amt ≤ this.reader.buffer.length
    · obtain ⟨_, took', settled, _⟩ :=
        @consumes SlicedReader _ _ this amt near.settled within
      rw [took] at took'
      cases took'
      rw [consume_eq within] at took
      cases took
      refine ⟨settled, near.allocated, ?_, near.reserved, near.limit⟩
      have offset := near.offset
      show this.reader.offset + amt ≤ _
      omega
    · have short : this.reader.advance amt = none := if_pos (Nat.lt_of_not_le within)
      change (this.reader.advance amt).map _ = some next at took
      rw [short] at took
      cases took

/-! ## Contents -/

/-- What reading contents keeps of a reader. -/
structure Keeps (reader next : BytesReader) : Prop where
  /-- The bookkeeping. -/
  sound : Sound next
  /-- The source. -/
  steady : next.inner.Steady
  /-- The bytes. -/
  unread : next.buffer ++ next.inner.stream = reader.buffer ++ reader.inner.stream
  /-- `reserved_buf_size`. -/
  reserved : next.reservedBufSize = reader.reservedBufSize
  /-- `max_buf_size`. -/
  limit : next.maxBufSize = reader.maxBufSize
  /-- The budget, which does not grow. -/
  spent : budget next ≤ budget reader
  /-- A window within the limit stays there. -/
  capacity : reader.capacity ≤ reader.maxBufSize → next.capacity ≤ next.maxBufSize

/-- Nothing is lost where nothing is done. -/
theorem Keeps.refl {reader : BytesReader} (sound : Sound reader) (steady : reader.inner.Steady) :
    Keeps reader reader :=
  ⟨sound, steady, rfl, rfl, rfl, Nat.le_refl _, id⟩

/-- Steps add up. -/
theorem Keeps.trans {first second third : BytesReader} (one : Keeps first second)
    (two : Keeps second third) : Keeps first third :=
  ⟨two.sound, two.steady, two.unread.trans one.unread, two.reserved.trans one.reserved,
    two.limit.trans one.limit, Nat.le_trans two.spent one.spent, two.capacity ∘ one.capacity⟩

/-- So many bytes fit into the buffer without a refusal: it may still grow for the last of them, or it
does not have to. -/
def Ample (need : Nat) (reader : BytesReader) : Prop :=
  (reader.allocated ≤ reader.maxBufSize ∧ need + reader.reservedBufSize ≤ reader.maxBufSize) ∨
    need + reader.reservedBufSize ≤ reader.capacity + 1

/-- A buffer that is ample is not refused while bytes are missing, and stays ample. -/
theorem roomy_ample {need : Nat} {reader : BytesReader} (sound : Sound reader)
    (grows : reader.shared = true ∨ reader.buffer = []) (few : reader.buffer.length < need)
    (ample : Ample need reader) :
    (reader.remainingMut < reader.reservedBufSize → (roomy reader).capacity ≤ reader.maxBufSize) ∧
      Ample need (roomy reader) := by
  obtain ⟨_, _, _, _, reserved, limit⟩ := roomy_sound sound
  by_cases needed : reader.remainingMut < reader.reservedBufSize
  · have space : reader.remainingMut = reader.capacity - reader.buffer.length := rfl
    rcases ample with ⟨within, most⟩ | enough
    · have allocated : (roomy reader).allocated ≤ reader.maxBufSize := by
        rcases grows with shared | empty
        · rcases roomy_shared shared with same | ⟨_, grown⟩
          · rw [same]
            exact within
          · rw [grown]
            omega
        · rw [(roomy_empty sound empty).1]
          exact within
      have capacity : (roomy reader).capacity ≤ (roomy reader).allocated := Nat.sub_le _ _
      refine ⟨fun _ => Nat.le_trans capacity allocated, .inl ⟨?_, ?_⟩⟩
      · rw [limit]
        exact allocated
      · rw [limit, reserved]
        exact most
    · omega
  · have same : roomy reader = reader := if_neg needed
    rw [same]
    exact ⟨fun wrong => absurd wrong needed, ample⟩

/-- What a read for missing bytes does. -/
inductive ReadFor (need : Nat) (reader : BytesReader) : Poll Nat × BytesReader → Prop
  | ready {next : BytesReader} {bytes : Bytes} (keeps : Keeps reader next)
    (grown : next.buffer = reader.buffer ++ bytes) (ends : bytes = [] → reader.inner.stream = [])
    (ample : Ample need reader → Ample need next) : ReadFor need reader (.ready bytes.length, next)
  | pending {next : BytesReader} (keeps : Keeps reader next) (same : next.buffer = reader.buffer)
    (ample : Ample need reader → Ample need next) (less : budget next < budget reader) :
    ReadFor need reader (.pending, next)
  | refused {next : BytesReader} {capacity : Nat} (keeps : bytesView.unread next = bytesView.unread reader)
    (large : reader.maxBufSize < capacity) (never : ¬ Ample need reader) :
    ReadFor need reader (.error (tooLarge capacity), next)

/-- Reading for missing bytes. -/
theorem readFor {need : Nat} {reader : BytesReader} (sound : Sound reader)
    (steady : reader.inner.Steady) (grows : reader.shared = true ∨ reader.buffer = [])
    (few : reader.buffer.length < need) : ReadFor need reader reader.pollForceInternal := by
  obtain ⟨grown, _, inner, buffer, reserved, limit⟩ := roomy_sound sound
  have ample := @roomy_ample need reader sound grows few
  have window := grown.window
  have capacity : (roomy reader).capacity = (roomy reader).allocated - (roomy reader).offset := rfl
  have space : (roomy reader).remainingMut = (roomy reader).capacity - (roomy reader).buffer.length := rfl
  rw [buffer] at window space
  have attempted := attempt sound steady
  generalize reader.pollForceInternal = result at attempted
  have within (held : roomy reader = reader ∨ (roomy reader).capacity ≤ reader.maxBufSize)
      (before : reader.capacity ≤ reader.maxBufSize) :
      (roomy reader).capacity ≤ (roomy reader).maxBufSize := by
    rw [limit]
    rcases held with same | small
    · rw [same]
      exact before
    · exact small
  cases attempted with
  | @ready inner' bytes joined ends steady' spent fit held =>
    have length := congrArg List.length joined
    rw [List.length_append] at length
    refine .ready ⟨⟨grown.reserve, ?_, grown.allocation⟩, steady', ?_, reserved, limit, ?_,
      within held⟩ rfl ends fun enough => (ample enough).2
    · show (roomy reader).offset + (reader.buffer ++ bytes).length ≤ (roomy reader).allocated
      rw [List.length_append]
      omega
    · show reader.buffer ++ bytes ++ inner'.stream = _
      rw [List.append_assoc, joined]
    · show (reader.buffer ++ bytes).length + (inner'.stream.length + inner'.plan.length) ≤
        reader.buffer.length + (reader.inner.stream.length + reader.inner.plan.length)
      rw [List.length_append]
      omega
  | @pending inner' same steady' less held =>
    have spent : budget { roomy reader with inner := inner', buffer := reader.buffer } <
        budget reader := by
      show reader.buffer.length + (inner'.stream.length + inner'.plan.length) <
        reader.buffer.length + (reader.inner.stream.length + reader.inner.plan.length)
      rw [same]
      omega
    refine .pending ⟨⟨grown.reserve, window, grown.allocation⟩, steady', ?_, reserved, limit,
      Nat.le_of_lt spent, within held⟩ rfl (fun enough => (ample enough).2) spent
    show reader.buffer ++ inner'.stream = _
    rw [same]
  | refused needed large =>
    refine .refused ?_ large ?_
    · show (roomy reader).buffer ++ (roomy reader).inner.stream = _
      rw [buffer, inner]
      rfl
    · intro enough
      exact absurd ((ample enough).1 needed) (Nat.not_le.mpr large)

/-- What forcing more does. -/
inductive Forced (need : Nat) (this : SlicedReader) : Poll Bytes × SlicedReader → Prop
  | ready {next : SlicedReader} (keeps : Keeps this.reader next.reader)
    (ample : Ample need this.reader → Ample need next.reader)
    (longer : this.reader.buffer.length < next.reader.buffer.length) :
    Forced need this (.ready next.reader.buffer, next)
  | pending {next : SlicedReader} (keeps : Keeps this.reader next.reader)
    (ample : Ample need this.reader → Ample need next.reader) (less : budget next < budget this) :
    Forced need this (.pending, next)
  | short {next : SlicedReader} (few : this.unread.length < need) :
    Forced need this (.error forceEof, next)
  | refused {next : SlicedReader} {capacity : Nat} (large : this.reader.maxBufSize < capacity)
    (never : ¬ Ample need this.reader) : Forced need this (.error (tooLarge capacity), next)

/-- Forcing more while bytes are missing. -/
theorem pollForce_forced {need : Nat} {this : SlicedReader} (sound : Sound this.reader)
    (steady : this.reader.inner.Steady) (few : this.reader.buffer.length < need) :
    Forced need this (pollForceFillBuf this) := by
  have read := @readFor need { this.reader with shared := true }
    ⟨sound.reserve, sound.window, sound.allocation⟩ steady (.inl rfl) few
  have keep {next : BytesReader} (keeps : Keeps { this.reader with shared := true } next) :
      Keeps this.reader next :=
    ⟨keeps.sound, keeps.steady, keeps.unread, keeps.reserved, keeps.limit, keeps.spent, keeps.capacity⟩
  change Forced need this (Prod.map id _ (pollForce _))
  unfold pollForce
  generalize pollForceInternal { this.reader with shared := true } = result at read
  cases read with
  | @ready next bytes keeps grown ends ample =>
    have length := congrArg List.length grown
    rw [List.length_append] at length
    have length : next.buffer.length = this.reader.buffer.length + bytes.length := length
    simp only
    by_cases zero : bytes.length = 0
    · rw [if_pos zero]
      refine .short ?_
      have ended : this.reader.inner.stream = [] := ends (List.eq_nil_of_length_eq_zero zero)
      rw [SlicedReader.unread, ended, List.append_nil]
      exact few
    · rw [if_neg zero]
      exact @Forced.ready need this ⟨next, this.held⟩ (keep keeps) ample (by
        show this.reader.buffer.length < next.buffer.length
        omega)
  | @pending next keeps same ample less =>
    exact @Forced.pending need this ⟨next, this.held⟩ (keep keeps) ample less
  | @refused next capacity _ large never => exact .refused large never

/-- What gathering contents does. -/
inductive Gathered (need : Nat) (this : SlicedReader) : Poll Bytes × SlicedReader → Prop
  | ready {next : SlicedReader} (keeps : Keeps this.reader next.reader)
    (enough : need ≤ next.reader.buffer.length) : Gathered need this (.ready next.reader.buffer, next)
  | pending {next : SlicedReader} (keeps : Keeps this.reader next.reader)
    (ample : Ample need this.reader → Ample need next.reader) (less : budget next < budget this) :
    Gathered need this (.pending, next)
  | short {next : SlicedReader} (few : this.unread.length < need) :
    Gathered need this (.error forceEof, next)
  | refused {next : SlicedReader} {capacity : Nat} (large : this.reader.maxBufSize < capacity)
    (never : ¬ Ample need this.reader) : Gathered need this (.error (tooLarge capacity), next)

/-- Gathering goes on where a read has left it. -/
theorem Gathered.of_next {need : Nat} {this next : SlicedReader} {result : Poll Bytes × SlicedReader}
    (keeps : Keeps this.reader next.reader) (ample : Ample need this.reader → Ample need next.reader)
    (later : Gathered need next result) : Gathered need this result := by
  have spent : budget next ≤ budget this := keeps.spent
  cases later with
  | ready keeps' enough => exact .ready (keeps.trans keeps') enough
  | pending keeps' ample' less =>
    exact .pending (keeps.trans keeps') (ample' ∘ ample) (Nat.lt_of_lt_of_le less spent)
  | short few =>
    refine .short ?_
    have same : next.unread = this.unread := keeps.unread
    rw [← same]
    exact few
  | refused large never =>
    rw [keeps.limit] at large
    exact .refused large fun enough => never (ample enough)

/-- Gathering contents from what is visible. -/
theorem forceUntil_gathered (need : Nat) (fuel : Nat) {this : SlicedReader} (sound : Sound this.reader)
    (steady : this.reader.inner.Steady) (enough : need ≤ this.reader.buffer.length + fuel) :
    Gathered need this (forceUntil need fuel this this.reader.buffer) := by
  induction fuel generalizing this with
  | zero =>
    rw [forceUntil, if_pos (by omega)]
    exact .ready (.refl sound steady) (by omega)
  | succ fuel ih =>
    by_cases long : need ≤ this.reader.buffer.length
    · rw [forceUntil, if_pos long]
      exact .ready (.refl sound steady) long
    · rw [forceUntil, if_neg long]
      have forced := pollForce_forced sound steady (Nat.lt_of_not_le long)
      generalize pollForceFillBuf this = result at forced
      cases forced with
      | ready keeps ample longer =>
        exact .of_next keeps ample (ih keeps.sound keeps.steady (by omega))
      | pending keeps ample less => exact .pending keeps ample less
      | short few => exact .short few
      | refused large never => exact .refused large never

/-- What filling does when bytes are missing. -/
inductive FilledFor (need : Nat) (this : SlicedReader) : Poll Bytes × SlicedReader → Prop
  | ready {next : SlicedReader} (keeps : Keeps this.reader next.reader)
    (ample : Ample need this.reader → Ample need next.reader) :
    FilledFor need this (.ready next.reader.buffer, next)
  | pending {next : SlicedReader} (keeps : Keeps this.reader next.reader)
    (ample : Ample need this.reader → Ample need next.reader) (less : budget next < budget this) :
    FilledFor need this (.pending, next)
  | refused {next : SlicedReader} {capacity : Nat} (large : this.reader.maxBufSize < capacity)
    (never : ¬ Ample need this.reader) : FilledFor need this (.error (tooLarge capacity), next)

/-- Filling when bytes are missing. -/
theorem pollFill_filledFor {need : Nat} {this : SlicedReader} (sound : Sound this.reader)
    (steady : this.reader.inner.Steady) (positive : 0 < need) : FilledFor need this (pollFillBuf this) := by
  have sound' : Sound this.lent := ⟨sound.reserve, sound.window, sound.allocation⟩
  have keep {next : BytesReader} (keeps : Keeps this.lent next) : Keeps this.reader next :=
    ⟨keeps.sound, keeps.steady, keeps.unread, keeps.reserved, keeps.limit, keeps.spent, keeps.capacity⟩
  change FilledFor need this (Prod.map id _ this.lent.pollFill)
  unfold pollFill
  by_cases empty : this.lent.buffer = []
  · have few : this.lent.buffer.length < need := by
      rw [empty]
      exact positive
    have read := readFor sound' steady (.inr empty) few
    rw [if_pos empty]
    generalize this.lent.pollForceInternal = result at read
    cases read with
    | @ready next bytes keeps grown ends ample =>
      exact @FilledFor.ready need this ⟨next, this.held.tail⟩ (keep keeps) ample
    | @pending next keeps same ample less =>
      exact @FilledFor.pending need this ⟨next, this.held.tail⟩ (keep keeps) ample less
    | refused _ large never => exact .refused large never
  · rw [if_neg empty]
    exact @FilledFor.ready need this ⟨this.lent, this.held.tail⟩ (keep (.refl sound' steady)) id

/-- What polling for contents does. -/
inductive ContentsPolled (len aligned : Nat) (this : SlicedReader) :
    Poll (Option Bytes) × (TryReadBytesLimited × SlicedReader) → Prop
  | ready {next : SlicedReader} (enough : aligned ≤ this.unread.length)
    (clean : (this.unread.take aligned).drop len = zeros.take (aligned - len))
    (left : next.unread = this.unread.drop aligned)
    (within : this.reader.capacity ≤ this.reader.maxBufSize → aligned ≤ this.reader.maxBufSize) :
    ContentsPolled len aligned this (.ready (some (this.unread.take len)), .done, next)
  | padding {next : SlicedReader}
    (dirty : (this.unread.take aligned).drop len ≠ zeros.take (aligned - len)) :
    ContentsPolled len aligned this (.error (invalidData "non-zero padding"), .done, next)
  | pending {next : SlicedReader} (keeps : Keeps this.reader next.reader)
    (ample : Ample aligned this.reader → Ample aligned next.reader) (less : budget next < budget this) :
    ContentsPolled len aligned this (.pending, .fill len aligned, next)
  | short {next : SlicedReader} (few : this.unread.length < aligned) :
    ContentsPolled len aligned this (.error forceEof, .fill len aligned, next)
  | refused {next : SlicedReader} {capacity : Nat} (large : this.reader.maxBufSize < capacity)
    (never : ¬ Ample aligned this.reader) :
    ContentsPolled len aligned this (.error (tooLarge capacity), .fill len aligned, next)

/-- Contents that are there are taken out of the buffer. -/
theorem contents_taken {aligned : Nat} {this next : SlicedReader}
    (keeps : Keeps this.reader next.reader) (enough : aligned ≤ next.reader.buffer.length) :
    ∃ after, consume next aligned = some after ∧ after.unread = this.unread.drop aligned ∧
      next.reader.buffer.take aligned = this.unread.take aligned ∧ aligned ≤ this.unread.length ∧
      (this.reader.capacity ≤ this.reader.maxBufSize → aligned ≤ this.reader.maxBufSize) := by
  have same : next.unread = this.unread := keeps.unread
  refine ⟨_, consume_eq enough, ?_, ?_, ?_, ?_⟩
  · rw [← same]
    exact (List.drop_append_of_le_length enough).symm
  · rw [← same]
    exact (List.take_append_of_le_length enough).symm
  · rw [← same, unread, List.length_append]
    omega
  · intro before
    have after := keeps.capacity before
    have window := keeps.sound.window
    have capacity : next.reader.capacity = next.reader.allocated - next.reader.offset := rfl
    rw [keeps.limit] at after
    omega

/-- Polling for contents. -/
theorem pollContents_polled {len aligned : Nat} {this : SlicedReader} (sound : Sound this.reader)
    (steady : this.reader.inner.Steady) (positive : 0 < aligned) (content : len ≤ aligned) :
    ContentsPolled len aligned this (TryReadBytesLimited.pollContents len aligned this) := by
  unfold TryReadBytesLimited.pollContents
  have filled := pollFill_filledFor sound steady positive
  generalize pollFillBuf this = result at filled
  cases filled with
  | pending keeps ample less => exact .pending keeps ample less
  | refused large never => exact .refused large never
  | @ready shown keeps ample =>
    have gathered := Gathered.of_next keeps ample
      (forceUntil_gathered aligned aligned keeps.sound keeps.steady (Nat.le_add_left _ _))
    simp only
    generalize forceUntil aligned aligned shown shown.reader.buffer = result at gathered
    cases gathered with
    | pending keeps' ample' less => exact .pending keeps' ample' less
    | short few => exact .short few
    | refused large never => exact .refused large never
    | @ready next keeps' enough =>
      obtain ⟨after, took, left, start, whole, within⟩ := contents_taken keeps' enough
      simp only [took, start]
      by_cases dirty : (this.unread.take aligned).drop len ≠ zeros.take (aligned - len)
      · rw [if_pos dirty]
        exact .padding dirty
      · rw [if_neg dirty, List.take_take, Nat.min_eq_left content]
        exact .ready whole (Decidable.of_not_not dirty) left within

/-! ## Making room -/

/-- A reader whose buffer is as the builder made it, and is large enough for a word and its neighbour. -/
structure Fresh (reader : BytesReader) : Prop where
  /-- The window. -/
  offset : reader.offset = 0
  /-- The allocation. -/
  allocated : reader.allocated = 2 * reader.reservedBufSize
  /-- The reserve. -/
  reserve : 16 ≤ reader.reservedBufSize

/-- Making room for an announced length leaves the window within the limit. Just behind a word in a fresh
buffer it makes room enough: either the allocation keeps its limit, or it need not grow again. -/
theorem grow_announced {reader : BytesReader} (sound : Sound reader) {additional : Nat}
    (within : reader.allocated ≤ reader.maxBufSize)
    (more : reader.buffer.length + reader.buffer.length < additional)
    (few : reader.capacity + additional < reader.maxBufSize) :
    ∃ offset allocated, reader.grow (additional - (reader.buffer.length + reader.buffer.length)) =
        { reader with offset := offset, allocated := allocated } ∧
      offset + reader.buffer.length ≤ allocated ∧ reader.reservedBufSize ≤ allocated ∧
      allocated - offset ≤ reader.maxBufSize ∧ allocated ≤ max reader.allocated (2 * additional) ∧
      (reader.allocated = 2 * reader.reservedBufSize → 16 ≤ reader.reservedBufSize →
        reader.offset ≤ 8 → additional + reader.reservedBufSize ≤ reader.maxBufSize →
        allocated ≤ reader.maxBufSize ∨
          additional + reader.reservedBufSize ≤ allocated - offset + 1) := by
  have bound := grow_allocated sound.window more
  have window := sound.window
  have allocation := sound.allocation
  have capacity : reader.capacity = reader.allocated - reader.offset := rfl
  have space : reader.remainingMut = reader.capacity - reader.buffer.length := rfl
  generalize extra : additional - (reader.buffer.length + reader.buffer.length) = missing at bound ⊢
  unfold grow at bound ⊢
  simp only at bound ⊢
  by_cases room : missing ≤ reader.remainingMut
  · rw [if_pos room] at bound ⊢
    exact ⟨_, _, rfl, window, allocation, by omega, bound, fun _ _ _ _ => .inl within⟩
  · rw [if_neg room] at bound ⊢
    by_cases shared : reader.shared = true
    · rw [if_pos shared] at bound ⊢
      refine ⟨_, _, rfl, ?_, ?_, ?_, bound, fun _ _ _ _ => .inl ?_⟩
      · omega
      · omega
      · omega
      · omega
    · rw [if_neg shared] at bound ⊢
      by_cases reuse : reader.buffer.length + missing ≤ reader.allocated ∧
          reader.buffer.length ≤ reader.offset
      · rw [if_pos reuse] at bound ⊢
        refine ⟨0, reader.allocated, rfl, ?_, allocation, ?_, bound, fun _ _ _ _ => .inl within⟩
        · omega
        · omega
      · rw [if_neg reuse] at bound ⊢
        refine ⟨_, _, rfl, ?_, ?_, ?_, bound, ?_⟩
        · omega
        · omega
        · omega
        · intro fresh large near fits
          omega

/-- Making room for an announced length behind a word. -/
theorem prepare_some {start : BytesReader} {this : SlicedReader} (near : Near start 8 this)
    (small : start.maxBufSize < 2 ^ 62) {additional : Nat}
    (noWrap : start.allocated + additional < 2 ^ 64) :
    ∃ next, this.prepare additional = some next ∧ Keeps this.reader next.reader ∧
      next.reader.capacity ≤ next.reader.maxBufSize ∧
      (Fresh start → additional + start.reservedBufSize ≤ start.maxBufSize →
        Ample additional next.reader) := by
  have settled := near.settled
  have within := settled.within
  have allocated := near.allocated
  have reserved := near.reserved
  have limit := near.limit
  have capacity : this.reader.capacity = this.reader.allocated - this.reader.offset := rfl
  have sound : Sound this.lent :=
    ⟨settled.sound.reserve, settled.sound.window, settled.sound.allocation⟩
  have room : this.lent.capacity = this.reader.capacity := rfl
  have same : Keeps this.reader this.lent ∧ this.lent.capacity ≤ this.lent.maxBufSize ∧
      (Fresh start → additional + start.reservedBufSize ≤ start.maxBufSize →
        Ample additional this.lent) := by
    refine ⟨⟨sound, settled.steady, rfl, rfl, rfl, Nat.le_refl _, id⟩, ?_,
      fun _ fits => .inl ⟨within, ?_⟩⟩
    · show this.reader.allocated - this.reader.offset ≤ this.reader.maxBufSize
      omega
    · show additional + this.reader.reservedBufSize ≤ this.reader.maxBufSize
      rw [reserved, limit]
      exact fits
  unfold prepare prepareBuf
  simp only
  split
  case isTrue => exact ⟨_, rfl, same⟩
  case isFalse more =>
    rw [if_neg (by omega)]
    split
    case isFalse => exact ⟨_, rfl, same⟩
    case isTrue few =>
      obtain ⟨offset, allocated', grown, window, allocation, held, bound, fresh⟩ :=
        @grow_announced this.lent sound additional within (Nat.lt_of_not_le more) few
      have bound : allocated' ≤ max this.reader.allocated (2 * additional) := bound
      have few : this.reader.capacity + additional < this.reader.maxBufSize := few
      rw [grown, if_neg (by
        show ¬ 2 ^ 63 ≤ allocated'
        omega)]
      refine ⟨_, rfl, ?_, held, ?_⟩
      · exact ⟨⟨sound.reserve, window, allocation⟩, settled.steady, rfl, rfl, rfl, Nat.le_refl _,
          fun _ => held⟩
      · intro young fits
        have turned := fresh (by
          show this.reader.allocated = 2 * this.reader.reservedBufSize
          rw [allocated, reserved, young.allocated]) (by
          show 16 ≤ this.reader.reservedBufSize
          rw [reserved]
          exact young.reserve) (by
          show this.reader.offset ≤ 8
          have behind := near.offset
          rw [young.offset] at behind
          omega) (by
          show additional + this.reader.reservedBufSize ≤ this.reader.maxBufSize
          rw [reserved, limit]
          exact fits)
        rcases turned with kept | enough
        · refine .inl ⟨kept, ?_⟩
          show additional + this.reader.reservedBufSize ≤ this.reader.maxBufSize
          rw [reserved, limit]
          exact fits
        · exact .inr enough

end SlicedReader

/-! ## The canonical form -/

/-- A byte string of an allowed length in its canonical form, and what follows it. -/
structure Canonical (limit : RangeInclusive) (v input rest : Bytes) : Prop where
  /-- The length is allowed. -/
  within : limit.contains v.length
  /-- Its alignment does not overflow. -/
  fits : v.length + 7 < 2 ^ 64
  /-- The length, the bytes and the padding. -/
  joined : input = toLeBytes (UInt64.ofNat v.length) ++
    (v ++ (List.replicate (alignNat v.length - v.length) 0 ++ rest))

/-- Zeros up to a multiple of eight. -/
theorem zeros_take (len : Nat) :
    zeros.take (alignNat len - len) = List.replicate (alignNat len - len) 0 := by
  show (List.replicate 8 (0 : UInt8)).take _ = _
  rw [List.take_replicate, Nat.min_eq_left (by unfold alignNat; omega)]

section Announced

variable {limit : RangeInclusive} {input after : Bytes} {rawLen : UInt64}
  (announced : input = toLeBytes rawLen ++ after)

include announced

/-- What begins with a word is not empty. -/
theorem announced_nonempty : input ≠ [] := by
  intro nothing
  have word := toLeBytes_length rawLen
  rw [announced] at nothing
  rw [(List.append_eq_nil_iff.mp nothing).1] at word
  cases word

/-- What a canonical form announces. -/
theorem Canonical.announces {v rest : Bytes} (canonical : Canonical limit v input rest) :
    rawLen.toNat = v.length ∧
      after = v ++ (List.replicate (alignNat v.length - v.length) 0 ++ rest) := by
  have joined := canonical.joined
  have fits := canonical.fits
  rw [announced] at joined
  obtain ⟨word, contents⟩ := List.append_inj joined (by rw [toLeBytes_length, toLeBytes_length])
  have same := congrArg fromLeBytes word
  rw [fromLeBytes_toLeBytes, fromLeBytes_toLeBytes] at same
  refine ⟨?_, contents⟩
  rw [same]
  exact UInt64.toNat_ofNat_of_lt' (by show v.length < 2 ^ 64; omega)

/-- A canonical form is there in full, with zeros as its padding. -/
theorem Canonical.contents {v rest : Bytes} (canonical : Canonical limit v input rest) :
    limit.contains rawLen.toNat ∧ rawLen.toNat + 7 < 2 ^ 64 ∧
      alignNat rawLen.toNat ≤ after.length ∧
      (after.take (alignNat rawLen.toNat)).drop rawLen.toNat =
        zeros.take (alignNat rawLen.toNat - rawLen.toNat) ∧
      v = after.take rawLen.toNat ∧ rest = after.drop (alignNat rawLen.toNat) := by
  obtain ⟨length, contents⟩ := canonical.announces announced
  have grows := le_alignNat v.length
  have whole : after = (v ++ List.replicate (alignNat v.length - v.length) 0) ++ rest := by
    rw [contents, List.append_assoc]
  have size : (v ++ List.replicate (alignNat v.length - v.length) (0 : UInt8)).length =
      alignNat v.length := by
    rw [List.length_append, List.length_replicate]
    omega
  rw [length]
  refine ⟨canonical.within, canonical.fits, ?_, ?_, ?_, ?_⟩
  · rw [whole, List.length_append, size]
    exact Nat.le_add_right _ _
  · rw [whole, List.take_left' size, List.drop_left, zeros_take]
  · rw [contents, List.take_left]
  · rw [whole, List.drop_left' size]

/-- What is there in full, with zeros as its padding, is a canonical form. -/
theorem canonical_of_contents (within : limit.contains rawLen.toNat) (fits : rawLen.toNat + 7 < 2 ^ 64)
    (enough : alignNat rawLen.toNat ≤ after.length)
    (clean : (after.take (alignNat rawLen.toNat)).drop rawLen.toNat =
      zeros.take (alignNat rawLen.toNat - rawLen.toNat)) :
    Canonical limit (after.take rawLen.toNat) input (after.drop (alignNat rawLen.toNat)) := by
  have grows := le_alignNat rawLen.toNat
  have length : (after.take rawLen.toNat).length = rawLen.toNat := by
    rw [List.length_take]
    omega
  have short : (after.take (alignNat rawLen.toNat)).take rawLen.toNat = after.take rawLen.toNat := by
    rw [List.take_take, Nat.min_eq_left grows]
  refine ⟨?_, ?_, ?_⟩
  · rw [length]
    exact within
  · rw [length]
    exact fits
  · rw [length, UInt64.ofNat_toNat, ← zeros_take, ← clean, ← short, ← List.append_assoc _ (List.drop _ _),
      List.take_append_drop, List.take_append_drop]
    exact announced

end Announced

/-! ## Polling -/

namespace SlicedReader

/-- A length of contents was announced, and is allowed. -/
structure Awaits (limit : RangeInclusive) (start : SlicedReader) (rawLen : UInt64)
    (this : SlicedReader) : Prop where
  /-- What was announced. -/
  announced : start.unread = toLeBytes rawLen ++ this.unread
  /-- The length is allowed. -/
  within : limit.contains rawLen.toNat
  /-- Its alignment does not overflow. -/
  fits : rawLen.toNat + 7 < 2 ^ 64
  /-- There are contents. -/
  positive : 0 < alignNat rawLen.toNat
  /-- The bookkeeping. -/
  sound : Sound this.reader
  /-- The source. -/
  steady : this.reader.inner.Steady
  /-- The limit. -/
  same : this.reader.maxBufSize = start.reader.maxBufSize
  /-- The window. -/
  capacity : this.reader.capacity ≤ this.reader.maxBufSize
  /-- The room. -/
  ample : Fresh start.reader →
    alignNat rawLen.toNat + start.reader.reservedBufSize ≤ start.reader.maxBufSize →
    Ample (alignNat rawLen.toNat) this.reader

/-- Where polling stands, after it began with a reader. -/
inductive Stands (limit : RangeInclusive) (start : SlicedReader) :
    TryReadBytesLimited → SlicedReader → Prop
  | readLen {read : Bytes} {this : SlicedReader} (few : read.length < 8)
    (joined : start.unread = read ++ this.unread) (near : Near start.reader read.length this) :
    Stands limit start (.readLen limit read) this
  | fill {rawLen : UInt64} {this : SlicedReader} (awaits : Awaits limit start rawLen this) :
    Stands limit start (.fill rawLen.toNat (alignNat rawLen.toNat)) this

/-- What polling answers, against the bytes it began with. -/
inductive Answered (limit : RangeInclusive) (start this : SlicedReader) :
    Poll (Option Bytes) × (TryReadBytesLimited × SlicedReader) → Prop
  | none {stage : TryReadBytesLimited} {next : SlicedReader} (empty : start.unread = []) :
    Answered limit start this (.ready none, stage, next)
  | some {v : Bytes} {stage : TryReadBytesLimited} {next : SlicedReader}
    (canonical : Canonical limit v start.unread next.unread)
    (small : alignNat v.length ≤ start.reader.maxBufSize) :
    Answered limit start this (.ready (some v), stage, next)
  | refused {stage : TryReadBytesLimited} {next : SlicedReader} {capacity : Nat}
    (large : start.reader.maxBufSize < capacity) (nonempty : start.unread ≠ [])
    (never : Fresh start.reader → ∀ v rest, Canonical limit v start.unread rest →
      start.reader.maxBufSize < alignNat v.length + start.reader.reservedBufSize) :
    Answered limit start this (.error (tooLarge capacity), stage, next)
  | error {stage : TryReadBytesLimited} {next : SlicedReader} {error : IoError}
    (nonempty : start.unread ≠ []) (never : ∀ v rest, ¬ Canonical limit v start.unread rest) :
    Answered limit start this (.error error, stage, next)
  | pending {stage : TryReadBytesLimited} {next : SlicedReader} (stands : Stands limit start stage next)
    (less : budget next < budget this) : Answered limit start this (.pending, stage, next)

/-- Polling goes on where a step has left it. -/
theorem Answered.of_next {limit : RangeInclusive} {start this next : SlicedReader}
    {result : Poll (Option Bytes) × (TryReadBytesLimited × SlicedReader)} (spent : budget next ≤ budget this)
    (later : Answered limit start next result) : Answered limit start this result := by
  cases later with
  | none empty => exact .none empty
  | some canonical small => exact .some canonical small
  | refused large nonempty never => exact .refused large nonempty never
  | error nonempty never => exact .error nonempty never
  | pending stands less => exact .pending stands (Nat.lt_of_lt_of_le less spent)

/-- Polling for contents answers. -/
theorem pollContents_answered {limit : RangeInclusive} {start this : SlicedReader} {rawLen : UInt64}
    (awaits : Awaits limit start rawLen this) :
    Answered limit start this
      (TryReadBytesLimited.pollContents rawLen.toNat (alignNat rawLen.toNat) this) := by
  have announced := awaits.announced
  have nonempty := announced_nonempty announced
  have polled := pollContents_polled awaits.sound awaits.steady awaits.positive (le_alignNat rawLen.toNat)
  generalize TryReadBytesLimited.pollContents rawLen.toNat (alignNat rawLen.toNat) this = result at polled
  cases polled with
  | @ready next enough clean left small =>
    have canonical := canonical_of_contents announced awaits.within awaits.fits enough clean
    rw [← left] at canonical
    have length : (this.unread.take rawLen.toNat).length = rawLen.toNat := by
      have grows := le_alignNat rawLen.toNat
      rw [List.length_take]
      omega
    refine .some canonical ?_
    rw [length, ← awaits.same]
    exact small awaits.capacity
  | padding dirty =>
    refine .error nonempty fun v rest canonical => ?_
    exact dirty (canonical.contents announced).2.2.2.1
  | short few =>
    refine .error nonempty fun v rest canonical => ?_
    exact absurd (canonical.contents announced).2.2.1 (Nat.not_le.mpr few)
  | @refused next capacity large never =>
    rw [awaits.same] at large
    refine .refused large nonempty fun fresh v rest canonical => ?_
    have length := (canonical.announces announced).1
    rw [← length]
    exact Nat.lt_of_not_le fun room => never (awaits.ample fresh room)
  | @pending next keeps ample less =>
    have unread : next.unread = this.unread := keeps.unread
    refine .pending (.fill ⟨?_, awaits.within, awaits.fits, awaits.positive, keeps.sound, keeps.steady,
      keeps.limit.trans awaits.same, keeps.capacity awaits.capacity, ?_⟩) less
    · rw [unread]
      exact announced
    · exact fun fresh room => ample (awaits.ample fresh room)

/-- No length in the limits is so large that the sum in `prepare` overflows. -/
def NoWrap (limit : RangeInclusive) (start : SlicedReader) : Prop :=
  ∀ (rawLen : UInt64) (after : Bytes), start.unread = toLeBytes rawLen ++ after →
    limit.contains rawLen.toNat → rawLen.toNat + 7 < 2 ^ 64 →
    start.reader.allocated + alignNat rawLen.toNat < 2 ^ 64

/-- Polling answers. -/
theorem pollReader_answered {limit : RangeInclusive} {start this : SlicedReader}
    {stage : TryReadBytesLimited} (small : start.reader.maxBufSize < 2 ^ 62)
    (noWrap : NoWrap limit start) (stands : Stands limit start stage this) :
    Answered limit start this (TryReadBytesLimited.pollReader (stage, this)) := by
  cases stands with
  | fill awaits => exact pollContents_answered awaits
  | @readLen read _ few joined near =>
    unfold TryReadBytesLimited.pollReader
    have close := near_word 8 near
    have polled := @TryReadU64.pollReader_polled SlicedReader _ _ 8 read this near.settled
      (Nat.le_of_lt few) (Nat.le_add_left _ _)
    simp only
    generalize TryReadU64.pollReader 8 (read, this) = result at polled close
    cases polled with
    | @ended next more moved _ nothing empty =>
      refine .none ?_
      have unread : this.unread = more ++ next.unread := moved.unread
      have empty : next.unread = [] := empty
      rw [joined, unread, empty, List.append_nil]
      exact nothing
    | @word next more moved _ eight =>
      have unread : this.unread = more ++ next.unread := moved.unread
      have announced : start.unread = toLeBytes (fromLeBytes (read ++ more)) ++ next.unread := by
        rw [toLeBytes_fromLeBytes eight, joined, unread, List.append_assoc]
      generalize fromLeBytes (read ++ more) = rawLen at announced ⊢
      have close : Near start.reader 8 next := by
        rw [← eight]
        exact close
      have nonempty := announced_nonempty announced
      dsimp only
      by_cases within : limit.contains rawLen.toNat
      · rw [if_neg (not_not_intro within)]
        by_cases wraps : 2 ^ 64 ≤ rawLen.toNat + 7
        · rw [if_pos wraps]
          refine .error nonempty fun v rest canonical => ?_
          exact absurd (canonical.contents announced).2.1 (Nat.not_lt.mpr wraps)
        · rw [if_neg wraps]
          have fits : rawLen.toNat + 7 < 2 ^ 64 := Nat.lt_of_not_le wraps
          have aligned : (calcAligned rawLen).toNat = alignNat rawLen.toNat :=
            calcAligned_fits (by unfold Fits; omega)
          rw [aligned]
          by_cases positive : 0 < alignNat rawLen.toNat
          · rw [if_pos positive]
            obtain ⟨ready, made, keeps, capacity, ample⟩ :=
              prepare_some close small (noWrap rawLen _ announced within fits)
            have unread : ready.unread = next.unread := keeps.unread
            have awaits : Awaits limit start rawLen ready := by
              refine ⟨?_, within, fits, positive, keeps.sound, keeps.steady,
                keeps.limit.trans close.limit, capacity, ample⟩
              rw [unread]
              exact announced
            have spent : budget ready ≤ budget this := by
              have before := moved.spent
              have after : budget ready ≤ budget next := keeps.spent
              omega
            simp only [made]
            exact .of_next spent (pollContents_answered awaits)
          · rw [if_neg positive]
            -- Nothing is announced, so nothing more has to be there.
            have zero : alignNat rawLen.toNat = 0 := Nat.eq_zero_of_not_pos positive
            have none : rawLen.toNat = 0 := Nat.eq_zero_of_le_zero (zero ▸ le_alignNat rawLen.toNat)
            have canonical := canonical_of_contents announced within fits (zero ▸ Nat.zero_le _) (by
              rw [zero, none]
              rfl)
            rw [zero, none] at canonical
            exact .some canonical (Nat.zero_le _)
      · rw [if_pos within]
        refine .error nonempty fun v rest canonical => ?_
        exact within (canonical.contents announced).1
    | @pending next more moved _ fewer less =>
      have unread : this.unread = more ++ next.unread := moved.unread
      refine .pending (.readLen fewer ?_ close) less
      rw [joined, unread, List.append_assoc]
    | @torn next more error moved _ began fewer empty =>
      have unread : this.unread = more ++ next.unread := moved.unread
      have empty : next.unread = [] := empty
      have whole : start.unread = read ++ more := by rw [joined, unread, empty, List.append_nil]
      refine .error ?_ fun v rest canonical => ?_
      · rw [whole]
        exact began
      · have length := congrArg List.length canonical.joined
        rw [whole, @List.length_append _ (toLeBytes _), toLeBytes_length] at length
        omega
    | failed moved irregular => exact absurd trivial irregular

/-- Awaiting answers, and does not stay pending. -/
theorem await_answered {limit : RangeInclusive} {start : SlicedReader}
    (small : start.reader.maxBufSize < 2 ^ 62) (noWrap : NoWrap limit start) {patience : Nat}
    {this : SlicedReader} {stage : TryReadBytesLimited} (stands : Stands limit start stage this)
    (patient : budget this < patience) :
    Answered limit start this (await TryReadBytesLimited.pollReader patience (stage, this)) ∧
      (await TryReadBytesLimited.pollReader patience (stage, this)).1 ≠ .pending := by
  induction patience generalizing this stage with
  | zero => cases patient
  | succ patience ih =>
    have answered := pollReader_answered small noWrap stands
    unfold await
    generalize TryReadBytesLimited.pollReader (stage, this) = result at answered
    cases answered with
    | pending stands less =>
      obtain ⟨later, ready⟩ := ih stands (by omega)
      exact ⟨.of_next (Nat.le_of_lt less) later, ready⟩
    | none empty => exact ⟨.none empty, by rintro ⟨⟩⟩
    | some canonical small => exact ⟨.some canonical small, by rintro ⟨⟩⟩
    | refused large nonempty never => exact ⟨.refused large nonempty never, by rintro ⟨⟩⟩
    | error nonempty never => exact ⟨.error nonempty never, by rintro ⟨⟩⟩

end SlicedReader

/-- A canonical form is the only one of a byte string that is there. -/
theorem Canonical.unique {limit : RangeInclusive} {v w input rest left : Bytes}
    (one : Canonical limit v input rest) (other : Canonical limit w input left) : v = w ∧ rest = left := by
  obtain ⟨_, _, _, _, same, after⟩ := other.contents one.joined
  obtain ⟨_, _, _, _, same', after'⟩ := one.contents one.joined
  exact ⟨same'.trans same.symm, after'.trans after.symm⟩

/-- Awaiting a byte string answers, whatever the chunks and whichever slices are held. Nothing comes exactly
of nothing. What comes is there in its canonical form, with an allowed length, and exactly that is taken;
everything else is an error. A canonical form is an error only if the buffer would have become larger than
its limit. In a fresh buffer that does not happen as long as the form leaves the reserve free, and never
does more than the limit come. -/
theorem tryReadBytesLimited_exact (limit : RangeInclusive) {start : SlicedReader}
    (settled : start.Settled) (small : start.reader.maxBufSize < 2 ^ 62)
    (noWrap : start.NoWrap limit) {patience : Nat} (patient : budget start < patience) :
    let result := await TryReadBytesLimited.pollReader patience (.new limit, start)
    ((∃ contents, result.1 = .ready contents) ∨ ∃ error, result.1 = .error error) ∧
      (result.1 = .ready none ↔ start.unread = []) ∧
      (∀ v, result.1 = .ready (some v) →
        Canonical limit v start.unread result.2.2.unread ∧
          alignNat v.length ≤ start.reader.maxBufSize) ∧
      (∀ v rest, Canonical limit v start.unread rest → result.1 = .ready (some v) ∨
        ∃ capacity, result.1 = .error (tooLarge capacity) ∧ start.reader.maxBufSize < capacity) ∧
      (SlicedReader.Fresh start.reader → ∀ v,
        alignNat v.length + start.reader.reservedBufSize ≤ start.reader.maxBufSize →
        (result.1 = .ready (some v) ↔ ∃ rest, Canonical limit v start.unread rest)) := by
  have stands : start.Stands limit (.new limit) start :=
    .readLen (by decide) rfl ⟨settled, rfl, Nat.le_refl _, rfl, rfl⟩
  obtain ⟨answered, ready⟩ := SlicedReader.await_answered small noWrap stands patient
  intro result
  change SlicedReader.Answered limit start start result at answered
  change result.1 ≠ .pending at ready
  generalize result = result at answered ready
  cases answered with
  | pending => exact absurd rfl ready
  | none empty =>
    have never {v rest : Bytes} (canonical : Canonical limit v start.unread rest) : False :=
      announced_nonempty canonical.joined empty
    refine ⟨.inl ⟨_, rfl⟩, iff_of_true rfl empty, by rintro v ⟨⟩, ?_, ?_⟩
    · exact fun v rest canonical => (never canonical).elim
    · intro _ v _
      refine iff_of_false (by rintro ⟨⟩) ?_
      rintro ⟨rest, canonical⟩
      exact never canonical
  | @some v stage next canonical within =>
    have nonempty : start.unread ≠ [] := announced_nonempty canonical.joined
    refine ⟨.inl ⟨_, rfl⟩, iff_of_false (by rintro ⟨⟩) nonempty, ?_, ?_, ?_⟩
    · rintro _ ⟨⟩
      exact ⟨canonical, within⟩
    · intro w rest other
      rw [(canonical.unique other).1]
      exact .inl rfl
    · intro _ w _
      constructor
      · rintro ⟨⟩
        exact ⟨next.unread, canonical⟩
      · rintro ⟨rest, other⟩
        rw [(canonical.unique other).1]
  | refused large nonempty never =>
    refine ⟨.inr ⟨_, rfl⟩, iff_of_false (by rintro ⟨⟩) nonempty, by rintro v ⟨⟩, ?_, ?_⟩
    · exact fun v rest _ => .inr ⟨_, rfl, large⟩
    · intro fresh v room
      refine iff_of_false (by rintro ⟨⟩) ?_
      rintro ⟨rest, canonical⟩
      exact absurd (never fresh v rest canonical) (Nat.not_lt.mpr room)
  | error nonempty never =>
    refine ⟨.inr ⟨_, rfl⟩, iff_of_false (by rintro ⟨⟩) nonempty, by rintro v ⟨⟩, ?_, ?_⟩
    · exact fun v rest canonical => (never v rest canonical).elim
    · intro _ v _
      refine iff_of_false (by rintro ⟨⟩) ?_
      rintro ⟨rest, canonical⟩
      exact never v rest canonical

/-- A stream of a byte string of zeros, in chunks of at most so many bytes and one. -/
def zeroStream (len chunk : Nat) : Source :=
  ⟨toLeBytes (UInt64.ofNat len) ++ List.replicate (alignNat len) 0, [], chunk⟩

/-- A fresh buffer with a limit of forty-eight bytes, sixteen of which are kept in reserve. -/
def smallReader (len chunk : Nat) : SlicedReader := ⟨build 16 48 false (zeroStream len chunk), []⟩

/-- Thirty-one bytes come, in whatever chunks. -/
theorem tryReadBytesLimited_sample :
    (await TryReadBytesLimited.pollReader 50 (.new ⟨0, 40⟩, smallReader 31 0)).1 =
      .ready (some (List.replicate 31 0)) := by
  have settled : (smallReader 31 0).Settled := by
    refine ⟨build_sound (by decide) _ _ _, ?_, by decide⟩
    rintro turn ⟨⟩
  have noWrap : (smallReader 31 0).NoWrap ⟨0, 40⟩ := by
    intro rawLen after _ within _
    have most : rawLen.toNat ≤ 40 := within.2
    show 32 + alignNat rawLen.toNat < 2 ^ 64
    unfold alignNat
    omega
  have all := @tryReadBytesLimited_exact ⟨0, 40⟩ _ settled (by decide) noWrap 50 (by decide)
  exact (all.2.2.2.2 ⟨rfl, rfl, by decide⟩ (List.replicate 31 0) (by decide)).mpr
    ⟨[], by decide, by decide, by decide⟩

/-- Forty bytes are within the limit of the buffer, and it depends on the chunks whether they come: byte by
byte the buffer would have to become too large for its reserve. -/
theorem chunks_decide :
    (∀ chunk, (smallReader 40 chunk).reader.maxBufSize = 48 ∧
        Canonical ⟨0, 40⟩ (List.replicate 40 0) (smallReader 40 chunk).unread []) ∧
      (await TryReadBytesLimited.pollReader 60 (.new ⟨0, 40⟩, smallReader 40 63)).1 =
        .ready (some (List.replicate 40 0)) ∧
      (await TryReadBytesLimited.pollReader 60 (.new ⟨0, 40⟩, smallReader 40 0)).1 =
        .error (tooLarge 49) := by
  refine ⟨?_, ?_, ?_⟩
  · exact fun _ => ⟨rfl, by decide, by decide, rfl⟩
  · decide +kernel
  · decide +kernel

end Harmonia.Protocol
