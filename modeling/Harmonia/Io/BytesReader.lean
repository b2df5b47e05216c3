import Mathlib.Data.List.Basic
import Mathlib.Algebra.Order.Ring.Nat
import Harmonia.Io.Read

/-!
# `BytesReader`

`bytes_reader/reader.rs` over `bytes_reader/buffer/buffer_mut.rs`: a growing buffer in front
of anything that can be read. The buffer is a window at `offset` into an allocation that slices
handed out earlier may still share; then growing means a new allocation and otherwise the old one is
used again or enlarged. Before every read there is room for `reserved_buf_size` bytes, and
a window larger than `max_buf_size` is refused. Over a `Source` the bytes themselves are followed.
-/

namespace Harmonia

/-- `AsyncRead`, whatever it does. -/
class AsyncRead (S : Type) where
  /-- `poll_read` into a buffer with some room. -/
  pollRead : S → Nat → Poll Bytes × S
  /-- A buffer takes no more than it has room for. -/
  within : ∀ {source next : S} {room : Nat} {bytes : Bytes},
    pollRead source room = (.ready bytes, next) → bytes.length ≤ room
  /-- A poll returns. -/
  returns : ∀ (source : S) (room : Nat), (pollRead source room).1 ≠ .panic

instance : AsyncRead Source where
  pollRead := Source.pollRead
  within := by
    intro source next room bytes read
    have polled := source.pollRead_polled room
    rw [read] at polled
    cases polled with
    | ready joined empty within => exact within
  returns := by
    intro source room
    have polled := source.pollRead_polled room
    generalize source.pollRead room = result at polled
    intro panics
    cases polled with
    | ready => cases panics
    | pending => cases panics
    | error => cases panics

/-- `BytesReader`, with its `BufferMut`; unless it is said otherwise, it reads a source. -/
structure BytesReader (S : Type := Source) where
  /-- Where the bytes come from. -/
  inner : S
  /-- The filled part of the window. -/
  buffer : Bytes
  /-- Where the window starts in the allocation. -/
  offset : Nat
  /-- The size of the allocation. -/
  allocated : Nat
  /-- Whether slices of the buffer are held elsewhere when it has to grow. -/
  shared : Bool
  /-- `reserved_buf_size`. -/
  reservedBufSize : Nat
  /-- `max_buf_size`. -/
  maxBufSize : Nat
  deriving DecidableEq, Repr

namespace BytesReader

/-- `DEFAULT_RESERVED_BUF_SIZE`. -/
def defaultReservedBufSize : Nat := 8192

/-- `DEFAULT_MAX_BUF_SIZE`. -/
def defaultMaxBufSize : Nat := 1024 * 1024 * 8

section Generic

variable {S : Type}

/-- `BytesReaderBuilder::build`. -/
def build (reservedBufSize maxBufSize : Nat) (shared : Bool) (inner : S) : BytesReader S :=
  ⟨inner, [], 0, reservedBufSize * 2, shared, reservedBufSize, maxBufSize⟩

/-- `BufferMut::capacity`: the size of the window. -/
def capacity (reader : BytesReader S) : Nat := reader.allocated - reader.offset

/-- `remaining_mut`: room behind the filled part. -/
def remainingMut (reader : BytesReader S) : Nat := reader.capacity - reader.buffer.length

/-- `BufferMut::reserve` and `reserve_inner`. -/
def grow (reader : BytesReader S) (additional : Nat) : BytesReader S :=
  let len := reader.buffer.length
  if additional ≤ reader.remainingMut then reader
  else if reader.shared then
    { reader with allocated := max (len + additional) reader.allocated, offset := 0 }
  else if len + additional ≤ reader.allocated ∧ len ≤ reader.offset then
    { reader with offset := 0 }
  else
    { reader with
      allocated := max (2 * reader.allocated) (len + additional + reader.offset) }

/-- The error of a buffer that has become too large. -/
def tooLarge (capacity : Nat) : IoError :=
  ⟨.invalidData, "buffer " ++ toString capacity ++ " is too large"⟩

/-- `reserve`: grow, and refuse a buffer that is too large. -/
def reserve (reader : BytesReader S) (additional : Nat) : Except IoError Unit × BytesReader S :=
  let reader := reader.grow additional
  if reader.capacity > reader.maxBufSize then (.error (tooLarge reader.capacity), reader)
  else (.ok (), reader)

/-- The reader in which the next read is made, once it has made room. -/
def roomy (reader : BytesReader S) : BytesReader S :=
  if reader.remainingMut < reader.reservedBufSize then reader.grow reader.reservedBufSize else reader

/-- `prepare`: grow for what was announced, unless that would be too much. An overflow of the sum panics,
and so does an allocation larger than `isize::MAX`. -/
def prepareBuf (reader : BytesReader S) (additional : Nat) : Option (BytesReader S) :=
  let len := reader.buffer.length + reader.buffer.length
  if additional ≤ len then some reader
  else if 2 ^ 64 ≤ reader.capacity + additional then none
  else if reader.capacity + additional < reader.maxBufSize then
    let grown := reader.grow (additional - len)
    if 2 ^ 63 ≤ grown.allocated then none else some grown
  else some reader

/-- `consume`: move the window; `Buf::advance` panics behind the filled part. -/
def advance (reader : BytesReader S) (amt : Nat) : Option (BytesReader S) :=
  if reader.buffer.length < amt then none
  else some { reader with buffer := reader.buffer.drop amt, offset := reader.offset + amt }

variable [AsyncRead S]

/-- Read once into the room there is. -/
def readMore (reader : BytesReader S) : Poll Nat × BytesReader S :=
  match AsyncRead.pollRead reader.inner reader.remainingMut with
  | (.ready bytes, inner) =>
    (.ready bytes.length, { reader with inner := inner, buffer := reader.buffer ++ bytes })
  | (.pending, inner) => (.pending, { reader with inner := inner })
  | (.error error, inner) => (.error error, { reader with inner := inner })
  | (.panic, inner) => (.panic, { reader with inner := inner })

/-- `poll_force_fill_buf_internal`: make room, and read once. -/
def pollForceInternal (reader : BytesReader S) : Poll Nat × BytesReader S :=
  if reader.remainingMut < reader.reservedBufSize then
    match reader.reserve reader.reservedBufSize with
    | (.error error, reader) => (.error error, reader)
    | (.ok _, reader) => reader.readMore
  else reader.readMore

/-- The error of a forced read at the end of the source. -/
def forceEof : IoError := ⟨.unexpectedEof, "EOF while force reading"⟩

/-- `poll_force_fill_buf`. -/
def pollForce (reader : BytesReader S) : Poll Bytes × BytesReader S :=
  match reader.pollForceInternal with
  | (.ready read, reader) =>
    if read = 0 then (.error forceEof, reader) else (.ready reader.buffer, reader)
  | (.pending, reader) => (.pending, reader)
  | (.error error, reader) => (.error error, reader)
  | (.panic, reader) => (.panic, reader)

/-- `poll_fill_buf`. -/
def pollFill (reader : BytesReader S) : Poll Bytes × BytesReader S :=
  if reader.buffer = [] then
    match reader.pollForceInternal with
    | (.ready _, reader) => (.ready reader.buffer, reader)
    | (.pending, reader) => (.pending, reader)
    | (.error error, reader) => (.error error, reader)
    | (.panic, reader) => (.panic, reader)
  else (.ready reader.buffer, reader)

end Generic

instance : AsyncBytesRead BytesReader where
  pollFillBuf := pollFill
  consume := advance
  budget reader := reader.buffer.length + reader.inner.budget
  pollForceFillBuf := pollForce

/-- The window lies in the allocation, which has room for a reserve. -/
structure Sound (reader : BytesReader) : Prop where
  /-- A read is never asked for nothing. -/
  reserve : 0 < reader.reservedBufSize
  /-- The filled part lies in the allocation. -/
  window : reader.offset + reader.buffer.length ≤ reader.allocated
  /-- The allocation never shrinks below a reserve. -/
  allocation : reader.reservedBufSize ≤ reader.allocated

/-- A `BytesReader` shows the filled part of its window. -/
def bytesView : View BytesReader where
  Valid := Sound
  Regular reader := reader.inner.Steady ∧ reader.allocated ≤ reader.maxBufSize ∧ reader.shared = true
  visible := BytesReader.buffer
  rest reader := reader.inner.stream
  chunk reader := reader.inner.largest
  limit reader := reader.maxBufSize - reader.reservedBufSize
  Refuses error := ∃ capacity, error = tooLarge capacity

/-- Growing changes the window and the allocation only, and makes room. -/
theorem grow_sound {reader : BytesReader} (sound : Sound reader) :
    Sound (reader.grow reader.reservedBufSize) ∧
      (reader.grow reader.reservedBufSize).reservedBufSize ≤
        (reader.grow reader.reservedBufSize).remainingMut ∧
      (reader.grow reader.reservedBufSize).inner = reader.inner ∧
      (reader.grow reader.reservedBufSize).buffer = reader.buffer ∧
      (reader.grow reader.reservedBufSize).reservedBufSize = reader.reservedBufSize ∧
      (reader.grow reader.reservedBufSize).maxBufSize = reader.maxBufSize ∧
      (reader.grow reader.reservedBufSize).shared = reader.shared := by
  obtain ⟨positive, window, allocation⟩ := sound
  unfold grow
  simp only
  split
  · rename_i room
    exact ⟨⟨positive, window, allocation⟩, room, rfl, rfl, rfl, rfl, rfl⟩
  · split
    · refine ⟨⟨positive, ?_, ?_⟩, ?_, rfl, rfl, rfl, rfl, rfl⟩
      · change 0 + reader.buffer.length ≤ max (reader.buffer.length + _) _
        omega
      · change reader.reservedBufSize ≤ max (reader.buffer.length + _) _
        omega
      · change reader.reservedBufSize ≤ max (reader.buffer.length + _) _ - 0 - reader.buffer.length
        omega
    · split
      · rename_i reuse
        refine ⟨⟨positive, ?_, allocation⟩, ?_, rfl, rfl, rfl, rfl, rfl⟩
        · change 0 + reader.buffer.length ≤ reader.allocated
          omega
        · change reader.reservedBufSize ≤ reader.allocated - 0 - reader.buffer.length
          omega
      · refine ⟨⟨positive, ?_, ?_⟩, ?_, rfl, rfl, rfl, rfl, rfl⟩
        · change reader.offset + reader.buffer.length ≤ max (2 * reader.allocated) _
          omega
        · change reader.reservedBufSize ≤ max (2 * reader.allocated) _
          omega
        · change reader.reservedBufSize ≤ max (2 * reader.allocated)
            (reader.buffer.length + reader.reservedBufSize + reader.offset) - reader.offset -
              reader.buffer.length
          omega

/-- A shared buffer grows to what is needed and no further. -/
theorem grow_shared {reader : BytesReader} (shared : reader.shared = true) (additional : Nat) :
    (reader.grow additional).capacity ≤ max (reader.buffer.length + additional) reader.allocated ∧
      (reader.grow additional).allocated ≤
        max (reader.grow additional).capacity reader.allocated := by
  unfold grow capacity
  simp only [shared, ↓reduceIte]
  split
  · constructor <;> omega
  · rw [Nat.sub_zero]
    exact ⟨Nat.le_refl _, Nat.le_max_left _ _⟩

/-- What an attempt to read more does, before it is looked at. -/
inductive Attempted (reader : BytesReader) : Poll Nat × BytesReader → Prop
  | ready {next : BytesReader} {bytes : Bytes} (kept : bytesView.Kept reader next)
    (regular : bytesView.Regular reader → bytesView.Regular next)
    (grown : next.buffer = reader.buffer ++ bytes)
    (empty : bytes = [] → reader.inner.stream = [])
    (bounded : bytes.length ≤ reader.inner.largest) :
    Attempted reader (.ready bytes.length, next)
  | pending {next : BytesReader} (kept : bytesView.Kept reader next)
    (regular : bytesView.Regular reader → bytesView.Regular next)
    (same : next.buffer = reader.buffer) (less : budget next < budget reader) :
    Attempted reader (.pending, next)
  | refused {next : BytesReader} {capacity : Nat} (kept : bytesView.Kept reader next)
    (same : next.buffer = reader.buffer)
    (large : bytesView.Regular reader → bytesView.limit reader < reader.buffer.length) :
    Attempted reader (.error (tooLarge capacity), next)
  | error {next : BytesReader} {error : IoError} (kept : bytesView.Kept reader next)
    (same : next.buffer = reader.buffer) (irregular : ¬ bytesView.Regular reader) :
    Attempted reader (.error error, next)

/-- Reading into a buffer with room. -/
theorem readMore_attempted {reader : BytesReader} (sound : Sound reader)
    (room : reader.reservedBufSize ≤ reader.remainingMut) :
    Attempted reader reader.readMore := by
  have positive := sound.reserve
  have window := sound.window
  have space : reader.remainingMut = reader.allocated - reader.offset - reader.buffer.length := rfl
  have polled := reader.inner.pollRead_polled reader.remainingMut
  rw [readMore, show AsyncRead.pollRead reader.inner reader.remainingMut =
    reader.inner.pollRead reader.remainingMut from rfl]
  generalize reader.inner.pollRead reader.remainingMut = result at polled
  cases polled with
  | @ready bytes next joined empty within steady spent bounded smaller =>
    have lengths := congrArg List.length joined
    rw [List.length_append] at lengths
    refine @Attempted.ready reader { reader with inner := next, buffer := reader.buffer ++ bytes }
      bytes ⟨⟨positive, ?_, sound.allocation⟩, ?_, smaller, rfl, ?_⟩ ?_ rfl ?_ bounded
    · simp only [List.length_append]
      omega
    · simp [View.unread, bytesView, joined]
    · simp only [budget, Source.budget, List.length_append]
      omega
    · exact fun regular => ⟨steady regular.1, regular.2⟩
    · intro nothing
      rcases empty nothing with zero | ended
      · omega
      · exact ended
  | @pending next same steady less smaller =>
    refine .pending ⟨⟨positive, window, sound.allocation⟩, ?_, smaller, rfl, ?_⟩ ?_ rfl ?_
    · simp [View.unread, bytesView, same]
    · simp only [budget, Source.budget, same]
      omega
    · exact fun regular => ⟨steady regular.1, regular.2⟩
    · simp only [budget, Source.budget, same]
      omega
  | @error next error same unsteady spent smaller =>
    refine .error ⟨⟨positive, window, sound.allocation⟩, ?_, smaller, rfl, ?_⟩ rfl ?_
    · simp [View.unread, bytesView, same]
    · simp only [budget, Source.budget, same]
      omega
    · exact fun regular => unsteady regular.1

/-- An attempt after growing is an attempt. -/
theorem Attempted.of_grown {reader grown : BytesReader} {result : Poll Nat × BytesReader}
    (attempted : Attempted grown result) (inner : grown.inner = reader.inner)
    (buffer : grown.buffer = reader.buffer)
    (reserved : grown.reservedBufSize = reader.reservedBufSize)
    (limit : grown.maxBufSize = reader.maxBufSize)
    (regular : bytesView.Regular reader → bytesView.Regular grown) : Attempted reader result := by
  have same : budget grown = budget reader := by simp only [budget, inner, buffer]
  have keep {next : BytesReader} (kept : bytesView.Kept grown next) :
      bytesView.Kept reader next := by
    refine ⟨kept.valid, ?_, ?_, ?_, same ▸ kept.budget⟩
    · rw [kept.unread]
      simp only [View.unread, bytesView, inner, buffer]
    · have smaller := kept.chunk
      simp only [bytesView, inner] at smaller ⊢
      exact smaller
    · rw [kept.limit]
      simp only [bytesView, reserved, limit]
  cases attempted with
  | ready kept still grew empty bounded =>
    exact .ready (keep kept) (still ∘ regular) (buffer ▸ grew) (inner ▸ empty) (inner ▸ bounded)
  | pending kept still unchanged less =>
    exact .pending (keep kept) (still ∘ regular) (buffer ▸ unchanged) (same ▸ less)
  | refused kept unchanged large =>
    refine .refused (keep kept) (buffer ▸ unchanged) fun ok => ?_
    have larger := large (regular ok)
    simpa only [bytesView, reserved, limit, buffer] using larger
  | error kept unchanged irregular =>
    exact .error (keep kept) (buffer ▸ unchanged) fun ok => irregular (regular ok)

/-- Making room and reading once. -/
theorem pollForceInternal_attempted {reader : BytesReader} (sound : Sound reader) :
    Attempted reader reader.pollForceInternal := by
  unfold pollForceInternal
  split
  · obtain ⟨grown, room, inner, buffer, reserved, limit, shared⟩ := grow_sound sound
    by_cases refused : (reader.grow reader.reservedBufSize).capacity >
        (reader.grow reader.reservedBufSize).maxBufSize
    · simp only [reserve, if_pos refused]
      refine .refused ⟨grown, ?_, ?_, ?_, ?_⟩ buffer ?_
      · simp only [View.unread, bytesView, inner, buffer]
      · simp only [bytesView, inner, Nat.le_refl]
      · simp only [bytesView, reserved, limit]
      · simp only [budget, inner, buffer, Nat.le_refl]
      · intro regular
        obtain ⟨steady, within, held⟩ := regular
        have bound := (grow_shared held reader.reservedBufSize).1
        have allocation := sound.allocation
        rw [limit] at refused
        change reader.maxBufSize - reader.reservedBufSize < reader.buffer.length
        omega
    · simp only [reserve, if_neg refused]
      refine (readMore_attempted grown room).of_grown inner buffer reserved limit ?_
      intro regular
      obtain ⟨steady, within, held⟩ := regular
      have bound := (grow_shared held reader.reservedBufSize).2
      refine ⟨inner ▸ steady, ?_, shared ▸ held⟩
      rw [limit] at refused ⊢
      omega
  · rename_i room
    exact readMore_attempted sound (Nat.not_lt.mp room)

/-- `poll_fill_buf` fills. -/
theorem pollFill_fills {reader : BytesReader} (sound : Sound reader) :
    bytesView.Fills reader reader.pollFill := by
  unfold pollFill
  split
  · rename_i used
    have attempted := pollForceInternal_attempted sound
    generalize reader.pollForceInternal = result at attempted
    cases attempted with
    | @ready next bytes kept regular grown empty bounded =>
      rw [used, List.nil_append] at grown
      refine .ready kept regular (fun more => absurd used more) ?_ ?_
      · intro _
        change next.buffer.length ≤ _
        rw [grown]
        exact bounded
      · intro nothing
        have joined := kept.unread
        change next.buffer = [] at nothing
        simp only [View.unread, bytesView, used, nothing, List.nil_append] at joined
        exact joined.trans (empty (grown ▸ nothing))
    | pending kept regular same less => exact .pending kept regular same less
    | refused kept same large =>
      refine .error kept same fun regular => ?_
      have larger := large regular
      rw [used] at larger
      exact absurd larger (Nat.not_lt_zero _)
    | error kept same irregular => exact .error kept same irregular
  · rename_i filled
    exact .ready ⟨sound, rfl, Nat.le_refl _, rfl, Nat.le_refl _⟩ id (fun _ => rfl)
      (fun nothing => absurd nothing filled) (fun nothing => absurd nothing filled)

/-- `poll_force_fill_buf` adds to the buffer. -/
theorem pollForce_forces {reader : BytesReader} (sound : Sound reader) :
    bytesView.Forces reader reader.pollForce := by
  unfold pollForce
  have attempted := pollForceInternal_attempted sound
  generalize reader.pollForceInternal = result at attempted
  cases attempted with
  | @ready next bytes kept regular grown empty bounded =>
    simp only
    split
    · rename_i zero
      have nothing := List.eq_nil_of_length_eq_zero zero
      rw [nothing, List.append_nil] at grown
      exact .ended kept regular grown (empty nothing) rfl
    · rename_i positive
      have more : bytes ≠ [] := fun nothing => positive (by rw [nothing]; rfl)
      exact .ready kept regular more grown bounded
  | pending kept regular same less => exact .pending kept regular same less
  | refused kept same large => exact .refused kept same ⟨_, rfl⟩ large
  | error kept same irregular => exact .error kept same irregular

instance : LawfulBytesRead BytesReader where
  view := bytesView
  fills := pollFill_fills
  consumes := by
    intro reader amt sound within
    change amt ≤ reader.buffer.length at within
    refine ⟨_, if_neg (Nat.not_lt.mpr within), ⟨sound.reserve, ?_, sound.allocation⟩, id, rfl, rfl,
      Nat.le_refl _, rfl, ?_⟩
    · have window := sound.window
      simp only [List.length_drop]
      omega
    · simp only [budget, List.length_drop]
      omega
  covered := by
    intro reader
    simp only [View.unread, bytesView, List.length_append, budget, Source.budget]
    omega
  forces := pollForce_forces

/-- A fresh reader of a source is sound. -/
theorem build_sound {reserved : Nat} (positive : 0 < reserved) (limit : Nat) (shared : Bool)
    (inner : Source) : Sound (build reserved limit shared inner : BytesReader) := by
  refine ⟨positive, ?_, ?_⟩
  · exact Nat.zero_le _
  · change reserved ≤ reserved * 2
    omega

end BytesReader

end Harmonia
