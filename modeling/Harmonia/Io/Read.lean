import Mathlib.Data.List.Basic
import Mathlib.Algebra.Order.Ring.Nat
import Harmonia.Io.Poll

/-!
# Buffered readers

A source hands out a byte stream in reads of any sizes, may be pending between them and may
fail. The readers built on it keep some bytes visible: `poll_fill_buf` makes bytes visible
when there are none, `poll_force_fill_buf` adds to them, `consume` takes them away.
`View` says how a reader is looked at, and `Fills` and `Forces` what its polls do under that
view; everything above a reader is proved from these laws.
-/

namespace Harmonia

/-- How a source answers one poll. -/
inductive Turn where
  /-- With at most `more + 1` bytes, and at least one if there are any. -/
  | data (more : Nat)
  /-- Not yet. -/
  | pending
  /-- With an error. -/
  | fail (error : IoError)
  deriving DecidableEq, Repr

/-- The answer is an error. -/
def Turn.isFailure : Turn → Bool
  | .fail _ => true
  | _ => false

/-- The largest number of bytes an answer can give. -/
def Turn.size : Turn → Nat
  | .data more => more + 1
  | _ => 0

/-- A byte source: what it still has, its next answers, and the size of the reads after them. -/
structure Source where
  /-- Bytes still to come. -/
  stream : Bytes
  /-- The next answers. -/
  plan : List Turn
  /-- Later reads give at most `most + 1` bytes. -/
  most : Nat
  deriving DecidableEq, Repr

namespace Source

/-- Hand out at most `count` bytes. -/
def give (source : Source) (plan : List Turn) (count : Nat) : Poll Bytes × Source :=
  (.ready (source.stream.take count), { source with stream := source.stream.drop count, plan := plan })

/-- `AsyncRead::poll_read` into a buffer with some room. -/
def pollRead (source : Source) (room : Nat) : Poll Bytes × Source :=
  match source.plan with
  | [] => source.give [] (min room (source.most + 1))
  | .data more :: plan => source.give plan (min room (more + 1))
  | .pending :: plan => (.pending, { source with plan := plan })
  | .fail error :: plan => (.error error, { source with plan := plan })

/-- The source will not fail. -/
def Steady (source : Source) : Prop := ∀ turn ∈ source.plan, turn.isFailure = false

instance (source : Source) : Decidable source.Steady := inferInstanceAs (Decidable (∀ _ ∈ _, _))

/-- The largest number of bytes that one of the answers can give, or a later read. -/
def largest (source : Source) : Nat :=
  min source.stream.length
    (source.plan.foldr (fun turn most => max turn.size most) (source.most + 1))

/-- Bytes and answers still to come. -/
def budget (source : Source) : Nat := source.stream.length + source.plan.length

/-- What a poll of a source does. -/
inductive Polled (source : Source) (room : Nat) : Poll Bytes × Source → Prop
  | ready {bytes : Bytes} {next : Source} (joined : source.stream = bytes ++ next.stream)
    (empty : bytes = [] → room = 0 ∨ source.stream = []) (within : bytes.length ≤ room)
    (steady : source.Steady → next.Steady) (spent : next.plan.length ≤ source.plan.length)
    (bounded : bytes.length ≤ source.largest) (smaller : next.largest ≤ source.largest) :
    Polled source room (.ready bytes, next)
  | pending {next : Source} (same : next.stream = source.stream)
    (steady : source.Steady → next.Steady) (less : next.plan.length < source.plan.length)
    (smaller : next.largest ≤ source.largest) :
    Polled source room (.pending, next)
  | error {next : Source} {error : IoError} (same : next.stream = source.stream)
    (unsteady : ¬ source.Steady) (spent : next.plan.length ≤ source.plan.length)
    (smaller : next.largest ≤ source.largest) :
    Polled source room (.error error, next)

/-- Every poll of a source is as it should be. -/
theorem pollRead_polled (source : Source) (room : Nat) :
    Polled source room (source.pollRead room) := by
  obtain ⟨stream, plan, most⟩ := source
  -- A read of a positive size gives nothing only at the end.
  have nothing {size : Nat} (empty : stream.take (min room (size + 1)) = []) :
      room = 0 ∨ stream = [] := by
    rcases List.take_eq_nil_iff.mp empty with zero | ended
    · exact .inl (by omega)
    · exact .inr ended
  have given {size : Nat} : (stream.take (min room (size + 1))).length ≤ min room (size + 1) :=
    List.length_take_le _ _
  have all {count : Nat} : (stream.take count).length ≤ stream.length := List.length_take_le' _ _
  -- What is left is no longer, so later reads are no larger.
  have fewer {count : Nat} {turns plan : List Turn}
      (less : turns.foldr (fun turn most => max turn.size most) (most + 1) ≤
        plan.foldr (fun turn most => max turn.size most) (most + 1)) :
      largest ⟨stream.drop count, turns, most⟩ ≤ largest ⟨stream, plan, most⟩ := by
    simp only [largest, List.length_drop]
    omega
  cases plan with
  | nil =>
    refine .ready (List.take_append_drop _ _).symm nothing ?_ id (Nat.le_refl _) ?_
      (fewer (Nat.le_refl _))
    · exact Nat.le_trans given (Nat.min_le_left _ _)
    · exact Nat.le_min.mpr ⟨all, Nat.le_trans given (Nat.min_le_right _ _)⟩
  | cons turn plan =>
    have fewer {count : Nat} :
        largest ⟨stream.drop count, plan, most⟩ ≤ largest ⟨stream, turn :: plan, most⟩ :=
      fewer (Nat.le_max_right _ _)
    have still : largest ⟨stream, plan, most⟩ ≤ largest ⟨stream, turn :: plan, most⟩ := by
      simpa only [List.drop_zero] using @fewer 0
    have calmer (steady : Steady ⟨stream, turn :: plan, most⟩) : Steady ⟨stream, plan, most⟩ :=
      fun other listed => steady other (List.mem_cons_of_mem _ listed)
    cases turn with
    | data more =>
      refine .ready (List.take_append_drop _ _).symm nothing ?_ calmer (Nat.le_succ _) ?_ fewer
      · exact Nat.le_trans given (Nat.min_le_left _ _)
      · exact Nat.le_min.mpr ⟨all, Nat.le_trans given
          (Nat.le_trans (Nat.min_le_right _ _) (Nat.le_max_left _ _))⟩
    | pending => exact .pending rfl calmer (Nat.lt_succ_self _) still
    | fail error =>
      have failing (steady : Steady ⟨stream, .fail error :: plan, most⟩) : False :=
        Bool.noConfusion (steady (.fail error) List.mem_cons_self)
      exact .error rfl failing (Nat.le_succ _) still

end Source

/-- `AsyncBufRead`; the methods of `AsyncBytesRead` with these names have these types too. -/
class AsyncBufRead (R : Type) where
  /-- `poll_fill_buf`. -/
  pollFillBuf : R → Poll Bytes × R
  /-- `consume`; `none` is a panic. -/
  consume : R → Nat → Option R
  /-- Bytes and pending polls still to come. It is no method of the source: it bounds loops. -/
  budget : R → Nat

/-- `AsyncBytesRead`. -/
class AsyncBytesRead (R : Type) extends AsyncBufRead R where
  /-- `poll_force_fill_buf`. -/
  pollForceFillBuf : R → Poll Bytes × R

export AsyncBufRead (pollFillBuf consume budget)
export AsyncBytesRead (pollForceFillBuf)

/-- `poll_read` as the buffered readers implement it: take what is visible as far as it fits. -/
def pollRead {R : Type} [AsyncBufRead R] (reader : R) (room : Nat) : Poll Bytes × R :=
  match pollFillBuf reader with
  | (.ready buf, reader) =>
    if buf = [] then (.ready [], reader)
    else
      match consume reader (min buf.length room) with
      | some reader => (.ready (buf.take (min buf.length room)), reader)
      | none => (.panic, reader)
  | (.pending, reader) => (.pending, reader)
  | (.error error, reader) => (.error error, reader)
  | (.panic, reader) => (.panic, reader)

/-- How reading to the end comes out. -/
inductive ReadEnd (R : Type) where
  /-- The reader signalled its end after these bytes. -/
  | done (bytes : Bytes) (reader : R)
  /-- A read failed. -/
  | failed (error : IoError) (reader : R)
  /-- A read panicked, or there is no end. -/
  | panicked
  deriving DecidableEq, Repr

/-- `AsyncReadExt::read_to_end`: read until a read gives nothing, into whatever room there is
each time; `rooms` are the sizes less one of the buffers it offers. -/
def readToEnd {R : Type} [AsyncBufRead R] : Nat → List Nat → R → Bytes → ReadEnd R
  | 0, _, _, _ => .panicked
  | fuel + 1, rooms, reader, bytes =>
    match pollRead reader (rooms.headD 31 + 1) with
    | (.ready read, reader) =>
      if read = [] then .done bytes reader
      else readToEnd fuel rooms.tail reader (bytes ++ read)
    | (.pending, reader) => readToEnd fuel rooms reader bytes
    | (.error error, reader) => .failed error reader
    | (.panic, _) => .panicked

/-- How a reader is looked at. -/
structure View (R : Type) where
  /-- The reader's own bookkeeping is sound. -/
  Valid : R → Prop
  /-- Nothing below the reader will fail, and its buffer is within its limit. -/
  Regular : R → Prop
  /-- Bytes in the buffer. -/
  visible : R → Bytes
  /-- Bytes behind the buffer. -/
  rest : R → Bytes
  /-- A bound on what one read adds to the buffer. -/
  chunk : R → Nat
  /-- A buffer up to this size can still grow. -/
  limit : R → Nat
  /-- The errors by which the reader refuses to let its buffer grow. -/
  Refuses : IoError → Prop

/-- The bytes not yet consumed. -/
def View.unread {R : Type} (view : View R) (reader : R) : Bytes :=
  view.visible reader ++ view.rest reader

/-- What every poll keeps. -/
structure View.Kept {R : Type} [AsyncBufRead R] (view : View R) (reader next : R) : Prop where
  /-- The bookkeeping. -/
  valid : view.Valid next
  /-- The bytes not yet consumed. -/
  unread : view.unread next = view.unread reader
  /-- The bound on reads, which does not grow. -/
  chunk : view.chunk next ≤ view.chunk reader
  /-- The limit. -/
  limit : view.limit next = view.limit reader
  /-- The budget, which does not grow. -/
  budget : AsyncBufRead.budget next ≤ AsyncBufRead.budget reader

/-- What `poll_fill_buf` does. -/
inductive View.Fills {R : Type} [AsyncBufRead R] (view : View R) (reader : R) :
    Poll Bytes × R → Prop
  | ready {next : R} (kept : view.Kept reader next)
    (regular : view.Regular reader → view.Regular next)
    (same : view.visible reader ≠ [] → view.visible next = view.visible reader)
    (bounded : view.visible reader = [] → (view.visible next).length ≤ view.chunk reader)
    (ends : view.visible next = [] → view.rest next = []) :
    Fills view reader (.ready (view.visible next), next)
  | pending {next : R} (kept : view.Kept reader next)
    (regular : view.Regular reader → view.Regular next)
    (same : view.visible next = view.visible reader)
    (less : AsyncBufRead.budget next < AsyncBufRead.budget reader) :
    Fills view reader (.pending, next)
  | error {next : R} {error : IoError} (kept : view.Kept reader next)
    (same : view.visible next = view.visible reader) (irregular : ¬ view.Regular reader) :
    Fills view reader (.error error, next)

/-- What `poll_force_fill_buf` does. -/
inductive View.Forces {R : Type} [AsyncBufRead R] (view : View R) (reader : R) :
    Poll Bytes × R → Prop
  | ready {next : R} {more : Bytes} (kept : view.Kept reader next)
    (regular : view.Regular reader → view.Regular next) (nonempty : more ≠ [])
    (grown : view.visible next = view.visible reader ++ more)
    (bounded : more.length ≤ view.chunk reader) :
    Forces view reader (.ready (view.visible next), next)
  | pending {next : R} (kept : view.Kept reader next)
    (regular : view.Regular reader → view.Regular next)
    (same : view.visible next = view.visible reader)
    (less : AsyncBufRead.budget next < AsyncBufRead.budget reader) :
    Forces view reader (.pending, next)
  | ended {next : R} {error : IoError} (kept : view.Kept reader next)
    (regular : view.Regular reader → view.Regular next)
    (same : view.visible next = view.visible reader) (empty : view.rest reader = [])
    (kind : error.kind = .unexpectedEof) : Forces view reader (.error error, next)
  | refused {next : R} {error : IoError} (kept : view.Kept reader next)
    (same : view.visible next = view.visible reader) (refuses : view.Refuses error)
    (large : view.Regular reader → view.limit reader < (view.visible reader).length) :
    Forces view reader (.error error, next)
  | error {next : R} {error : IoError} (kept : view.Kept reader next)
    (same : view.visible next = view.visible reader) (irregular : ¬ view.Regular reader) :
    Forces view reader (.error error, next)

/-- A buffered reader that keeps its contract. -/
class LawfulBufRead (R : Type) [AsyncBufRead R] where
  /-- How the reader is looked at. -/
  view : View R
  /-- `poll_fill_buf` fills. -/
  fills : ∀ {reader : R}, view.Valid reader → view.Fills reader (pollFillBuf reader)
  /-- `consume` takes visible bytes away. -/
  consumes : ∀ {reader : R} {amt : Nat}, view.Valid reader → amt ≤ (view.visible reader).length →
    ∃ next, AsyncBufRead.consume reader amt = some next ∧ view.Valid next ∧
      (view.Regular reader → view.Regular next) ∧
      view.visible next = (view.visible reader).drop amt ∧ view.rest next = view.rest reader ∧
      view.chunk next ≤ view.chunk reader ∧ view.limit next = view.limit reader ∧
      AsyncBufRead.budget next + amt ≤ AsyncBufRead.budget reader
  /-- The budget covers the bytes. -/
  covered : ∀ {reader : R}, (view.unread reader).length ≤ AsyncBufRead.budget reader

/-- A reader of `Bytes` that keeps its contract. -/
class LawfulBytesRead (R : Type) [AsyncBytesRead R] extends LawfulBufRead R where
  /-- `poll_force_fill_buf` adds to the buffer. -/
  forces : ∀ {reader : R}, view.Valid reader → view.Forces reader (pollForceFillBuf reader)

export LawfulBufRead (view fills consumes covered)
export LawfulBytesRead (forces)

/-! ## `tokio::io::BufReader` -/

/-- `BufReader`: a fixed buffer in front of a source. -/
structure BufReader where
  /-- Size of the buffer. -/
  capacity : Nat
  /-- Filled and not consumed. -/
  buffer : Bytes
  /-- What it reads from. -/
  inner : Source
  deriving DecidableEq, Repr

namespace BufReader

/-- A reader with an empty buffer. -/
def new (capacity : Nat) (inner : Source) : BufReader := ⟨capacity, [], inner⟩

/-- `poll_fill_buf`: read once when the buffer is used up. -/
def pollFill (reader : BufReader) : Poll Bytes × BufReader :=
  if reader.buffer = [] then
    match reader.inner.pollRead reader.capacity with
    | (.ready bytes, inner) => (.ready bytes, { reader with buffer := bytes, inner := inner })
    | (.pending, inner) => (.pending, { reader with inner := inner })
    | (.error error, inner) => (.error error, { reader with inner := inner })
    | (.panic, inner) => (.panic, { reader with inner := inner })
  else (.ready reader.buffer, reader)

instance : AsyncBufRead BufReader where
  pollFillBuf := pollFill
  consume reader amt := some { reader with buffer := reader.buffer.drop amt }
  budget reader := reader.buffer.length + reader.inner.budget

/-- A `BufReader` shows its buffer. -/
def bufView : View BufReader where
  Valid reader := 0 < reader.capacity
  Regular reader := reader.inner.Steady
  visible := BufReader.buffer
  rest reader := reader.inner.stream
  chunk := BufReader.capacity
  limit _ := 0
  Refuses _ := False

/-- Filling the buffer. -/
theorem pollFill_fills {reader : BufReader} (valid : 0 < reader.capacity) :
    bufView.Fills reader (pollFill reader) := by
  unfold pollFill
  split
  · rename_i used
    have polled := reader.inner.pollRead_polled reader.capacity
    generalize reader.inner.pollRead reader.capacity = result at polled
    cases polled with
    | @ready bytes next joined empty within steady spent bounded smaller =>
      have lengths := congrArg List.length joined
      rw [List.length_append] at lengths
      refine @View.Fills.ready BufReader _ bufView reader
        { reader with buffer := bytes, inner := next } ⟨valid, ?_, Nat.le_refl _, rfl, ?_⟩ steady ?_ ?_ ?_
      · simp [View.unread, bufView, used, joined]
      · simp only [budget, Source.budget, used, List.length_nil]
        omega
      · exact fun more => absurd used more
      · exact fun _ => within
      · intro none
        rcases empty none with zero | ended
        · exact absurd zero (Nat.ne_of_gt valid)
        · have both := joined.symm.trans ended
          exact (List.append_eq_nil_iff.mp both).2
    | @pending next same steady less smaller =>
      refine .pending ⟨valid, ?_, Nat.le_refl _, rfl, ?_⟩ steady rfl ?_
      · simp [View.unread, bufView, same]
      · simp only [budget, Source.budget, same]
        omega
      · simp only [budget, Source.budget, same]
        omega
    | @error next error same unsteady spent smaller =>
      refine .error ⟨valid, ?_, Nat.le_refl _, rfl, ?_⟩ rfl unsteady
      · simp [View.unread, bufView, same]
      · simp only [budget, Source.budget, same]
        omega
  · rename_i filled
    exact .ready ⟨valid, rfl, Nat.le_refl _, rfl, Nat.le_refl _⟩ id (fun _ => rfl)
      (fun none => absurd none filled) (fun none => absurd none filled)

instance : LawfulBufRead BufReader where
  view := bufView
  fills := pollFill_fills
  consumes := by
    intro reader amt valid within
    refine ⟨_, rfl, valid, id, rfl, rfl, Nat.le_refl _, rfl, ?_⟩
    simp only [budget, List.length_drop]
    change amt ≤ reader.buffer.length at within
    omega
  covered := by
    intro reader
    simp only [View.unread, bufView, List.length_append, budget, Source.budget]
    omega

end BufReader

end Harmonia
