import Mathlib.Data.List.Basic
import Mathlib.Algebra.Order.Ring.Nat
import Harmonia.Io.Gather
import Harmonia.Io.Wire

/-!
# File contents and their padding

`padded_reader.rs`: the contents of a file are read straight out of the archive's buffer, and
the padding behind them is passed over together with the last of them. For that the last
bytes of the contents and the padding must stand in the buffer at once; when the reader is
dropped between them, the rest of the last word is read into the reader's own eight bytes.
-/

namespace Harmonia.Nar

/-- `State` of a `PaddedReader`. -/
inductive PadState where
  /-- `Content`: whole words of contents still in the archive. -/
  | content (rem : UInt64)
  /-- `ReadPadding`: inside the last word, `stop` bytes of which are out of the archive. -/
  | readPadding (start stop : Nat)
  /-- `Padding`: the last word is out of the archive. -/
  | padding (start : Nat)
  /-- `Eof`. -/
  | eof
  deriving DecidableEq, Repr

/-- `PaddedReader`. -/
structure PaddedReader (R : Type) where
  /-- The archive. -/
  reader : R
  /-- Contents in the last word. -/
  trailerSize : Nat
  /-- The last word, when it is read apart. -/
  padding : Bytes
  /-- Where the contents stand. -/
  state : PadState
  deriving DecidableEq, Repr

/-- The error of a file that ends inside its last word. -/
def eofInPadding : IoError := ⟨.unexpectedEof, "EOF before end of padding"⟩

namespace PaddedReader

variable {R : Type}

/-- `PaddedReader::new`. -/
def new (reader : R) (len : UInt64) : PaddedReader R :=
  let content := len &&& ~~~7
  ⟨reader, (len - content).toNat, zeros, .content content⟩

/-- The size of the last word: eight, or nothing when the contents fill whole words. -/
def aligned (this : PaddedReader R) : Nat := alignNat this.trailerSize

/-- `remaining_usize`: whole words, contents and bytes still to come. The additions and
subtractions are checked. -/
def remainingUsize (this : PaddedReader R) : Option (Nat × Nat × Nat) :=
  match this.state with
  | .content rem =>
    if rem.toNat + this.trailerSize < 2 ^ 64 ∧ rem.toNat + this.aligned < 2 ^ 64 then
      some (rem.toNat, rem.toNat + this.trailerSize, rem.toNat + this.aligned)
    else none
  | .readPadding start _ | .padding start =>
    if start ≤ this.trailerSize then some (0, this.trailerSize - start, this.aligned - start)
    else none
  | .eof => some (0, 0, 0)

/-- The error of contents that end too early, or that do not fit. -/
def eofInContent : IoError := ⟨.unexpectedEof, "EOF before end of content"⟩

section Below

-- `poll_read` of the reader below.
variable (read : R → Nat → Poll Bytes × R)

/-- The loop that reads the last word apart, in `ReadPadding`. -/
def readTail : Nat → PaddedReader R → Nat → Nat → Poll Bytes × PaddedReader R
  | fuel, this, start, stop =>
    if 8 ≤ stop then
      (.ready ((this.padding.take this.trailerSize).drop start),
        { this with state := .padding start })
    else
      match fuel with
      | 0 => (.panic, this)
      | fuel + 1 =>
        match read this.reader (8 - stop) with
        | (.ready bytes, reader) =>
          if bytes = [] then (.error eofInPadding, { this with reader := reader })
          else
            let padding := this.padding.take stop ++ bytes ++ this.padding.drop (stop + bytes.length)
            let state := PadState.readPadding start (stop + bytes.length)
            readTail fuel ⟨reader, this.trailerSize, padding, state⟩ start (stop + bytes.length)
        | (.pending, reader) => (.pending, { this with reader := reader })
        | (.error error, reader) => (.error error, { this with reader := reader })
        | (.panic, reader) => (.panic, { this with reader := reader })

/-- `poll_read` into a buffer that has room and is filled with so much. It goes on until the contents have
ended; that it does not return is a panic. -/
def readBuf : Nat → PaddedReader R → Nat → Bytes → Poll Bytes × PaddedReader R
  | 0, this, _, _ => (.panic, this)
  | fuel + 1, this, room, filled =>
    match this.state with
    | .content rem =>
      match read this.reader (min rem.toNat room) with
      | (.ready bytes, reader) =>
        if bytes = [] then (.error eofInContent, { this with reader := reader })
        else
          let rem := rem - UInt64.ofNat bytes.length
          let state :=
            if rem = 0 then if 0 < this.trailerSize then PadState.readPadding 0 0 else .eof
            else .content rem
          readBuf fuel { this with reader := reader, state := state } (room - bytes.length)
            (filled ++ bytes)
      | (.pending, reader) => (.pending, { this with reader := reader })
      | (.error error, reader) => (.error error, { this with reader := reader })
      | (.panic, reader) => (.panic, { this with reader := reader })
    | .readPadding start stop =>
      match read this.reader (8 - stop) with
      | (.ready bytes, reader) =>
        if bytes = [] then (.error eofInPadding, { this with reader := reader })
        else
          let padding := this.padding.take stop ++ bytes ++ this.padding.drop (stop + bytes.length)
          let stop := stop + bytes.length
          let state := if stop = 8 then PadState.padding start else .readPadding start stop
          readBuf fuel ⟨reader, this.trailerSize, padding, state⟩ room filled
      | (.pending, reader) => (.pending, { this with reader := reader })
      | (.error error, reader) => (.error error, { this with reader := reader })
      | (.panic, reader) => (.panic, { this with reader := reader })
    | .padding pos =>
      if this.trailerSize < pos then (.panic, this)
      else
        let bound := min (this.trailerSize - pos) room
        -- A slice that ends before it starts panics.
        if bound < pos then (.panic, this)
        else
          let slice := (this.padding.take bound).drop pos
          let pos := pos + bound
          let state := if pos = this.trailerSize then PadState.eof else .padding pos
          readBuf fuel { this with state := state } (room - slice.length) (filled ++ slice)
    | .eof => (.ready filled, this)

end Below

variable [AsyncBytesRead R]

/-- `poll_fill_buf` and `poll_force_fill_buf` in `Content`, over the same poll of the reader below: the last
words and the padding behind them are gathered together. -/
def pollContent (this : PaddedReader R) (content rem trailing : Nat) (poll : R → Poll Bytes × R) :
    Poll Bytes × PaddedReader R :=
  match poll this.reader with
  | (.ready buf, reader) =>
    if content ≤ buf.length then
      match forceUntil trailing (trailing + budget reader) reader buf with
      | (.ready buf, reader) =>
        if buf.length < rem then (.panic, { this with reader := reader })
        else (.ready (buf.take rem), { this with reader := reader })
      | (.pending, reader) => (.pending, { this with reader := reader })
      | (.error error, reader) => (.error error, { this with reader := reader })
      | (.panic, reader) => (.panic, { this with reader := reader })
    else (.ready buf, { this with reader := reader })
  | (.pending, reader) => (.pending, { this with reader := reader })
  | (.error error, reader) => (.error error, { this with reader := reader })
  | (.panic, reader) => (.panic, { this with reader := reader })

/-- `poll_fill_buf`, with the `poll_read` of the reader below. -/
def fillWith (read : R → Nat → Poll Bytes × R) (this : PaddedReader R) : Poll Bytes × PaddedReader R :=
  match this.remainingUsize with
  | none => (.panic, this)
  | some (content, rem, trailing) =>
    match this.state with
    | .content _ => this.pollContent content rem trailing pollFillBuf
    | .readPadding start stop => readTail read 8 this start stop
    | .padding start => (.ready ((this.padding.take this.trailerSize).drop start), this)
    | .eof => (.ready [], this)

/-- `poll_fill_buf` over a reader whose `poll_read` fills the buffer and consumes of it. -/
def pollFill (this : PaddedReader R) : Poll Bytes × PaddedReader R := this.fillWith pollRead

/-- `consume`. -/
def consumePadded (this : PaddedReader R) (amt : Nat) : Option (PaddedReader R) := do
  let (_, rem, aligned) ← this.remainingUsize
  if rem < amt then none
  else if amt = rem then
    match this.state with
    | .content _ | .readPadding _ _ =>
      let reader ← consume this.reader aligned
      some { this with reader := reader, state := .eof }
    | _ => some { this with state := .eof }
  else
    match this.state with
    | .content rem =>
      let reader ← consume this.reader amt
      if rem.toNat < amt then
        let start := amt - rem.toNat
        some { this with reader := reader, state := .readPadding start start }
      else some { this with reader := reader, state := .content (rem - UInt64.ofNat amt) }
    | .readPadding start stop =>
      let reader ← consume this.reader amt
      some { this with reader := reader, state := .readPadding (start + amt) (max (start + amt) stop) }
    | .padding start => some { this with state := .padding (start + amt) }
    | .eof => some this

/-- `poll_drain`: read and drop what is left of the contents. -/
def pollDrain : Nat → PaddedReader R → Poll Unit × PaddedReader R
  | 0, this => (.panic, this)
  | fuel + 1, this =>
    match this.pollFill with
    | (.ready buf, this) =>
      if buf = [] then (.ready (), this)
      else
        match this.consumePadded buf.length with
        | some this => pollDrain fuel this
        | none => (.panic, this)
    | (.pending, this) => (.pending, this)
    | (.error error, this) => (.error error, this)
    | (.panic, this) => (.panic, this)

/-! ## What is still to come -/

/-- Contents still to be delivered. -/
def due (this : PaddedReader R) : Nat :=
  match this.state with
  | .content rem => rem.toNat + this.trailerSize
  | .readPadding start _ | .padding start => this.trailerSize - start
  | .eof => 0

/-- Bytes still to be taken from the archive. -/
def owed (this : PaddedReader R) : Nat :=
  match this.state with
  | .content rem => rem.toNat + this.aligned
  | .readPadding _ stop => 8 - stop
  | .padding _ | .eof => 0

/-- Bytes of the last word that are out of the archive and not delivered. -/
def held (this : PaddedReader R) : Bytes :=
  match this.state with
  | .readPadding start stop => (this.padding.take stop).drop start
  | .padding start => (this.padding.take this.trailerSize).drop start
  | .content _ | .eof => []

variable [LawfulBytesRead R]

/-- What the archive still has, from the contents on. -/
def ahead (this : PaddedReader R) : Bytes := this.held ++ view.unread this.reader

/-- The contents still to be delivered, as far as the archive has them. -/
def remaining (this : PaddedReader R) : Bytes := this.ahead.take this.due

/-- What the archive has behind the contents and their padding. -/
def left (this : PaddedReader R) : Bytes := (view.unread this.reader).drop this.owed

/-- The archive has all the contents and their padding. -/
def Complete (this : PaddedReader R) : Prop := this.owed ≤ (view.unread this.reader).length

/-- The archive does not even have the whole words of the contents. -/
def Lacks (this : PaddedReader R) : Prop :=
  this.aligned + (view.unread this.reader).length < this.owed

instance (this : PaddedReader R) : Decidable this.Lacks := inferInstanceAs (Decidable (_ < _))

/-- The reader's fields fit together. -/
structure Sound (this : PaddedReader R) : Prop where
  /-- The archive's reader is sound. -/
  valid : view.Valid this.reader
  /-- The last word is not whole. -/
  trailer : this.trailerSize < 8
  /-- There is a place for the last word. -/
  word : this.padding.length = 8
  /-- The counts are in range. -/
  counts : match this.state with
    | .content rem => rem.toNat + this.aligned < 2 ^ 64
    | .readPadding start stop => start < this.trailerSize ∧ start ≤ stop ∧ stop ≤ 8
    | .padding start => start < this.trailerSize
    | .eof => True

/-- Contents that have been shown and may be consumed. -/
def Shows (this : PaddedReader R) (buf : Bytes) : Prop :=
  match this.state with
  | .content rem => buf = (view.visible this.reader).take (rem.toNat + this.trailerSize) ∧
      ((view.visible this.reader).length < rem.toNat ∨
        rem.toNat + this.aligned ≤ (view.visible this.reader).length)
  | .readPadding start stop => start = stop ∧
      buf = (view.visible this.reader).take (this.trailerSize - start) ∧
      8 - start ≤ (view.visible this.reader).length
  | .padding start => buf = (this.padding.take this.trailerSize).drop start
  | .eof => buf = []

/-- The buffer holds no more than one read, or just the end of the contents and one read. -/
def Tame (bound : Nat) (this : PaddedReader R) : Prop :=
  (view.visible this.reader).length ≤ bound ∨
    (this.owed ≤ bound + 8 ∧ (view.visible this.reader).length ≤ this.owed + bound)

/-- A fresh reader of a length that fits is sound and has all of it to come. -/
theorem new_sound {reader : R} {len : UInt64} (valid : view.Valid reader) (fits : Fits len) :
    Sound (new reader len) ∧ (new reader len).due = len.toNat ∧
      (new reader len).owed = alignNat len.toNat := by
  have low := clear_low_bits len
  have below : len &&& ~~~7 ≤ len := by
    rw [UInt64.le_iff_toNat_le, low]
    omega
  have trailer : (len - (len &&& ~~~7)).toNat = len.toNat % 8 := by
    rw [UInt64.toNat_sub_of_le _ _ below, low]
    omega
  unfold Fits at fits
  have due : (new reader len).due = len.toNat := by
    simp only [PaddedReader.due, new, low, trailer]
    omega
  have owed : (new reader len).owed = alignNat len.toNat := by
    simp only [PaddedReader.owed, new, aligned, low, trailer, alignNat]
    omega
  refine ⟨⟨valid, ?_, rfl, ?_⟩, due, owed⟩
  · simp only [new, trailer]
    omega
  · simp only [new, aligned, low, trailer, alignNat]
    omega

/-- A fresh reader lacks whole words when the archive does not reach behind them. -/
theorem new_lacks {reader : R} {len : UInt64} (valid : view.Valid reader) (fits : Fits len) :
    (new reader len).Lacks ↔ (view.unread reader).length < len.toNat / 8 * 8 := by
  have low := clear_low_bits len
  have below : len &&& ~~~7 ≤ len := by
    rw [UInt64.le_iff_toNat_le, low]
    omega
  have trailer : (len - (len &&& ~~~7)).toNat = len.toNat % 8 := by
    rw [UInt64.toNat_sub_of_le _ _ below, low]
    omega
  have owed := (new_sound valid fits).2.2
  rw [Lacks, owed]
  simp only [new, aligned, trailer, alignNat]
  omega

omit [AsyncBytesRead R] [LawfulBytesRead R] in
/-- A fresh reader of a length that does not fit cannot count what is to come. -/
theorem new_stuck {reader : R} {len : UInt64} (wraps : ¬ Fits len) :
    (new reader len).remainingUsize = none := by
  have low := clear_low_bits len
  have small := len.toNat_lt
  have below : len &&& ~~~7 ≤ len := by
    rw [UInt64.le_iff_toNat_le, low]
    omega
  have trailer : (len - (len &&& ~~~7)).toNat = len.toNat % 8 := by
    rw [UInt64.toNat_sub_of_le _ _ below, low]
    omega
  unfold Fits at wraps
  simp only [remainingUsize, new, aligned, alignNat, low, trailer]
  rw [if_neg]
  omega

/-- Inside the last word all whole words have been there. -/
theorem Sound.not_lacks {this : PaddedReader R} (sound : Sound this)
    (inside : ∀ rem, this.state ≠ .content rem) : ¬ this.Lacks := by
  obtain ⟨reader, trailer, padding, state⟩ := this
  cases state with
  | content rem => exact absurd rfl (inside rem)
  | readPadding start stop =>
    have some' : start < trailer := sound.counts.1
    simp only [Lacks, aligned, owed, alignNat]
    omega
  | padding start => exact Nat.not_lt_zero _
  | eof => exact Nat.not_lt_zero _

/-- What a poll keeps of the contents. -/
structure Keeps (this next : PaddedReader R) : Prop where
  /-- The reader stays sound. -/
  sound : Sound next
  /-- The size of the contents still to come. -/
  due : next.due = this.due
  /-- The contents still to come. -/
  remaining : next.remaining = this.remaining
  /-- What comes behind them. -/
  left : next.left = this.left
  /-- Whether they are all there. -/
  complete : next.Complete ↔ this.Complete
  /-- Whether whole words are missing. -/
  lacks : next.Lacks ↔ this.Lacks
  /-- The bound on reads, which does not grow. -/
  chunk : view.chunk next.reader ≤ view.chunk this.reader
  /-- The limit of the buffer. -/
  limit : view.limit next.reader = view.limit this.reader
  /-- The budget, which does not grow. -/
  budget : budget next.reader ≤ budget this.reader

/-- What is kept adds up. -/
theorem Keeps.trans {first second third : PaddedReader R} (left : Keeps first second)
    (right : Keeps second third) : Keeps first third :=
  ⟨right.sound, right.due.trans left.due, right.remaining.trans left.remaining,
    right.left.trans left.left, right.complete.trans left.complete,
    right.lacks.trans left.lacks, Nat.le_trans right.chunk left.chunk,
    right.limit.trans left.limit, Nat.le_trans right.budget left.budget⟩

/-- A poll of the archive that takes nothing keeps the contents. -/
theorem keeps_reader {this : PaddedReader R} (sound : Sound this) {next : R}
    (kept : view.Kept this.reader next) : Keeps this { this with reader := next } := by
  have unread := kept.unread
  refine ⟨⟨kept.valid, sound.trailer, sound.word, sound.counts⟩, rfl, ?_, ?_, ?_, ?_,
    kept.chunk, kept.limit, kept.budget⟩
  · change (this.held ++ view.unread next).take this.due = _
    rw [unread]
    rfl
  · change (view.unread next).drop this.owed = _
    rw [unread]
    rfl
  · change this.owed ≤ (view.unread next).length ↔ _
    rw [unread]
    rfl
  · change this.aligned + (view.unread next).length < this.owed ↔ _
    rw [unread]
    rfl

/-- What `poll_fill_buf` does. -/
inductive Pours (this : PaddedReader R) : Poll Bytes × PaddedReader R → Prop
  | ready {next : PaddedReader R} {buf : Bytes} (keeps : Keeps this next)
    (regular : view.Regular this.reader → view.Regular next.reader)
    (tame : ∀ {bound}, view.chunk this.reader ≤ bound → this.Tame bound → next.Tame bound)
    (shows_ : next.Shows buf)
    (ends : buf = [] → this.due = 0 ∨ ∃ rem, this.state = .content rem ∧ 0 < rem.toNat ∧
      view.unread this.reader = [] ∧ view.unread next.reader = []) :
    Pours this (.ready buf, next)
  | pending {next : PaddedReader R} (keeps : Keeps this next)
    (regular : view.Regular this.reader → view.Regular next.reader)
    (tame : ∀ {bound}, view.chunk this.reader ≤ bound → this.Tame bound → next.Tame bound)
    (less : AsyncBufRead.budget next.reader < AsyncBufRead.budget this.reader) :
    Pours this (.pending, next)
  | ended {next : PaddedReader R} {error : IoError} (keeps : Keeps this next)
    (short : ¬ this.Complete) (words : ¬ this.Lacks) (kind : error.kind = .unexpectedEof) :
    Pours this (.error error, next)
  | refused {next : PaddedReader R} {error : IoError} (keeps : Keeps this next)
    (words : ¬ this.Lacks) (refuses : (view (R := R)).Refuses error)
    (large : view.Regular this.reader → ∀ {bound}, view.chunk this.reader ≤ bound →
      this.Tame bound → view.limit this.reader < bound + 8) : Pours this (.error error, next)
  | error {next : PaddedReader R} {error : IoError} (keeps : Keeps this next)
    (irregular : ¬ view.Regular this.reader) : Pours this (.error error, next)

/-- A poll of contents that others have moved on keeps what it started from. -/
theorem Pours.of_keeps {this next : PaddedReader R} {result : Poll Bytes × PaddedReader R}
    (keeps : Keeps this next) (regular : view.Regular this.reader → view.Regular next.reader)
    (tame : ∀ {bound}, view.chunk this.reader ≤ bound → this.Tame bound → next.Tame bound)
    (inside : next.due ≠ 0 ∧ ∀ rem, next.state ≠ .content rem)
    (later : Pours next result) : Pours this result := by
  have chunk := keeps.chunk
  cases later with
  | ready keeps' regular' tame' shows_ ends =>
    refine .ready (keeps.trans keeps') (regular' ∘ regular)
      (fun bound now => tame' (Nat.le_trans chunk bound) (tame bound now)) shows_ fun none => ?_
    rcases ends none with zero | ⟨rem, content, _⟩
    · exact absurd zero inside.1
    · exact absurd content (inside.2 rem)
  | pending keeps' regular' tame' less =>
    exact .pending (keeps.trans keeps') (regular' ∘ regular)
      (fun bound now => tame' (Nat.le_trans chunk bound) (tame bound now))
      (Nat.lt_of_lt_of_le less keeps.budget)
  | ended keeps' short words kind =>
    exact .ended (keeps.trans keeps') (fun all => short (keeps.complete.mpr all))
      (fun lacks => words (keeps.lacks.mpr lacks)) kind
  | refused keeps' words refuses large =>
    exact .refused (keeps.trans keeps') (fun lacks => words (keeps.lacks.mpr lacks)) refuses fun ok _ bound now =>
      keeps.limit ▸ large (regular ok) (Nat.le_trans chunk bound) (tame bound now)
  | error keeps' irregular => exact .error (keeps.trans keeps') fun ok => irregular (regular ok)

/-- Putting bytes into the last word takes them out of the archive and keeps the contents. -/
theorem keeps_tail {this : PaddedReader R} (sound : Sound this) {start stop : Nat}
    (state : this.state = .readPadding start stop) {next : R} {bytes : Bytes}
    (valid : view.Valid next) (joined : view.unread this.reader = bytes ++ view.unread next)
    (within : bytes.length ≤ 8 - stop) (chunk : view.chunk next ≤ view.chunk this.reader)
    (limit : view.limit next = view.limit this.reader)
    (spent : budget next + bytes.length ≤ budget this.reader) :
    Keeps this ⟨next, this.trailerSize,
      this.padding.take stop ++ bytes ++ this.padding.drop (stop + bytes.length),
      .readPadding start (stop + bytes.length)⟩ := by
  have counts := sound.counts
  simp only [state] at counts
  obtain ⟨inside, ordered, bounded⟩ := counts
  have word := sound.word
  have front : (this.padding.take stop).length = stop := by
    rw [List.length_take]
    omega
  have head : (this.padding.take stop ++ bytes ++ this.padding.drop (stop + bytes.length)).take
      (stop + bytes.length) = this.padding.take stop ++ bytes := by
    rw [List.take_left']
    rw [List.length_append, front]
  have ahead : ((this.padding.take stop ++ bytes ++
      this.padding.drop (stop + bytes.length)).take (stop + bytes.length)).drop start ++
        view.unread next = (this.padding.take stop).drop start ++ view.unread this.reader := by
    rw [head, List.drop_append_of_le_length (by omega), joined, List.append_assoc]
  have sound' : Sound ⟨next, this.trailerSize,
      this.padding.take stop ++ bytes ++ this.padding.drop (stop + bytes.length),
      .readPadding start (stop + bytes.length)⟩ := by
    refine ⟨valid, sound.trailer, ?_, ⟨inside, by omega, by omega⟩⟩
    simp only [List.length_append, List.length_take, List.length_drop]
    omega
  refine ⟨sound', ?_, ?_, ?_, ?_, ?_, chunk, limit, by simp only; omega⟩
  · simp only [due, state]
  · simp only [remaining, PaddedReader.ahead, held, due, state]
    rw [ahead]
  · simp only [left, owed, state]
    rw [joined, show 8 - stop = bytes.length + (8 - (stop + bytes.length)) by omega,
      ← List.drop_drop, List.drop_left]
  · simp only [Complete, owed, state]
    rw [joined, List.length_append]
    omega
  · refine iff_of_false (Sound.not_lacks sound' fun _ => PadState.noConfusion) ?_
    exact sound.not_lacks fun rem => by rw [state]; exact PadState.noConfusion

/-- A last word that is all there is shown from where the contents stand. -/
theorem pours_word {this : PaddedReader R} (sound : Sound this) {start stop : Nat}
    (state : this.state = .readPadding start stop) (full : 8 ≤ stop) :
    Pours this (.ready ((this.padding.take this.trailerSize).drop start),
      { this with state := .padding start }) := by
  have counts := sound.counts
  simp only [state] at counts
  obtain ⟨inside, ordered, bounded⟩ := counts
  have word := sound.word
  have trailer := sound.trailer
  have whole : this.padding.take stop = this.padding := List.take_of_length_le (by omega)
  have length : ((this.padding.take this.trailerSize).drop start).length =
      this.trailerSize - start := by
    rw [List.length_drop, List.length_take]
    omega
  have contents : (this.padding.drop start ++ view.unread this.reader).take
      (this.trailerSize - start) = (this.padding.take this.trailerSize).drop start := by
    rw [List.take_append_of_le_length (by rw [List.length_drop]; omega), List.drop_take]
  refine .ready ⟨⟨sound.valid, trailer, word, inside⟩, ?_, ?_, ?_, ?_, ?_, Nat.le_refl _, rfl,
    Nat.le_refl _⟩ id ?_ rfl ?_
  · simp only [due, state]
  · simp only [remaining, ahead, held, due, state, whole]
    rw [contents, ← length, List.take_left]
  · simp only [left, owed, state]
    rw [show 8 - stop = 0 by omega]
  · simp only [Complete, owed, state]
    omega
  · refine iff_of_false (Nat.not_lt_zero _) ?_
    exact sound.not_lacks fun rem => by rw [state]; exact PadState.noConfusion
  · intro bound _ tame
    simp only [Tame, owed, state] at tame ⊢
    omega
  · intro none
    have := congrArg List.length none
    rw [length, List.length_nil] at this
    omega

/-- Reading the last word apart. -/
theorem readTail_pours (fuel : Nat) {this : PaddedReader R} (sound : Sound this)
    {start stop : Nat} (state : this.state = .readPadding start stop) (enough : 8 ≤ stop + fuel) :
    Pours this (readTail pollRead fuel this start stop) := by
  induction fuel generalizing this stop with
  | zero =>
    rw [readTail, if_pos (by omega)]
    exact pours_word sound state (by omega)
  | succ fuel ih =>
    by_cases full : 8 ≤ stop
    · rw [readTail, if_pos full]
      exact pours_word sound state full
    · have counts := sound.counts
      simp only [state] at counts
      rw [readTail, if_neg full]
      have taken := pollRead_takes sound.valid (8 - stop)
      generalize pollRead this.reader (8 - stop) = result at taken
      cases taken with
      | @ready next bytes valid regular joined within ends bounded chunk limit spent =>
        by_cases nothing : bytes = []
        · subst nothing
          have gone : view.unread this.reader = [] := by
            rcases ends rfl with zero | gone
            · omega
            · exact gone
          simp only [↓reduceIte]
          refine .ended (keeps_reader sound ⟨valid, joined.symm, chunk, limit, spent⟩) ?_ ?_ rfl
          · simp only [Complete, owed, state, gone, List.length_nil]
            omega
          · exact sound.not_lacks fun rem => by rw [state]; exact PadState.noConfusion
        · have positive := List.length_pos_of_ne_nil nothing
          have keeps := keeps_tail sound state valid joined within chunk limit spent
          simp only [if_neg nothing]
          refine .of_keeps keeps regular ?_ ?_ (ih keeps.sound rfl (by omega))
          · intro bound small tame
            simp only [Tame, owed, state] at tame ⊢
            omega
          · refine ⟨?_, fun rem => PadState.noConfusion⟩
            simp only [due]
            omega
      | @pending next kept regular same less =>
        refine .pending (keeps_reader sound kept) regular ?_ less
        intro bound _ tame
        simp only [Tame, owed, same] at tame ⊢
        exact tame
      | error kept same irregular => exact .error (keeps_reader sound kept) irregular

/-- `poll_fill_buf` while whole words may be left. -/
theorem pollFill_content {reader : R} {trailer : Nat} {padding : Bytes} {rem : UInt64}
    (sound : Sound ⟨reader, trailer, padding, .content rem⟩) :
    Pours ⟨reader, trailer, padding, .content rem⟩
      (pollFill ⟨reader, trailer, padding, .content rem⟩) := by
  have small : trailer < 8 := sound.trailer
  have counts : rem.toNat + alignNat trailer < 2 ^ 64 := sound.counts
  have tail := le_alignNat trailer
  have word : alignNat trailer ≤ 8 := by
    unfold alignNat
    omega
  have bounds : rem.toNat + trailer < 2 ^ 64 ∧ rem.toNat + alignNat trailer < 2 ^ 64 :=
    ⟨by omega, counts⟩
  have known : remainingUsize ⟨reader, trailer, padding, .content rem⟩ =
      some (rem.toNat, rem.toNat + trailer, rem.toNat + alignNat trailer) := if_pos bounds
  simp only [pollFill, fillWith, pollContent, known]
  have filled := fills sound.valid
  change view.Fills reader (pollFillBuf reader) at filled
  generalize pollFillBuf reader = result at filled
  cases filled with
  | @ready next kept regular same bounded ends =>
    have chunk := kept.chunk
    have tame {bound : Nat} (small : view.chunk reader ≤ bound)
        (now : Tame bound ⟨reader, trailer, padding, .content rem⟩) :
        Tame bound ⟨next, trailer, padding, .content rem⟩ := by
      by_cases used : view.visible reader = []
      · exact .inl (Nat.le_trans (bounded used) small)
      · simp only [Tame, owed, aligned, same used] at now ⊢
        exact now
    by_cases whole : rem.toNat ≤ (view.visible next).length
    · simp only [if_pos whole]
      have seen : (view.visible next).length ≤ (view.unread reader).length := by
        rw [← kept.unread, View.unread, List.length_append]
        omega
      have words : ¬ Lacks ⟨reader, trailer, padding, .content rem⟩ := by
        simp only [Lacks, aligned, owed]
        omega
      -- All whole words are visible: the last word is gathered behind them.
      have gathered := forceUntil_gathers (rem.toNat + alignNat trailer)
        (rem.toNat + alignNat trailer + budget next) kept.valid (by omega)
      generalize forceUntil (rem.toNat + alignNat trailer) (rem.toNat + alignNat trailer + budget next)
        next (view.visible next) = result at gathered
      have near {bound : Nat} (now : Tame bound ⟨next, trailer, padding, .content rem⟩) :
          rem.toNat + alignNat trailer ≤ bound + 8 ∧
            (view.visible next).length ≤ rem.toNat + alignNat trailer + bound := by
        simp only [Tame, owed, aligned] at now
        omega
      cases gathered with
      | @ready last kept' regular' enough grown' bounded' =>
        simp only
        rw [if_neg (by omega)]
        refine .ready (keeps_reader sound (kept.trans kept')) (regular' ∘ regular) ?_
          ⟨rfl, .inr enough⟩ ?_
        · intro bound (small : view.chunk reader ≤ bound) now
          have near := near (tame small now)
          refine .inr ⟨near.1, ?_⟩
          change (view.visible last).length ≤ rem.toNat + alignNat trailer + bound
          omega
        · intro none
          left
          have lengths := congrArg List.length none
          rw [List.length_take, List.length_nil] at lengths
          change rem.toNat + trailer = 0
          omega
      | @pending last kept' regular' grown' bounded' less =>
        refine .pending (keeps_reader sound (kept.trans kept')) (regular' ∘ regular) ?_
          (Nat.lt_of_lt_of_le less kept.budget)
        intro bound (small : view.chunk reader ≤ bound) now
        have near := near (tame small now)
        refine .inr ⟨near.1, ?_⟩
        change (view.visible last).length ≤ rem.toNat + alignNat trailer + bound
        omega
      | ended kept' regular' short kind =>
        refine .ended (keeps_reader sound (kept.trans kept')) ?_ words kind
        change ¬ rem.toNat + alignNat trailer ≤ (view.unread reader).length
        rw [← kept.unread]
        omega
      | refused kept' refuses large =>
        refine .refused (keeps_reader sound (kept.trans kept')) words refuses ?_
        intro ok bound small now
        have near := near (tame small now)
        have larger := large (regular ok)
        rw [kept.limit] at larger
        change view.limit reader < bound + 8
        omega
      | error kept' irregular =>
        exact .error (keeps_reader sound (kept.trans kept')) fun ok => irregular (regular ok)
    · simp only [if_neg whole]
      refine .ready (keeps_reader sound kept) regular tame
        ⟨(List.take_of_length_le (by simp only; omega)).symm, .inl (by simp only; omega)⟩ ?_
      intro none
      have gone : view.unread next = [] := by
        rw [View.unread, none, ends none]
        rfl
      exact .inr ⟨rem, rfl, by omega, kept.unread.symm.trans gone, gone⟩
  | pending kept regular same less =>
    refine .pending (keeps_reader sound kept) regular ?_ less
    intro bound _ now
    simp only [Tame, owed, aligned, same] at now ⊢
    exact now
  | error kept same irregular => exact .error (keeps_reader sound kept) irregular

/-- `poll_fill_buf` pours. -/
theorem pollFill_pours {this : PaddedReader R} (sound : Sound this) :
    Pours this this.pollFill := by
  obtain ⟨reader, trailer, padding, state⟩ := this
  have still : Keeps (R := R) ⟨reader, trailer, padding, state⟩ ⟨reader, trailer, padding, state⟩ :=
    ⟨sound, rfl, rfl, rfl, Iff.rfl, Iff.rfl, Nat.le_refl _, rfl, Nat.le_refl _⟩
  cases state with
  | content rem => exact pollFill_content sound
  | readPadding start stop =>
    obtain ⟨inside, ordered, bounded⟩ : start < trailer ∧ start ≤ stop ∧ stop ≤ 8 := sound.counts
    simp only [pollFill, fillWith, remainingUsize]
    rw [if_pos (by omega)]
    exact readTail_pours 8 sound rfl (by omega)
  | padding start =>
    have inside : start < trailer := sound.counts
    have small : trailer < 8 := sound.trailer
    have word : padding.length = 8 := sound.word
    simp only [pollFill, fillWith, remainingUsize]
    rw [if_pos (by omega)]
    refine .ready still id (fun _ => id) rfl fun none => ?_
    have lengths := congrArg List.length none
    rw [List.length_drop, List.length_take, List.length_nil] at lengths
    omega
  | eof => exact .ready still id (fun _ => id) rfl fun _ => .inl rfl

/-- What is shown comes next. -/
theorem Shows.starts {this : PaddedReader R} (sound : Sound this) {buf : Bytes}
    (shows_ : this.Shows buf) : buf <+: this.remaining := by
  obtain ⟨reader, trailer, padding, state⟩ := this
  have visible (count : Nat) : (view.visible reader).take count <+:
      (view.unread reader).take count :=
    List.prefix_take_iff.mpr ⟨(List.take_prefix _ _).trans (List.prefix_append _ _),
      List.length_take_le _ _⟩
  cases state with
  | content rem =>
    obtain ⟨rfl, _⟩ := shows_
    exact visible _
  | readPadding start stop =>
    obtain ⟨rfl, rfl, _⟩ := shows_
    have none : (padding.take start).drop start = [] :=
      List.drop_eq_nil_of_le (List.length_take_le _ _)
    change _ <+: ((padding.take start).drop start ++ view.unread reader).take (trailer - start)
    rw [none, List.nil_append]
    exact visible _
  | padding start =>
    have word : padding.length = 8 := sound.word
    have small : trailer < 8 := sound.trailer
    have length : ((padding.take trailer).drop start).length = trailer - start := by
      rw [List.length_drop, List.length_take]
      omega
    obtain rfl : buf = (padding.take trailer).drop start := shows_
    have whole : ((padding.take trailer).drop start ++ view.unread reader).take (trailer - start) =
        (padding.take trailer).drop start := by rw [← length, List.take_left]
    change _ <+: ((padding.take trailer).drop start ++ view.unread reader).take (trailer - start)
    exact whole.symm ▸ List.prefix_rfl
  | eof =>
    obtain rfl : buf = [] := shows_
    exact List.nil_prefix

/-- What consuming leaves of the contents. -/
structure Consumed (this next : PaddedReader R) (amt : Nat) : Prop where
  /-- The reader stays sound. -/
  sound : Sound next
  /-- The archive's reader stays regular. -/
  regular : view.Regular this.reader → view.Regular next.reader
  /-- The buffer stays tame. -/
  tame : ∀ {bound}, this.Tame bound → next.Tame bound
  /-- The contents still to come are shorter. -/
  remaining : next.remaining = this.remaining.drop amt
  /-- What comes behind them stays. -/
  left : next.left = this.left
  /-- Whether they are all there stays. -/
  complete : next.Complete ↔ this.Complete
  /-- Whether whole words are missing stays. -/
  lacks : next.Lacks ↔ this.Lacks
  /-- The bound on reads does not grow. -/
  chunk : view.chunk next.reader ≤ view.chunk this.reader
  /-- The limit of the buffer stays. -/
  limit : view.limit next.reader = view.limit this.reader
  /-- The budget does not grow. -/
  budget : budget next.reader ≤ budget this.reader

/-- Consuming in the whole words, and from them into the last. -/
theorem consume_content {reader : R} {trailer : Nat} {padding : Bytes} {rem : UInt64}
    (sound : Sound ⟨reader, trailer, padding, .content rem⟩) {buf : Bytes}
    (shows_ : Shows ⟨reader, trailer, padding, .content rem⟩ buf) {amt : Nat}
    (within : amt ≤ buf.length) :
    ∃ next, consumePadded ⟨reader, trailer, padding, .content rem⟩ amt = some next ∧
      Consumed ⟨reader, trailer, padding, .content rem⟩ next amt ∧ next.Shows (buf.drop amt) := by
  have small : trailer < 8 := sound.trailer
  have counts : rem.toNat + alignNat trailer < 2 ^ 64 := sound.counts
  have tail := le_alignNat trailer
  have bounds : rem.toNat + trailer < 2 ^ 64 ∧ rem.toNat + alignNat trailer < 2 ^ 64 :=
    ⟨by omega, counts⟩
  have known : remainingUsize ⟨reader, trailer, padding, .content rem⟩ =
      some (rem.toNat, rem.toNat + trailer, rem.toNat + alignNat trailer) := if_pos bounds
  obtain ⟨rfl, seen⟩ : buf = (view.visible reader).take (rem.toNat + trailer) ∧
    ((view.visible reader).length < rem.toNat ∨
      rem.toNat + alignNat trailer ≤ (view.visible reader).length) := shows_
  rw [List.length_take] at within
  have ok : view.Valid reader := sound.valid
  have visible : (view.visible reader).length ≤ (view.unread reader).length := by
    rw [View.unread, List.length_append]
    omega
  by_cases all : amt = rem.toNat + trailer
  · -- The last of the contents goes together with the padding.
    obtain ⟨next, took, valid, regular, shown, unread, chunk, limit, spent⟩ :=
      consumes_unread ok (show rem.toNat + alignNat trailer ≤ _ by omega)
    refine ⟨⟨next, trailer, padding, .eof⟩, ?_, ⟨⟨valid, small, sound.word, trivial⟩, regular,
      ?_, ?_, ?_, ?_, ?_, chunk, limit, Nat.le_trans (Nat.le_add_right _ _) spent⟩, ?_⟩
    · simp only [consumePadded, known, Option.bind_eq_bind, Option.bind_some]
      rw [if_neg (by omega), if_pos all, took]
      rfl
    · intro bound tame
      simp only [Tame, owed, aligned] at tame ⊢
      rw [shown, List.length_drop]
      omega
    · subst all
      change List.take 0 _ = List.drop (rem.toNat + trailer) (List.take (rem.toNat + trailer) _)
      rw [List.take_zero, List.drop_eq_nil_of_le (List.length_take_le _ _)]
    · change (view.unread next).drop 0 = (view.unread reader).drop (rem.toNat + alignNat trailer)
      rw [List.drop_zero, unread]
    · change 0 ≤ (view.unread next).length ↔
        rem.toNat + alignNat trailer ≤ (view.unread reader).length
      omega
    · change alignNat trailer + (view.unread next).length < 0 ↔
        alignNat trailer + (view.unread reader).length < rem.toNat + alignNat trailer
      omega
    · subst all
      exact List.drop_eq_nil_of_le (List.length_take_le _ _)
  · obtain ⟨next, took, valid, regular, shown, unread, chunk, limit, spent⟩ :=
      consumes_unread ok (show amt ≤ _ by omega)
    by_cases into : rem.toNat < amt
    · -- The last word is entered: all of it is visible.
      have word : alignNat trailer = 8 := by
        unfold alignNat
        omega
      refine ⟨⟨next, trailer, padding, .readPadding (amt - rem.toNat) (amt - rem.toNat)⟩, ?_,
        ⟨⟨valid, small, sound.word, ?_⟩, regular, ?_, ?_, ?_, ?_, ?_, chunk, limit,
          Nat.le_trans (Nat.le_add_right _ _) spent⟩, ?_⟩
      · simp only [consumePadded, known, Option.bind_eq_bind, Option.bind_some]
        rw [if_neg (by omega), if_neg all, took, Option.bind_some, if_pos into]
      · simp only
        omega
      · intro bound tame
        simp only [Tame, owed, aligned] at tame ⊢
        rw [shown, List.length_drop]
        omega
      · have none : (padding.take (amt - rem.toNat)).drop (amt - rem.toNat) = [] :=
          List.drop_eq_nil_of_le (List.length_take_le _ _)
        change List.take (trailer - (amt - rem.toNat)) (List.drop _ (List.take _ _) ++ _) =
          List.drop amt (List.take (rem.toNat + trailer) (view.unread reader))
        rw [none, List.nil_append, unread, List.drop_take]
        congr 1
        omega
      · change (view.unread next).drop (8 - (amt - rem.toNat)) =
          (view.unread reader).drop (rem.toNat + alignNat trailer)
        rw [unread, List.drop_drop]
        congr 1
        omega
      · change 8 - (amt - rem.toNat) ≤ (view.unread next).length ↔
          rem.toNat + alignNat trailer ≤ (view.unread reader).length
        rw [unread, List.length_drop]
        omega
      · change alignNat trailer + (view.unread next).length < 8 - (amt - rem.toNat) ↔
          alignNat trailer + (view.unread reader).length < rem.toNat + alignNat trailer
        omega
      · refine ⟨rfl, ?_, ?_⟩
        · simp only
          rw [shown, List.drop_take]
          congr 1
          omega
        · simp only
          rw [shown, List.length_drop]
          omega
    · have less : (rem - UInt64.ofNat amt).toNat = rem.toNat - amt :=
        toNat_sub_ofNat (Nat.le_of_not_lt into)
      refine ⟨⟨next, trailer, padding, .content (rem - UInt64.ofNat amt)⟩, ?_,
        ⟨⟨valid, small, sound.word, ?_⟩, regular, ?_, ?_, ?_, ?_, ?_, chunk, limit,
          Nat.le_trans (Nat.le_add_right _ _) spent⟩, ?_⟩
      · simp only [consumePadded, known, Option.bind_eq_bind, Option.bind_some]
        rw [if_neg (by omega), if_neg all, took, Option.bind_some, if_neg into]
      · simp only [aligned, less]
        omega
      · intro bound tame
        simp only [Tame, owed, aligned, less] at tame ⊢
        rw [shown, List.length_drop]
        omega
      · change List.take ((rem - UInt64.ofNat amt).toNat + trailer) (view.unread next) =
          List.drop amt (List.take (rem.toNat + trailer) (view.unread reader))
        rw [less, unread, List.drop_take]
        congr 1
        omega
      · change (view.unread next).drop ((rem - UInt64.ofNat amt).toNat + alignNat trailer) =
          (view.unread reader).drop (rem.toNat + alignNat trailer)
        rw [less, unread, List.drop_drop]
        congr 1
        omega
      · change (rem - UInt64.ofNat amt).toNat + alignNat trailer ≤ (view.unread next).length ↔
          rem.toNat + alignNat trailer ≤ (view.unread reader).length
        rw [less, unread, List.length_drop]
        omega
      · change alignNat trailer + (view.unread next).length <
            (rem - UInt64.ofNat amt).toNat + alignNat trailer ↔
          alignNat trailer + (view.unread reader).length < rem.toNat + alignNat trailer
        rw [less, unread, List.length_drop]
        omega
      · refine ⟨?_, ?_⟩
        · simp only
          rw [less, shown, List.drop_take]
          congr 1
          omega
        · simp only [aligned]
          rw [less, shown, List.length_drop]
          omega

/-- Consuming in a last word that is still in the archive. -/
theorem consume_tail {reader : R} {trailer : Nat} {padding : Bytes} {start stop : Nat}
    (sound : Sound ⟨reader, trailer, padding, .readPadding start stop⟩) {buf : Bytes}
    (shows_ : Shows ⟨reader, trailer, padding, .readPadding start stop⟩ buf) {amt : Nat}
    (within : amt ≤ buf.length) :
    ∃ next, consumePadded ⟨reader, trailer, padding, .readPadding start stop⟩ amt = some next ∧
      Consumed ⟨reader, trailer, padding, .readPadding start stop⟩ next amt ∧
      next.Shows (buf.drop amt) := by
  have small : trailer < 8 := sound.trailer
  obtain ⟨inside, ordered, bounded⟩ : start < trailer ∧ start ≤ stop ∧ stop ≤ 8 := sound.counts
  have word : alignNat trailer = 8 := by
    unfold alignNat
    omega
  have known : remainingUsize ⟨reader, trailer, padding, .readPadding start stop⟩ =
      some (0, trailer - start, alignNat trailer - start) := if_pos (Nat.le_of_lt inside)
  obtain ⟨rfl, rfl, covered⟩ : start = stop ∧
    buf = (view.visible reader).take (trailer - start) ∧
      8 - start ≤ (view.visible reader).length := shows_
  rw [List.length_take] at within
  have ok : view.Valid reader := sound.valid
  have empty (count : Nat) : (padding.take count).drop count = [] :=
    List.drop_eq_nil_of_le (List.length_take_le _ _)
  have visible : (view.visible reader).length ≤ (view.unread reader).length := by
    rw [View.unread, List.length_append]
    omega
  have before : remaining ⟨reader, trailer, padding, .readPadding start start⟩ =
      (view.unread reader).take (trailer - start) := by
    change List.take (trailer - start) ((padding.take start).drop start ++ _) = _
    rw [empty, List.nil_append]
  by_cases all : amt = trailer - start
  · obtain ⟨next, took, valid, regular, shown, unread, chunk, limit, spent⟩ :=
      consumes_unread ok (show alignNat trailer - start ≤ _ by omega)
    refine ⟨⟨next, trailer, padding, .eof⟩, ?_, ⟨⟨valid, small, sound.word, trivial⟩, regular,
      ?_, ?_, ?_, ?_, ?_, chunk, limit, Nat.le_trans (Nat.le_add_right _ _) spent⟩, ?_⟩
    · simp only [consumePadded, known, Option.bind_eq_bind, Option.bind_some]
      rw [if_neg (by omega), if_pos all, took]
      rfl
    · intro bound tame
      simp only [Tame, owed] at tame ⊢
      rw [shown, List.length_drop]
      omega
    · rw [before, all, List.drop_eq_nil_of_le (List.length_take_le _ _)]
      rfl
    · change (view.unread next).drop 0 = (view.unread reader).drop (8 - start)
      rw [List.drop_zero, unread, word]
    · change 0 ≤ (view.unread next).length ↔ 8 - start ≤ (view.unread reader).length
      omega
    · refine iff_of_false (Nat.not_lt_zero _) ?_
      exact sound.not_lacks fun _ => PadState.noConfusion
    · rw [all]
      exact List.drop_eq_nil_of_le (List.length_take_le _ _)
  · obtain ⟨next, took, valid, regular, shown, unread, chunk, limit, spent⟩ :=
      consumes_unread ok (show amt ≤ _ by omega)
    have same : max (start + amt) start = start + amt := Nat.max_eq_left (Nat.le_add_right _ _)
    refine ⟨⟨next, trailer, padding, .readPadding (start + amt) (start + amt)⟩, ?_,
      ⟨⟨valid, small, sound.word, ?_⟩, regular, ?_, ?_, ?_, ?_, ?_, chunk, limit,
        Nat.le_trans (Nat.le_add_right _ _) spent⟩, ?_⟩
    · simp only [consumePadded, known, Option.bind_eq_bind, Option.bind_some]
      rw [if_neg (by omega), if_neg all, took, Option.bind_some, same]
    · simp only
      omega
    · intro bound tame
      simp only [Tame, owed] at tame ⊢
      rw [shown, List.length_drop]
      omega
    · rw [before]
      change List.take (trailer - (start + amt)) (List.drop _ (List.take _ _) ++ _) = _
      rw [empty, List.nil_append, unread, List.drop_take]
      congr 1
      omega
    · change (view.unread next).drop (8 - (start + amt)) = (view.unread reader).drop (8 - start)
      rw [unread, List.drop_drop]
      congr 1
      omega
    · change 8 - (start + amt) ≤ (view.unread next).length ↔
        8 - start ≤ (view.unread reader).length
      rw [unread, List.length_drop]
      omega
    · change alignNat trailer + (view.unread next).length < 8 - (start + amt) ↔
        alignNat trailer + (view.unread reader).length < 8 - start
      omega
    · refine ⟨rfl, ?_, ?_⟩
      · simp only
        rw [shown, List.drop_take]
        congr 1
        omega
      · simp only
        rw [shown, List.length_drop]
        omega

/-- Consuming in a last word that is out of the archive. -/
theorem consume_word {reader : R} {trailer : Nat} {padding : Bytes} {start : Nat}
    (sound : Sound ⟨reader, trailer, padding, .padding start⟩) {buf : Bytes}
    (shows_ : Shows ⟨reader, trailer, padding, .padding start⟩ buf) {amt : Nat}
    (within : amt ≤ buf.length) :
    ∃ next, consumePadded ⟨reader, trailer, padding, .padding start⟩ amt = some next ∧
      Consumed ⟨reader, trailer, padding, .padding start⟩ next amt ∧ next.Shows (buf.drop amt) := by
  have small : trailer < 8 := sound.trailer
  have inside : start < trailer := sound.counts
  have eight : padding.length = 8 := sound.word
  have known : remainingUsize ⟨reader, trailer, padding, .padding start⟩ =
      some (0, trailer - start, alignNat trailer - start) := if_pos (Nat.le_of_lt inside)
  obtain rfl : buf = (padding.take trailer).drop start := shows_
  have length (from_ : Nat) : ((padding.take trailer).drop from_).length = trailer - from_ := by
    rw [List.length_drop, List.length_take]
    omega
  rw [length] at within
  have before (from_ : Nat) : remaining ⟨reader, trailer, padding, .padding from_⟩ =
      (padding.take trailer).drop from_ := by
    change List.take (trailer - from_) ((padding.take trailer).drop from_ ++ _) = _
    rw [← length, List.take_left]
  by_cases all : amt = trailer - start
  · refine ⟨⟨reader, trailer, padding, .eof⟩, ?_, ⟨⟨sound.valid, small, eight, trivial⟩, id, id,
      ?_, rfl, Iff.rfl, Iff.rfl, Nat.le_refl _, rfl, Nat.le_refl _⟩, ?_⟩
    · simp only [consumePadded, known, Option.bind_eq_bind, Option.bind_some]
      rw [if_neg (by omega), if_pos all]
    · rw [before, List.drop_eq_nil_of_le (by rw [length]; omega)]
      rfl
    · exact List.drop_eq_nil_of_le (by rw [length]; omega)
  · refine ⟨⟨reader, trailer, padding, .padding (start + amt)⟩, ?_,
      ⟨⟨sound.valid, small, eight, by simp only; omega⟩, id, id, ?_, rfl, Iff.rfl, Iff.rfl,
        Nat.le_refl _, rfl, Nat.le_refl _⟩, ?_⟩
    · simp only [consumePadded, known, Option.bind_eq_bind, Option.bind_some]
      rw [if_neg (by omega), if_neg all]
    · rw [before, before, List.drop_drop]
    · change List.drop amt _ = _
      rw [List.drop_drop]

/-- What is shown may be consumed. -/
theorem consume_shown {this : PaddedReader R} (sound : Sound this) {buf : Bytes}
    (shows_ : this.Shows buf) {amt : Nat} (within : amt ≤ buf.length) :
    ∃ next, this.consumePadded amt = some next ∧ Consumed this next amt ∧
      next.Shows (buf.drop amt) := by
  obtain ⟨reader, trailer, padding, state⟩ := this
  cases state with
  | content rem => exact consume_content sound shows_ within
  | readPadding start stop => exact consume_tail sound shows_ within
  | padding start => exact consume_word sound shows_ within
  | eof =>
    obtain rfl : buf = [] := shows_
    obtain rfl : amt = 0 := Nat.le_zero.mp within
    exact ⟨⟨reader, trailer, padding, .eof⟩, rfl, ⟨sound, id, id, rfl, rfl, Iff.rfl,
      Iff.rfl, Nat.le_refl _, rfl, Nat.le_refl _⟩, rfl⟩

/-- A poll of the archive that takes nothing consumes nothing. -/
theorem consumed_reader {this : PaddedReader R} (sound : Sound this) {next : R}
    (kept : view.Kept this.reader next)
    (regular : view.Regular this.reader → view.Regular next)
    (same : view.visible next = view.visible this.reader) :
    Consumed this { this with reader := next } 0 := by
  have keeps := keeps_reader sound kept
  refine ⟨keeps.sound, regular, ?_, keeps.remaining, keeps.left, keeps.complete, keeps.lacks,
    keeps.chunk, keeps.limit, keeps.budget⟩
  intro bound tame
  change (view.visible next).length ≤ bound ∨
    (this.owed ≤ bound + 8 ∧ (view.visible next).length ≤ this.owed + bound)
  rwa [same]

/-- Consuming nothing is always possible, whether or not anything was shown. -/
theorem consume_zero {this : PaddedReader R} (sound : Sound this) :
    ∃ next, this.consumePadded 0 = some next ∧ Consumed this next 0 := by
  obtain ⟨reader, trailer, padding, state⟩ := this
  have ok : view.Valid reader := sound.valid
  obtain ⟨next, took, valid, regular, shown, unread, chunk, limit, spent⟩ :=
    consumes_unread ok (Nat.zero_le _)
  rw [List.drop_zero] at shown unread
  have kept : view.Kept reader next := ⟨valid, unread, chunk, limit, spent⟩
  have still := consumed_reader sound kept regular shown
  cases state with
  | content rem =>
    have counts : rem.toNat + alignNat trailer < 2 ^ 64 := sound.counts
    have tail := le_alignNat trailer
    have bounds : rem.toNat + trailer < 2 ^ 64 ∧ rem.toNat + alignNat trailer < 2 ^ 64 :=
      ⟨by omega, counts⟩
    have known : remainingUsize ⟨reader, trailer, padding, .content rem⟩ =
        some (rem.toNat, rem.toNat + trailer, rem.toNat + alignNat trailer) := if_pos bounds
    by_cases none : rem.toNat + trailer = 0
    · have shown_ : Shows ⟨reader, trailer, padding, .content rem⟩ [] := by
        refine ⟨?_, .inr ?_⟩
        · change _ = (view.visible reader).take (rem.toNat + trailer)
          rw [none, List.take_zero]
        · change rem.toNat + alignNat trailer ≤ _
          unfold alignNat
          omega
      obtain ⟨after, took, consumed, _⟩ := consume_content sound shown_ (Nat.le_refl 0)
      exact ⟨after, took, consumed⟩
    · refine ⟨⟨next, trailer, padding, .content rem⟩, ?_, still⟩
      simp only [consumePadded, known, Option.bind_eq_bind, Option.bind_some]
      rw [if_neg (Nat.not_lt_zero _), if_neg (Ne.symm none), took, Option.bind_some,
        if_neg (Nat.not_lt_zero _), show rem - UInt64.ofNat 0 = rem from UInt64.sub_zero rem]
  | readPadding start stop =>
    obtain ⟨inside, ordered, bounded⟩ : start < trailer ∧ start ≤ stop ∧ stop ≤ 8 := sound.counts
    have known : remainingUsize ⟨reader, trailer, padding, .readPadding start stop⟩ =
        some (0, trailer - start, alignNat trailer - start) := if_pos (Nat.le_of_lt inside)
    refine ⟨⟨next, trailer, padding, .readPadding start stop⟩, ?_, still⟩
    simp only [consumePadded, known, Option.bind_eq_bind, Option.bind_some]
    rw [if_neg (Nat.not_lt_zero _), if_neg (by omega), took, Option.bind_some, Nat.add_zero,
      Nat.max_eq_right ordered]
  | padding start =>
    have inside : start < trailer := sound.counts
    have known : remainingUsize ⟨reader, trailer, padding, .padding start⟩ =
        some (0, trailer - start, alignNat trailer - start) := if_pos (Nat.le_of_lt inside)
    have same := consumed_reader sound
      (⟨ok, rfl, Nat.le_refl _, rfl, Nat.le_refl _⟩ : view.Kept reader reader) id rfl
    refine ⟨⟨reader, trailer, padding, .padding start⟩, ?_, same⟩
    simp only [consumePadded, known, Option.bind_eq_bind, Option.bind_some]
    rw [if_neg (Nat.not_lt_zero _), if_neg (by omega), Nat.add_zero]
  | eof =>
    have same := consumed_reader sound
      (⟨ok, rfl, Nat.le_refl _, rfl, Nat.le_refl _⟩ : view.Kept reader reader) id rfl
    exact ⟨⟨reader, trailer, padding, .eof⟩, rfl, same⟩

/-- What draining does. -/
inductive Drains (this : PaddedReader R) : Poll Unit × PaddedReader R → Prop
  | ready {next : PaddedReader R} (sound : Sound next)
    (regular : view.Regular this.reader → view.Regular next.reader)
    (tame : ∀ {bound}, view.chunk this.reader ≤ bound → this.Tame bound →
      (view.visible next.reader).length ≤ bound)
    (whole : this.Complete → view.unread next.reader = this.left)
    (cut : ¬ this.Complete → view.unread next.reader = [])
    (chunk : view.chunk next.reader ≤ view.chunk this.reader)
    (limit : view.limit next.reader = view.limit this.reader)
    (spent : budget next.reader ≤ budget this.reader) : Drains this (.ready (), next)
  | pending {next : PaddedReader R} (sound : Sound next)
    (regular : view.Regular this.reader → view.Regular next.reader)
    (tame : ∀ {bound}, view.chunk this.reader ≤ bound → this.Tame bound → next.Tame bound)
    (left : next.left = this.left) (complete : next.Complete ↔ this.Complete)
    (lacks : next.Lacks ↔ this.Lacks) (chunk : view.chunk next.reader ≤ view.chunk this.reader)
    (limit : view.limit next.reader = view.limit this.reader)
    (less : budget next.reader < budget this.reader) : Drains this (.pending, next)
  | ended {next : PaddedReader R} {error : IoError} (sound : Sound next)
    (short : ¬ this.Complete) (kind : error.kind = .unexpectedEof) : Drains this (.error error, next)
  | refused {next : PaddedReader R} {error : IoError} (sound : Sound next)
    (refuses : (view (R := R)).Refuses error)
    (large : view.Regular this.reader → ∀ {bound}, view.chunk this.reader ≤ bound →
      this.Tame bound → view.limit this.reader < bound + 8) : Drains this (.error error, next)
  | error {next : PaddedReader R} {error : IoError} (sound : Sound next)
    (irregular : ¬ view.Regular this.reader) : Drains this (.error error, next)

/-- Draining that goes on from where a read left the contents. -/
theorem Drains.of_next {this next : PaddedReader R} {result : Poll Unit × PaddedReader R}
    (regular : view.Regular this.reader → view.Regular next.reader)
    (tame : ∀ {bound}, view.chunk this.reader ≤ bound → this.Tame bound → next.Tame bound)
    (left : next.left = this.left) (complete : next.Complete ↔ this.Complete)
    (lacks : next.Lacks ↔ this.Lacks) (chunk : view.chunk next.reader ≤ view.chunk this.reader)
    (limit : view.limit next.reader = view.limit this.reader)
    (spent : budget next.reader ≤ budget this.reader) (later : Drains next result) :
    Drains this result := by
  cases later with
  | ready sound regular' tame' whole cut chunk' limit' spent' =>
    exact .ready sound (regular' ∘ regular)
      (fun small now => tame' (Nat.le_trans chunk small) (tame small now))
      (fun all => (whole (complete.mpr all)).trans left)
      (fun short => cut fun all => short (complete.mp all)) (Nat.le_trans chunk' chunk)
      (limit'.trans limit) (Nat.le_trans spent' spent)
  | pending sound regular' tame' left' complete' lacks' chunk' limit' less =>
    exact .pending sound (regular' ∘ regular)
      (fun small now => tame' (Nat.le_trans chunk small) (tame small now)) (left'.trans left)
      (complete'.trans complete) (lacks'.trans lacks) (Nat.le_trans chunk' chunk) (limit'.trans limit)
      (Nat.lt_of_lt_of_le less spent)
  | ended sound short kind => exact .ended sound (fun all => short (complete.mpr all)) kind
  | refused sound refuses large =>
    exact .refused sound refuses fun ok _ small now =>
      limit ▸ large (regular ok) (Nat.le_trans chunk small) (tame small now)
  | error sound irregular => exact .error sound fun ok => irregular (regular ok)

/-- A sound reader can count what is to come. -/
theorem Sound.remainingUsize_ne_none {this : PaddedReader R} (sound : Sound this) :
    this.remainingUsize ≠ none := by
  obtain ⟨reader, trailer, padding, state⟩ := this
  cases state with
  | content rem =>
    have counts : rem.toNat + alignNat trailer < 2 ^ 64 := sound.counts
    have tail := le_alignNat trailer
    have bounds : rem.toNat + trailer < 2 ^ 64 ∧ rem.toNat + alignNat trailer < 2 ^ 64 :=
      ⟨by omega, counts⟩
    have known : remainingUsize ⟨reader, trailer, padding, .content rem⟩ =
        some (rem.toNat, rem.toNat + trailer, rem.toNat + alignNat trailer) := if_pos bounds
    rw [known]
    exact Option.some_ne_none _
  | readPadding start stop =>
    have inside : start < trailer := sound.counts.1
    simp only [remainingUsize, if_pos (Nat.le_of_lt inside)]
    exact Option.some_ne_none _
  | padding start =>
    have inside : start < trailer := sound.counts
    simp only [remainingUsize, if_pos (Nat.le_of_lt inside)]
    exact Option.some_ne_none _
  | eof => exact Option.some_ne_none _

/-- What is out of the archive fits in the last word. -/
theorem Sound.held_length {this : PaddedReader R} (sound : Sound this) : this.held.length ≤ 8 := by
  have word := sound.word
  unfold held
  split <;> simp only [List.length_drop, List.length_take, List.length_nil] <;> omega

/-- When the archive has all the contents, as many are to come as are due. -/
theorem Sound.remaining_length {this : PaddedReader R} (sound : Sound this)
    (complete : this.Complete) : this.remaining.length = this.due := by
  obtain ⟨reader, trailer, padding, state⟩ := this
  have small : trailer < 8 := sound.trailer
  have word : padding.length = 8 := sound.word
  rw [remaining, List.length_take, Nat.min_eq_left]
  rw [ahead, List.length_append]
  cases state with
  | content rem =>
    change rem.toNat + alignNat trailer ≤ (view.unread reader).length at complete
    have grows := le_alignNat trailer
    simp only [due, held, List.length_nil]
    omega
  | readPadding start stop =>
    obtain ⟨inside, ordered, bounded⟩ : start < trailer ∧ start ≤ stop ∧ stop ≤ 8 := sound.counts
    change 8 - stop ≤ (view.unread reader).length at complete
    simp only [due, held, List.length_drop, List.length_take]
    omega
  | padding start =>
    simp only [due, held, List.length_drop, List.length_take]
    omega
  | eof => exact Nat.zero_le _

/-- When no contents are due nothing is owed. -/
theorem Sound.owed_zero {this : PaddedReader R} (sound : Sound this) (none : this.due = 0) :
    this.owed = 0 := by
  obtain ⟨reader, trailer, padding, state⟩ := this
  cases state with
  | content rem =>
    change rem.toNat + trailer = 0 at none
    change rem.toNat + alignNat trailer = 0
    unfold alignNat
    omega
  | readPadding start stop =>
    have inside : start < trailer := sound.counts.1
    change trailer - start = 0 at none
    omega
  | padding start => rfl
  | eof => rfl

/-- Draining reads to the end of the contents and their padding, or to the end of the archive. -/
theorem pollDrain_drains (fuel : Nat) {this : PaddedReader R} (sound : Sound this)
    (enough : this.remaining.length < fuel) : Drains this (pollDrain fuel this) := by
  induction fuel generalizing this with
  | zero => exact absurd enough (Nat.not_lt_zero _)
  | succ fuel ih =>
    rw [pollDrain]
    have poured := pollFill_pours sound
    generalize this.pollFill = result at poured
    cases poured with
    | @ready next buf keeps regular tame shows_ ends =>
      by_cases nothing : buf = []
      · simp only [if_pos nothing]
        rcases ends nothing with none | ⟨rem, content, positive, gone, gone'⟩
        · have paid := keeps.sound.owed_zero (keeps.due.trans none)
          have complete : this.Complete := by
            rw [← keeps.complete, Complete, paid]
            exact Nat.zero_le _
          refine .ready keeps.sound regular ?_ ?_ (fun short => absurd complete short) keeps.chunk
            keeps.limit keeps.budget
          · intro bound small now
            have after := tame small now
            rw [Tame, paid] at after
            omega
          · intro _
            rw [← keeps.left, PaddedReader.left, paid, List.drop_zero]
        · have short : ¬ this.Complete := by
            rw [Complete, gone, owed, content]
            simp only [List.length_nil]
            omega
          refine .ready keeps.sound regular ?_ (fun all => absurd all short) (fun _ => gone')
            keeps.chunk keeps.limit keeps.budget
          intro bound _ _
          have none := congrArg List.length gone'
          rw [View.unread, List.length_append, List.length_nil] at none
          omega
      · obtain ⟨after, took, consumed, _⟩ := consume_shown keeps.sound shows_ (Nat.le_refl buf.length)
        have starts := (shows_.starts keeps.sound).length_le
        have positive := List.length_pos_of_ne_nil nothing
        simp only [if_neg nothing, took]
        refine .of_next (consumed.regular ∘ regular)
          (fun small now => consumed.tame (tame small now)) (consumed.left.trans keeps.left)
          (consumed.complete.trans keeps.complete) (consumed.lacks.trans keeps.lacks)
          (Nat.le_trans consumed.chunk keeps.chunk) (consumed.limit.trans keeps.limit) (Nat.le_trans consumed.budget keeps.budget) ?_
        apply ih consumed.sound
        rw [consumed.remaining, List.length_drop]
        rw [keeps.remaining] at starts ⊢
        omega
    | pending keeps regular tame less =>
      exact .pending keeps.sound regular tame keeps.left keeps.complete keeps.lacks keeps.chunk
        keeps.limit less
    | ended keeps short words kind => exact .ended keeps.sound short kind
    | refused keeps words refuses large => exact .refused keeps.sound refuses large
    | error keeps irregular => exact .error keeps.sound irregular

end PaddedReader

end Harmonia.Nar
