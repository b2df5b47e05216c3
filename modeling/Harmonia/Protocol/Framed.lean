import Harmonia.Protocol.Chunked

/-!
# Framed bodies

`daemon_wire/framed/reader.rs` over `compat.rs`. Some requests are followed by a body: frames, each
a length that is not zero and so many bytes, and a zero behind the last of them. However much of
a body was read, and in whatever pieces, `drain_all` leaves its reader behind the zero.
-/

namespace Harmonia.Protocol

open Library

/-- `AsyncBufReadCompat`. -/
structure AsyncBufReadCompat (R : Type) where
  /-- `reader`. -/
  reader : R
  /-- `buffer`. -/
  buffer : Bytes
  deriving DecidableEq, Repr

namespace AsyncBufReadCompat

variable {R : Type}

/-- `new`. -/
def new (reader : R) : AsyncBufReadCompat R := ⟨reader, []⟩

/-- `poll_fill_buf`. -/
def pollFill [AsyncBufRead R] (this : AsyncBufReadCompat R) : Poll Bytes × AsyncBufReadCompat R :=
  if this.buffer = [] then
    match pollFillBuf this.reader with
    | (.ready buf, reader) => (.ready buf, ⟨reader, buf⟩)
    | (.pending, reader) => (.pending, ⟨reader, this.buffer⟩)
    | (.error error, reader) => (.error error, ⟨reader, this.buffer⟩)
    | (.panic, reader) => (.panic, ⟨reader, this.buffer⟩)
  else (.ready this.buffer, this)

/-- `consume`; `advance` panics behind the end. -/
def consumeShown [AsyncBufRead R] (this : AsyncBufReadCompat R) (amt : Nat) :
    Option (AsyncBufReadCompat R) :=
  if this.buffer.length < amt then none
  else (consume this.reader amt).map fun reader => ⟨reader, this.buffer.drop amt⟩

instance [AsyncBufRead R] : AsyncBufRead (AsyncBufReadCompat R) where
  pollFillBuf := pollFill
  consume := consumeShown
  budget this := max this.buffer.length (budget this.reader)

section Lawful

variable [AsyncBufRead R] [LawfulBufRead R]

/-- An `AsyncBufReadCompat` shows its own buffer, which is the start of what the reader below shows. -/
def compatView : View (AsyncBufReadCompat R) where
  Valid this := view.Valid this.reader ∧ this.buffer <+: view.visible this.reader
  Regular this := view.Regular this.reader
  visible := buffer
  rest this := (view.unread this.reader).drop this.buffer.length
  chunk this := max (view.chunk this.reader) (view.visible this.reader).length
  limit this := view.limit this.reader
  Refuses := (view : View R).Refuses

/-- Nothing is lost between the two. -/
theorem compatView_unread {this : AsyncBufReadCompat R} (valid : compatView.Valid this) :
    compatView.unread this = view.unread this.reader := by
  obtain ⟨more, joined⟩ := valid.2
  show this.buffer ++ (view.unread this.reader).drop this.buffer.length = _
  rw [View.unread, ← joined, List.append_assoc, List.drop_left]

/-- What it shows is covered by the budget of the reader below. -/
theorem budget_compat {this : AsyncBufReadCompat R} (valid : compatView.Valid this) :
    budget this = budget this.reader := by
  have shown := valid.2.length_le
  have all := @covered R _ _ this.reader
  rw [View.unread, List.length_append] at all
  exact Nat.max_eq_right (by omega)

/-- What a poll of the reader below keeps. -/
theorem kept_compat {this : AsyncBufReadCompat R} {next : R} {buffer : Bytes}
    (valid : compatView.Valid this) (kept : view.Kept this.reader next)
    (shows : buffer <+: view.visible next)
    (bounded : (view.visible next).length ≤ max (view.chunk this.reader)
      (view.visible this.reader).length) : compatView.Kept this ⟨next, buffer⟩ := by
  have now : compatView.Valid (⟨next, buffer⟩ : AsyncBufReadCompat R) := ⟨kept.valid, shows⟩
  refine ⟨now, ?_, ?_, kept.limit, ?_⟩
  · rw [compatView_unread now, compatView_unread valid]
    exact kept.unread
  · exact Nat.max_le.mpr ⟨Nat.le_trans kept.chunk (Nat.le_max_left _ _), bounded⟩
  · rw [budget_compat now, budget_compat valid]
    exact kept.budget

/-- Filling the buffer. -/
theorem pollFill_fills {this : AsyncBufReadCompat R} (valid : compatView.Valid this) :
    compatView.Fills this (pollFill this) := by
  unfold pollFill
  split
  case isTrue used =>
    have filled := fills valid.1
    generalize pollFillBuf this.reader = result at filled
    cases filled with
    | @ready next kept regular same bounded ends =>
      have size : (view.visible next).length ≤
          max (view.chunk this.reader) (view.visible this.reader).length := by
        by_cases none : view.visible this.reader = []
        · exact Nat.le_trans (bounded none) (Nat.le_max_left _ _)
        · rw [same none]
          exact Nat.le_max_right _ _
      refine @View.Fills.ready (AsyncBufReadCompat R) _ compatView this ⟨next, view.visible next⟩
        (kept_compat valid kept List.prefix_rfl size) regular ?_ ?_ ?_
      · exact fun some => absurd used some
      · exact fun _ => size
      · intro none
        show (view.unread next).drop (view.visible next).length = []
        rw [View.unread, List.drop_left]
        exact ends none
    | @pending next kept regular same less =>
      have now := @kept_compat _ _ _ this next this.buffer valid kept (used ▸ List.nil_prefix)
        (same ▸ Nat.le_max_right _ _)
      refine .pending now regular rfl ?_
      rw [budget_compat now.valid, budget_compat valid]
      exact less
    | @error next error kept same irregular =>
      refine .error (kept_compat valid kept ?_ ?_) rfl irregular
      · rw [used]
        exact List.nil_prefix
      · rw [same]
        exact Nat.le_max_right _ _
  case isFalse some =>
    exact .ready ⟨valid, rfl, Nat.le_refl _, rfl, Nat.le_refl _⟩ id (fun _ => rfl)
      (fun none => absurd none some) (fun none => absurd none some)

instance : LawfulBufRead (AsyncBufReadCompat R) where
  view := compatView
  fills := pollFill_fills
  consumes := by
    intro this amt valid within
    change amt ≤ this.buffer.length at within
    obtain ⟨more, joined⟩ := valid.2
    have lengths := congrArg List.length joined
    rw [List.length_append] at lengths
    obtain ⟨next, took, valid', regular, shown, rest, chunk, limit, spent⟩ :=
      @consumes R _ _ this.reader amt valid.1 (by omega)
    have shows : this.buffer.drop amt <+: view.visible next := by
      rw [shown, ← joined, List.drop_append_of_le_length within]
      exact List.prefix_append _ _
    have now : compatView.Valid (⟨next, this.buffer.drop amt⟩ : AsyncBufReadCompat R) :=
      ⟨valid', shows⟩
    refine ⟨_, ?_, now, regular, rfl, ?_, ?_, limit, ?_⟩
    · show consumeShown this amt = _
      rw [consumeShown, if_neg (by omega), took]
      rfl
    · show (view.unread next).drop (this.buffer.drop amt).length =
        (view.unread this.reader).drop this.buffer.length
      rw [View.unread, View.unread, shown, rest, ← joined,
        List.drop_append_of_le_length within, List.append_assoc, List.append_assoc,
        List.drop_left, List.drop_left]
    · show max (view.chunk next) (view.visible next).length ≤ _
      rw [shown, List.length_drop]
      exact Nat.max_le.mpr ⟨Nat.le_trans chunk (Nat.le_max_left _ _),
        Nat.le_trans (Nat.sub_le _ _) (Nat.le_max_right _ _)⟩
    · rw [budget_compat now, budget_compat valid]
      exact spent
  covered := by
    intro this
    have all := @covered R _ _ this.reader
    show (this.buffer ++ (view.unread this.reader).drop this.buffer.length).length ≤
      max this.buffer.length (budget this.reader)
    rw [List.length_append, List.length_drop]
    omega

end Lawful

end AsyncBufReadCompat

/-! ## The reader of a body -/

/-- `FramedReadState`. -/
inductive FramedReadState where
  /-- `ReadLen`, with the bytes read so far. -/
  | readLen (read : Bytes)
  /-- `ReadData`. -/
  | readData (remaining : Nat)
  /-- `Eof`. -/
  | eof
  deriving DecidableEq, Repr

/-- `FramedReader`. -/
structure FramedReader (R : Type) where
  /-- `reader`. -/
  reader : R
  /-- `state`. -/
  state : FramedReadState
  deriving DecidableEq, Repr

namespace FramedReader

variable {R : Type}

/-- `new`. -/
def new (reader : R) : FramedReader R := ⟨reader, .readLen []⟩

/-- The error of a body that is cut off. -/
def eofInFramed : IoError := ⟨.unexpectedEof, "EOF in framed reader"⟩

section Polls

variable [AsyncBufRead R]

/-- `poll_fill_buf` in `ReadData`. -/
def fillData (reader : R) (remaining : Nat) : Poll Bytes × FramedReader R :=
  match pollFillBuf reader with
  | (.ready buf, reader) =>
    if buf = [] then (.error eofInFramed, ⟨reader, .readData remaining⟩)
    else (.ready (buf.take (min buf.length remaining)), ⟨reader, .readData remaining⟩)
  | (.pending, reader) => (.pending, ⟨reader, .readData remaining⟩)
  | (.error error, reader) => (.error error, ⟨reader, .readData remaining⟩)
  | (.panic, reader) => (.panic, ⟨reader, .readData remaining⟩)

/-- `poll_fill_buf`. -/
def pollFill (this : FramedReader R) : Poll Bytes × FramedReader R :=
  match this.state with
  | .readLen read =>
    match TryReadU64.pollReader 8 (read, this.reader) with
    | (.ready (some len), _, reader) =>
      if 0 < len then fillData reader len.toNat else (.ready [], ⟨reader, .eof⟩)
    | (.ready none, read, reader) => (.error eofInFramed, ⟨reader, .readLen read⟩)
    | (.pending, read, reader) => (.pending, ⟨reader, .readLen read⟩)
    | (.error error, read, reader) => (.error error, ⟨reader, .readLen read⟩)
    | (.panic, read, reader) => (.panic, ⟨reader, .readLen read⟩)
  | .readData remaining => fillData this.reader remaining
  | .eof => (.ready [], this)

/-- `consume`, which panics when there is no frame or not so much of it. -/
def consumeData (this : FramedReader R) (amt : Nat) : Option (FramedReader R) :=
  match this.state with
  | .readData remaining =>
    if remaining < amt then none
    else (consume this.reader amt).map fun reader =>
      ⟨reader, if remaining - amt = 0 then .readLen [] else .readData (remaining - amt)⟩
  | .readLen _ | .eof => none

instance : AsyncBufRead (FramedReader R) where
  pollFillBuf := pollFill
  consume := consumeData
  budget this := budget this.reader

/-- `drain_all`, awaited. -/
def drainAll : Nat → Nat → FramedReader R → Poll Nat × FramedReader R
  | 0, _, this => (.panic, this)
  | patience + 1, drained, this =>
    match pollFillBuf this with
    | (.ready buf, this) =>
      if buf = [] then (.ready drained, this)
      else
        match consume this buf.length with
        | some this => drainAll patience (drained + buf.length) this
        | none => (.panic, this)
    | (.pending, this) => drainAll patience drained this
    | (.error error, this) => (.error error, this)
    | (.panic, this) => (.panic, this)

end Polls

/-- Someone polls a body, each time with room for so many bytes; `none` is a panic. -/
def readSome [AsyncBufRead R] : List Nat → Bytes → FramedReader R → Option (Bytes × FramedReader R)
  | [], read, this => some (read, this)
  | room :: rooms, read, this =>
    match pollRead this room with
    | (.ready bytes, this) => readSome rooms (read ++ bytes) this
    | (.pending, this) | (.error _, this) => readSome rooms read this
    | (.panic, _) => none

end FramedReader

/-! ## Well-formed bodies -/

/-- A frame. -/
structure Frame where
  /-- Its bytes. -/
  bytes : Bytes
  /-- There is one at least. -/
  nonempty : bytes ≠ []
  /-- Their number is a word. -/
  small : bytes.length < 2 ^ 64

/-- What a frame is on the wire. -/
def Frame.encode (frame : Frame) : Bytes := toLeBytes (UInt64.ofNat frame.bytes.length) ++ frame.bytes

/-- What a body is on the wire. -/
def framed (frames : List Frame) : Bytes := frames.flatMap Frame.encode ++ toLeBytes 0

/-- What a body contains. -/
def contents (frames : List Frame) : Bytes := frames.flatMap Frame.bytes

namespace FramedReader

variable {R : Type} [AsyncBufRead R] [LawfulBufRead R]

/-- A reader inside a well-formed body: its contents from here on, and what is behind it. -/
inductive Holds (tail : Bytes) : Bytes → FramedReader R → Prop
  | length {frames : List Frame} {read : Bytes} {reader : R} (valid : view.Valid reader)
    (regular : view.Regular reader) (few : read.length < 8)
    (arrives : read ++ view.unread reader = framed frames ++ tail) :
    Holds tail (contents frames) ⟨reader, .readLen read⟩
  | data {frames : List Frame} {now : Bytes} {reader : R} (valid : view.Valid reader)
    (regular : view.Regular reader) (more : now ≠ [])
    (arrives : view.unread reader = now ++ (framed frames ++ tail)) :
    Holds tail (now ++ contents frames) ⟨reader, .readData now.length⟩
  | ended {reader : R} (valid : view.Valid reader) (regular : view.Regular reader)
    (arrives : view.unread reader = tail) : Holds tail [] ⟨reader, .eof⟩

/-- What `poll_fill_buf` inside a well-formed body does. -/
inductive Polled (tail content : Bytes) (this : FramedReader R) : Poll Bytes × FramedReader R → Prop
  | shown {next : FramedReader R} {buf : Bytes} (holds : Holds tail content next)
    (limit : view.limit next.reader = view.limit this.reader)
    (spent : budget next ≤ budget this) (nonempty : buf ≠ []) (starts : buf <+: content)
    (visible : buf <+: view.visible next.reader) (inside : ∃ more, next.state = .readData (buf.length + more)) :
    Polled tail content this (.ready buf, next)
  | ended {next : FramedReader R} (none : content = []) (holds : Holds tail [] next)
    (limit : view.limit next.reader = view.limit this.reader)
    (spent : budget next ≤ budget this) (past : next.state = .eof) :
    Polled tail content this (.ready [], next)
  | pending {next : FramedReader R} (holds : Holds tail content next)
    (limit : view.limit next.reader = view.limit this.reader) (less : budget next < budget this) :
    Polled tail content this (.pending, next)

/-- A reader that comes to another one by a poll does what that one does. -/
theorem Polled.of_next {tail content : Bytes} {this next : FramedReader R}
    {result : Poll Bytes × FramedReader R}
    (limit : view.limit next.reader = view.limit this.reader) (spent : budget next ≤ budget this)
    (later : Polled tail content next result) : Polled tail content this result := by
  cases later with
  | shown holds limit' spent' nonempty starts visible inside =>
    exact .shown holds (limit'.trans limit) (Nat.le_trans spent' spent) nonempty starts visible inside
  | ended none holds limit' spent' past =>
    exact .ended none holds (limit'.trans limit) (Nat.le_trans spent' spent) past
  | pending holds limit' less => exact .pending holds (limit'.trans limit) (Nat.lt_of_lt_of_le less spent)

/-- `poll_fill_buf` inside a frame. -/
theorem fillData_polled {tail now : Bytes} {frames : List Frame} {reader : R}
    (valid : view.Valid reader) (regular : view.Regular reader) (more : now ≠ [])
    (arrives : view.unread reader = now ++ (framed frames ++ tail)) :
    Polled tail (now ++ contents frames) ⟨reader, .readData now.length⟩
      (fillData reader now.length) := by
  have filled := fills valid
  unfold fillData
  generalize pollFillBuf reader = result at filled
  cases filled with
  | @ready next kept regular' same bounded ends =>
    have unread : view.visible next ++ view.rest next = now ++ (framed frames ++ tail) :=
      kept.unread.trans arrives
    have some : view.visible next ≠ [] := by
      intro none
      rw [none, ends none] at unread
      exact more (List.append_eq_nil_iff.mp unread.symm).1
    simp only [if_neg some]
    -- What is shown is the start of the frame.
    have shown : (view.visible next).take (min (view.visible next).length now.length) =
        now.take (min (view.visible next).length now.length) := by
      have both := congrArg (List.take (min (view.visible next).length now.length)) unread
      rwa [List.take_append_of_le_length (Nat.min_le_left _ _),
        List.take_append_of_le_length (Nat.min_le_right _ _)] at both
    have size : (now.take (min (view.visible next).length now.length)).length =
        min (view.visible next).length now.length := by
      rw [List.length_take, Nat.min_eq_left (Nat.min_le_right _ _)]
    have visible := List.take_prefix (min (view.visible next).length now.length) (view.visible next)
    rw [shown] at visible ⊢
    refine .shown (.data kept.valid (regular' regular) more unread) kept.limit kept.budget ?_ ?_
      visible ⟨now.length - min (view.visible next).length now.length, ?_⟩
    · apply List.ne_nil_of_length_pos
      have one := List.length_pos_of_ne_nil some
      have two := List.length_pos_of_ne_nil more
      omega
    · exact (List.take_prefix _ _).trans (List.prefix_append _ _)
    · rw [size, Nat.add_sub_cancel' (Nat.min_le_right _ _)]
  | pending kept regular' same less =>
    exact .pending (.data kept.valid (regular' regular) more (kept.unread.trans arrives)) kept.limit less
  | error kept same irregular => exact absurd regular irregular

/-- A body starts with a word. -/
theorem framed_length (frames : List Frame) (tail : Bytes) : 8 ≤ (framed frames ++ tail).length := by
  rw [framed, List.length_append, List.length_append, toLeBytes_length]
  omega

/-- `poll_fill_buf` inside a well-formed body. -/
theorem Holds.polled {tail content : Bytes} {this : FramedReader R} (holds : Holds tail content this) :
    Polled tail content this (pollFillBuf this) := by
  show Polled tail content this (pollFill this)
  cases holds with
  | @length frames read reader valid regular few arrives =>
    have polled := TryReadU64.pollReader_polled 8 valid (Nat.le_of_lt few) (Nat.le_add_left _ _)
    have long := framed_length frames tail
    rw [← arrives] at long
    unfold pollFill
    simp only
    generalize TryReadU64.pollReader 8 (read, reader) = result at polled
    cases polled with
    | ended moved regular' nothing empty =>
      rw [moved.unread, empty, List.append_nil, nothing] at long
      cases long
    | @word next more moved regular' eight =>
      have spent := Nat.le_trans (Nat.le_add_right _ _) moved.spent
      rw [moved.unread, ← List.append_assoc] at arrives
      cases frames with
      | nil =>
        obtain ⟨word, left⟩ := List.append_inj arrives (eight.trans (toLeBytes_length 0).symm)
        simp only [word]
        exact .ended rfl (.ended moved.valid (regular' regular) left) moved.limit spent rfl
      | cons frame frames =>
        have joins : framed (frame :: frames) ++ tail =
            toLeBytes (UInt64.ofNat frame.bytes.length) ++
              (frame.bytes ++ (framed frames ++ tail)) := by
          simp only [framed, Frame.encode, List.flatMap_cons, List.append_assoc]
        rw [joins] at arrives
        obtain ⟨word, left⟩ := List.append_inj arrives (eight.trans (toLeBytes_length _).symm)
        have exact : (UInt64.ofNat frame.bytes.length).toNat = frame.bytes.length :=
          UInt64.toNat_ofNat_of_lt' frame.small
        have positive : 0 < UInt64.ofNat frame.bytes.length := by
          apply UInt64.lt_iff_toNat_lt.mpr
          rw [exact]
          exact List.length_pos_of_ne_nil frame.nonempty
        simp only [word, fromLeBytes_toLeBytes, if_pos positive, exact]
        exact .of_next moved.limit spent
          (fillData_polled moved.valid (regular' regular) frame.nonempty left)
    | @pending next more moved regular' fewer less =>
      rw [moved.unread, ← List.append_assoc] at arrives
      exact .pending (.length moved.valid (regular' regular) fewer arrives) moved.limit less
    | torn moved regular' began fewer empty =>
      rw [moved.unread, empty, List.append_nil] at long
      omega
    | failed moved irregular => exact absurd regular irregular
  | data valid regular more arrives => exact fillData_polled valid regular more arrives
  | ended valid regular arrives =>
    exact .ended rfl (.ended valid regular arrives) rfl (Nat.le_refl _) rfl

/-- `consume` of what was shown. -/
theorem Holds.consumed {tail content : Bytes} {this : FramedReader R} {amt remaining : Nat}
    (holds : Holds tail content this) (inside : this.state = .readData remaining)
    (within : amt ≤ remaining) (visible : amt ≤ (view.visible this.reader).length) :
    ∃ next, consume this amt = some next ∧ Holds tail (content.drop amt) next ∧
      view.limit next.reader = view.limit this.reader ∧ budget next + amt ≤ budget this := by
  cases holds with
  | length => cases inside
  | ended => cases inside
  | @data frames now reader valid regular more arrives =>
    cases inside
    obtain ⟨next, took, valid', regular', shown, unread, chunk, limit, spent⟩ :=
      consumes_unread valid visible
    rw [arrives, List.drop_append_of_le_length within] at unread
    refine ⟨⟨next, if now.length - amt = 0 then .readLen [] else .readData (now.length - amt)⟩, ?_, ?_,
      limit, spent⟩
    · show consumeData _ _ = _
      simp only [consumeData, if_neg (Nat.not_lt.mpr within), took, Option.map_some]
    · rw [List.drop_append_of_le_length within]
      split
      case isTrue all =>
        rw [List.drop_of_length_le (by omega), List.nil_append] at unread ⊢
        exact .length valid' (regular' regular) (by decide) unread
      case isFalse part =>
        rw [← List.length_drop]
        refine .data valid' (regular' regular) ?_ unread
        apply List.ne_nil_of_length_pos
        rw [List.length_drop]
        omega

/-- What was shown can be consumed. -/
theorem Polled.consumed {tail content : Bytes} {next : FramedReader R} {buf : Bytes} {amt : Nat}
    (holds : Holds tail content next) (visible : buf <+: view.visible next.reader)
    (inside : ∃ more, next.state = .readData (buf.length + more)) (within : amt ≤ buf.length) :
    ∃ after, consume next amt = some after ∧ Holds tail (content.drop amt) after ∧
      view.limit after.reader = view.limit next.reader ∧ budget after + amt ≤ budget next := by
  obtain ⟨more, inside⟩ := inside
  exact holds.consumed inside (by omega) (Nat.le_trans within visible.length_le)

/-- What `poll_read` inside a well-formed body does. -/
inductive Taken (tail content : Bytes) (room : Nat) (this : FramedReader R) :
    Poll Bytes × FramedReader R → Prop
  | ready {next : FramedReader R} {bytes left : Bytes} (joined : content = bytes ++ left)
    (holds : Holds tail left next) (ends : bytes = [] → room = 0 ∨ content = [])
    (limit : view.limit next.reader = view.limit this.reader)
    (spent : budget next + bytes.length ≤ budget this) : Taken tail content room this (.ready bytes, next)
  | pending {next : FramedReader R} (holds : Holds tail content next)
    (limit : view.limit next.reader = view.limit this.reader) (less : budget next < budget this) :
    Taken tail content room this (.pending, next)

/-- `poll_read` inside a well-formed body. -/
theorem Holds.taken {tail content : Bytes} {this : FramedReader R} (holds : Holds tail content this)
    (room : Nat) : Taken tail content room this (pollRead this room) := by
  have polled := holds.polled
  unfold pollRead
  generalize pollFillBuf this = result at polled
  cases polled with
  | @shown next buf holds limit spent nonempty starts visible inside =>
    have within := Nat.min_le_left buf.length room
    obtain ⟨after, took, left, same, less⟩ := Polled.consumed holds visible inside within
    have size : (buf.take (min buf.length room)).length = min buf.length room := by
      rw [List.length_take, Nat.min_eq_left within]
    have positive := List.length_pos_of_ne_nil nonempty
    obtain ⟨more, rfl⟩ := starts
    simp only [if_neg nonempty, took]
    refine .ready ?_ left ?_ (same.trans limit) (by rw [size]; omega)
    · rw [List.drop_append_of_le_length within, ← List.append_assoc, List.take_append_drop]
    · intro none
      rw [none, List.length_nil] at size
      exact .inl (by omega)
  | @ended next none left limit spent past =>
    subst none
    exact .ready rfl left (fun _ => .inr rfl) limit spent
  | pending holds limit less => exact .pending holds limit less

/-- At its end a reader stands behind the body. -/
theorem Holds.at_end {tail content : Bytes} {this : FramedReader R} (holds : Holds tail content this)
    (past : this.state = .eof) :
    view.Valid this.reader ∧ view.Regular this.reader ∧ view.unread this.reader = tail := by
  cases holds with
  | length => cases past
  | data => cases past
  | ended valid regular arrives => exact ⟨valid, regular, arrives⟩

/-- `drain_all` ends behind the body. -/
theorem Holds.drained {tail content : Bytes} {patience drained : Nat} {this : FramedReader R}
    (holds : Holds tail content this) (patient : budget this < patience) :
    ∃ next, drainAll patience drained this = (.ready (drained + content.length), next) ∧
      view.Valid next.reader ∧ view.Regular next.reader ∧ view.unread next.reader = tail ∧
      view.limit next.reader = view.limit this.reader ∧ budget next ≤ budget this := by
  induction patience generalizing this content drained with
  | zero => cases patient
  | succ patience ih =>
    have polled := holds.polled
    unfold drainAll
    generalize pollFillBuf this = result at polled
    cases polled with
    | @shown next buf holds limit spent nonempty starts visible inside =>
      obtain ⟨after, took, left, same, less⟩ := Polled.consumed holds visible inside (Nat.le_refl _)
      have positive := List.length_pos_of_ne_nil nonempty
      obtain ⟨last, drains, valid, regular, unread, limit', spent'⟩ :=
        @ih _ (drained + buf.length) after left (by omega)
      refine ⟨last, ?_, valid, regular, unread, limit'.trans (same.trans limit), by omega⟩
      simp only [if_neg nonempty, took, drains]
      have size := starts.length_le
      rw [List.length_drop, Nat.add_assoc, Nat.add_sub_cancel' size]
    | @ended next none left limit spent past =>
      subst none
      obtain ⟨valid, regular, unread⟩ := left.at_end past
      exact ⟨next, rfl, valid, regular, unread, limit, spent⟩
    | @pending next holds limit less =>
      obtain ⟨last, drains, valid, regular, unread, limit', spent'⟩ := @ih _ drained next holds (by omega)
      exact ⟨last, drains, valid, regular, unread, limit'.trans limit, by omega⟩

/-- Whoever polls a body reads a start of its contents. -/
theorem Holds.someRead {tail content : Bytes} {this : FramedReader R} (holds : Holds tail content this)
    (rooms : List Nat) (read : Bytes) :
    ∃ more left next, readSome rooms read this = some (read ++ more, next) ∧ content = more ++ left ∧
      Holds tail left next ∧ view.limit next.reader = view.limit this.reader ∧
      budget next ≤ budget this := by
  induction rooms generalizing this content read with
  | nil => exact ⟨[], content, this, by rw [List.append_nil]; rfl, rfl, holds, rfl, Nat.le_refl _⟩
  | cons room rooms ih =>
    have taken := holds.taken room
    unfold readSome
    generalize pollRead this room = result at taken
    cases taken with
    | @ready next bytes left joined holds ends limit spent =>
      obtain ⟨more, last, after, reads, rest, holds', limit', spent'⟩ := ih holds (read ++ bytes)
      refine ⟨bytes ++ more, last, after, ?_, ?_, holds', limit'.trans limit, by omega⟩
      · rw [← List.append_assoc]
        exact reads
      · rw [joined, rest, List.append_assoc]
    | @pending next holds limit less =>
      obtain ⟨more, last, after, reads, rest, holds', limit', spent'⟩ := ih holds read
      exact ⟨more, last, after, reads, rest, holds', limit'.trans limit, by omega⟩

end FramedReader

end Harmonia.Protocol
