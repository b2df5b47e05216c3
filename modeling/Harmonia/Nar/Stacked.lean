import Mathlib.Data.List.Basic
import Mathlib.Algebra.Order.Ring.Nat
import Harmonia.Nar.Forcing

/-!
# Stacks of adapters

Any adapter stands over any other, and the lowest is a `BytesReader` or a `Cursor`. Over every run of such
a stack, whatever the source below answers: a forced poll that is made where it can make progress makes
it, and a loop of such polls ends. `LentReader` is not such a place once something is visible: it shows the
same bytes again, for ever.
-/

namespace Harmonia.Forcing

open Nar

/-- The adapters, one over the other. -/
inductive Stack where
  /-- `BytesReader<S>`. -/
  | bytesReader
  /-- `Cursor<Bytes>`. -/
  | cursor
  /-- `PaddedReader`. -/
  | padded (below : Stack)
  /-- `NarBytesReader`. -/
  | nar (below : Stack)
  /-- `LentReader`. -/
  | lent (below : Stack)
  /-- `Lending`, for the contents of a file. -/
  | lendingPadded (below : Stack)
  /-- `Lending`, for an archive. -/
  | lendingNar (below : Stack)
  /-- `NixReader`. -/
  | nix (below : Stack)
  deriving DecidableEq, Repr

namespace Stack

variable (S : Type)

/-- The readers of a stack. -/
def State : Stack → Type
  | bytesReader => SharedReader S
  | cursor => Cursor
  | padded below => PaddedReader (State below)
  | nar below => NarReader (State below)
  | lent below => LentReader (State below)
  | lendingPadded below => Lending (State below) (PaddedReader (State below))
  | lendingNar below => Lending (State below) (NarReader (State below))
  | nix below => NixReader (State below)

variable [AsyncRead S]

/-- The methods of a stack are those of the adapter on top. -/
instance adapter : (stack : Stack) → BytesAdapter (State S stack)
  | bytesReader => inferInstanceAs (BytesAdapter (SharedReader S))
  | cursor => inferInstanceAs (BytesAdapter Cursor)
  | padded below =>
    have := adapter below
    inferInstanceAs (BytesAdapter (PaddedReader (State S below)))
  | nar below =>
    have := adapter below
    inferInstanceAs (BytesAdapter (NarReader (State S below)))
  | lent below =>
    have := adapter below
    inferInstanceAs (BytesAdapter (LentReader (State S below)))
  | lendingPadded below =>
    have := adapter below
    inferInstanceAs (BytesAdapter (Lending (State S below) (PaddedReader (State S below))))
  | lendingNar below =>
    have := adapter below
    inferInstanceAs (BytesAdapter (Lending (State S below) (NarReader (State S below))))
  | nix below =>
    have := adapter below
    inferInstanceAs (BytesAdapter (NixReader (State S below)))

/-- The bytes of every stack can be counted. -/
instance metered : (stack : Stack) → Metered (State S stack)
  | bytesReader => inferInstanceAs (Metered (SharedReader S))
  | cursor => inferInstanceAs (Metered Cursor)
  | padded below =>
    have := metered below
    inferInstanceAs (Metered (PaddedReader (State S below)))
  | nar below =>
    have := metered below
    inferInstanceAs (Metered (NarReader (State S below)))
  | lent below =>
    have := metered below
    inferInstanceAs (Metered (LentReader (State S below)))
  | lendingPadded below =>
    have := metered below
    inferInstanceAs (Metered (Lending (State S below) (PaddedReader (State S below))))
  | lendingNar below =>
    have := metered below
    inferInstanceAs (Metered (Lending (State S below) (NarReader (State S below))))
  | nix below =>
    have := metered below
    inferInstanceAs (Metered (NixReader (State S below)))

end Stack

open Stack

/-! ## Runs -/

/-- How long the buffer is that a poll leaves visible, if so much of it was visible before. -/
def left : Poll Bytes → Nat → Nat
  | .ready buf, _ => buf.length
  | _, seen => seen

/-- The readers that a stack can be, with the length of the buffer that it has shown last, less what was
consumed of it. A reader that was lent comes back in any state that its own kind can be in. -/
inductive Reached {S : Type} [AsyncRead S] : (stack : Stack) → State S stack → Nat → Prop
  | bytesReader (reserved most : Nat) (held : Nat → Bool) (rounds : Nat) (source : S) :
    Reached .bytesReader (SharedReader.build reserved most held rounds source) 0
  | cursor (data : Bytes) (rounds : Nat) : Reached .cursor (⟨data, 0, rounds⟩ : Cursor) 0
  | padded {below : Stack} {reader : State S below} {seen : Nat} (reached : Reached below reader seen)
    (len : UInt64) : Reached (.padded below) (PaddedReader.new reader len) 0
  | nar {below : Stack} {reader : State S below} {seen : Nat} (reached : Reached below reader seen) :
    Reached (.nar below) (NarReader.new reader) 0
  | lent {below : Stack} {reader : State S below} {seen : Nat} (reached : Reached below reader seen) :
    Reached (.lent below) (⟨some reader⟩ : LentReader (State S below)) 0
  | nix {below : Stack} {reader : State S below} {seen : Nat} (reached : Reached below reader seen) :
    Reached (.nix below) (⟨reader⟩ : NixReader (State S below)) 0
  | availablePadded {below : Stack} {reader : State S below} {seen : Nat}
    (reached : Reached below reader seen) :
    Reached (.lendingPadded below)
      (.available reader : Lending (State S below) (PaddedReader (State S below))) 0
  | availableNar {below : Stack} {reader : State S below} {seen : Nat}
    (reached : Reached below reader seen) :
    Reached (.lendingNar below) (.available reader : Lending (State S below) (NarReader (State S below))) 0
  | lendPadded {below : Stack} {reader : State S below} {seen : Nat}
    (reached : Reached (.lendingPadded below)
      (.available reader : Lending (State S below) (PaddedReader (State S below))) seen) :
    Reached (.lendingPadded below)
      (.lent none : Lending (State S below) (PaddedReader (State S below))) 0
  | lendNar {below : Stack} {reader : State S below} {seen : Nat}
    (reached : Reached (.lendingNar below)
      (.available reader : Lending (State S below) (NarReader (State S below))) seen) :
    Reached (.lendingNar below) (.lent none : Lending (State S below) (NarReader (State S below))) 0
  | backPadded {below : Stack} {reader : State S (.padded below)} {seen before : Nat}
    (out : Reached (.lendingPadded below)
      (.lent none : Lending (State S below) (PaddedReader (State S below))) before)
    (reached : Reached (.padded below) reader seen) :
    Reached (.lendingPadded below)
      (.lent (some reader) : Lending (State S below) (PaddedReader (State S below))) 0
  | backNar {below : Stack} {reader : State S (.nar below)} {seen before : Nat}
    (out : Reached (.lendingNar below)
      (.lent none : Lending (State S below) (NarReader (State S below))) before)
    (reached : Reached (.nar below) reader seen) :
    Reached (.lendingNar below)
      (.lent (some reader) : Lending (State S below) (NarReader (State S below))) 0
  | fill {stack : Stack} {this next : State S stack} {seen : Nat} {answer : Poll Bytes}
    (before : Reached stack this seen) (polled : pollFillBuf this = (answer, next))
    (returned : answer ≠ .panic) : Reached stack next (left answer seen)
  | force {stack : Stack} {this next : State S stack} {seen : Nat} {answer : Poll Bytes}
    (before : Reached stack this seen) (polled : pollForceFillBuf this = (answer, next))
    (returned : answer ≠ .panic) : Reached stack next (left answer seen)
  | read {stack : Stack} {this next : State S stack} {seen room : Nat} {answer : Poll Bytes}
    (before : Reached stack this seen) (polled : pollReadInto this room = (answer, next))
    (returned : answer ≠ .panic) : Reached stack next 0
  | consume {stack : Stack} {this next : State S stack} {seen amt : Nat}
    (before : Reached stack this seen) (within : amt ≤ seen)
    (took : AsyncBufRead.consume this amt = some next) : Reached stack next (seen - amt)
  | prepare {stack : Stack} {this next : State S stack} {seen additional : Nat}
    (before : Reached stack this seen) (made : prepareFor this additional = some next) :
    Reached stack next seen

section Runs

variable {S : Type} [AsyncRead S] {stack : Stack} {this : State S stack} {seen : Nat}

/-- A poll leaves no more visible than the reader shows. -/
theorem left_le {R : Type} {meter : Meter R} {reader next : R} {returns : Prop} {wanted : Nat → Prop}
    {answer : Poll Bytes} (answers : meter.Answers reader returns wanted (answer, next))
    (within : seen ≤ meter.shown reader) (returned : answer ≠ .panic) :
    meter.Sound next ∧ left answer seen ≤ meter.shown next := by
  cases answers with
  | ready sound shows_ kept => exact ⟨sound, Nat.le_of_eq shows_⟩
  | pending sound kept => exact ⟨sound, Nat.le_trans within kept⟩
  | error sound kept => exact ⟨sound, Nat.le_trans within kept⟩
  | panic => exact absurd rfl returned

/-- Over every run the bookkeeping is sound, and what was shown last is visible still. -/
theorem Reached.sound (reached : Reached stack this seen) :
    meter.Sound this ∧ seen ≤ meter.shown this := by
  induction reached with
  | bytesReader => exact ⟨trivial, Nat.zero_le _⟩
  | cursor => exact ⟨trivial, Nat.zero_le _⟩
  | padded _ len ih => exact ⟨⟨ih.1, PaddedReader.new_placed _ len⟩, Nat.zero_le _⟩
  | nar _ ih => exact ⟨⟨ih.1, .start, Nat.zero_le _⟩, Nat.zero_le _⟩
  | lent _ ih => exact ⟨LentReader.sound_some ih.1, Nat.zero_le _⟩
  | nix _ ih => exact ⟨ih.1, Nat.zero_le _⟩
  | availablePadded _ ih => exact ⟨ih.1, Nat.zero_le _⟩
  | availableNar _ ih => exact ⟨ih.1, Nat.zero_le _⟩
  | lendPadded => exact ⟨trivial, Nat.zero_le _⟩
  | lendNar => exact ⟨trivial, Nat.zero_le _⟩
  | backPadded _ _ _ ih => exact ⟨ih.1, Nat.zero_le _⟩
  | backNar _ _ _ ih => exact ⟨ih.1, Nat.zero_le _⟩
  | fill _ polled returned ih =>
    have answers := Metered.fills ih.1
    rw [polled] at answers
    exact left_le answers ih.2 returned
  | force _ polled returned ih =>
    have answers := Metered.forces ih.1
    rw [polled] at answers
    exact left_le answers ih.2 returned
  | @read _ _ _ _ room _ _ polled returned ih =>
    have reads := Metered.reads room ih.1
    rw [polled] at reads
    exact ⟨reads.left returned, Nat.zero_le _⟩
  | consume _ within took ih =>
    obtain ⟨sound, kept⟩ := Metered.takes ih.1 took
    have visible := ih.2
    exact ⟨sound, by omega⟩
  | prepare _ made ih =>
    obtain ⟨sound, kept⟩ := Metered.prepares ih.1 made
    exact ⟨sound, Nat.le_trans ih.2 kept⟩

/-- An answer of so many bytes at least, or an error, or none yet. -/
def Gives (least : Nat) : Poll Bytes → Prop
  | .ready buf => least ≤ buf.length
  | .pending => True
  | .error _ => True
  | .panic => False

/-- A loop that forces until its buffer is so long, over all the polls of it: it is polled again when it
was pending, and then fills first. So often has it been answered with a longer buffer. -/
inductive Polls {R : Type} [BytesAdapter R] [Metered R] (need : Nat) (reader : R) (length : Nat) :
    R → Nat → Nat → Prop
  | start : Polls need reader length reader length 0
  | fill {now next : R} {held count : Nat} {answer : Poll Bytes}
    (before : Polls need reader length now held count) (polled : pollFillBuf now = (answer, next))
    (returned : answer ≠ .panic) : Polls need reader length next (left answer held) count
  | wait {now next : R} {held count : Nat} (before : Polls need reader length now held count)
    (polled : pollForceFillBuf now = (.pending, next)) : Polls need reader length next held count
  | force {now next : R} {held count : Nat} {buf : Bytes}
    (before : Polls need reader length now held count) (short : held < need)
    (clear : meter.Clear now) (polled : pollForceFillBuf now = (.ready buf, next)) :
    Polls need reader length next buf.length (count + 1)

/-- Each answer that a forcing loop got has made its buffer longer. -/
theorem Polls.grows {R : Type} [BytesAdapter R] [Metered R] {need length held count : Nat} {reader now : R}
    (polls : Polls need reader length now held count) (sound : meter.Sound reader)
    (visible : length ≤ meter.shown reader) :
    meter.Sound now ∧ held ≤ meter.shown now ∧ length + count ≤ held ∧ count ≤ need - length := by
  induction polls with
  | start => exact ⟨sound, visible, Nat.le_refl _, Nat.zero_le _⟩
  | @fill _ _ held _ answer _ polled returned ih =>
    obtain ⟨sound, within, longer, few⟩ := ih
    have answers := Metered.fills sound
    rw [polled] at answers
    obtain ⟨sound', within'⟩ := left_le answers within returned
    refine ⟨sound', within', Nat.le_trans longer ?_, few⟩
    cases answers with
    | ready _ _ kept => exact Nat.le_trans within kept
    | pending => exact Nat.le_refl _
    | error => exact Nat.le_refl _
    | panic => exact absurd rfl returned
  | wait _ polled ih =>
    obtain ⟨sound, within, longer, few⟩ := ih
    have answers := Metered.forces sound
    rw [polled] at answers
    obtain ⟨sound', kept⟩ := answers.left (by rintro ⟨⟩)
    exact ⟨sound', Nat.le_trans within kept, longer, few⟩
  | force _ short clear polled ih =>
    obtain ⟨sound, within, longer, few⟩ := ih
    have answers := Metered.forces sound
    rw [polled] at answers
    cases answers with
    | ready sound' shows_ kept grown =>
      have more := grown clear
      refine ⟨sound', Nat.le_of_eq shows_, ?_, ?_⟩
      · omega
      · omega

/-- Over every run of every stack: where a reader is clear, a forced poll is pending, fails or shows more
than was visible; where filling is sure to return, it returns; and a loop whose forced polls are made where the
reader is clear ends with its bytes or an error, after no more answers than it lacks bytes. -/
theorem forced_progress (reached : Reached stack this seen) :
    seen ≤ meter.shown this ∧
      (meter.Clear this → Gives (meter.shown this + 1) (pollForceFillBuf this).1) ∧
      (meter.Returns this → (pollFillBuf this).1 ≠ .panic) ∧
      (∀ need (buf : Bytes), buf.length = seen → ClearUntil need this seen →
        Gives need (forceUntil need need this buf).1) ∧
      (∀ need now held count, Polls need this seen now held count → count ≤ need - seen) := by
  obtain ⟨sound, visible⟩ := reached.sound
  refine ⟨visible, ?_, ?_, ?_, ?_⟩
  · intro clear
    have answers := Metered.forces sound
    generalize pollForceFillBuf this = result at answers
    cases answers with
    | ready _ _ _ grown => exact grown clear
    | pending => trivial
    | error => trivial
    | panic stuck => exact stuck clear
  · exact (Metered.fills sound).returned
  · intro need buf length clear
    have gathers := forceUntil_clear need need sound (Nat.le_trans (Nat.le_of_eq length) visible)
    generalize forceUntil need need this buf = result at gathers
    cases gathers with
    | ready _ enough => exact enough
    | pending => trivial
    | error => trivial
    | panic stuck =>
      refine stuck ⟨Nat.le_add_right _ _, ?_⟩
      rw [length]
      exact clear
  · intro need now held count polls
    exact (polls.grows sound visible).2.2.2

end Runs

/-! ## Forcing in vain -/

/-- A source of five bytes and their padding, in reads of two. -/
def fiveBytes : Source := ⟨[1, 2, 3, 4, 5, 0, 0, 0], [], 1⟩

/-- Contents of five bytes, of which nothing is visible. -/
def unreadContents : State Source (.padded .bytesReader) :=
  PaddedReader.new (SharedReader.build 8 64 (fun _ => false) 0 fiveBytes) 5

/-- The first forced poll for the five bytes makes progress, and the loop for all of them ends. -/
theorem forced_progress_contents :
    Gives 1 (pollForceFillBuf unreadContents).1 ∧ Gives 5 (forceUntil 5 5 unreadContents []).1 := by
  have reached : Reached (.padded .bytesReader) unreadContents 0 :=
    .padded (.bytesReader 8 64 (fun _ => false) 0 fiveBytes) 5
  have clear : meter.Clear unreadContents := by
    refine ⟨by decide, trivial, by decide, ?_⟩
    intro buf next polled whole now held gathering short
    trivial
  obtain ⟨_, first, _, loop, _⟩ := forced_progress reached
  refine ⟨first clear, loop 5 [] rfl ?_⟩
  intro now held gathering short
  have only : (now = unreadContents ∧ held = 0) ∨ 5 ≤ held := by
    induction gathering with
    | start => exact .inl ⟨rfl, rfl⟩
    | force _ missing answer ih =>
      rcases ih missing with ⟨rfl, rfl⟩ | enough
      · have whole : (pollForceFillBuf unreadContents).1 = .ready [1, 2, 3, 4, 5] := rfl
        rw [answer] at whole
        cases whole
        exact .inr (Nat.le_refl _)
      · omega
  rcases only with ⟨rfl, rfl⟩ | enough
  · exact clear
  · omega

section Vain

variable {R : Type} [BytesAdapter R] {reader : R} {buf : Bytes}

/-- Once something is visible that filling shows again, a forced poll of the lent reader shows it again. -/
theorem lent_shows_again (nonempty : buf ≠ []) (again : pollFillBuf reader = (.ready buf, reader)) :
    pollForceFillBuf (⟨some reader⟩ : LentReader R) = (.ready buf, ⟨some reader⟩) := by
  change LentReader.pollForce (⟨some reader⟩ : LentReader R) = _
  simp only [LentReader.pollForce, again, if_neg nonempty]

/-- A loop over it that needs more bytes does not end. -/
theorem lent_loops (nonempty : buf ≠ []) (again : pollFillBuf reader = (.ready buf, reader)) {need : Nat}
    (short : buf.length < need) (fuel : Nat) :
    forceUntil need fuel (⟨some reader⟩ : LentReader R) buf = (.panic, ⟨some reader⟩) := by
  induction fuel with
  | zero =>
    unfold forceUntil
    rw [if_neg (Nat.not_le.mpr short)]
  | succ fuel ih =>
    unfold forceUntil
    rw [if_neg (Nat.not_le.mpr short), lent_shows_again nonempty again]
    exact ih

end Vain

/-- A source of four bytes, in reads of two. -/
def fourBytes : Source := ⟨[1, 2, 3, 4], [], 1⟩

/-- A `BytesReader` over it that has read once, and of which no slices are held. -/
def halfRead : SharedReader Source :=
  ⟨⟨{ fourBytes with stream := [3, 4] }, [1, 2], 0, 16, false, 8, 64⟩, fun _ => false, 0⟩

/-- Lent out, it can be forced for ever: what is shown is the same two bytes, though there are more. -/
theorem not_forced_progress :
    ∃ this : State Source (.lent .bytesReader), Reached (.lent .bytesReader) this 2 ∧
      pollForceFillBuf this = (.ready [1, 2], this) ∧ ¬ Gives 3 (pollForceFillBuf this).1 ∧
      ∀ fuel, forceUntil 3 fuel this [1, 2] = (.panic, this) := by
  have fresh : Reached (S := Source) (.lent .bytesReader)
      (⟨some (SharedReader.build 8 64 (fun _ => false) 0 fourBytes)⟩ : LentReader (SharedReader Source)) 0 :=
    .lent (.bytesReader 8 64 (fun _ => false) 0 fourBytes)
  have some : halfRead.reader.buffer ≠ [] := by decide
  have shown : pollFillBuf halfRead = (.ready [1, 2], halfRead) := rfl
  have again := lent_shows_again some shown
  refine ⟨(⟨.some halfRead⟩ : LentReader (SharedReader Source)), ?_, again, ?_, ?_⟩
  · exact @Reached.fill Source _ _ _ _ 0 (.ready [1, 2]) fresh rfl (by rintro ⟨⟩)
  · intro gives
    change Gives 3 (pollForceFillBuf (⟨.some halfRead⟩ : LentReader (SharedReader Source))).1 at gives
    rw [again] at gives
    change 3 ≤ 2 at gives
    omega
  · exact lent_loops some shown (by decide)

end Harmonia.Forcing
