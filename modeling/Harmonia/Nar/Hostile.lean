import Mathlib.Data.List.Basic
import Mathlib.Algebra.Order.Ring.Nat
import Harmonia.Io.BytesReader
import Harmonia.Nar.Reader
import Harmonia.Nar.Session
import Harmonia.Nar.Story

/-!
# Hostile archives

Every use of the decoders on arbitrary bytes: polls in any order, reads of any size, pending
polls and failures of the source at any time. The two readers never panic. The parser does
not either, as long as no length above 2⁶⁴ − 8 is reached; there `split_to` and the additions
in `remaining_usize` go out of range.
-/

namespace Harmonia.Nar

open Library

/-- What a consumer can do with a session. -/
inductive Action where
  /-- Poll the parser. -/
  | next
  /-- Fill the buffer of the file reader. -/
  | fill
  /-- Consume at most so many of the bytes shown. -/
  | take (amt : Nat)
  /-- Drop the file reader. -/
  | drop
  deriving DecidableEq, Repr

/-- What comes of an action. -/
inductive Report where
  /-- An event. -/
  | event (event : NarEvent Unit)
  /-- The end of the archive. -/
  | ended
  /-- Bytes of a file or of an archive. -/
  | shown (bytes : Bytes)
  /-- Nothing to report. -/
  | done
  /-- Not yet. -/
  | pending
  /-- An error. -/
  | error (error : IoError)
  /-- A panic. -/
  | panic
  deriving DecidableEq, Repr

/-- The report of a poll. -/
def Report.of {α : Type} (ready : α → Report) : Poll α → Report
  | .ready value => ready value
  | .pending => .pending
  | .error cause => .error cause
  | .panic => .panic

/-- The parser itself has failed, and is not polled again. -/
def Report.final : Report → Action → Bool
  | .error _, .next => true
  | _, _ => false

namespace Session

variable {R : Type} [AsyncBytesRead R]

/-- Bytes shown by the file reader and not consumed. -/
def buffered (this : Session R) : Nat :=
  match this.file with
  | some file => file.buffer.length
  | none => 0

/-- One action. Nothing is consumed that was not shown. -/
def act (this : Session R) : Action → Report × Session R
  | .next => (.of (fun event => event.elim .ended .event) this.next.1, this.next.2)
  | .fill => (.of .shown this.fill.1, this.fill.2)
  | .take amt =>
    match this.take (min amt this.buffered) with
    | some next => (.done, next)
    | none => (.panic, this)
  | .drop => (.done, this.dropFile)

/-- The reports of some actions, up to the first error of the parser itself. -/
def play : List Action → Session R → List Report
  | [], _ => []
  | action :: actions, this =>
    let (report, next) := this.act action
    if report.final action then [report] else report :: play actions next

end Session

section Parser

variable {R : Type} [AsyncBytesRead R] [LawfulBytesRead R]

/-- The session still follows a transcript that is not broken. -/
def Sane (this : Session R) : Prop :=
  ∃ told cap, told.ending ≠ .broken ∧ Follows Trust.never told cap this

/-- An action that does not panic, and leaves a sane session unless the parser has failed. -/
def Harmless (action : Action) (result : Report × Session R) : Prop :=
  result.1 ≠ .panic ∧ (result.1.final action = true ∨ Sane result.2)

/-- Polling the parser of a sane session is harmless. -/
theorem Sane.next {this : Session R} (sane : Sane this) :
    Harmless .next (this.act .next) := by
  obtain ⟨told, cap, unbroken, follows⟩ := sane
  cases follows with
  | free stands released =>
    have said := stands.told released
    simp only [Session.act]
    generalize this.next = result at said
    cases said with
    | @ended session reader fields past holds follows =>
      exact ⟨by simp [Report.of], .inr ⟨_, cap, Ending.noConfusion, follows⟩⟩
    | @event session event later fields split stands released =>
      rw [split] at unbroken
      exact ⟨by simp [Report.of], .inr ⟨later, cap, unbroken, .free stands released⟩⟩
    | @file session name executable size bytes later fields split fresh short reading =>
      rw [split] at unbroken
      exact ⟨by simp [Report.of], .inr ⟨later, cap, unbroken, .reading reading⟩⟩
    | @pending session later fields less split stands released fewer =>
      rw [split] at unbroken
      exact ⟨by simp [Report.of], .inr ⟨later, less, unbroken, .free stands released⟩⟩
    | error fails => exact ⟨by simp [Report.of], .inl rfl⟩
    | broken none past => exact absurd past unbroken
  | reading reading =>
    simp only [Session.act, reading.next]
    exact ⟨by simp [Report.of], .inr ⟨told, cap, unbroken, .reading reading⟩⟩

/-- Filling the file reader of a sane session is harmless. -/
theorem Sane.fill {this : Session R} (sane : Sane this) :
    Harmless .fill (this.act .fill) := by
  obtain ⟨told, cap, unbroken, follows⟩ := sane
  cases follows with
  | free stands released =>
    simp only [Session.act, released.filled]
    exact ⟨by simp [Report.of], .inr ⟨told, cap, unbroken, .free stands released⟩⟩
  | reading reading =>
    have filled := reading.filled
    simp only [Session.act]
    generalize this.fill = result at filled
    cases filled with
    | shown nonempty starts holds reading =>
      exact ⟨by simp [Report.of], .inr ⟨told, cap, unbroken, .reading reading⟩⟩
    | ended none full stands released =>
      exact ⟨by simp [Report.of], .inr ⟨told, cap, unbroken, .free stands released⟩⟩
    | @pending session less reading fewer =>
      exact ⟨by simp [Report.of], .inr ⟨told, less, unbroken, .reading reading⟩⟩
    | error fails words reading =>
      exact ⟨by simp [Report.of], .inr ⟨told, cap, unbroken, .reading reading⟩⟩
    | broken past =>
      rw [past] at unbroken
      exact absurd rfl unbroken

/-- Consuming what a sane session has shown is harmless. -/
theorem Sane.take {this : Session R} (sane : Sane this) (amt : Nat) :
    Harmless (.take amt) (this.act (.take amt)) := by
  obtain ⟨told, cap, unbroken, follows⟩ := sane
  cases follows with
  | free stands released =>
    have none : this.buffered = 0 := by
      obtain ⟨parser, file⟩ := this
      cases file with
      | none => rfl
      | some file =>
        obtain rfl := released file rfl
        rfl
    simp only [Session.act, none, Nat.min_zero, released.taken]
    exact ⟨Report.noConfusion, .inr ⟨told, cap, unbroken, .free stands released⟩⟩
  | reading reading =>
    have fits : told ≠ ⟨[], [], .broken⟩ := by
      rintro rfl
      exact unbroken rfl
    obtain ⟨file, holds⟩ : ∃ file, this.file = some file := by
      cases reading with
      | mk lent holds remains shown => exact ⟨_, holds⟩
    have within : min amt this.buffered ≤ file.buffer.length := by
      rw [Session.buffered, holds]
      exact Nat.min_le_right _ _
    obtain ⟨next, took, reading⟩ := reading.taken holds (.inl fits) within
    simp only [Session.act, took]
    exact ⟨Report.noConfusion, .inr ⟨told, cap, unbroken, .reading reading⟩⟩

/-- Dropping the file reader of a sane session is harmless. -/
theorem Sane.drop {this : Session R} (sane : Sane this) : Harmless .drop (this.act .drop) := by
  obtain ⟨told, cap, unbroken, follows⟩ := sane
  refine ⟨Report.noConfusion, .inr ⟨told, cap, unbroken, ?_⟩⟩
  cases follows with
  | free stands released =>
    obtain ⟨same, released⟩ := released.dropped
    exact .free (same ▸ stands) released
  | reading reading =>
    obtain ⟨stands, released⟩ := reading.dropped
    exact .free stands released

/-- Every action on a sane session is harmless. -/
theorem Sane.act {this : Session R} (sane : Sane this) (action : Action) :
    Harmless action (this.act action) := by
  cases action with
  | next => exact sane.next
  | fill => exact sane.fill
  | take amt => exact sane.take amt
  | drop => exact sane.drop

/-- No run of a sane session panics. -/
theorem Sane.play {this : Session R} (sane : Sane this) (actions : List Action) :
    .panic ∉ this.play actions := by
  induction actions generalizing this with
  | nil => exact List.not_mem_nil
  | cons action actions ih =>
    have harmless := sane.act action
    rw [Session.play]
    generalize this.act action = result at harmless
    obtain ⟨report, next⟩ := result
    obtain ⟨quiet, later⟩ := harmless
    simp only
    split
    · rw [List.mem_singleton]
      exact Ne.symm quiet
    · rename_i goes
      rw [List.mem_cons, not_or]
      rcases later with final | sane
      · exact absurd final goes
      · exact ⟨Ne.symm quiet, ih sane⟩

/-- A fresh session over bytes without a length that does not fit is sane. -/
theorem Sane.start {reader : R} (valid : view.Valid reader)
    (fits : ¬ Oversized codeAlign (view.unread reader)) : Sane (Session.new reader) := by
  obtain ⟨stands, released⟩ := @Session.start R _ _ Trust.never reader valid False.elim False.elim
  exact ⟨_, _, parse_unbroken fits, .free stands released⟩

end Parser

/-- What a consumer can do with a `NarReader` or a `NarBytesReader`. -/
inductive Touch where
  /-- `poll_fill_buf`. -/
  | fill
  /-- `poll_force_fill_buf`. -/
  | force
  /-- Consume at most so many of the bytes shown. -/
  | consume (amt : Nat)
  deriving DecidableEq, Repr

section Readers

variable {R : Type} [AsyncBufRead R]

/-- One use of a reader. `force` is `poll_force_fill_buf` of the reader below, if it has one. -/
def NarReader.touch (force : Option (R → Poll Bytes × R)) (this : NarReader R) :
    Touch → Report × NarReader R
  | .fill => (.of .shown (this.pollWith pollFillBuf).1, (this.pollWith pollFillBuf).2)
  | .force =>
    match force with
    | some poll => (.of .shown (this.pollWith poll).1, (this.pollWith poll).2)
    | none => (.done, this)
  | .consume amt =>
    match this.consumeParsed (min amt this.parsed) with
    | some next => (.done, next)
    | none => (.panic, this)

/-- The reports of some uses of a reader. -/
def NarReader.play (force : Option (R → Poll Bytes × R)) :
    List Touch → NarReader R → List Report
  | [], _ => []
  | touch :: touches, this =>
    (this.touch force touch).1 :: play force touches (this.touch force touch).2

variable [LawfulBufRead R]

/-- A poll that only adds to the buffer. -/
inductive Extends (reader : R) : Poll Bytes × R → Prop
  | ready {next : R} (valid : view.Valid next) (grown : view.visible reader <+: view.visible next) :
    Extends reader (.ready (view.visible next), next)
  | pending {next : R} (valid : view.Valid next)
    (grown : view.visible reader <+: view.visible next) : Extends reader (.pending, next)
  | error {next : R} {error : IoError} (valid : view.Valid next)
    (grown : view.visible reader <+: view.visible next) : Extends reader (.error error, next)

/-- `poll_fill_buf` only adds to the buffer. -/
theorem extends_fill {reader : R} (valid : view.Valid reader) :
    Extends reader (pollFillBuf reader) := by
  have filled := fills valid
  generalize pollFillBuf reader = result at filled
  cases filled with
  | @ready next kept regular same bounded ends =>
    refine .ready kept.valid ?_
    by_cases none : view.visible reader = []
    · rw [none]
      exact List.nil_prefix
    · exact same none ▸ List.prefix_rfl
  | pending kept regular same less => exact .pending kept.valid (same ▸ List.prefix_rfl)
  | error kept same irregular => exact .error kept.valid (same ▸ List.prefix_rfl)

/-- A reader whose counts are in range. -/
structure Secure (this : NarReader R) : Prop where
  /-- The reader below is sound. -/
  valid : view.Valid this.reader
  /-- The automaton is in a valid state. -/
  state : this.state.Valid
  /-- Only visible bytes were parsed. -/
  within : this.parsed ≤ (view.visible this.reader).length

/-- Showing the parsed part of a buffer that holds it does not panic. -/
theorem Secure.shown {this : NarReader R} (secure : Secure this) :
    (this.showParsed (view.visible this.reader)).1 ≠ .panic ∧
      Secure (this.showParsed (view.visible this.reader)).2 := by
  unfold NarReader.showParsed
  split
  · exact ⟨by simp, secure⟩
  · rw [if_neg (Nat.not_lt.mpr secure.within)]
    exact ⟨by simp, secure⟩

/-- A poll of a secure reader does not panic and leaves it secure. -/
theorem Secure.polled {this : NarReader R} (secure : Secure this) {poll : R → Poll Bytes × R}
    (extends_ : Extends this.reader (poll this.reader)) :
    (this.pollWith poll).1 ≠ .panic ∧ Secure (this.pollWith poll).2 := by
  unfold NarReader.pollWith
  split
  · exact ⟨by simp, secure⟩
  · generalize poll this.reader = result at extends_
    cases extends_ with
    | @ready next valid grown =>
      have within : this.parsed ≤ (view.visible next).length :=
        Nat.le_trans secure.within grown.length_le
      simp only
      split
      · rcases drive_safe true secure.state ((view.visible next).drop this.parsed) with
          ⟨state, n, ran, good⟩ | ⟨state, e, ran, good⟩
        · have used := ((drive_lawful true).run_used _ _ ran).1
          rw [List.length_drop] at used
          have more : Secure ⟨next, this.parsed + n, state⟩ :=
            ⟨valid, good, by change this.parsed + n ≤ (view.visible next).length; omega⟩
          simp only [ran]
          exact more.shown
        · simp only [ran]
          exact ⟨by simp, valid, good, within⟩
      · have same : Secure { this with reader := next } := ⟨valid, secure.state, within⟩
        exact same.shown
    | pending valid grown =>
      exact ⟨by simp, valid, secure.state, Nat.le_trans secure.within grown.length_le⟩
    | error valid grown =>
      exact ⟨by simp, valid, secure.state, Nat.le_trans secure.within grown.length_le⟩

/-- Every use of a secure reader leaves it secure and does not panic. -/
theorem Secure.touch {force : Option (R → Poll Bytes × R)}
    (forced : ∀ poll ∈ force, ∀ {reader : R}, view.Valid reader → Extends reader (poll reader))
    {this : NarReader R} (secure : Secure this) (touch : Touch) :
    (this.touch force touch).1 ≠ .panic ∧ Secure (this.touch force touch).2 := by
  have report {poll : R → Poll Bytes × R} (extends_ : Extends this.reader (poll this.reader)) :
      Report.of .shown (this.pollWith poll).1 ≠ .panic ∧ Secure (this.pollWith poll).2 := by
    obtain ⟨quiet, secure⟩ := secure.polled extends_
    refine ⟨?_, secure⟩
    generalize (this.pollWith poll).1 = answer at quiet
    cases answer with
    | panic => exact absurd rfl quiet
    | _ => exact Report.noConfusion
  cases touch with
  | fill => exact report (extends_fill secure.valid)
  | force =>
    cases force with
    | none => exact ⟨Report.noConfusion, secure⟩
    | some poll => exact report (forced poll rfl secure.valid)
  | consume amt =>
    have small : min amt this.parsed ≤ (view.visible this.reader).length :=
      Nat.le_trans (Nat.min_le_right _ _) secure.within
    obtain ⟨next, took, valid, _, shown, _⟩ := consumes secure.valid small
    have taken : this.consumeParsed (min amt this.parsed) =
        some { this with reader := next, parsed := this.parsed - min amt this.parsed } := by
      rw [NarReader.consumeParsed, if_neg (Nat.not_lt.mpr (Nat.min_le_right _ _)), took]
      rfl
    simp only [NarReader.touch, taken]
    refine ⟨Report.noConfusion, valid, secure.state, ?_⟩
    have within := secure.within
    change this.parsed - min amt this.parsed ≤ (view.visible next).length
    rw [shown, List.length_drop]
    omega

/-- No run of a secure reader panics. -/
theorem Secure.play {force : Option (R → Poll Bytes × R)}
    (forced : ∀ poll ∈ force, ∀ {reader : R}, view.Valid reader → Extends reader (poll reader))
    {this : NarReader R} (secure : Secure this) (touches : List Touch) :
    .panic ∉ this.play force touches := by
  induction touches generalizing this with
  | nil => exact List.not_mem_nil
  | cons touch touches ih =>
    obtain ⟨quiet, secure⟩ := secure.touch forced touch
    rw [NarReader.play, List.mem_cons, not_or]
    exact ⟨Ne.symm quiet, ih secure⟩

/-- A fresh reader is secure. -/
theorem Secure.start {reader : R} (valid : view.Valid reader) : Secure (NarReader.new reader) :=
  ⟨valid, Inner.start_valid, Nat.zero_le _⟩

end Readers

/-- `poll_force_fill_buf` only adds to the buffer. -/
theorem extends_force {R : Type} [AsyncBytesRead R] [LawfulBytesRead R] {reader : R}
    (valid : view.Valid reader) : Extends reader (pollForceFillBuf reader) := by
  have forced := forces valid
  generalize pollForceFillBuf reader = result at forced
  cases forced with
  | ready kept regular nonempty grown bounded =>
    exact .ready kept.valid (grown ▸ List.prefix_append _ _)
  | pending kept regular same less => exact .pending kept.valid (same ▸ List.prefix_rfl)
  | ended kept regular same empty kind => exact .error kept.valid (same ▸ List.prefix_rfl)
  | refused kept same refuses large => exact .error kept.valid (same ▸ List.prefix_rfl)
  | error kept same irregular => exact .error kept.valid (same ▸ List.prefix_rfl)

/-- No use of the decoders panics: of the two readers on any bytes, and of the parser on
bytes without a length above 2⁶⁴ − 8. -/
theorem decoders_never_panic (input : Bytes) (plan : List Turn)
    (most reserved limit capacity : Nat) (shared : Bool) (positive : 0 < reserved)
    (room : 0 < capacity) :
    (∀ touches, .panic ∉ NarReader.play none touches
        (NarReader.new (BufReader.new capacity ⟨input, plan, most⟩))) ∧
      (∀ touches, .panic ∉ NarReader.play (some pollForceFillBuf) touches
        (NarReader.new (BytesReader.build reserved limit shared (⟨input, plan, most⟩ : Source)))) ∧
      (¬ Oversized fieldAlign input → ∀ actions, .panic ∉ Session.play actions
        (Session.new (BytesReader.build reserved limit shared (⟨input, plan, most⟩ : Source)))) := by
  have valid := BytesReader.build_sound positive limit shared (⟨input, plan, most⟩ : Source)
  refine ⟨?_, ?_, ?_⟩
  · intro touches
    refine Secure.play ?_ (Secure.start room) touches
    intro poll none
    cases none
  · intro touches
    refine Secure.play ?_ (Secure.start valid) touches
    intro poll same reader valid
    cases same
    exact extends_force valid
  · intro fits actions
    have fits' : ¬ Oversized codeAlign input := fun past => fits (past.transfer codeAlign_eq)
    have sane := @Sane.start BytesReader _ _
      (BytesReader.build reserved limit shared (⟨input, plan, most⟩ : Source)) valid fits'
    exact sane.play actions

/-- The decoders do not panic on an archive with names, contents and a target that breaks off before its last
parenthesis, whatever is done with them. -/
theorem decoders_never_panic_smallArchive :
    (∀ touches, .panic ∉ NarReader.play none touches
        (NarReader.new (BufReader.new 8192 ⟨smallArchive.dropLast, [.data 3, .pending], 0⟩))) ∧
      (∀ touches, .panic ∉ NarReader.play (some pollForceFillBuf) touches
        (NarReader.new (BytesReader.build 16 64 false
          (⟨smallArchive.dropLast, [.data 3, .pending], 0⟩ : Source)))) ∧
      (∀ actions, .panic ∉ Session.play actions
        (Session.new (BytesReader.build 16 64 false
          (⟨smallArchive.dropLast, [.data 3, .pending], 0⟩ : Source)))) := by
  have fits : ¬ Oversized fieldAlign smallArchive.dropLast := by
    intro past
    apply smallArchive_begins.not_oversized []
    exact past.mono ((List.dropLast_prefix _).trans (List.prefix_append _ _))
  obtain ⟨readers, forced, parser⟩ := decoders_never_panic smallArchive.dropLast [.data 3, .pending] 0 16 64
    8192 false (by decide) (by decide)
  exact ⟨readers, forced, parser fits⟩

/-- A length of 2⁶⁴ − 1 panics the parser: as a target when it is polled, and as the size of a
file when its reader is filled or is dropped and drained. -/
theorem parser_panics :
    .panic ∈ Session.play [.next] (Session.new (BytesReader.build
        BytesReader.defaultReservedBufSize BytesReader.defaultMaxBufSize true
        (⟨tokRoot ++ tokSym ++ toLeBytes 0xFFFFFFFFFFFFFFFF ++ tokPar, [], 65535⟩ : Source))) ∧
      .panic ∈ Session.play [.next, .fill] (Session.new (BytesReader.build
        BytesReader.defaultReservedBufSize BytesReader.defaultMaxBufSize true
        (⟨tokRoot ++ tokFile ++ toLeBytes 0xFFFFFFFFFFFFFFFF ++ tokPar, [], 65535⟩ : Source))) ∧
      .panic ∈ Session.play [.next, .drop, .next] (Session.new (BytesReader.build
        BytesReader.defaultReservedBufSize BytesReader.defaultMaxBufSize true
        (⟨tokRoot ++ tokFile ++ toLeBytes 0xFFFFFFFFFFFFFFFF ++ tokPar, [], 65535⟩ : Source))) := by
  decide +kernel

end Harmonia.Nar
