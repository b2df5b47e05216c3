import Harmonia.Nar.Conformance
import Harmonia.Protocol.Framed

/-!
# The reader of a client

A client reads from `Lending<R, NarBytesReader<R>>` (`lending.rs`, and the end of `read_nar.rs`). When an
archive comes, the reader is lent to whoever asked for it; once it has come back, what is left of
the archive is drained before anything else is read. `Loan` is the lending reader together with
the reader it lent last, an `AsyncBufReadCompat<LentReader<NarBytesReader<R>>>`.
-/

namespace Harmonia.Daemon

open Library Nar

section Lending

variable {R : Type} [AsyncBufRead R]

/-- `poll_drain` of a `NarBytesReader`. Each turn takes a byte at least. -/
def pollDrain : Nat → NarReader R → Poll Unit × NarReader R
  | 0, this => (.panic, this)
  | fuel + 1, this =>
    match pollFillBuf this with
    | (.ready buf, this) =>
      if buf = [] then (.ready (), this)
      else
        match consume this buf.length with
        | some this => pollDrain fuel this
        | none => (.panic, this)
    | (.pending, this) => (.pending, this)
    | (.error error, this) => (.error error, this)
    | (.panic, this) => (.panic, this)

/-- `Lending<R, NarBytesReader<R>>`. -/
inductive Lending (R : Type) where
  /-- `Lent`: the reader is out, or has been sent back. -/
  | lent (returned : Option (NarReader R))
  /-- `Drain`. -/
  | drain (reader : NarReader R)
  /-- `Available`. -/
  | available (reader : R)
  deriving DecidableEq, Repr

/-- `poll_ready`: take the reader back and drain it. -/
def Lending.pollReady (lending : Lending R) : Poll R × Lending R :=
  match lending with
  | .lent none => (.pending, .lent none)
  | .lent (some nar) | .drain nar =>
    match pollDrain (budget nar + 1) nar with
    | (.ready _, nar) => (.ready nar.reader, .available nar.reader)
    | (.pending, nar) => (.pending, .drain nar)
    | (.error error, nar) => (.error error, .drain nar)
    | (.panic, nar) => (.panic, .drain nar)
  | .available reader => (.ready reader, .available reader)

/-- The reader lent for an archive. -/
structure Lent (R : Type) where
  /-- The archive, until it is returned. -/
  nar : Option (NarReader R)
  /-- Bytes shown and not consumed. -/
  buffer : Bytes
  deriving DecidableEq, Repr

/-- A lending reader, and the reader it lent last while that is held. -/
structure Loan (R : Type) where
  /-- The lending reader. -/
  lending : Lending R
  /-- The reader it lent. -/
  lent : Option (Lent R)
  deriving DecidableEq, Repr

namespace Loan

/-- `get_reader`, awaited. -/
def getReader (patience : Nat) (this : Loan R) : Poll R × Loan R :=
  match await Lending.pollReady patience this.lending with
  | (answer, lending) => (answer, { this with lending := lending })

/-- `lend`; `none` is the panic of a reader that is not available. -/
def lend (this : Loan R) : Option (NarReader R × Loan R) :=
  match this.lending with
  | .available reader => some (.new reader, { this with lending := .lent none })
  | .lent _ | .drain _ => none

/-- `return_reader`. -/
def giveBack (this : Loan R) (nar : NarReader R) : Loan R := { this with lending := .lent (some nar) }

/-- `poll_fill_buf` of the lent reader. At the end of the archive it is sent back. -/
def fill (this : Loan R) : Poll Bytes × Loan R :=
  match this.lent with
  | none => (.ready [], this)
  | some lent =>
    if lent.buffer ≠ [] then (.ready lent.buffer, this)
    else
      match lent.nar with
      | none => (.ready [], this)
      | some nar =>
        match pollFillBuf nar with
        | (.ready buf, nar) =>
          if buf = [] then (.ready [], { this.giveBack nar with lent := some ⟨none, []⟩ })
          else (.ready buf, { this with lent := some ⟨some nar, buf⟩ })
        | (.pending, nar) => (.pending, { this with lent := some ⟨some nar, []⟩ })
        | (.error error, nar) => (.error error, { this with lent := some ⟨some nar, []⟩ })
        | (.panic, nar) => (.panic, { this with lent := some ⟨some nar, []⟩ })

/-- `consume` of the lent reader. -/
def take (this : Loan R) (amt : Nat) : Option (Loan R) :=
  match this.lent with
  | none => if amt = 0 then some this else none
  | some lent =>
    if lent.buffer.length < amt then none
    else
      match lent.nar with
      | some nar =>
        (consume nar amt).map fun nar => { this with lent := some ⟨some nar, lent.buffer.drop amt⟩ }
      | none => if amt = 0 then some this else none

/-- Drop the lent reader, which sends the archive back. -/
def dropLent (this : Loan R) : Loan R :=
  match this.lent with
  | some ⟨some nar, _⟩ => { this.giveBack nar with lent := none }
  | _ => { this with lent := none }

/-- Whoever holds the lent reader polls it, each time with room for so many bytes; `none` is a
panic. -/
def readSome : List Nat → Bytes → Loan R → Option (Bytes × Loan R)
  | [], read, this => some (read, this)
  | room :: rooms, read, this =>
    match this.fill with
    | (.ready buf, this) =>
      if buf = [] then readSome rooms read this
      else
        match this.take (min buf.length room) with
        | some this => readSome rooms (read ++ buf.take (min buf.length room)) this
        | none => none
    | (.pending, this) | (.error _, this) => readSome rooms read this
    | (.panic, _) => none

end Loan

end Lending

/-! ## Archives that pass through -/

section Passing

variable {R : Type} [AsyncBufRead R] [LawfulBufRead R]

/-- A reader inside an archive, of which some was taken, with something behind it. -/
structure Passes (archive rest taken : Bytes) (limit cap : Nat) (nar : NarReader R) : Prop where
  /-- It follows its input. -/
  follows : nar.Follows (archive ++ rest) taken
  /-- The archive ends before the rest. -/
  ends : ∃ level, drive true .start (archive ++ rest) = .done ⟨.eof, level⟩ archive.length
  /-- The limit. -/
  limit : view.limit nar.reader = limit
  /-- The budget. -/
  spent : budget nar ≤ cap

/-- The bytes of the archive that a reader shows. -/
def shownBy (nar : NarReader R) : Bytes := (view.visible nar.reader).take nar.parsed

/-- A reader that stands before some bytes. -/
structure Before (rest : Bytes) (limit cap : Nat) (reader : R) : Prop where
  /-- The bookkeeping. -/
  valid : view.Valid reader
  /-- Nothing below fails. -/
  regular : view.Regular reader
  /-- The bytes. -/
  unread : view.unread reader = rest
  /-- The limit. -/
  limit : view.limit reader = limit
  /-- The budget. -/
  spent : budget reader ≤ cap

/-- What filling the buffer inside an archive does. -/
inductive Passed (archive rest taken : Bytes) (limit cap : Nat) : Poll Bytes × NarReader R → Prop
  | shown {next : NarReader R} (passes : Passes archive rest taken limit cap next)
    (tracks : next.Tracks (archive ++ rest) taken) (nonempty : shownBy next ≠ []) :
    Passed archive rest taken limit cap (.ready (shownBy next), next)
  | ended {next : NarReader R} (passes : Passes archive rest taken limit cap next)
    (whole : taken = archive) (before : Before rest limit cap next.reader) :
    Passed archive rest taken limit cap (.ready [], next)
  | pending {next : NarReader R} {less : Nat} (passes : Passes archive rest taken limit less next)
    (fewer : less < cap) : Passed archive rest taken limit cap (.pending, next)

/-- A larger budget does no harm. -/
theorem Passes.weaken {archive rest taken : Bytes} {limit cap more : Nat} {nar : NarReader R}
    (passes : Passes archive rest taken limit cap nar) (grows : cap ≤ more) :
    Passes archive rest taken limit more nar :=
  { passes with spent := Nat.le_trans passes.spent grows }

/-- A larger budget does no harm. -/
theorem Before.weaken {rest : Bytes} {limit cap more : Nat} {reader : R}
    (before : Before rest limit cap reader) (grows : cap ≤ more) : Before rest limit more reader :=
  { before with spent := Nat.le_trans before.spent grows }

/-- Filling the buffer inside an archive. -/
theorem Passes.passed {archive rest taken : Bytes} {limit cap : Nat} {nar : NarReader R}
    (passes : Passes archive rest taken limit cap nar) :
    Passed archive rest taken limit cap (pollFillBuf nar) := by
  obtain ⟨follows, ⟨level, ends⟩, limits, spent⟩ := passes
  have advanced := follows.advanced
  generalize pollFillBuf nar = result at advanced
  cases advanced with
  | @ready next tracks limit' less empty =>
    have now : Passes archive rest taken limit cap next :=
      ⟨tracks.follows, ⟨level, ends⟩, limit'.trans limits, Nat.le_trans less spent⟩
    by_cases nothing : shownBy next = []
    · rw [show (view.visible next.reader).take next.parsed = [] from nothing]
      obtain ⟨ended, zero⟩ := empty nothing
      have ran := tracks.ended ended
      rw [ends, zero, Nat.add_zero, Run.done.injEq] at ran
      obtain ⟨whole, left⟩ := List.append_inj tracks.joined ran.2
      exact .ended now whole.symm ⟨tracks.valid, tracks.regular, left.symm, now.limit, now.spent⟩
    · exact .shown now tracks nothing
  | @pending next follows limit' parsed state visible less =>
    refine .pending ⟨follows, ⟨level, ends⟩, limit'.trans limits, Nat.le_refl _⟩ ?_
    exact Nat.lt_of_lt_of_le less spent
  | incomplete open_ ran =>
    rw [ends, Run.done.injEq] at ran
    rw [← ran.1] at open_
    cases open_
  | invalid ran =>
    rw [ends] at ran
    cases ran

/-- What is shown belongs to the archive. -/
theorem Passes.starts {archive rest taken : Bytes} {limit cap : Nat} {nar : NarReader R}
    (passes : Passes archive rest taken limit cap nar) (tracks : nar.Tracks (archive ++ rest) taken) :
    taken ++ shownBy nar <+: archive := by
  obtain ⟨level, ends⟩ := passes.ends
  have inside := tracks.inside ends
  have whole : taken ++ shownBy nar <+: archive ++ rest := by
    rw [tracks.joined]
    apply (List.prefix_append_right_inj _).mpr
    exact (List.take_prefix _ _).trans (List.prefix_append _ _)
  have size : (taken ++ shownBy nar).length ≤ archive.length := by
    rw [List.length_append, shownBy, List.length_take, Nat.min_eq_left tracks.within]
    exact inside
  exact List.prefix_of_prefix_length_le whole (List.prefix_append _ _) size

/-- Consuming what is shown. -/
theorem Passes.consumed {archive rest taken : Bytes} {limit cap amt : Nat} {nar : NarReader R}
    (passes : Passes archive rest taken limit cap nar) (tracks : nar.Tracks (archive ++ rest) taken)
    (within : amt ≤ (shownBy nar).length) :
    ∃ next less, consume nar amt = some next ∧
      Passes archive rest (taken ++ (shownBy nar).take amt) limit less next ∧
      next.Tracks (archive ++ rest) (taken ++ (shownBy nar).take amt) ∧
      shownBy next = (shownBy nar).drop amt ∧ less + amt ≤ cap := by
  rw [shownBy, List.length_take, Nat.min_eq_left tracks.within] at within
  obtain ⟨next, took, tracking, cost, same, left⟩ := tracks.consumed within
  have taking : (view.visible nar.reader).take amt = (shownBy nar).take amt := by
    rw [shownBy, List.take_take, Nat.min_eq_left within]
  rw [taking] at tracking
  refine ⟨next, budget next, took, ?_, tracking, left, Nat.le_trans cost passes.spent⟩
  exact ⟨tracking.follows, passes.ends, same.trans passes.limit, Nat.le_refl _⟩

/-- Draining what is left of an archive. -/
theorem Passes.drained {archive rest taken : Bytes} {limit cap fuel : Nat} {nar : NarReader R}
    (passes : Passes archive rest taken limit cap nar) (enough : cap < fuel) :
    (∃ next, pollDrain fuel nar = (.ready (), next) ∧ Before rest limit cap next.reader) ∨
      ∃ next taken less, pollDrain fuel nar = (.pending, next) ∧
        Passes archive rest taken limit less next ∧ less < cap := by
  induction fuel generalizing nar cap taken with
  | zero => cases enough
  | succ fuel ih =>
    have passed := passes.passed
    unfold pollDrain
    generalize pollFillBuf nar = result at passed
    cases passed with
    | @shown next now tracks nonempty =>
      obtain ⟨after, less, took, later, -, -, cost⟩ := now.consumed tracks (Nat.le_refl _)
      have positive := List.length_pos_of_ne_nil nonempty
      simp only [if_neg nonempty, took]
      rcases ih later (by omega) with ⟨last, drains, before⟩ | ⟨last, taken', fewer, drains, left, few⟩
      · exact .inl ⟨last, drains, before.weaken (by omega)⟩
      · exact .inr ⟨last, taken', fewer, drains, left, by omega⟩
    | @ended next now whole before => exact .inl ⟨next, rfl, before⟩
    | @pending next less now fewer => exact .inr ⟨next, taken, less, rfl, now, fewer⟩

/-- A new reader before an archive. -/
theorem Before.passes {archive rest : Bytes} {limit cap : Nat} {reader : R}
    (before : Before (archive ++ rest) limit cap reader)
    (ends : ∃ level, drive true .start (archive ++ rest) = .done ⟨.eof, level⟩ archive.length) :
    Passes archive rest [] limit cap (NarReader.new reader) :=
  ⟨before.unread ▸ .start before.valid before.regular, ends, before.limit, before.spent⟩

/-! ## Loans -/

/-- A lending reader that stands before some bytes, or will once it has drained an archive. -/
inductive Lending.Stands (rest : Bytes) (limit cap : Nat) : Lending R → Prop
  | available {reader : R} (before : Before rest limit cap reader) : Stands rest limit cap (.available reader)
  | lent {nar : NarReader R} {archive taken : Bytes} (passes : Passes archive rest taken limit cap nar) :
    Stands rest limit cap (.lent (some nar))
  | drain {nar : NarReader R} {archive taken : Bytes} (passes : Passes archive rest taken limit cap nar) :
    Stands rest limit cap (.drain nar)

/-- Draining an archive that came back. -/
theorem Passes.ready {archive rest taken : Bytes} {limit cap patience : Nat} {nar : NarReader R}
    (passes : Passes archive rest taken limit cap nar) (patient : cap < patience)
    {lending : Lending R} (holds : lending = .lent (some nar) ∨ lending = .drain nar) :
    ∃ reader, await Lending.pollReady patience lending = (.ready reader, .available reader) ∧
      Before rest limit cap reader := by
  induction patience generalizing nar cap taken lending with
  | zero => cases patient
  | succ patience ih =>
    have same : lending.pollReady = (Lending.drain nar).pollReady := by
      rcases holds with rfl | rfl
      · rfl
      · rfl
    unfold await
    rw [same, Lending.pollReady]
    have tight : Passes archive rest taken limit (budget nar) nar :=
      { passes with spent := Nat.le_refl _ }
    have bound := passes.spent
    rcases tight.drained (Nat.lt_succ_self _) with ⟨next, drains, before⟩ |
      ⟨next, taken', less, drains, later, fewer⟩
    · rw [drains]
      exact ⟨next.reader, rfl, before.weaken bound⟩
    · rw [drains]
      obtain ⟨reader, ready, before⟩ := ih later (by omega) (.inr rfl)
      exact ⟨reader, ready, before.weaken (by omega)⟩

/-- A lending reader is ready once it has drained. -/
theorem Lending.Stands.ready {rest : Bytes} {limit cap patience : Nat} {lending : Lending R}
    (stands : lending.Stands rest limit cap) (patient : cap < patience) :
    ∃ reader, await Lending.pollReady patience lending = (.ready reader, .available reader) ∧
      Before rest limit cap reader := by
  cases stands with
  | @available reader before =>
    cases patience with
    | zero => cases patient
    | succ patience => exact ⟨reader, rfl, before⟩
  | lent passes => exact passes.ready patient (.inl rfl)
  | drain passes => exact passes.ready patient (.inr rfl)

namespace Loan

/-- Nobody holds an archive. -/
def Released (this : Loan R) : Prop := ∀ lent, this.lent = some lent → lent = ⟨none, []⟩

/-- Nobody holds an archive, and what is read next are these bytes. -/
structure Stands (rest : Bytes) (limit cap : Nat) (this : Loan R) : Prop where
  /-- The lending reader stands before them. -/
  lending : this.lending.Stands rest limit cap
  /-- Nothing is lent. -/
  released : this.Released

/-- Someone holds an archive of which some was taken, and these bytes are behind it. -/
inductive Holds (archive rest taken : Bytes) (limit cap : Nat) (this : Loan R) : Prop
  | out {nar : NarReader R} {buffer : Bytes} (away : this.lending = .lent none)
    (lent : this.lent = some ⟨some nar, buffer⟩) (passes : Passes archive rest taken limit cap nar)
    (shown : buffer ≠ [] → nar.Tracks (archive ++ rest) taken ∧ buffer = shownBy nar)
  | last (whole : taken = archive) (stands : this.Stands rest limit cap)

/-- The reader that a client gets. -/
theorem Stands.getReader {rest : Bytes} {limit cap patience : Nat} {this : Loan R}
    (stands : this.Stands rest limit cap) (patient : cap < patience) :
    ∃ reader, this.getReader patience = (.ready reader, { this with lending := .available reader }) ∧
      Before rest limit cap reader := by
  obtain ⟨reader, ready, before⟩ := stands.lending.ready patient
  exact ⟨reader, by rw [Loan.getReader, ready], before⟩

/-- What filling the buffer of a reader that someone holds does. -/
inductive Filled (archive rest taken : Bytes) (limit cap : Nat) : Poll Bytes × Loan R → Prop
  | shown {next : Loan R} {nar : NarReader R} (away : next.lending = .lent none)
    (lent : next.lent = some ⟨some nar, shownBy nar⟩)
    (passes : Passes archive rest taken limit cap nar) (tracks : nar.Tracks (archive ++ rest) taken)
    (nonempty : shownBy nar ≠ []) : Filled archive rest taken limit cap (.ready (shownBy nar), next)
  | ended {next : Loan R} (holds : next.Holds archive rest taken limit cap) :
    Filled archive rest taken limit cap (.ready [], next)
  | pending {next : Loan R} (holds : next.Holds archive rest taken limit cap) :
    Filled archive rest taken limit cap (.pending, next)

/-- Filling the buffer of a reader that someone holds. -/
theorem Holds.filled {archive rest taken : Bytes} {limit cap : Nat} {this : Loan R}
    (holds : this.Holds archive rest taken limit cap) :
    Filled archive rest taken limit cap this.fill := by
  unfold fill
  cases holds with
  | @out nar buffer away lent passes shown =>
    rw [lent]
    by_cases some : buffer ≠ []
    · obtain ⟨tracks, rfl⟩ := shown some
      simp only [if_pos some]
      exact .shown away lent passes tracks some
    · simp only [if_neg some]
      have passed := passes.passed
      generalize pollFillBuf nar = result at passed
      cases passed with
      | @shown next now tracks nonempty =>
        simp only [if_neg nonempty]
        exact .shown away rfl now tracks nonempty
      | @ended next now whole before =>
        refine .ended (.last whole ⟨.lent now, ?_⟩)
        rintro other ⟨⟩
        rfl
      | @pending next less now fewer =>
        exact .pending (.out away rfl (now.weaken (Nat.le_of_lt fewer)) (fun some => absurd rfl some))
  | last whole stands =>
    cases lent : this.lent with
    | none => exact .ended (.last whole stands)
    | some held =>
      cases stands.released held lent
      exact .ended (.last whole stands)

/-- Consuming what is shown. -/
theorem taken_shown {archive rest taken : Bytes} {limit cap amt : Nat} {this : Loan R}
    {nar : NarReader R} (away : this.lending = .lent none)
    (lent : this.lent = some ⟨some nar, shownBy nar⟩)
    (passes : Passes archive rest taken limit cap nar) (tracks : nar.Tracks (archive ++ rest) taken)
    (within : amt ≤ (shownBy nar).length) :
    ∃ next, this.take amt = some next ∧
      next.Holds archive rest (taken ++ (shownBy nar).take amt) limit cap := by
  obtain ⟨next, less, took, later, tracking, left, cost⟩ := passes.consumed tracks within
  refine ⟨{ this with lent := some ⟨some next, (shownBy nar).drop amt⟩ }, ?_, ?_⟩
  · rw [take, lent]
    simp only [if_neg (Nat.not_lt.mpr within), took, Option.map_some]
  · exact .out away rfl (later.weaken (by omega)) fun _ => ⟨tracking, left.symm⟩

/-- Reading from an archive that someone holds. -/
theorem Holds.readSome {archive rest taken : Bytes} {limit cap : Nat} {this : Loan R}
    (holds : this.Holds archive rest taken limit cap) (begun : taken <+: archive) (rooms : List Nat)
    (read : Bytes) :
    ∃ more next, Loan.readSome rooms read this = some (read ++ more, next) ∧
      taken ++ more <+: archive ∧ next.Holds archive rest (taken ++ more) limit cap := by
  induction rooms generalizing this taken read with
  | nil =>
    refine ⟨[], this, ?_, ?_, ?_⟩
    · rw [List.append_nil, Loan.readSome]
    · rwa [List.append_nil]
    · rwa [List.append_nil]
  | cons room rooms ih =>
    have filled := holds.filled
    unfold Loan.readSome
    generalize this.fill = result at filled
    cases filled with
    | @shown next nar away lent passes tracks nonempty =>
      simp only [if_neg nonempty]
      obtain ⟨after, took, holds⟩ :=
        taken_shown away lent passes tracks (Nat.min_le_left (shownBy nar).length room)
      have starts : taken ++ (shownBy nar).take (min (shownBy nar).length room) <+: archive :=
        ((List.prefix_append_right_inj _).mpr (List.take_prefix _ _)).trans (passes.starts tracks)
      obtain ⟨more, last, reads, within, holds⟩ := ih holds starts
        (read ++ (shownBy nar).take (min (shownBy nar).length room))
      refine ⟨(shownBy nar).take (min (shownBy nar).length room) ++ more, last, ?_, ?_, ?_⟩
      · simp only [took]
        rw [reads, List.append_assoc]
      · rwa [← List.append_assoc]
      · rwa [← List.append_assoc]
    | ended holds => exact ih holds begun read
    | pending holds => exact ih holds begun read

/-- Dropping what is held. -/
theorem Holds.dropped {archive rest taken : Bytes} {limit cap : Nat} {this : Loan R}
    (holds : this.Holds archive rest taken limit cap) : this.dropLent.Stands rest limit cap := by
  have released (this : Loan R) : Released { this with lent := none } := by
    rintro lent ⟨⟩
  cases holds with
  | out away lent passes shown =>
    rw [dropLent, lent]
    exact ⟨.lent passes, released _⟩
  | last whole stands =>
    unfold dropLent
    split
    case h_1 nar buffer lent =>
      cases stands.released _ lent
    case h_2 => exact ⟨stands.lending, released _⟩

end Loan

end Passing

end Harmonia.Daemon
