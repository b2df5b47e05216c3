import Mathlib.Data.List.Basic
import Mathlib.Algebra.Order.Ring.Nat
import Harmonia.Io.Read
import Harmonia.Nar.Lengths
import Harmonia.Nar.Safety

/-!
# Reading exactly one archive

`NarReader` and `NarBytesReader` (`archive/read_nar.rs`) pass through the bytes of one
archive and end behind it. They drive the automaton with `P` over every slice that becomes
visible and show as much of it as was parsed. The two have the same fields and the same
bodies over `AsyncBufRead` and `AsyncBytesRead`.

What a read to the end gives does not depend on how the input was cut: it is what the
automaton says about the whole input.
-/

namespace Harmonia.Nar

open Library

/-- `is_eof`. -/
def Inner.isEof (inner : Inner) : Bool := inner.state = .eof

/-- `NarReader`, and `NarBytesReader`. -/
structure NarReader (R : Type) where
  /-- Where the bytes come from. -/
  reader : R
  /-- Visible bytes that have been parsed. -/
  parsed : Nat
  /-- The automaton. -/
  state : Inner
  deriving DecidableEq, Repr

/-- The error of an input that ends inside an archive. -/
def notComplete : IoError := ⟨.unexpectedEof, "not a complete NAR"⟩

namespace NarReader

variable {R : Type}

/-- `NarReader::new` and `NarBytesReader::new`. -/
def new (reader : R) : NarReader R := ⟨reader, 0, .start⟩

/-- The end of `poll_fill_buf`: show the parsed part of the buffer. -/
def showParsed (this : NarReader R) (buf : Bytes) : Poll Bytes × NarReader R :=
  if buf = [] ∧ this.state.isEof = false then (.error notComplete, this)
  else if buf.length < this.parsed then (.panic, this)
  else (.ready (buf.take this.parsed), this)

/-- `poll_fill_buf` and `poll_force_fill_buf`, over the poll of the reader below. -/
def pollWith (poll : R → Poll Bytes × R) (this : NarReader R) : Poll Bytes × NarReader R :=
  if this.parsed = 0 ∧ this.state.isEof = true then (.ready [], this)
  else
    match poll this.reader with
    | (.ready buf, reader) =>
      if buf.length > this.parsed then
        match drive true this.state (buf.drop this.parsed) with
        | .done state n =>
          showParsed { reader := reader, parsed := this.parsed + n, state := state } buf
        | .fail state error => (.error error, { this with reader := reader, state := state })
        | .panic => (.panic, { this with reader := reader })
      else showParsed { this with reader := reader } buf
    | (.pending, reader) => (.pending, { this with reader := reader })
    | (.error error, reader) => (.error error, { this with reader := reader })
    | (.panic, reader) => (.panic, { this with reader := reader })

/-- `consume`: no more than was parsed. -/
def consumeParsed [AsyncBufRead R] (this : NarReader R) (amt : Nat) : Option (NarReader R) :=
  if this.parsed < amt then none
  else (consume this.reader amt).map fun reader =>
    { this with reader := reader, parsed := this.parsed - amt }

instance [AsyncBufRead R] : AsyncBufRead (NarReader R) where
  pollFillBuf := pollWith pollFillBuf
  consume := consumeParsed
  budget this := budget this.reader

instance [AsyncBytesRead R] : AsyncBytesRead (NarReader R) where
  pollForceFillBuf := pollWith pollForceFillBuf

/-! ## One poll -/

section Poll

variable [AsyncBufRead R] [LawfulBufRead R]

/-- The reader has taken `taken` off an input, and its automaton has read that and the parsed
part of the buffer. -/
structure Tracks (input taken : Bytes) (this : NarReader R) : Prop where
  /-- The reader below is sound. -/
  valid : view.Valid this.reader
  /-- The reader below does not fail. -/
  regular : view.Regular this.reader
  /-- The input is what was taken and what is still unread. -/
  joined : input = taken ++ view.unread this.reader
  /-- Only visible bytes were parsed. -/
  within : this.parsed ≤ (view.visible this.reader).length
  /-- Everything visible was parsed, unless the archive has ended. -/
  caught : this.state.isEof = false → this.parsed = (view.visible this.reader).length
  /-- Inside the archive the automaton waits for bytes. -/
  settled : this.state.isEof = false → drive true this.state [] = .done this.state 0
  /-- The automaton stands behind the parsed bytes. -/
  driven : ∀ rest, (drive true .start
      (taken ++ (view.visible this.reader).take this.parsed ++ rest)).Alike
    ((drive true this.state rest).shift (taken.length + this.parsed))

/-- The same, where visible bytes may not have been parsed yet. -/
structure Follows (input taken : Bytes) (this : NarReader R) : Prop where
  /-- The reader below is sound. -/
  valid : view.Valid this.reader
  /-- The reader below does not fail. -/
  regular : view.Regular this.reader
  /-- The input is what was taken and what is still unread. -/
  joined : input = taken ++ view.unread this.reader
  /-- Only visible bytes were parsed. -/
  within : this.parsed ≤ (view.visible this.reader).length
  /-- Inside the archive the automaton waits for bytes. -/
  settled : this.state.isEof = false → drive true this.state [] = .done this.state 0
  /-- The automaton stands behind the parsed bytes. -/
  driven : ∀ rest, (drive true .start
      (taken ++ (view.visible this.reader).take this.parsed ++ rest)).Alike
    ((drive true this.state rest).shift (taken.length + this.parsed))

/-- A reader that has parsed everything visible. -/
theorem Tracks.follows {input taken : Bytes} {this : NarReader R} (tracks : Tracks input taken this) :
    Follows input taken this :=
  ⟨tracks.valid, tracks.regular, tracks.joined, tracks.within, tracks.settled, tracks.driven⟩

/-- A new reader follows its input, whatever is visible of it. -/
theorem Follows.start {reader : R} (valid : view.Valid reader) (regular : view.Regular reader) :
    Follows (view.unread reader) [] (NarReader.new reader) where
  valid := valid
  regular := regular
  joined := rfl
  within := Nat.zero_le _
  settled _ := by
    change drive true .start [] = .done .start 0
    decide +kernel
  driven rest := by
    rw [NarReader.new, List.take_zero, List.append_nil, List.nil_append, List.length_nil,
      Nat.add_zero, Run.shift_zero]
    exact Run.Alike.refl _

/-- A fresh reader has taken nothing. -/
theorem Tracks.start {reader : R} (valid : view.Valid reader) (regular : view.Regular reader)
    (fresh : view.visible reader = []) : Tracks (view.unread reader) [] (NarReader.new reader) := by
  have follows := Follows.start valid regular
  refine ⟨valid, regular, rfl, follows.within, fun _ => ?_, follows.settled, follows.driven⟩
  rw [NarReader.new, fresh]
  rfl

/-- At the end of the archive the automaton has halted there over the whole input. -/
theorem Tracks.ended {input taken : Bytes} {this : NarReader R} (tracks : Tracks input taken this)
    (ended : this.state.isEof = true) :
    drive true .start input = .done this.state (taken.length + this.parsed) := by
  have eof : this.state.state = .eof := by simpa [Inner.isEof] using ended
  have halts (rest : Bytes) : drive true this.state rest = .done this.state 0 := by
    apply (drive_lawful true).run_stop (m := driveMachine true)
    change driveStep true this.state rest = _
    simp only [driveStep, eof]
  have driven := tracks.driven ((view.visible this.reader).drop this.parsed ++ view.rest this.reader)
  rw [halts, Run.shift, Nat.add_zero, List.append_assoc, ← List.append_assoc (List.take _ _),
    List.take_append_drop, ← View.unread, ← tracks.joined] at driven
  exact driven.of_done

/-- As long as the archive goes on, no more of it is visible than there is. -/
theorem Tracks.inside {input taken : Bytes} {this : NarReader R} (tracks : Tracks input taken this)
    {state : Inner} {length : Nat} (ran : drive true .start input = .done state length) :
    taken.length + this.parsed ≤ length := by
  have driven := tracks.driven ((view.visible this.reader).drop this.parsed ++ view.rest this.reader)
  rw [List.append_assoc, ← List.append_assoc (List.take _ _), List.take_append_drop, ← View.unread,
    ← tracks.joined, ran] at driven
  generalize drive true this.state _ = later at driven
  cases later with
  | done other more =>
    have same : length = taken.length + this.parsed + more := driven.2
    omega
  | fail => cases driven
  | panic => cases driven

/-- What `poll_fill_buf` of a tracking reader does. -/
inductive Polled (input taken : Bytes) (this : NarReader R) : Poll Bytes × NarReader R → Prop
  | ready {next : NarReader R} (tracks : Tracks input taken next)
    (spent : budget next ≤ budget this)
    (ends : (view.visible next.reader).take next.parsed = [] →
      next.state.isEof = true ∧ next.parsed = 0) :
    Polled input taken this (.ready ((view.visible next.reader).take next.parsed), next)
  | pending {next : NarReader R} (tracks : Tracks input taken next)
    (less : budget next < budget this) : Polled input taken this (.pending, next)
  | incomplete {next : NarReader R} {s : Inner} (open_ : s.isEof = false)
    (ran : drive true .start input = .done s input.length) :
    Polled input taken this (.error notComplete, next)
  | invalid {next : NarReader R} {s : Inner} {error : IoError}
    (ran : drive true .start input = .fail s error) : Polled input taken this (.error error, next)

/-- What `poll_fill_buf` of a reader that follows its input does. -/
inductive Advanced (input taken : Bytes) (this : NarReader R) : Poll Bytes × NarReader R → Prop
  | ready {next : NarReader R} (tracks : Tracks input taken next)
    (limit : view.limit next.reader = view.limit this.reader) (spent : budget next ≤ budget this)
    (ends : (view.visible next.reader).take next.parsed = [] →
      next.state.isEof = true ∧ next.parsed = 0) :
    Advanced input taken this (.ready ((view.visible next.reader).take next.parsed), next)
  | pending {next : NarReader R} (follows : Follows input taken next)
    (limit : view.limit next.reader = view.limit this.reader)
    (parsed : next.parsed = this.parsed) (state : next.state = this.state)
    (visible : view.visible next.reader = view.visible this.reader)
    (less : budget next < budget this) : Advanced input taken this (.pending, next)
  | incomplete {next : NarReader R} {s : Inner} (open_ : s.isEof = false)
    (ran : drive true .start input = .done s input.length) :
    Advanced input taken this (.error notComplete, next)
  | invalid {next : NarReader R} {s : Inner} {error : IoError}
    (ran : drive true .start input = .fail s error) : Advanced input taken this (.error error, next)

omit [AsyncBufRead R] [LawfulBufRead R] in
/-- With `P` the automaton halts only at the end. -/
theorem halted_iff (inner : Inner) : Halted true inner ↔ inner.isEof = true := by
  obtain ⟨state, level⟩ := inner
  cases state <;> simp [Halted, Inner.isEof]

omit [AsyncBufRead R] [LawfulBufRead R] in
/-- The automaton goes on behind the bytes it has used. -/
theorem drive_resume {state next : Inner} {buf : Bytes} {n : Nat}
    (ran : drive true state buf = .done next n) (rest : Bytes) :
    (drive true state (buf.take n ++ rest)).Alike ((drive true next rest).shift n) := by
  by_cases halted : Halted true next
  · have taken := (drive_lawful true).run_take_halted _ _ ran halted
    have whole := (drive_lawful true).run_append_halted _ _ rest taken halted
    have eof : next.state = .eof := by simpa [Inner.isEof] using (halted_iff next).mp halted
    have stays : drive true next rest = .done next 0 := by
      apply (drive_lawful true).run_stop (m := driveMachine true)
      change driveStep true next rest = _
      simp only [driveStep, eof]
    rw [stays, Run.shift, Nat.add_zero]
    change (drive true state _) = _ at whole
    rw [whole]
    exact Run.Alike.refl _
  · have used := ((drive_lawful true).run_used _ _ ran).2 halted
    rw [used, List.take_length]
    have more := (drive_lawful true).run_append_more _ _ rest ran halted
    rwa [used] at more

omit [AsyncBufRead R] [LawfulBufRead R] in
/-- Over any input the automaton finishes or fails. -/
theorem drive_start_total (input : Bytes) : drive true .start input ≠ .panic := by
  rcases drive_safe true Inner.start_valid input with ⟨_, _, ran, _⟩ | ⟨_, _, ran, _⟩ <;> simp [ran]

/-- The same bytes are visible and parsed after a poll of the reader below. -/
theorem Follows.refilled {input taken : Bytes} {this : NarReader R}
    (follows : Follows input taken this) {next : R} (kept : view.Kept this.reader next)
    (same : view.visible this.reader ≠ [] → view.visible next = view.visible this.reader) :
    this.parsed ≤ (view.visible next).length ∧
      (view.visible next).take this.parsed = (view.visible this.reader).take this.parsed ∧
      input = taken ++ view.unread next := by
  have joined := follows.joined
  rw [← kept.unread] at joined
  by_cases none : view.visible this.reader = []
  · have zero : this.parsed = 0 := by
      have within := follows.within
      rw [none] at within
      exact Nat.le_zero.mp within
    rw [zero]
    exact ⟨Nat.zero_le _, rfl, joined⟩
  · rw [same none]
    exact ⟨follows.within, rfl, joined⟩

/-- The automaton's answer for the whole input, after a poll of the reader below. -/
theorem Follows.ahead_refilled {input taken : Bytes} {this : NarReader R}
    (follows : Follows input taken this) {next : R} (kept : view.Kept this.reader next)
    (same : view.visible this.reader ≠ [] → view.visible next = view.visible this.reader) :
    (drive true .start input).Alike ((drive true this.state
      ((view.visible next).drop this.parsed ++ view.rest next)).shift
        (taken.length + this.parsed)) := by
  obtain ⟨_, taken_same, joined⟩ := follows.refilled kept same
  have driven := follows.driven ((view.visible next).drop this.parsed ++ view.rest next)
  rwa [← taken_same, List.append_assoc, ← List.append_assoc (List.take _ _),
    List.take_append_drop, ← View.unread, ← joined] at driven

/-- A tracking reader that parses more of its buffer keeps tracking. -/
theorem Follows.parsedMore {input taken : Bytes} {this : NarReader R}
    (follows : Follows input taken this) {next : R} (kept : view.Kept this.reader next)
    (regular : view.Regular next)
    (same : view.visible this.reader ≠ [] → view.visible next = view.visible this.reader)
    {state : Inner} {n : Nat}
    (ran : drive true this.state ((view.visible next).drop this.parsed) = .done state n) :
    Tracks input taken ⟨next, this.parsed + n, state⟩ := by
  obtain ⟨within, taken_same, joined⟩ := follows.refilled kept same
  have used := (drive_lawful true).run_used _ _ ran
  rw [List.length_drop] at used
  have idle (open_ : state.isEof = false) : ¬ Halted true state := by
    rw [halted_iff, open_]
    exact Bool.false_ne_true
  refine ⟨kept.valid, regular, joined, ?_, ?_, ?_, ?_⟩
  · change this.parsed + n ≤ (view.visible next).length
    omega
  · intro open_
    have all := used.2 (idle open_)
    change this.parsed + n = (view.visible next).length
    omega
  · exact fun open_ => (drive_lawful true).run_settled _ _ ran (idle open_)
  · intro rest
    have before := follows.driven (((view.visible next).drop this.parsed).take n ++ rest)
    have later := (drive_resume ran rest).shift (taken.length + this.parsed)
    rw [Run.shift_shift] at later
    have split : (view.visible next).take (this.parsed + n) =
        (view.visible this.reader).take this.parsed ++
          ((view.visible next).drop this.parsed).take n := by
      rw [List.take_add, taken_same]
    change (drive true .start (taken ++ (view.visible next).take (this.parsed + n) ++ rest)).Alike
      ((drive true state rest).shift (taken.length + (this.parsed + n)))
    rw [split, ← Nat.add_assoc]
    simp only [List.append_assoc] at before ⊢
    exact before.trans later

/-- `poll_fill_buf` of a reader that follows its input. -/
theorem Follows.advanced {input taken : Bytes} {this : NarReader R}
    (follows : Follows input taken this) : Advanced input taken this (pollFillBuf this) := by
  change Advanced input taken this (pollWith pollFillBuf this)
  unfold pollWith
  split
  · rename_i ended
    have tracks : Tracks input taken this :=
      ⟨follows.valid, follows.regular, follows.joined, follows.within,
        fun open_ => absurd (ended.2.symm.trans open_) (by decide), follows.settled, follows.driven⟩
    have shown := Advanced.ready tracks rfl (Nat.le_refl _) (fun _ => ended.symm)
    rwa [ended.1, List.take_zero] at shown
  · rename_i going
    have filled := fills follows.valid
    generalize pollFillBuf this.reader = result at filled
    cases filled with
    | @ready next kept regular same bounded ends =>
      obtain ⟨within, taken_same, joined⟩ := follows.refilled kept same
      simp only
      split
      · rename_i longer
        cases ran : drive true this.state ((view.visible next).drop this.parsed) with
        | done state n =>
          have now := follows.parsedMore kept (regular follows.regular) same ran
          have nonempty : view.visible next ≠ [] := List.ne_nil_of_length_pos (by omega)
          have inside : ¬ (view.visible next).length < this.parsed + n := Nat.not_lt.mpr now.within
          simp only [showParsed]
          rw [if_neg (fun both => nonempty both.1), if_neg inside]
          refine .ready now kept.limit kept.budget fun none => ?_
          have zero : this.parsed + n = 0 := by
            rcases List.take_eq_nil_iff.mp none with zero | gone
            · exact zero
            · exact absurd gone nonempty
          refine ⟨?_, zero⟩
          by_contra open_
          have all := now.caught (Bool.not_eq_true _ ▸ open_)
          change this.parsed + n = (view.visible next).length at all
          omega
        | fail state error =>
          have whole := (drive_lawful true).run_append_fail _ _ (view.rest next) ran
          have ahead := follows.ahead_refilled kept same
          change drive true this.state _ = _ at whole
          rw [whole, Run.shift] at ahead
          obtain ⟨other, failed⟩ := ahead.of_fail
          exact .invalid failed
        | panic =>
          have before := follows.driven ((view.visible next).drop this.parsed)
          rw [ran, Run.shift] at before
          exact absurd before.of_panic (drive_start_total _)
      · rename_i short
        have all : this.parsed = (view.visible next).length := by omega
        have now : Tracks input taken { this with reader := next } := by
          refine ⟨kept.valid, regular follows.regular, joined, within, fun _ => all,
            follows.settled, fun rest => ?_⟩
          have before := follows.driven rest
          rwa [← taken_same] at before
        simp only [showParsed]
        split
        · rename_i incomplete
          obtain ⟨none, open_⟩ := incomplete
          have nothing : view.rest next = [] := ends none
          have ahead := follows.ahead_refilled kept same
          rw [none, nothing, List.drop_nil, List.append_nil, follows.settled open_, Run.shift,
            all, none, List.length_nil, Nat.add_zero] at ahead
          have size : input.length = taken.length := by
            rw [joined, View.unread, none, nothing, List.append_nil, List.append_nil]
          exact .incomplete open_ (size ▸ ahead.of_done)
        · rename_i complete
          rw [if_neg (Nat.not_lt.mpr within)]
          refine .ready now kept.limit kept.budget fun none => ?_
          have gone : view.visible next = [] := by
            rcases List.take_eq_nil_iff.mp none with zero | gone
            · exact List.eq_nil_of_length_eq_zero (all ▸ zero)
            · exact gone
          refine ⟨?_, by rw [all, gone]; rfl⟩
          by_contra open_
          exact complete ⟨gone, Bool.not_eq_true _ ▸ open_⟩
    | @pending next kept regular same less =>
      obtain ⟨within, taken_same, joined⟩ := follows.refilled kept (fun _ => same)
      refine .pending ⟨kept.valid, regular follows.regular, joined, within, follows.settled, ?_⟩
        kept.limit rfl rfl same less
      intro rest
      have before := follows.driven rest
      rwa [← taken_same] at before
    | error kept same irregular => exact absurd follows.regular irregular

/-- `poll_fill_buf` of a tracking reader. -/
theorem Tracks.polled {input taken : Bytes} {this : NarReader R}
    (tracks : Tracks input taken this) : Polled input taken this (pollFillBuf this) := by
  have advanced := tracks.follows.advanced
  generalize pollFillBuf this = result at advanced
  cases advanced with
  | ready now limit spent ends => exact .ready now spent ends
  | @pending next follows limit parsed state visible less =>
    refine .pending ⟨follows.valid, follows.regular, follows.joined, follows.within, ?_,
      follows.settled, follows.driven⟩ less
    rw [parsed, state, visible]
    exact tracks.caught
  | incomplete open_ ran => exact .incomplete open_ ran
  | invalid ran => exact .invalid ran

/-- Consuming parsed bytes keeps tracking. -/
theorem Tracks.consumed {input taken : Bytes} {this : NarReader R}
    (tracks : Tracks input taken this) {amt : Nat} (within : amt ≤ this.parsed) :
    ∃ next, consume this amt = some next ∧
      Tracks input (taken ++ (view.visible this.reader).take amt) next ∧
      budget next + amt ≤ budget this ∧ view.limit next.reader = view.limit this.reader ∧
      (view.visible next.reader).take next.parsed =
        ((view.visible this.reader).take this.parsed).drop amt := by
  have visible := Nat.le_trans within tracks.within
  obtain ⟨reader, taken_off, valid, regular, shown, rest, _, limit, spent⟩ :=
    consumes tracks.valid visible
  have length : ((view.visible this.reader).take amt).length = amt := by
    rw [List.length_take, Nat.min_eq_left visible]
  have parsed := tracks.within
  refine ⟨{ this with reader := reader, parsed := this.parsed - amt }, ?_, ?_, spent, limit, ?_⟩
  · change consumeParsed this amt = _
    rw [consumeParsed, if_neg (Nat.not_lt.mpr within), taken_off, Option.map_some]
  · refine ⟨valid, regular tracks.regular, ?_, ?_, ?_, tracks.settled, ?_⟩
    · rw [tracks.joined, View.unread, View.unread, shown, rest, List.append_assoc,
        ← List.append_assoc (List.take _ _), List.take_append_drop]
    · rw [shown, List.length_drop]
      change this.parsed - amt ≤ _
      omega
    · intro open_
      rw [shown, List.length_drop]
      have all := tracks.caught open_
      change this.parsed - amt = _
      omega
    · intro later
      have before := tracks.driven later
      have split : (view.visible this.reader).take this.parsed =
          (view.visible this.reader).take amt ++
            ((view.visible this.reader).drop amt).take (this.parsed - amt) := by
        rw [← List.take_add, Nat.add_sub_cancel' within]
      rw [shown, List.length_append, length]
      change (drive true .start (taken ++ (view.visible this.reader).take amt ++
        ((view.visible this.reader).drop amt).take (this.parsed - amt) ++ later)).Alike
          ((drive true this.state later).shift (taken.length + amt + (this.parsed - amt)))
      rw [split] at before
      rw [List.append_assoc taken, show taken.length + amt + (this.parsed - amt) =
        taken.length + this.parsed by omega]
      exact before
  · rw [shown, List.drop_take]

/-- What reading an input to the end is expected to give: the answer of the automaton. -/
def Expected (input : Bytes) (result : ReadEnd (NarReader R)) : Prop :=
  match drive true .start input with
  | .done state n =>
    if state.isEof = true then
      ∃ next, result = .done (input.take n) next ∧ view.unread next.reader = input.drop n
    else ∃ next, result = .failed notComplete next
  | .fail _ error => ∃ next, result = .failed error next
  | .panic => False

/-- Reading to the end gives what the automaton says about the whole input. -/
theorem Tracks.readToEnd {input : Bytes} (fuel : Nat) (rooms : List Nat) {taken : Bytes}
    {this : NarReader R} (tracks : Tracks input taken this) (enough : budget this < fuel) :
    Expected input (readToEnd fuel rooms this taken) := by
  induction fuel generalizing rooms taken this with
  | zero => exact absurd enough (Nat.not_lt_zero _)
  | succ fuel ih =>
    have polled := tracks.polled
    rw [Harmonia.readToEnd, pollRead]
    generalize pollFillBuf this = result at polled
    cases polled with
    | @ready next now spent ends =>
      by_cases shown : (view.visible next.reader).take next.parsed = []
      · obtain ⟨ended, zero⟩ := ends shown
        have ran := now.ended ended
        rw [zero, Nat.add_zero] at ran
        simp only [shown, Expected, ran, ended, ↓reduceIte]
        refine ⟨next, ?_, ?_⟩
        · rw [now.joined, List.take_left]
        · rw [now.joined, List.drop_left]
      · have size : ((view.visible next.reader).take next.parsed).length = next.parsed := by
          rw [List.length_take, Nat.min_eq_left now.within]
        have positive : 0 < next.parsed := by
          rw [← size]
          exact List.length_pos_of_ne_nil shown
        have within : min ((view.visible next.reader).take next.parsed).length
            (rooms.headD 31 + 1) ≤ next.parsed := by
          rw [size]
          exact Nat.min_le_left _ _
        have some' : min ((view.visible next.reader).take next.parsed).length
            (rooms.headD 31 + 1) ≠ 0 := by omega
        simp only [if_neg shown]
        generalize min ((view.visible next.reader).take next.parsed).length
          (rooms.headD 31 + 1) = amt at within some' ⊢
        obtain ⟨after, took, tracking, less, -⟩ := now.consumed within
        have read : ((view.visible next.reader).take next.parsed).take amt ≠ [] := by
          rw [Ne, List.take_eq_nil_iff]
          exact fun either => either.elim some' shown
        simp only [took, if_neg read]
        rw [List.take_take, Nat.min_eq_left within]
        exact ih rooms.tail tracking (by omega)
    | @pending next now less => exact ih rooms now (by omega)
    | @incomplete next state open_ ran =>
      simp only [Expected, ran, open_, Bool.false_eq_true, ↓reduceIte]
      exact ⟨next, rfl⟩
    | @invalid next state error ran =>
      simp only [Expected, ran]
      exact ⟨next, rfl⟩

end Poll

end NarReader

end Harmonia.Nar
