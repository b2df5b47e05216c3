import Mathlib.Data.List.Basic
import Mathlib.Algebra.Order.Ring.Nat
import Harmonia.Io.Forcing

/-!
# Adapters that pass polls on

`NixReader` passes every call to the reader below. A `Lending` hands its reader out in a `LentReader`
and waits, when it is polled, until it has come back and is drained (`lending.rs`). The forced polls of a
`LentReader` only fill.
-/

namespace Harmonia.Forcing

/-! ## `NixReader` -/

/-- `NixReader`, as far as bytes are read through it. -/
structure NixReader (R : Type) where
  /-- `inner`. -/
  inner : R

namespace NixReader

variable {R : Type} [BytesAdapter R]

instance : AsyncBytesRead (NixReader R) where
  pollFillBuf this := ((pollFillBuf this.inner).1, ⟨(pollFillBuf this.inner).2⟩)
  consume this amt := (consume this.inner amt).map fun inner => ⟨inner⟩
  budget this := budget this.inner
  pollForceFillBuf this := ((pollForceFillBuf this.inner).1, ⟨(pollForceFillBuf this.inner).2⟩)

instance : BytesAdapter (NixReader R) where
  pollReadInto := pollRead
  prepareFor this additional := (prepareFor this.inner additional).map fun inner => ⟨inner⟩

/-- A `NixReader` shows what the reader below shows. -/
def nixMeter (below : Meter R) : Meter (NixReader R) where
  Sound this := below.Sound this.inner
  shown this := below.shown this.inner
  Returns this := below.Returns this.inner
  Ended this := below.Ended this.inner
  Clear this := below.Clear this.inner

omit [BytesAdapter R] in
/-- What is passed on is an answer too. -/
theorem answers_inner {below : Meter R} {this : NixReader R} {returns : Prop} {wanted : Nat → Prop}
    {result : Poll Bytes × R} (answers : below.Answers this.inner returns wanted result) :
    (nixMeter below).Answers this returns wanted (result.1, ⟨result.2⟩) := by
  cases answers with
  | ready sound shows_ kept enough => exact .ready sound shows_ kept enough
  | pending sound kept => exact .pending sound kept
  | error sound kept => exact .error sound kept
  | panic stuck => exact .panic stuck

variable [Metered R]

/-- What is consumed is consumed below. -/
theorem consume_takes {this next : NixReader R} {amt : Nat} (sound : (nixMeter meter).Sound this)
    (took : consume this amt = some next) :
    (nixMeter meter).Sound next ∧ (nixMeter meter).shown this ≤ (nixMeter meter).shown next + amt := by
  obtain ⟨inner, taken, rfl⟩ := Option.map_eq_some_iff.mp took
  exact Metered.takes sound taken

instance : Metered (NixReader R) where
  meter := nixMeter meter
  fills sound := answers_inner (Metered.fills sound)
  forces sound := answers_inner (Metered.forces sound)
  reads room sound := Meter.pollRead_reads room (answers_inner (Metered.fills sound)) consume_takes
  takes := consume_takes
  prepares := by
    intro this next additional sound made
    obtain ⟨inner, prepared, rfl⟩ := Option.map_eq_some_iff.mp made
    exact Metered.prepares sound prepared

end NixReader

/-! ## `LentReader` -/

/-- `LentReader`: the reader is there until it has been sent back. -/
structure LentReader (R : Type) where
  /-- `inner`. -/
  inner : Option R

namespace LentReader

variable {R : Type} [BytesAdapter R]

/-- `poll_read`: nothing read is the end, and the reader is sent back. -/
def readInner (this : LentReader R) (room : Nat) : Poll Bytes × LentReader R :=
  match this.inner with
  | none => (.ready [], this)
  | some inner =>
    match pollReadInto inner room with
    | (.ready bytes, inner) =>
      if bytes = [] then (.ready [], ⟨none⟩) else (.ready bytes, ⟨some inner⟩)
    | (.pending, inner) => (.pending, ⟨some inner⟩)
    | (.error error, inner) => (.error error, ⟨some inner⟩)
    | (.panic, inner) => (.panic, ⟨some inner⟩)

/-- `poll_fill_buf`: an empty buffer is the end, and the reader is sent back. -/
def pollFill (this : LentReader R) : Poll Bytes × LentReader R :=
  match this.inner with
  | none => (.ready [], this)
  | some inner =>
    match pollFillBuf inner with
    | (.ready buf, inner) =>
      if buf = [] then (.ready [], ⟨none⟩) else (.ready buf, ⟨some inner⟩)
    | (.pending, inner) => (.pending, ⟨some inner⟩)
    | (.error error, inner) => (.error error, ⟨some inner⟩)
    | (.panic, inner) => (.panic, ⟨some inner⟩)

/-- `poll_force_fill_buf`. It fills the buffer of the reader below, and does not force it. -/
def pollForce (this : LentReader R) : Poll Bytes × LentReader R :=
  match this.inner with
  | none => (.ready [], this)
  | some inner =>
    match pollFillBuf inner with
    | (.ready buf, inner) =>
      if buf = [] then (.ready [], ⟨none⟩) else (.ready buf, ⟨some inner⟩)
    | (.pending, inner) => (.pending, ⟨some inner⟩)
    | (.error error, inner) => (.error error, ⟨some inner⟩)
    | (.panic, inner) => (.panic, ⟨some inner⟩)

/-- `consume`. -/
def consumeInner (this : LentReader R) (amt : Nat) : Option (LentReader R) :=
  match this.inner with
  | none => if amt = 0 then some this else none
  | some inner => (consume inner amt).map fun inner => ⟨some inner⟩

/-- `prepare`. -/
def prepareInner (this : LentReader R) (additional : Nat) : Option (LentReader R) :=
  match this.inner with
  | none => some this
  | some inner => (prepareFor inner additional).map fun inner => ⟨some inner⟩

instance : AsyncBytesRead (LentReader R) where
  pollFillBuf := pollFill
  consume := consumeInner
  budget this := this.inner.elim 0 budget
  pollForceFillBuf := pollForce

instance : BytesAdapter (LentReader R) where
  pollReadInto := readInner
  prepareFor := prepareInner

/-- Whether a lent reader is where it can be filled with something new: nothing of it is visible, its
`poll_fill_buf` returns, and it is not at its end. -/
def Fresh (below : Meter R) (inner : R) : Prop :=
  below.shown inner = 0 ∧ below.Returns inner ∧ ¬ below.Ended inner

/-- A `LentReader` shows what the reader that it has shows. -/
def lentMeter (below : Meter R) : Meter (LentReader R) where
  Sound this := ∀ inner, this.inner = some inner → below.Sound inner
  shown this := this.inner.elim 0 below.shown
  Returns this := ∀ inner, this.inner = some inner → below.Returns inner
  Ended this := ∀ inner, this.inner = some inner → below.Ended inner
  Clear this := ∃ inner, this.inner = some inner ∧ Fresh below inner

omit [BytesAdapter R] in
/-- The reader that is there is sound when it has just been polled. -/
theorem sound_some {below : Meter R} {inner : R} (sound : below.Sound inner) :
    (lentMeter below).Sound ⟨some inner⟩ := by
  intro other same
  cases same
  exact sound

omit [BytesAdapter R] in
/-- Nothing is to be kept of a reader that was sent back. -/
theorem sound_none {below : Meter R} : (lentMeter below).Sound ⟨none⟩ := by
  rintro inner ⟨⟩

variable [Metered R]

/-- Filling goes on until the end, at which the reader is sent back. -/
theorem pollFill_answers {this : LentReader R} (sound : (lentMeter meter).Sound this) :
    (lentMeter meter).Answers this ((lentMeter meter).Returns this)
      (fun length => length = 0 → (lentMeter meter).Ended this) this.pollFill := by
  obtain ⟨inner⟩ := this
  cases inner with
  | none =>
    refine .ready sound_none rfl (Nat.le_refl _) fun _ other same => ?_
    cases same
  | some inner =>
    have filled := Metered.fills (sound inner rfl)
    unfold pollFill
    dsimp only
    generalize pollFillBuf inner = result at filled
    cases filled with
    | @ready next buf sound' shows_ kept ends =>
      dsimp only
      split
      · rename_i nothing
        have ended := ends (congrArg List.length nothing)
        rw [nothing, List.length_nil] at kept
        refine .ready sound_none rfl kept fun _ other same => ?_
        cases same
        exact ended
      · rename_i more
        exact .ready (sound_some sound') shows_ kept fun zero =>
          absurd (List.eq_nil_of_length_eq_zero zero) more
    | pending sound' kept => exact .pending (sound_some sound') kept
    | error sound' kept => exact .error (sound_some sound') kept
    | panic stuck => exact .panic fun returns => stuck (returns inner rfl)

/-- A reader of which nothing is visible is filled with something. -/
theorem pollForce_answers {this : LentReader R} (sound : (lentMeter meter).Sound this) :
    (lentMeter meter).Answers this ((lentMeter meter).Clear this)
      (fun length => (lentMeter meter).Clear this → (lentMeter meter).shown this < length)
      this.pollForce := by
  obtain ⟨inner⟩ := this
  cases inner with
  | none =>
    have never : ¬ (lentMeter meter).Clear (⟨none⟩ : LentReader R) := by
      rintro ⟨inner, ⟨⟩, _⟩
    exact .ready sound_none rfl (Nat.le_refl _) fun clear => absurd clear never
  | some inner =>
    have fresh (clear : (lentMeter meter).Clear (⟨some inner⟩ : LentReader R)) : Fresh meter inner := by
      obtain ⟨other, same, fresh⟩ := clear
      cases same
      exact fresh
    have filled := Metered.fills (sound inner rfl)
    unfold pollForce
    dsimp only
    generalize pollFillBuf inner = result at filled
    cases filled with
    | @ready next buf sound' shows_ kept ends =>
      dsimp only
      split
      · rename_i nothing
        have ended := ends (congrArg List.length nothing)
        rw [nothing, List.length_nil] at kept
        exact .ready sound_none rfl kept fun clear => absurd ended (fresh clear).2.2
      · rename_i more
        refine .ready (sound_some sound') shows_ kept fun clear => ?_
        have none : (lentMeter meter).shown (⟨some inner⟩ : LentReader R) = 0 := (fresh clear).1
        rw [none]
        exact List.length_pos_of_ne_nil more
    | pending sound' kept => exact .pending (sound_some sound') kept
    | error sound' kept => exact .error (sound_some sound') kept
    | panic stuck => exact .panic fun clear => stuck (fresh clear).2.1

/-- Reading sends the reader back at the end, too. -/
theorem readInner_reads {this : LentReader R} (room : Nat) (sound : (lentMeter meter).Sound this) :
    (lentMeter meter).Reads room (this.readInner room) := by
  obtain ⟨inner⟩ := this
  cases inner with
  | none => exact .ready sound_none (Nat.zero_le _)
  | some inner =>
    have read := Metered.reads room (sound inner rfl)
    unfold readInner
    dsimp only
    generalize pollReadInto inner room = result at read
    cases read with
    | ready sound' within =>
      dsimp only
      split
      · exact .ready sound_none (Nat.zero_le _)
      · exact .ready (sound_some sound') within
    | pending sound' => exact .pending (sound_some sound')
    | error sound' => exact .error (sound_some sound')
    | panic => exact .panic

instance : Metered (LentReader R) where
  meter := lentMeter meter
  fills := pollFill_answers
  forces := pollForce_answers
  reads := readInner_reads
  takes := by
    intro this next amt sound took
    change this.consumeInner amt = some next at took
    obtain ⟨inner⟩ := this
    cases inner with
    | none =>
      simp only [consumeInner] at took
      split at took
      · cases took
        exact ⟨sound, Nat.le_add_right _ _⟩
      · cases took
    | some inner =>
      obtain ⟨after, taken, rfl⟩ := Option.map_eq_some_iff.mp took
      obtain ⟨sound', kept⟩ := Metered.takes (sound inner rfl) taken
      exact ⟨sound_some sound', kept⟩
  prepares := by
    intro this next additional sound made
    change this.prepareInner additional = some next at made
    obtain ⟨inner⟩ := this
    cases inner with
    | none =>
      cases made
      exact ⟨sound, Nat.le_refl _⟩
    | some inner =>
      obtain ⟨after, prepared, rfl⟩ := Option.map_eq_some_iff.mp made
      obtain ⟨sound', kept⟩ := Metered.prepares (sound inner rfl) prepared
      exact ⟨sound_some sound', kept⟩

end LentReader

/-! ## `Lending` -/

/-- `DrainInto`. -/
class DrainInto (W : Type) (R : outParam Type) where
  /-- `poll_drain`. -/
  pollDrain : W → Poll Unit × W
  /-- `into_inner`. -/
  intoInner : W → R

/-- The loop of `poll_drain`, the same in its implementations: fill the buffer and consume it, until it
is empty. -/
def drainAll {W : Type} [AsyncBufRead W] : Nat → W → Poll Unit × W
  | 0, this => (.panic, this)
  | fuel + 1, this =>
    match pollFillBuf this with
    | (.ready buf, this) =>
      if buf = [] then (.ready (), this)
      else
        match consume this buf.length with
        | some this => drainAll fuel this
        | none => (.panic, this)
    | (.pending, this) => (.pending, this)
    | (.error error, this) => (.error error, this)
    | (.panic, this) => (.panic, this)

/-- A drained reader is sound. -/
theorem drainAll_sound {W : Type} [BytesAdapter W] [Metered W] (fuel : Nat) {this : W}
    (sound : meter.Sound this) (returned : (drainAll fuel this).1 ≠ .panic) :
    meter.Sound (drainAll fuel this).2 := by
  induction fuel generalizing this with
  | zero => exact absurd rfl returned
  | succ fuel ih =>
    have filled := Metered.fills sound
    unfold drainAll at returned ⊢
    generalize pollFillBuf this = result at filled returned ⊢
    cases filled with
    | @ready next buf sound' shows_ kept =>
      dsimp only at returned ⊢
      by_cases nothing : buf = []
      · rw [if_pos nothing]
        exact sound'
      · rw [if_neg nothing] at returned ⊢
        cases took : consume next buf.length with
        | none =>
          rw [took] at returned
          exact absurd rfl returned
        | some after =>
          rw [took] at returned
          exact ih (Metered.takes sound' took).1 returned
    | pending sound' => exact sound'
    | error sound' => exact sound'
    | panic => exact absurd rfl returned

/-- `Lending`. -/
inductive Lending (R W : Type) where
  /-- `Lent`: the reader is out, or has been sent back. -/
  | lent (returned : Option W)
  /-- `Drain`. -/
  | drain (reader : W)
  /-- `Available`. -/
  | available (reader : R)

namespace Lending

variable {R W : Type} [BytesAdapter R] [BytesAdapter W] [DrainInto W R]

/-- The drained part of `poll_ready`. -/
def pollDrained (reader : W) : Poll R × Lending R W :=
  match DrainInto.pollDrain reader with
  | (.ready _, reader) => (.ready (DrainInto.intoInner reader), .available (DrainInto.intoInner reader))
  | (.pending, reader) => (.pending, .drain reader)
  | (.error error, reader) => (.error error, .drain reader)
  | (.panic, reader) => (.panic, .drain reader)

/-- `poll_ready`: take the reader back and drain it. -/
def pollReady (lending : Lending R W) : Poll R × Lending R W :=
  match lending with
  | .lent none => (.pending, .lent none)
  | .lent (some reader) | .drain reader => pollDrained reader
  | .available reader => (.ready reader, .available reader)

/-- The methods that poll: they wait for the reader, and poll it. -/
def pollWith (poll : R → Poll Bytes × R) (this : Lending R W) : Poll Bytes × Lending R W :=
  match this.pollReady with
  | (.ready reader, _) => ((poll reader).1, .available (poll reader).2)
  | (.pending, this) => (.pending, this)
  | (.error error, this) => (.error error, this)
  | (.panic, this) => (.panic, this)

/-- The methods that do not: without the reader they panic. -/
def change (f : R → Option R) (this : Lending R W) : Option (Lending R W) :=
  match this with
  | .available reader => (f reader).map .available
  | _ => none

instance : AsyncBytesRead (Lending R W) where
  pollFillBuf := pollWith pollFillBuf
  consume this amt := this.change fun reader => consume reader amt
  budget
    | .available reader => budget reader
    | .drain reader | .lent (some reader) => budget reader
    | .lent none => 0
  pollForceFillBuf := pollWith pollForceFillBuf

instance : BytesAdapter (Lending R W) where
  pollReadInto this room := this.pollWith fun reader => pollReadInto reader room
  prepareFor this additional := this.change fun reader => prepareFor reader additional

/-- The reader that is waited for is as it should be; when it is drained first, draining returns. -/
def Awaits (good : R → Prop) : Lending R W → Prop
  | .available reader => good reader
  | .lent none => True
  | .lent (some reader) | .drain reader =>
    (DrainInto.pollDrain reader).1 ≠ .panic ∧
      ∀ next, DrainInto.pollDrain reader = (.ready (), next) → good (DrainInto.intoInner next)

/-- A reader that is so comes: it is available, or draining the one that was out gives it. -/
def Comes (such : R → Prop) : Lending R W → Prop
  | .available reader => such reader
  | .lent none => False
  | .lent (some reader) | .drain reader =>
    ∃ next, DrainInto.pollDrain reader = (.ready (), next) ∧ such (DrainInto.intoInner next)

/-- A `Lending` shows what the reader that is available shows. -/
def lendingMeter (below : Meter R) (out : Meter W) : Meter (Lending R W) where
  Sound
    | .available reader => below.Sound reader
    | .lent none => True
    | .lent (some reader) | .drain reader => out.Sound reader
  shown
    | .available reader => below.shown reader
    | _ => 0
  Returns := Awaits below.Returns
  Ended := Comes below.Ended
  Clear := Awaits below.Clear

/-- What waiting for the reader does. -/
inductive Readied (below : Meter R) (out : Meter W) (this : Lending R W) :
    Poll R × Lending R W → Prop
  | ready {reader : R} (sound : below.Sound reader)
    (kept : (lendingMeter below out).shown this ≤ below.shown reader)
    (good : ∀ {P : R → Prop}, Awaits P this → P reader) (came : ∀ {P : R → Prop}, P reader → Comes P this) :
    Readied below out this (.ready reader, .available reader)
  | pending {next : Lending R W} (sound : (lendingMeter below out).Sound next)
    (none : (lendingMeter below out).shown this = 0) : Readied below out this (.pending, next)
  | error {next : Lending R W} {error : IoError} (sound : (lendingMeter below out).Sound next)
    (none : (lendingMeter below out).shown this = 0) : Readied below out this (.error error, next)
  | panic {next : Lending R W} (stuck : ∀ {P : R → Prop}, ¬ Awaits P this) :
    Readied below out this (.panic, next)

end Lending

/-- A reader that can be lent out: drained, or taken back, it is sound. -/
class MeteredDrain (W R : Type) [BytesAdapter W] [Metered W] [BytesAdapter R] [Metered R]
    [DrainInto W R] : Prop where
  /-- `poll_drain`. -/
  drains : ∀ {reader : W}, meter.Sound reader → (DrainInto.pollDrain reader).1 ≠ .panic →
    meter.Sound (DrainInto.pollDrain reader).2
  /-- `into_inner`. -/
  inner : ∀ {reader : W}, meter.Sound reader → meter.Sound (DrainInto.intoInner reader)

namespace Lending

variable {R W : Type} [BytesAdapter R] [BytesAdapter W] [DrainInto W R] [Metered R] [Metered W]
  [MeteredDrain W R]

/-- A reader that has come back is drained before it is available. -/
theorem pollDrained_readied {this : Lending R W} {reader : W} (sound : meter.Sound reader)
    (none : (lendingMeter meter meter).shown this = 0)
    (awaits : ∀ {P : R → Prop}, Awaits P this → Awaits P (.drain reader : Lending R W))
    (comes : ∀ {P : R → Prop}, Comes P (.drain reader : Lending R W) → Comes P this) :
    Readied meter meter this (pollDrained reader) := by
  have drains := MeteredDrain.drains (R := R) sound
  unfold pollDrained
  generalize drained : DrainInto.pollDrain reader = result at drains
  obtain ⟨answer, next⟩ := result
  cases answer with
  | ready done =>
    have sound' : meter.Sound next := drains (by rintro ⟨⟩)
    refine .ready (MeteredDrain.inner sound') (by omega) (fun good => ?_) fun such => comes ?_
    · exact (awaits good).2 next drained
    · exact ⟨next, drained, such⟩
  | pending => exact .pending (drains (by rintro ⟨⟩)) none
  | error error => exact .error (drains (by rintro ⟨⟩)) none
  | panic =>
    refine .panic fun good => (awaits good).1 ?_
    rw [drained]

/-- Waiting for the reader. -/
theorem pollReady_readied {this : Lending R W} (sound : (lendingMeter meter meter).Sound this) :
    Readied meter meter this this.pollReady := by
  cases this with
  | lent returned =>
    cases returned with
    | none => exact .pending trivial rfl
    | some reader => exact pollDrained_readied sound rfl id id
  | drain reader => exact pollDrained_readied sound rfl id id
  | available reader => exact .ready sound (Nat.le_refl _) id id

/-- Polling the reader once it is available. -/
theorem pollWith_answers {this : Lending R W} (sound : (lendingMeter meter meter).Sound this)
    {poll : R → Poll Bytes × R} {good : R → Prop} {wanted : R → Nat → Prop}
    (polls : ∀ {reader : R}, meter.Sound reader →
      meter.Answers reader (good reader) (wanted reader) (poll reader)) :
    (lendingMeter meter meter).Answers this (Awaits good this)
      (fun length => ∃ reader, (lendingMeter meter meter).shown this ≤ meter.shown reader ∧
        (∀ {P : R → Prop}, Awaits P this → P reader) ∧ (∀ {P : R → Prop}, P reader → Comes P this) ∧
          wanted reader length)
      (this.pollWith poll) := by
  have readied := pollReady_readied sound
  unfold pollWith
  generalize this.pollReady = result at readied
  cases readied with
  | @ready reader sound' kept awaited came =>
    have polled := polls sound'
    dsimp only
    generalize poll reader = result at polled
    cases polled with
    | ready sound'' shows_ kept' enough =>
      exact .ready sound'' shows_ (Nat.le_trans kept kept') ⟨reader, kept, awaited, came, enough⟩
    | pending sound'' kept' => exact .pending sound'' (Nat.le_trans kept kept')
    | error sound'' kept' => exact .error sound'' (Nat.le_trans kept kept')
    | panic stuck => exact .panic fun clear => stuck (awaited clear)
  | pending sound' none => exact .pending sound' (by omega)
  | error sound' none => exact .error sound' (by omega)
  | panic stuck => exact .panic stuck

omit [BytesAdapter R] [BytesAdapter W] [DrainInto W R] [Metered R] [Metered W] [MeteredDrain W R] in
/-- A method that does not poll changes the available reader only. -/
theorem change_some {f : R → Option R} {this next : Lending R W} (changed : this.change f = some next) :
    ∃ reader after, this = .available reader ∧ f reader = some after ∧ next = .available after := by
  cases this with
  | available reader =>
    obtain ⟨after, answer, rfl⟩ := Option.map_eq_some_iff.mp changed
    exact ⟨reader, after, rfl, answer, rfl⟩
  | lent => cases changed
  | drain => cases changed

instance : Metered (Lending R W) where
  meter := lendingMeter meter meter
  fills sound := by
    refine (pollWith_answers sound Metered.fills).imp id ?_
    rintro length ⟨reader, _, _, came, ends⟩ zero
    exact came (ends zero)
  forces sound := by
    refine (pollWith_answers sound Metered.forces).imp id ?_
    rintro length ⟨reader, kept, awaited, _, grown⟩ clear
    exact Nat.lt_of_le_of_lt kept (grown (awaited clear))
  reads := by
    intro this room sound
    have readied := pollReady_readied sound
    change Meter.Reads _ room (this.pollWith fun reader => pollReadInto reader room)
    unfold pollWith
    generalize this.pollReady = result at readied
    cases readied with
    | @ready reader sound' kept awaited =>
      have read := Metered.reads room sound'
      dsimp only
      generalize pollReadInto reader room = result at read
      cases read with
      | ready sound'' within => exact .ready sound'' within
      | pending sound'' => exact .pending sound''
      | error sound'' => exact .error sound''
      | panic => exact .panic
    | pending sound' none => exact .pending sound'
    | error sound' none => exact .error sound'
    | panic stuck => exact .panic
  takes := by
    intro this next amt sound took
    obtain ⟨reader, after, rfl, taken, rfl⟩ := change_some took
    exact Metered.takes (R := R) sound taken
  prepares := by
    intro this next additional sound made
    obtain ⟨reader, after, rfl, prepared, rfl⟩ := change_some made
    exact Metered.prepares (R := R) sound prepared

end Lending

end Harmonia.Forcing
