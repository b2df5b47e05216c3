import Harmonia.Io.Sink

/-!
# Writers

`AsyncWrite` for any type, as far as a writer above another one relies on it. A steady writer is
pending or takes something of what it is offered, and never fails.
-/

namespace Harmonia

/-- `AsyncWrite`, with the bytes that have been taken so far. -/
class AsyncWrite (W : Type) where
  /-- `poll_write`. -/
  pollWrite : W → Bytes → Poll Nat × W
  /-- `poll_flush`. -/
  pollFlush : W → Poll Unit × W
  /-- What has been taken. -/
  written : W → Bytes

export AsyncWrite (pollWrite pollFlush written)

/-- What `poll_write` of a steady writer does with some bytes. -/
inductive Wrote {W : Type} [AsyncWrite W] (Steady : W → Prop) (this : W) (buf : Bytes) :
    Poll Nat × W → Prop
  | ready {next : W} {count : Nat} (some : 0 < count) (within : count ≤ buf.length)
    (taken : written next = written this ++ buf.take count) (steady : Steady next) :
    Wrote Steady this buf (.ready count, next)
  | pending {next : W} (same : written next = written this) (steady : Steady next) :
    Wrote Steady this buf (.pending, next)

/-- What `poll_flush` of a steady writer does. -/
inductive Flushed {W : Type} [AsyncWrite W] (Steady : W → Prop) (this : W) : Poll Unit × W → Prop
  | ready {next : W} (same : written next = written this) (steady : Steady next) :
    Flushed Steady this (.ready (), next)
  | pending {next : W} (same : written next = written this) (steady : Steady next) :
    Flushed Steady this (.pending, next)

/-- The writers that are steady in the states named here. -/
class SteadyWrite (W : Type) [AsyncWrite W] where
  /-- It is steady from here on. -/
  Steady : W → Prop
  /-- It takes something or is pending. -/
  wrote : ∀ {this : W} {buf : Bytes}, Steady this → buf ≠ [] → Wrote Steady this buf (pollWrite this buf)
  /-- It flushes or is pending. -/
  flushed : ∀ {this : W}, Steady this → Flushed Steady this (pollFlush this)

export SteadyWrite (Steady)

/-- A writer that is not pending for ever: every answer that puts the caller off brings it closer to
one that does not. -/
structure Patience (W : Type) [AsyncWrite W] [SteadyWrite W] where
  /-- How often it may still put the caller off. -/
  left : W → Nat
  /-- A write that is put off. -/
  write_pending : ∀ {this next : W} {buf : Bytes}, Steady this → buf ≠ [] →
    pollWrite this buf = (.pending, next) → left next < left this
  /-- A write that is not. -/
  write_ready : ∀ {this next : W} {buf : Bytes} {count : Nat}, Steady this → buf ≠ [] →
    pollWrite this buf = (.ready count, next) → left next ≤ left this
  /-- A flush that is put off. -/
  flush_pending : ∀ {this next : W}, Steady this →
    pollFlush this = (.pending, next) → left next < left this

/-- A writer that says how often it may still put the caller off. -/
class PatientWrite (W : Type) where
  /-- How often it may still put the caller off. -/
  turns : W → Nat

export PatientWrite (turns)

/-- A steady writer that keeps its word. -/
class LawfulPatience (W : Type) [AsyncWrite W] [SteadyWrite W] [PatientWrite W] : Prop where
  /-- A write that is put off. -/
  write_pending : ∀ {this next : W} {buf : Bytes}, Steady this → buf ≠ [] →
    pollWrite this buf = (.pending, next) → turns next < turns this
  /-- A write that is not. -/
  write_ready : ∀ {this next : W} {buf : Bytes} {count : Nat}, Steady this → buf ≠ [] →
    pollWrite this buf = (.ready count, next) → turns next ≤ turns this
  /-- A flush that is put off. -/
  flush_pending : ∀ {this next : W}, Steady this →
    pollFlush this = (.pending, next) → turns next < turns this
  /-- A flush that is not. -/
  flush_ready : ∀ {this next : W}, Steady this →
    pollFlush this = (.ready (), next) → turns next ≤ turns this

/-- What `poll_write` of such a writer does with some bytes. -/
inductive Writes {W : Type} [AsyncWrite W] [SteadyWrite W] [PatientWrite W] (this : W) (buf : Bytes) :
    Poll Nat × W → Prop
  | ready {next : W} {count : Nat} (some : 0 < count) (within : count ≤ buf.length)
    (taken : written next = written this ++ buf.take count) (steady : Steady next)
    (spent : turns next ≤ turns this) : Writes this buf (.ready count, next)
  | pending {next : W} (same : written next = written this) (steady : Steady next)
    (less : turns next < turns this) : Writes this buf (.pending, next)

/-- What `poll_flush` of such a writer does. -/
inductive Settles {W : Type} [AsyncWrite W] [SteadyWrite W] [PatientWrite W] (this : W) :
    Poll Unit × W → Prop
  | ready {next : W} (same : written next = written this) (steady : Steady next)
    (spent : turns next ≤ turns this) : Settles this (.ready (), next)
  | pending {next : W} (same : written next = written this) (steady : Steady next)
    (less : turns next < turns this) : Settles this (.pending, next)

section Patient

variable {W : Type} [AsyncWrite W] [SteadyWrite W] [PatientWrite W] [LawfulPatience W]

/-- Every write is as it should be. -/
theorem pollWrite_writes {this : W} (steady : Steady this) {buf : Bytes} (some : buf ≠ []) :
    Writes this buf (pollWrite this buf) := by
  have wrote := SteadyWrite.wrote steady some
  generalize answer : pollWrite this buf = result at wrote
  cases wrote with
  | ready positive within taken steady' =>
    exact .ready positive within taken steady' (LawfulPatience.write_ready steady some answer)
  | pending same steady' =>
    exact .pending same steady' (LawfulPatience.write_pending steady some answer)

/-- Every flush is as it should be. -/
theorem pollFlush_settles {this : W} (steady : Steady this) : Settles this (pollFlush this) := by
  have flushed := SteadyWrite.flushed steady
  generalize answer : pollFlush this = result at flushed
  cases flushed with
  | ready same steady' => exact .ready same steady' (LawfulPatience.flush_ready steady answer)
  | pending same steady' => exact .pending same steady' (LawfulPatience.flush_pending steady answer)

end Patient

/-- More patience does not change what has been awaited. -/
theorem await_more {S α : Type} {poll : S → Poll α × S} {fewer more : Nat} {this next : S}
    {answer : Poll α} (awaited : await poll fewer this = (answer, next)) (returns : answer ≠ .panic)
    (le : fewer ≤ more) : await poll more this = (answer, next) := by
  induction fewer generalizing this more with
  | zero =>
    cases awaited
    exact absurd rfl returns
  | succ fewer ih =>
    obtain ⟨rest, rfl⟩ := Nat.exists_eq_add_of_le' le
    rw [← Nat.add_assoc, await]
    rw [await] at awaited
    generalize poll this = result at awaited
    obtain ⟨first, second⟩ := result
    cases first with
    | pending => exact ih awaited (Nat.le_add_left _ _)
    | ready value => exact awaited
    | error error => exact awaited
    | panic => exact awaited

instance : AsyncWrite Sink where
  pollWrite := Sink.pollWrite
  pollFlush := Sink.pollSettle
  written := Sink.written

instance : SteadyWrite Sink where
  Steady := Sink.Steady
  wrote {this buf} steady some := by
    have writes := this.pollWrite_writes buf
    show Wrote Sink.Steady this buf (this.pollWrite buf)
    generalize this.pollWrite buf = result at writes
    cases writes with
    | ready within taken still nonzero spent turn =>
      have positive : 0 < _ := Nat.pos_of_ne_zero fun zero => some (nonzero steady zero)
      exact .ready positive within taken (still steady)
    | pending same still less => exact .pending same (still steady)
    | error unsteady => exact absurd steady unsteady
  flushed {this} steady := by
    have settles := this.pollSettle_settles
    show Flushed Sink.Steady this this.pollSettle
    generalize this.pollSettle = result at settles
    cases settles with
    | ready => exact .ready rfl steady
    | pending same still less => exact .pending same (still steady)
    | error unsteady => exact absurd steady unsteady

instance : PatientWrite Sink where
  turns sink := sink.plan.length

instance : LawfulPatience Sink where
  write_pending {this next buf} _ _ answer := by
    have writes := this.pollWrite_writes buf
    rw [show this.pollWrite buf = (.pending, next) from answer] at writes
    cases writes with
    | pending same still less => exact less
  write_ready {this next buf count} _ _ answer := by
    have writes := this.pollWrite_writes buf
    rw [show this.pollWrite buf = (.ready count, next) from answer] at writes
    cases writes with
    | ready within taken still nonzero spent turn => exact spent
  flush_pending {this next} _ answer := by
    have settles := this.pollSettle_settles
    rw [show this.pollSettle = (.pending, next) from answer] at settles
    cases settles with
    | pending same still less => exact less
  flush_ready {this next} _ answer := by
    have settles := this.pollSettle_settles
    rw [show this.pollSettle = (.ready (), next) from answer] at settles
    cases settles with
    | ready => exact Nat.le_refl _

end Harmonia
