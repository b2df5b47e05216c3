import Harmonia.Io.Write

/-!
# Writers that keep their books

A writer that may fail, but otherwise has taken what it says it has. What is true of a steady writer is true of
such a writer until it fails: taking each failure for an answer that puts the caller off makes it steady.
-/

namespace Harmonia

/-- What `poll_write` of a writer that keeps its books does with some bytes. -/
inductive Booked {W : Type} [AsyncWrite W] (Honest : W → Prop) (this : W) (buf : Bytes) : Poll Nat × W → Prop
  | ready {next : W} {count : Nat} (within : count ≤ buf.length)
    (taken : written next = written this ++ buf.take count) (honest : Honest next) :
    Booked Honest this buf (.ready count, next)
  | pending {next : W} (same : written next = written this) (honest : Honest next) :
    Booked Honest this buf (.pending, next)
  | error {next : W} {error : IoError} : Booked Honest this buf (.error error, next)

/-- What `poll_flush` of such a writer does. -/
inductive Emptied {W : Type} [AsyncWrite W] (Honest : W → Prop) (this : W) : Poll Unit × W → Prop
  | ready {next : W} (same : written next = written this) (honest : Honest next) :
    Emptied Honest this (.ready (), next)
  | pending {next : W} (same : written next = written this) (honest : Honest next) :
    Emptied Honest this (.pending, next)
  | error {next : W} {error : IoError} : Emptied Honest this (.error error, next)

/-- A writer that may fail, but otherwise has taken what it says. -/
structure Honesty (W : Type) [AsyncWrite W] where
  /-- It is honest from here on. -/
  Honest : W → Prop
  /-- Its writes. -/
  wrote : ∀ {this : W} {buf : Bytes}, Honest this → buf ≠ [] → Booked Honest this buf (pollWrite this buf)
  /-- Its flushes. -/
  flushed : ∀ {this : W}, Honest this → Emptied Honest this (pollFlush this)

/-- A steady writer is honest. -/
def SteadyWrite.honesty {W : Type} [AsyncWrite W] [SteadyWrite W] : Honesty W where
  Honest := Steady
  wrote {this buf} steady some := by
    have wrote := SteadyWrite.wrote steady some
    generalize pollWrite this buf = result at wrote
    cases wrote with
    | ready positive within taken steady => exact .ready within taken steady
    | pending same steady => exact .pending same steady
  flushed {this} steady := by
    have flushed := SteadyWrite.flushed steady
    generalize pollFlush this = result at flushed
    cases flushed with
    | ready same steady => exact .ready same steady
    | pending same steady => exact .pending same steady

/-- A sink is honest, whatever it answers. -/
def Sink.honesty : Honesty Sink where
  Honest _ := True
  wrote {this buf} _ _ := by
    have writes := this.pollWrite_writes buf
    show Booked _ this buf (this.pollWrite buf)
    generalize this.pollWrite buf = result at writes
    cases writes with
    | ready within taken => exact .ready within taken trivial
    | pending same => exact .pending same trivial
    | error => exact .error
  flushed {this} _ := by
    have settles := this.pollSettle_settles
    show Emptied _ this this.pollSettle
    generalize this.pollSettle = result at settles
    cases settles with
    | ready => exact .ready rfl trivial
    | pending same => exact .pending same trivial
    | error => exact .error

/-! ## Failures taken for delays -/

/-- A writer whose failures are taken for delays. -/
structure Tame {W : Type} [AsyncWrite W] (honesty : Honesty W) where
  /-- The writer. -/
  writer : W

namespace Tame

variable {W : Type} [AsyncWrite W] {honesty : Honesty W}

/-- `poll_write`, where a failure is a delay. -/
def write (this : Tame honesty) (buf : Bytes) : Poll Nat × Tame honesty :=
  match pollWrite this.writer buf with
  | (.ready count, next) => if count = 0 then (.pending, ⟨next⟩) else (.ready count, ⟨next⟩)
  | (.pending, next) => (.pending, ⟨next⟩)
  | (.error _, _) | (.panic, _) => (.pending, this)

/-- `poll_flush`, where a failure is a delay. -/
def flush (this : Tame honesty) : Poll Unit × Tame honesty :=
  match pollFlush this.writer with
  | (.ready (), next) => (.ready (), ⟨next⟩)
  | (.pending, next) => (.pending, ⟨next⟩)
  | (.error _, _) | (.panic, _) => (.pending, this)

instance : AsyncWrite (Tame honesty) where
  pollWrite := write
  pollFlush := flush
  written this := written this.writer

instance : SteadyWrite (Tame honesty) where
  Steady this := honesty.Honest this.writer
  wrote {this buf} honest some := by
    have booked := honesty.wrote honest some
    show Wrote _ this buf (this.write buf)
    unfold write
    generalize pollWrite this.writer buf = result at booked
    cases booked with
    | @ready next count within taken honest =>
      dsimp only
      by_cases none : count = 0
      · rw [if_pos none]
        refine .pending ?_ honest
        show written next = written this.writer
        rw [taken, none, List.take_zero, List.append_nil]
      · rw [if_neg none]
        exact .ready (Nat.pos_of_ne_zero none) within taken honest
    | pending same honest => exact .pending same honest
    | error => exact .pending rfl honest
  flushed {this} honest := by
    have emptied := honesty.flushed honest
    show Flushed _ this this.flush
    unfold flush
    generalize pollFlush this.writer = result at emptied
    cases emptied with
    | ready same honest => exact .ready same honest
    | pending same honest => exact .pending same honest
    | error => exact .pending rfl honest

end Tame

/-- A poll fails, or it does what another one does of an image of the state, and keeps a promise. -/
inductive Follows {V V' α : Type} (image : V → V') (Kept : V → Prop) : Poll α × V → Poll α × V' → Prop
  | same {answer : Poll α} {next : V} (kept : Kept next) : Follows image Kept (answer, next) (answer, image next)
  | error {error : IoError} {next : V} {result : Poll α × V'} : Follows image Kept (.error error, next) result

end Harmonia
