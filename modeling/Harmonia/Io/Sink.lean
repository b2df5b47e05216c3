import Mathlib.Data.List.Basic
import Mathlib.Algebra.Order.Ring.Nat
import Harmonia.Io.Poll

/-!
# Byte sinks

What a writer is given to write to: it takes some of the bytes offered, may be pending, take
nothing or fail, and remembers what it has taken.
-/

namespace Harmonia

/-- How a sink answers one write. -/
inductive Accept where
  /-- It takes at most so many bytes. -/
  | take (most : Nat)
  /-- Not yet. -/
  | pending
  /-- With an error. -/
  | fail (error : IoError)
  deriving DecidableEq, Repr

/-- The answer takes something or puts the write off. -/
def Accept.isSteady : Accept → Bool
  | .take most => most ≠ 0
  | .pending => true
  | .fail _ => false

/-- A byte sink: what it has taken, its next answers, and the size of the writes after them. -/
structure Sink where
  /-- Bytes taken. -/
  written : Bytes
  /-- The next answers. -/
  plan : List Accept
  /-- Later writes take at most `most + 1` bytes. -/
  most : Nat
  deriving DecidableEq, Repr

namespace Sink

/-- Take the first bytes offered. -/
def accept (sink : Sink) (plan : List Accept) (buf : Bytes) (count : Nat) : Poll Nat × Sink :=
  (.ready (min count buf.length), ⟨sink.written ++ buf.take count, plan, sink.most⟩)

/-- `AsyncWrite::poll_write`. -/
def pollWrite (sink : Sink) (buf : Bytes) : Poll Nat × Sink :=
  match sink.plan with
  | [] => sink.accept [] buf (sink.most + 1)
  | .take most :: plan => sink.accept plan buf most
  | .pending :: plan => (.pending, { sink with plan := plan })
  | .fail error :: plan => (.error error, { sink with plan := plan })

/-- `AsyncWrite::poll_flush` and `poll_shutdown`. -/
def pollSettle (sink : Sink) : Poll Unit × Sink :=
  match sink.plan with
  | .pending :: plan => (.pending, { sink with plan := plan })
  | .fail error :: plan => (.error error, { sink with plan := plan })
  | _ => (.ready (), sink)

/-- The sink will take what it is offered. -/
def Steady (sink : Sink) : Prop := ∀ accept ∈ sink.plan, accept.isSteady = true

instance (sink : Sink) : Decidable sink.Steady := inferInstanceAs (Decidable (∀ _ ∈ _, _))

/-- What a write does. -/
inductive Writes (sink : Sink) (buf : Bytes) : Poll Nat × Sink → Prop
  | ready {next : Sink} {count : Nat} (within : count ≤ buf.length)
    (taken : next.written = sink.written ++ buf.take count)
    (steady : sink.Steady → next.Steady)
    (some' : sink.Steady → count = 0 → buf = [])
    (spent : next.plan.length ≤ sink.plan.length)
    (turn : count = 0 → buf = [] ∨ next.plan.length < sink.plan.length) :
    Writes sink buf (.ready count, next)
  | pending {next : Sink} (same : next.written = sink.written)
    (steady : sink.Steady → next.Steady) (less : next.plan.length < sink.plan.length) :
    Writes sink buf (.pending, next)
  | error {next : Sink} {error : IoError} (unsteady : ¬ sink.Steady) :
    Writes sink buf (.error error, next)

/-- What is left of a steady plan is steady. -/
theorem Steady.tail {written : Bytes} {accept : Accept} {plan : List Accept} {most : Nat}
    (steady : Steady ⟨written, accept :: plan, most⟩) (written' : Bytes) :
    Steady ⟨written', plan, most⟩ :=
  fun other listed => steady other (List.mem_cons_of_mem _ listed)

/-- Every write is as it should be. -/
theorem pollWrite_writes (sink : Sink) (buf : Bytes) : Writes sink buf (sink.pollWrite buf) := by
  obtain ⟨written, plan, most⟩ := sink
  have taken (count : Nat) : written ++ buf.take count = written ++ buf.take (min count buf.length) := by
    rw [← List.take_take, List.take_length]
  cases plan with
  | nil =>
    have nothing (zero : min (most + 1) buf.length = 0) : buf = [] :=
      List.eq_nil_of_length_eq_zero (by omega)
    exact .ready (Nat.min_le_right _ _) (taken _) id (fun _ => nothing) (Nat.le_refl _)
      fun zero => .inl (nothing zero)
  | cons accept plan =>
    cases accept with
    | take count =>
      refine .ready (Nat.min_le_right _ _) (taken _) (fun steady => steady.tail _) ?_ (Nat.le_succ _)
        fun _ => .inr (Nat.lt_succ_self _)
      intro steady zero
      have positive := steady (.take count) List.mem_cons_self
      have nonzero : count ≠ 0 := by simpa [Accept.isSteady] using positive
      exact List.eq_nil_of_length_eq_zero (by omega)
    | pending => exact .pending rfl (fun steady => steady.tail _) (Nat.lt_succ_self _)
    | fail error =>
      exact .error fun steady => Bool.noConfusion (steady (.fail error) List.mem_cons_self)

/-- What settling does. -/
inductive Settles (sink : Sink) : Poll Unit × Sink → Prop
  | ready : Settles sink (.ready (), sink)
  | pending {next : Sink} (same : next.written = sink.written)
    (steady : sink.Steady → next.Steady) (less : next.plan.length < sink.plan.length) :
    Settles sink (.pending, next)
  | error {next : Sink} {error : IoError} (unsteady : ¬ sink.Steady) :
    Settles sink (.error error, next)

/-- Every settling is as it should be. -/
theorem pollSettle_settles (sink : Sink) : Settles sink sink.pollSettle := by
  obtain ⟨written, plan, most⟩ := sink
  cases plan with
  | nil => exact .ready
  | cons accept plan =>
    cases accept with
    | take count => exact .ready
    | pending => exact .pending rfl (fun steady => steady.tail _) (Nat.lt_succ_self _)
    | fail error =>
      exact .error fun steady => Bool.noConfusion (steady (.fail error) List.mem_cons_self)

end Sink

end Harmonia
