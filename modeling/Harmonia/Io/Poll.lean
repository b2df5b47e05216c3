import Mathlib.Data.List.Basic
import Mathlib.Algebra.Order.Ring.Nat

/-!
# Outcomes of a poll

`Poll<io::Result<T>>` has three outcomes. The model adds a fourth, `panic`, for a call that
does not return: an assertion, an index or slice out of range, an arithmetic operation that
leaves its machine type, or a loop that does not end.
-/

namespace Harmonia

/-- Bytes of a buffer or of a stream. -/
abbrev Bytes := List UInt8

/-- The `io::ErrorKind`s the modelled code produces or passes on. -/
inductive ErrorKind where
  /-- `UnexpectedEof`. -/
  | unexpectedEof
  /-- `InvalidData`. -/
  | invalidData
  /-- `WriteZero`. -/
  | writeZero
  /-- Any other kind, as an inner reader or writer may report it. -/
  | other
  deriving DecidableEq, Repr

/-- An `io::Error`: its kind and its text. -/
structure IoError where
  /-- What a caller can match on. -/
  kind : ErrorKind
  /-- The text of the error. -/
  message : String
  deriving DecidableEq, Repr

/-- The outcome of polling a fallible operation. -/
inductive Poll (α : Type) where
  /-- `Poll::Ready(Ok(value))`. -/
  | ready (value : α)
  /-- `Poll::Pending`. -/
  | pending
  /-- `Poll::Ready(Err(error))`. -/
  | error (error : IoError)
  /-- The call does not return. -/
  | panic
  deriving DecidableEq, Repr

/-- Poll until the answer is ready, at most so many times. -/
def await {S α : Type} (poll : S → Poll α × S) : Nat → S → Poll α × S
  | 0, this => (.panic, this)
  | patience + 1, this =>
    match poll this with
    | (.pending, next) => await poll patience next
    | result => result

end Harmonia
