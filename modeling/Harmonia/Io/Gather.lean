import Mathlib.Data.List.Basic
import Mathlib.Algebra.Order.Ring.Nat
import Harmonia.Io.Read

/-!
# Gathering bytes in one buffer

A name, a target or the end of a file's contents is taken from one contiguous buffer:
the readers force their buffer to grow until it is long enough. The loop ends because every
read that succeeds adds a byte.
-/

namespace Harmonia

variable {R : Type} [AsyncBytesRead R]

/-- `while buf.len() < need { buf = ready!(reader.poll_force_fill_buf(cx))?; }`. -/
def forceUntil (need : Nat) : Nat → R → Bytes → Poll Bytes × R
  | fuel, reader, buf =>
    if need ≤ buf.length then (.ready buf, reader)
    else
      match fuel with
      | 0 => (.panic, reader)
      | fuel + 1 =>
        match pollForceFillBuf reader with
        | (.ready buf, reader) => forceUntil need fuel reader buf
        | (.pending, reader) => (.pending, reader)
        | (.error error, reader) => (.error error, reader)
        | (.panic, reader) => (.panic, reader)

/-- What every poll keeps adds up. -/
theorem View.Kept.trans {view : View R} {first second third : R}
    (left : view.Kept first second) (right : view.Kept second third) : view.Kept first third :=
  ⟨right.valid, right.unread.trans left.unread, Nat.le_trans right.chunk left.chunk,
    right.limit.trans left.limit, Nat.le_trans right.budget left.budget⟩

/-- What gathering does. -/
inductive View.Gathers (view : View R) (need : Nat) (reader : R) : Poll Bytes × R → Prop
  | ready {next : R} (kept : view.Kept reader next)
    (regular : view.Regular reader → view.Regular next)
    (enough : need ≤ (view.visible next).length)
    (grown : view.visible reader <+: view.visible next)
    (bounded : (view.visible next).length ≤
      max (view.visible reader).length (need + view.chunk reader)) :
    Gathers view need reader (.ready (view.visible next), next)
  | pending {next : R} (kept : view.Kept reader next)
    (regular : view.Regular reader → view.Regular next)
    (grown : view.visible reader <+: view.visible next)
    (bounded : (view.visible next).length ≤
      max (view.visible reader).length (need + view.chunk reader))
    (less : budget next < budget reader) : Gathers view need reader (.pending, next)
  | ended {next : R} {error : IoError} (kept : view.Kept reader next)
    (regular : view.Regular reader → view.Regular next)
    (short : (view.unread reader).length < need) (kind : error.kind = .unexpectedEof) :
    Gathers view need reader (.error error, next)
  | refused {next : R} {error : IoError} (kept : view.Kept reader next)
    (refuses : view.Refuses error) (large : view.Regular reader → view.limit reader < need) :
    Gathers view need reader (.error error, next)
  | error {next : R} {error : IoError} (kept : view.Kept reader next)
    (irregular : ¬ view.Regular reader) : Gathers view need reader (.error error, next)

/-- Gathering goes on where a read has left it. -/
theorem View.Gathers.of_next {view : View R} {need : Nat} {reader next : R}
    {result : Poll Bytes × R} (kept : view.Kept reader next)
    (regular : view.Regular reader → view.Regular next)
    (grown : view.visible reader <+: view.visible next)
    (bounded : (view.visible next).length ≤ need + view.chunk reader)
    (later : view.Gathers need next result) : view.Gathers need reader result := by
  have chunk := kept.chunk
  cases later with
  | ready kept' regular' enough grown' bounded' =>
    exact .ready (kept.trans kept') (regular' ∘ regular) enough (grown.trans grown') (by omega)
  | pending kept' regular' grown' bounded' less =>
    have spent := kept.budget
    exact .pending (kept.trans kept') (regular' ∘ regular) (grown.trans grown') (by omega) (by omega)
  | ended kept' regular' short kind =>
    exact .ended (kept.trans kept') (regular' ∘ regular) (kept.unread ▸ short) kind
  | refused kept' refuses large =>
    exact .refused (kept.trans kept') refuses fun ok => kept.limit ▸ large (regular ok)
  | error kept' irregular => exact .error (kept.trans kept') fun ok => irregular (regular ok)

/-- Gathering from what is visible. -/
theorem forceUntil_gathers [LawfulBytesRead R] (need : Nat) (fuel : Nat) {reader : R}
    (valid : view.Valid reader) (enough : need ≤ (view.visible reader).length + fuel) :
    view.Gathers need reader (forceUntil need fuel reader (view.visible reader)) := by
  induction fuel generalizing reader with
  | zero =>
    rw [forceUntil, if_pos (by omega)]
    exact .ready ⟨valid, rfl, Nat.le_refl _, rfl, Nat.le_refl _⟩ id (by omega) List.prefix_rfl
      (Nat.le_max_left _ _)
  | succ fuel ih =>
    by_cases long : need ≤ (view.visible reader).length
    · rw [forceUntil, if_pos long]
      exact .ready ⟨valid, rfl, Nat.le_refl _, rfl, Nat.le_refl _⟩ id long List.prefix_rfl
        (Nat.le_max_left _ _)
    · rw [forceUntil, if_neg long]
      have forced := forces valid
      generalize pollForceFillBuf reader = result at forced
      cases forced with
      | @ready next more kept regular nonempty grown bounded =>
        have positive := List.length_pos_of_ne_nil nonempty
        have length := congrArg List.length grown
        rw [List.length_append] at length
        refine .of_next kept regular (grown ▸ List.prefix_append _ _) (by omega) ?_
        exact ih kept.valid (by omega)
      | pending kept regular same less =>
        exact .pending kept regular (same ▸ List.prefix_rfl) (by rw [same]; omega) less
      | ended kept regular same empty kind =>
        refine .ended kept regular ?_ kind
        rw [View.unread, empty, List.append_nil]
        omega
      | refused kept same refuses large =>
        exact .refused kept refuses fun ok => Nat.lt_trans (large ok) (by omega)
      | error kept same irregular => exact .error kept irregular

/-! ## Taking bytes out of a buffer -/

/-- Consuming takes bytes off what is unread. -/
theorem consumes_unread {R : Type} [AsyncBufRead R] [LawfulBufRead R] {reader : R} {amt : Nat}
    (valid : view.Valid reader) (within : amt ≤ (view.visible reader).length) :
    ∃ next, consume reader amt = some next ∧ view.Valid next ∧
      (view.Regular reader → view.Regular next) ∧
      view.visible next = (view.visible reader).drop amt ∧
      view.unread next = (view.unread reader).drop amt ∧ view.chunk next ≤ view.chunk reader ∧
      view.limit next = view.limit reader ∧ budget next + amt ≤ budget reader := by
  obtain ⟨next, took, valid', regular, shown, rest, chunk, limit, spent⟩ := consumes valid within
  refine ⟨next, took, valid', regular, shown, ?_, chunk, limit, spent⟩
  rw [View.unread, View.unread, shown, rest, List.drop_append_of_le_length within]

/-- What `poll_read` of a buffered reader does. -/
inductive View.Takes {R : Type} [AsyncBufRead R] (view : View R) (room : Nat) (reader : R) :
    Poll Bytes × R → Prop
  | ready {next : R} {bytes : Bytes} (valid : view.Valid next)
    (regular : view.Regular reader → view.Regular next)
    (joined : view.unread reader = bytes ++ view.unread next) (within : bytes.length ≤ room)
    (ends : bytes = [] → room = 0 ∨ view.unread reader = [])
    (bounded : (view.visible next).length + bytes.length ≤
      max (view.visible reader).length (view.chunk reader))
    (chunk : view.chunk next ≤ view.chunk reader) (limit : view.limit next = view.limit reader)
    (spent : budget next + bytes.length ≤ budget reader) :
    Takes view room reader (.ready bytes, next)
  | pending {next : R} (kept : view.Kept reader next)
    (regular : view.Regular reader → view.Regular next)
    (same : view.visible next = view.visible reader) (less : budget next < budget reader) :
    Takes view room reader (.pending, next)
  | error {next : R} {error : IoError} (kept : view.Kept reader next)
    (same : view.visible next = view.visible reader) (irregular : ¬ view.Regular reader) :
    Takes view room reader (.error error, next)

/-- `poll_read` takes what is visible as far as it fits. -/
theorem pollRead_takes {R : Type} [AsyncBufRead R] [LawfulBufRead R] {reader : R}
    (valid : view.Valid reader) (room : Nat) : view.Takes room reader (pollRead reader room) := by
  unfold pollRead
  have filled := fills valid
  generalize pollFillBuf reader = result at filled
  cases filled with
  | @ready next kept regular same bounded ends =>
    have size : (view.visible next).length ≤
        max (view.visible reader).length (view.chunk reader) := by
      by_cases used : view.visible reader = []
      · exact Nat.le_trans (bounded used) (Nat.le_max_right _ _)
      · rw [same used]
        exact Nat.le_max_left _ _
    by_cases nothing : view.visible next = []
    · simp only [if_pos nothing]
      have unread : view.unread next = [] := by rw [View.unread, nothing, ends nothing]; rfl
      refine .ready kept.valid regular kept.unread.symm (Nat.zero_le _)
        (fun _ => .inr (kept.unread ▸ unread)) (by simpa using size) kept.chunk kept.limit
        kept.budget
    · obtain ⟨after, took, valid', regular', shown, rest, chunk, limit, spent⟩ :=
        consumes kept.valid (Nat.min_le_left (view.visible next).length room)
      have length : ((view.visible next).take (min (view.visible next).length room)).length =
          min (view.visible next).length room := by
        rw [List.length_take]
        omega
      have positive := List.length_pos_of_ne_nil nothing
      have less := kept.budget
      simp only [if_neg nothing, took]
      refine .ready valid' (regular' ∘ regular) ?_ ?_ ?_ ?_ (Nat.le_trans chunk kept.chunk)
        (limit.trans kept.limit) ?_
      · rw [← kept.unread, View.unread, View.unread, shown, rest, ← List.append_assoc,
          List.take_append_drop]
      · rw [length]
        exact Nat.min_le_right _ _
      · intro none
        rw [none, List.length_nil] at length
        exact .inl (by omega)
      · rw [length, shown, List.length_drop]
        omega
      · rw [length]
        omega
  | pending kept regular same less => exact .pending kept regular same less
  | error kept same irregular => exact .error kept same irregular

end Harmonia
