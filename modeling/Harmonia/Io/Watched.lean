import Harmonia.Io.Tee

/-!
# Writers that take nothing

What a writer above another one does when that answers `Ok(0)` to a slice with something in it. The
writer below is watched; a call heeds it when it comes back with a `WriteZero` error in this case, and
when it does not answer `Ok(0)` itself to a slice with something in it. A `TeeWriter` does so only as
long as both writers take something while its buffer is flushed.
-/

namespace Harmonia

/-- A writer that never panics, and takes no more than it is offered. -/
class SaneWrite (W : Type) [AsyncWrite W] : Prop where
  /-- A write comes back. -/
  writes : ∀ (this : W) (buf : Bytes), (pollWrite this buf).1 ≠ .panic
  /-- It takes no more than the slice. -/
  within : ∀ {this next : W} {buf : Bytes} {count : Nat},
    pollWrite this buf = (.ready count, next) → count ≤ buf.length
  /-- A flush comes back. -/
  flushes : ∀ (this : W), (pollFlush this).1 ≠ .panic

/-- A writer that is watched. -/
structure Watched (W : Type) where
  /-- The writer. -/
  inner : W
  /-- It has answered `Ok(0)` to a slice with something in it. -/
  zero : Bool

/-- Note the answer to a slice. -/
def Watched.noting {W : Type} (this : Watched W) (buf : Bytes) :
    Poll Nat × W → Poll Nat × Watched W
  | (.ready count, inner) => (.ready count, ⟨inner, this.zero || (count == 0 && !buf.isEmpty)⟩)
  | (result, inner) => (result, ⟨inner, this.zero⟩)

instance {W : Type} [AsyncWrite W] : AsyncWrite (Watched W) where
  pollWrite this buf := this.noting buf (pollWrite this.inner buf)
  pollFlush this :=
    match pollFlush this.inner with
    | (result, inner) => (result, ⟨inner, this.zero⟩)
  written this := written this.inner

instance {W : Type} [PatientWrite W] : PatientWrite (Watched W) where
  turns this := turns this.inner

variable {W : Type} [AsyncWrite W]

/-- How a writer that is watched answers a slice with something in it. -/
inductive Answers (this : Watched W) (buf : Bytes) : Poll Nat × Watched W → Prop
  | took {next : Watched W} {count : Nat} (some : 0 < count) (within : count ≤ buf.length)
    (same : next.zero = this.zero) : Answers this buf (.ready count, next)
  | nothing {next : Watched W} (noted : next.zero = true) : Answers this buf (.ready 0, next)
  | pending {next : Watched W} (same : next.zero = this.zero) : Answers this buf (.pending, next)
  | error {next : Watched W} {error : IoError} (same : next.zero = this.zero) :
    Answers this buf (.error error, next)

/-- A writer that is watched answers so. -/
theorem pollWrite_answers [SaneWrite W] (this : Watched W) {buf : Bytes} (some : buf ≠ []) :
    Answers this buf (pollWrite this buf) := by
  have returns := SaneWrite.writes this.inner buf
  have within := @SaneWrite.within W _ _ this.inner
  show Answers this buf (this.noting buf (pollWrite this.inner buf))
  generalize answer : pollWrite this.inner buf = result at returns
  obtain ⟨poll, next⟩ := result
  cases poll with
  | ready count =>
    by_cases none : count = 0
    · subst none
      refine .nothing ?_
      cases buf with
      | nil => exact absurd rfl some
      | cons first buf => exact Bool.or_true _
    · refine .took (Nat.pos_of_ne_zero none) (within answer) ?_
      show (this.zero || (count == 0 && !buf.isEmpty)) = this.zero
      rw [beq_false_of_ne none, Bool.false_and, Bool.or_false]
  | pending => exact .pending rfl
  | error error => exact .error rfl
  | panic => exact absurd rfl returns

/-- A flush is nothing that is noted. -/
theorem pollFlush_same [SaneWrite W] (this : Watched W) :
    (pollFlush this).1 ≠ .panic ∧ (pollFlush this).2.zero = this.zero :=
  ⟨SaneWrite.flushes this.inner, rfl⟩

/-- A call that comes back, with a `WriteZero` error if the writer below answered `Ok(0)`. -/
def Prompt {S α : Type} (zero : S → Bool) (result : Poll α × S) : Prop :=
  result.1 ≠ .panic ∧
    (zero result.2 = true → ∃ error, result.1 = .error error ∧ error.kind = .writeZero)

/-- A call to a writer with a slice: it comes back in this way, and accepts something. -/
def Accepting {S : Type} (zero : S → Bool) (slice : Bytes) (result : Poll Nat × S) : Prop :=
  Prompt zero result ∧ ∀ count, result.1 = .ready count → slice ≠ [] → 0 < count

/-- A call after which nothing has been noted. -/
theorem Prompt.of_quiet {S α : Type} {zero : S → Bool} {result : Poll α × S}
    (returns : result.1 ≠ .panic) (quiet : zero result.2 = false) : Prompt zero result :=
  ⟨returns, fun noted => by rw [quiet] at noted; cases noted⟩

/-- When a prompt call is ready, nothing has been noted. -/
theorem Prompt.quiet {S α : Type} {zero : S → Bool} {value : α} {next : S}
    (prompt : Prompt zero (.ready value, next)) : zero next = false := by
  apply Bool.eq_false_iff.mpr
  intro noted
  obtain ⟨error, same, _⟩ := prompt.2 noted
  cases same

/-! ## Adapters -/

/-- A writer above others that are watched: its calls, with a bound on the rounds of its loops. -/
structure Adapter where
  /-- Its states. -/
  State : Type
  /-- Its calls. -/
  Call : Type
  /-- What a call comes to. -/
  poll : Nat → Call → State → Poll Nat × State
  /-- The slice of a call that writes. -/
  slice : Call → Bytes
  /-- A writer below has answered `Ok(0)`. -/
  noted : State → Bool
  /-- Forget what was noted before a call. -/
  begin : State → State
  /-- What keeps a call from going wrong. -/
  Meets : Call → State → Prop

namespace Adapter

/-- A call comes to an answer, after enough rounds. -/
def Comes (this : Adapter) (call : this.Call) (state : this.State) (result : Poll Nat × this.State) :
    Prop :=
  ∃ enough, ∀ rounds, enough ≤ rounds → this.poll rounds call state = result

/-- The states that are reached by calls that come back. -/
inductive Run (this : Adapter) (start : this.State) : this.State → Prop
  | start : Run this start start
  | call {state next : this.State} {call : this.Call} {answer : Poll Nat} (before : Run this start state)
    (meets : this.Meets call (this.begin state)) (comes : this.Comes call (this.begin state) (answer, next))
    (returned : answer ≠ .panic) : Run this start next

/-- A call comes back after enough rounds, with a `WriteZero` error if a writer below answered `Ok(0)`,
and does not answer `Ok(0)` itself to a slice with something in it. -/
def Heeds (this : Adapter) (call : this.Call) (state : this.State) : Prop :=
  ∃ enough, ∀ rounds, enough ≤ rounds →
    Accepting this.noted (this.slice call) (this.poll rounds call state)

/-- An adapter whose calls do as they should, and keep what they rely on. -/
theorem Run.heeds {this : Adapter} {Sound : this.State → Prop} {start : this.State}
    (sound : Sound start) (calm : ∀ state, Sound state → Sound (this.begin state))
    (calls : ∀ call state, Sound (this.begin state) → this.Meets call (this.begin state) →
      this.Heeds call (this.begin state) ∧ ∀ answer next,
        this.Comes call (this.begin state) (answer, next) → answer ≠ .panic → Sound next)
    {state : this.State} (run : this.Run start state) {call : this.Call}
    (meets : this.Meets call (this.begin state)) : this.Heeds call (this.begin state) := by
  have reached : Sound state := by
    clear meets
    induction run with
    | start => exact sound
    | call before meets comes returned ih =>
      exact (calls _ _ (calm _ ih) meets).2 _ _ comes returned
  exact (calls call state (calm state reached) meets).1

end Adapter

/-- The calls of a writer. -/
inductive WriteCall where
  /-- `poll_write`. -/
  | write (slice : Bytes)
  /-- `poll_flush`. -/
  | flush
  /-- `poll_shutdown`. -/
  | shutdown

/-- The slice of a call. -/
def WriteCall.slice : WriteCall → Bytes
  | .write slice => slice
  | _ => []

/-- The answer of a call that writes nothing. -/
def Poll.count : Poll Unit → Poll Nat
  | .ready _ => .ready 0
  | .pending => .pending
  | .error failure => .error failure
  | .panic => .panic

/-- A prompt call that writes nothing. -/
theorem Prompt.accepting {S : Type} {zero : S → Bool} {result : Poll Unit × S}
    (prompt : Prompt zero result) : Accepting zero [] (Poll.count result.1, result.2) := by
  obtain ⟨answer, next⟩ := result
  refine ⟨⟨?_, ?_⟩, fun _ _ some => absurd rfl some⟩
  · cases answer with
    | panic => exact absurd rfl prompt.1
    | _ => exact nofun
  · intro noted
    obtain ⟨error, same, kind⟩ := prompt.2 noted
    obtain rfl : answer = .error error := same
    exact ⟨error, rfl, kind⟩

/-- A call that is as it should be for every number of rounds. -/
theorem Adapter.Heeds.of_all {this : Adapter} {call : this.Call} {state : this.State}
    (all : ∀ rounds, Accepting this.noted (this.slice call) (this.poll rounds call state)) :
    this.Heeds call state :=
  ⟨0, fun rounds _ => all rounds⟩

variable [SaneWrite W]

/-! ## Two writers -/

namespace TeeWriter

variable {W2 : Type} [AsyncWrite W2] [SaneWrite W2]

/-- What is noted of the two writers. -/
def noted (this : TeeWriter (Watched W) (Watched W2)) : Bool := this.writer1.zero || this.writer2.zero

omit [AsyncWrite W] [SaneWrite W] [AsyncWrite W2] [SaneWrite W2] in
/-- Nothing is noted of either writer. -/
theorem noted_eq_false {this : TeeWriter (Watched W) (Watched W2)} :
    this.noted = false ↔ this.writer1.zero = false ∧ this.writer2.zero = false := by
  rw [noted, Bool.or_eq_false_iff]

omit [SaneWrite W] [SaneWrite W2] in
/-- The offsets are in the buffer, and the buffer does not grow. -/
structure Within (this : TeeWriter W W2) : Prop where
  /-- The first offset. -/
  first : this.written1 ≤ this.buf.length
  /-- The second offset. -/
  second : this.written2 ≤ this.buf.length
  /-- The buffer. -/
  room : this.buf.length ≤ this.capacity

/-- What offering the buffer to a writer comes to that takes something. -/
inductive Offered (this : TeeWriter (Watched W) (Watched W2)) (progress : Prop) :
    Poll Unit × TeeWriter (Watched W) (Watched W2) → Prop
  | ready {next : TeeWriter (Watched W) (Watched W2)} (within : next.Within) (quiet : next.noted = false)
    (size : next.capacity = this.capacity) (less : next.owed ≤ this.owed)
    (taken : progress → next.owed < this.owed) : Offered this progress (.ready (), next)
  | waits {next : TeeWriter (Watched W) (Watched W2)} {answer : Poll Unit} (within : next.Within)
    (quiet : next.noted = false) (size : next.capacity = this.capacity) (returns : answer ≠ .panic)
    (unready : answer ≠ .ready ()) : Offered this progress (answer, next)
  | nothing {next : TeeWriter (Watched W) (Watched W2)} (noted : next.noted = true) :
    Offered this progress (.ready (), next)

omit [AsyncWrite W2] [SaneWrite W2] in
/-- Offering the buffer to the first writer. -/
theorem offer1_offered {this : TeeWriter (Watched W) (Watched W2)} (within : this.Within)
    (quiet : this.noted = false) :
    Offered this (this.written1 < this.buf.length) this.offer1 := by
  obtain ⟨quiet1, quiet2⟩ := noted_eq_false.mp quiet
  rw [offer1]
  split
  case isFalse done =>
    exact .ready within quiet rfl (Nat.le_refl _) fun more => absurd more done
  case isTrue more =>
    have some : this.buf.drop this.written1 ≠ [] := by
      intro none
      exact absurd (List.drop_eq_nil_iff.mp none) (Nat.not_le_of_lt more)
    have answers := pollWrite_answers this.writer1 some
    generalize Harmonia.pollWrite this.writer1 (this.buf.drop this.written1) = result at answers
    cases answers with
    | @took next count positive few same =>
      rw [List.length_drop] at few
      refine .ready ⟨?_, within.second, within.room⟩ (noted_eq_false.mpr ⟨same.trans quiet1, quiet2⟩) rfl
        ?_ fun _ => ?_
      · show this.written1 + count ≤ this.buf.length
        omega
      · show (this.buf.length - (this.written1 + count)) + (this.buf.length - this.written2) ≤
          (this.buf.length - this.written1) + (this.buf.length - this.written2)
        omega
      · show (this.buf.length - (this.written1 + count)) + (this.buf.length - this.written2) <
          (this.buf.length - this.written1) + (this.buf.length - this.written2)
        omega
    | nothing zero =>
      refine .nothing ?_
      show (_ || _) = true
      rw [zero, Bool.true_or]
    | pending same =>
      exact .waits ⟨within.first, within.second, within.room⟩
        (noted_eq_false.mpr ⟨same.trans quiet1, quiet2⟩) rfl (by rintro ⟨⟩) (by rintro ⟨⟩)
    | error same =>
      exact .waits ⟨within.first, within.second, within.room⟩
        (noted_eq_false.mpr ⟨same.trans quiet1, quiet2⟩) rfl (by rintro ⟨⟩) (by rintro ⟨⟩)

omit [AsyncWrite W] [SaneWrite W] in
/-- Offering the buffer to the second writer. -/
theorem offer2_offered {this : TeeWriter (Watched W) (Watched W2)} (within : this.Within)
    (quiet : this.noted = false) :
    Offered this (this.written2 < this.buf.length) this.offer2 := by
  obtain ⟨quiet1, quiet2⟩ := noted_eq_false.mp quiet
  rw [offer2]
  split
  case isFalse done =>
    exact .ready within quiet rfl (Nat.le_refl _) fun more => absurd more done
  case isTrue more =>
    have some : this.buf.drop this.written2 ≠ [] := by
      intro none
      exact absurd (List.drop_eq_nil_iff.mp none) (Nat.not_le_of_lt more)
    have answers := pollWrite_answers this.writer2 some
    generalize Harmonia.pollWrite this.writer2 (this.buf.drop this.written2) = result at answers
    cases answers with
    | @took next count positive few same =>
      rw [List.length_drop] at few
      refine .ready ⟨within.first, ?_, within.room⟩ (noted_eq_false.mpr ⟨quiet1, same.trans quiet2⟩) rfl
        ?_ fun _ => ?_
      · show this.written2 + count ≤ this.buf.length
        omega
      · show (this.buf.length - this.written1) + (this.buf.length - (this.written2 + count)) ≤
          (this.buf.length - this.written1) + (this.buf.length - this.written2)
        omega
      · show (this.buf.length - this.written1) + (this.buf.length - (this.written2 + count)) <
          (this.buf.length - this.written1) + (this.buf.length - this.written2)
        omega
    | nothing zero =>
      refine .nothing ?_
      show (_ || _) = true
      rw [zero, Bool.or_true]
    | pending same =>
      exact .waits ⟨within.first, within.second, within.room⟩
        (noted_eq_false.mpr ⟨quiet1, same.trans quiet2⟩) rfl (by rintro ⟨⟩) (by rintro ⟨⟩)
    | error same =>
      exact .waits ⟨within.first, within.second, within.room⟩
        (noted_eq_false.mpr ⟨quiet1, same.trans quiet2⟩) rfl (by rintro ⟨⟩) (by rintro ⟨⟩)

omit [SaneWrite W] [SaneWrite W2] in
/-- What has been noted of a writer stays noted. -/
theorem pollWrite_noted {this : Watched W} (zero : this.zero = true) (buf : Bytes) :
    (Harmonia.pollWrite this buf).2.zero = true := by
  show (this.noting buf (Harmonia.pollWrite this.inner buf)).2.zero = true
  generalize Harmonia.pollWrite this.inner buf = result
  obtain ⟨poll, next⟩ := result
  cases poll with
  | ready count => exact (congrArg (· || _) zero).trans (Bool.true_or _)
  | _ => exact zero

omit [SaneWrite W] [AsyncWrite W2] [SaneWrite W2] in
/-- What has been noted stays noted when the first writer is offered something. -/
theorem offer1_noted {this : TeeWriter (Watched W) (Watched W2)} (zero : this.noted = true) :
    this.offer1.2.noted = true := by
  rw [offer1]
  split
  case isFalse => exact zero
  case isTrue =>
    have kept := @pollWrite_noted W _ this.writer1
    rw [noted, Bool.or_eq_true] at zero
    have after : (Harmonia.pollWrite this.writer1 (this.buf.drop this.written1)).2.zero = true ∨
        this.writer2.zero = true := zero.imp (fun first => kept first _) id
    generalize Harmonia.pollWrite this.writer1 (this.buf.drop this.written1) = result at after
    obtain ⟨poll, next⟩ := result
    cases poll <;> exact Bool.or_eq_true _ _ ▸ after

omit [AsyncWrite W] [SaneWrite W] [SaneWrite W2] in
/-- What has been noted stays noted when the second writer is offered something. -/
theorem offer2_noted {this : TeeWriter (Watched W) (Watched W2)} (zero : this.noted = true) :
    this.offer2.2.noted = true := by
  rw [offer2]
  split
  case isFalse => exact zero
  case isTrue =>
    have kept := @pollWrite_noted W2 _ this.writer2
    rw [noted, Bool.or_eq_true] at zero
    have after : this.writer1.zero = true ∨
        (Harmonia.pollWrite this.writer2 (this.buf.drop this.written2)).2.zero = true :=
      zero.imp id fun second => kept second _
    generalize Harmonia.pollWrite this.writer2 (this.buf.drop this.written2) = result at after
    obtain ⟨poll, next⟩ := result
    cases poll <;> exact Bool.or_eq_true _ _ ▸ after

omit [SaneWrite W] [SaneWrite W2] in
/-- What has been noted stays noted in the loop. -/
theorem flushLoop_noted (rounds : Nat) {this : TeeWriter (Watched W) (Watched W2)}
    (zero : this.noted = true) : (this.flushLoop rounds).2.noted = true := by
  induction rounds generalizing this with
  | zero => exact zero
  | succ rounds ih =>
    rw [flushLoop]
    split
    case isFalse => exact zero
    case isTrue =>
      have first := offer1_noted zero
      generalize this.offer1 = result at first
      obtain ⟨poll, next⟩ := result
      cases poll with
      | ready _ =>
        have second := offer2_noted first
        dsimp only at second ⊢
        generalize next.offer2 = result at second
        obtain ⟨poll, last⟩ := result
        cases poll with
        | ready _ => exact ih second
        | _ => exact second
      | _ => exact first

/-- The loop comes back after enough rounds if nothing is noted in it. -/
theorem flushLoop_returns (rounds : Nat) {this : TeeWriter (Watched W) (Watched W2)}
    (within : this.Within) (quiet : this.noted = false) (enough : this.owed < rounds)
    (never : (this.flushLoop rounds).2.noted = false) :
    (this.flushLoop rounds).1 ≠ .panic ∧ (this.flushLoop rounds).2.Within ∧
      (this.flushLoop rounds).2.capacity = this.capacity ∧
      ((this.flushLoop rounds).1 = .ready () → (this.flushLoop rounds).2.buf = []) := by
  induction rounds generalizing this with
  | zero => exact absurd enough (Nat.not_lt_zero _)
  | succ rounds ih =>
    rw [flushLoop] at never ⊢
    split at never
    case isFalse done =>
      rw [if_neg done]
      exact ⟨(by rintro ⟨⟩), ⟨Nat.le_refl _, Nat.le_refl _, Nat.zero_le _⟩, rfl, fun _ => rfl⟩
    case isTrue more =>
      rw [if_pos more]
      have first := offer1_offered within quiet
      have same : ¬ this.written1 < this.buf.length → this.offer1 = (.ready (), this) := fun done =>
        if_neg done
      generalize this.offer1 = result at first never same
      cases first with
      | @waits next answer within' quiet' size returns unready =>
        cases answer with
        | ready _ => exact absurd rfl unready
        | panic => exact absurd rfl returns
        | pending => exact ⟨(by rintro ⟨⟩), within', size, by rintro ⟨⟩⟩
        | error error => exact ⟨(by rintro ⟨⟩), within', size, by rintro ⟨⟩⟩
      | @nothing next zero =>
        -- The note stays until the call comes back.
        have second := offer2_noted zero
        dsimp only at never second
        generalize next.offer2 = result at second never
        obtain ⟨poll, last⟩ := result
        cases poll with
        | ready _ => exact absurd never (by rw [flushLoop_noted rounds second]; rintro ⟨⟩)
        | _ => exact absurd never (by rw [second]; rintro ⟨⟩)
      | @ready next within' quiet' size less taken =>
        have second := offer2_offered within' quiet'
        dsimp only at never second ⊢
        generalize next.offer2 = result at second never
        cases second with
        | @waits last answer within'' quiet'' size' returns unready =>
          cases answer with
          | ready _ => exact absurd rfl unready
          | panic => exact absurd rfl returns
          | pending => exact ⟨(by rintro ⟨⟩), within'', size'.trans size, by rintro ⟨⟩⟩
          | error error => exact ⟨(by rintro ⟨⟩), within'', size'.trans size, by rintro ⟨⟩⟩
        | @nothing last zero => exact absurd never (by rw [flushLoop_noted rounds zero]; rintro ⟨⟩)
        | @ready last within'' quiet'' size' less' taken' =>
          have fewer : last.owed < rounds := by
            by_cases behind : this.written1 < this.buf.length
            · have took := taken behind
              omega
            · obtain ⟨_, rfl⟩ := Prod.mk.inj (same behind)
              have took := taken' (more.resolve_left behind)
              omega
          have later := ih within'' quiet'' fewer never
          exact ⟨later.1, later.2.1, later.2.2.1.trans (size'.trans size), later.2.2.2⟩

/-- Neither writer answers `Ok(0)` while the buffer is flushed. -/
def Takes (this : TeeWriter (Watched W) (Watched W2)) : Prop :=
  ∀ rounds, (this.pollFlushBuf rounds).2.noted = false

/-- What a call comes to that returns. -/
structure Returns {α : Type} (result : Poll α × TeeWriter (Watched W) (Watched W2)) : Prop where
  /-- It is prompt. -/
  prompt : Prompt noted result
  /-- The writer is as it should be. -/
  within : result.2.Within

/-- `poll_flush_buf`. -/
theorem pollFlushBuf_returns {this : TeeWriter (Watched W) (Watched W2)} (within : this.Within)
    (quiet : this.noted = false) (takes : this.Takes) {rounds : Nat} (enough : 2 * this.capacity < rounds) :
    Returns (this.pollFlushBuf rounds) ∧ ∀ next, this.pollFlushBuf rounds = (.ready (), next) →
      next.noted = false ∧ next.buf = [] ∧ next.capacity = this.capacity := by
  have never := takes rounds
  rw [pollFlushBuf] at never ⊢
  split
  case isTrue none =>
    refine ⟨⟨.of_quiet (by rintro ⟨⟩) quiet, within⟩, ?_⟩
    rintro next same
    cases same
    exact ⟨quiet, none, rfl⟩
  case isFalse some =>
    rw [if_neg some] at never
    have room := within.room
    have few : this.owed < rounds := by
      show (this.buf.length - this.written1) + (this.buf.length - this.written2) < rounds
      omega
    obtain ⟨returns, within', size, empty⟩ := flushLoop_returns rounds within quiet few never
    refine ⟨⟨.of_quiet returns never, within'⟩, ?_⟩
    rintro next same
    rw [same] at never size empty
    exact ⟨never, empty rfl, size⟩

omit [AsyncWrite W] [SaneWrite W] [AsyncWrite W2] [SaneWrite W2] in
/-- Accepting what there is room for. -/
theorem accept_returns {this : TeeWriter (Watched W) (Watched W2)} (within : this.Within)
    (quiet : this.noted = false) {buf : Bytes} (room : buf ≠ [] → this.buf.length < this.capacity) :
    Returns (this.accept buf) ∧ Accepting noted buf (this.accept buf) := by
  have first := within.first
  have second := within.second
  have all := within.room
  have prompt : Prompt noted (this.accept buf) := .of_quiet nofun quiet
  refine ⟨⟨prompt, ⟨?_, ?_, ?_⟩⟩, prompt, ?_⟩
  · show this.written1 ≤ (this.buf ++ _).length
    rw [List.length_append]
    omega
  · show this.written2 ≤ (this.buf ++ _).length
    rw [List.length_append]
    omega
  · show (this.buf ++ buf.take (min buf.length (this.capacity - this.buf.length))).length ≤ this.capacity
    rw [List.length_append, List.length_take]
    omega
  · rintro count same some
    cases same
    have length := List.length_pos_iff.mpr some
    have room := room some
    omega

/-- `poll_write`, unless a slice that is at least as large as the buffer comes when it is full. -/
theorem pollWrite_returns {this : TeeWriter (Watched W) (Watched W2)} (within : this.Within)
    (quiet : this.noted = false) (takes : this.Takes) {buf : Bytes}
    (room : buf.length < this.capacity ∨ this.buf.length < this.capacity) {rounds : Nat}
    (enough : 2 * this.capacity < rounds) :
    Returns (this.pollWrite rounds buf) ∧ Accepting noted buf (this.pollWrite rounds buf) := by
  rw [pollWrite]
  split
  case isFalse large => exact accept_returns within quiet fun _ => room.resolve_left large
  case isTrue small =>
    split
    case isFalse fits =>
      refine accept_returns within quiet fun some => ?_
      have length := List.length_pos_iff.mpr some
      omega
    case isTrue =>
      obtain ⟨returns, flushed⟩ := pollFlushBuf_returns within quiet takes enough
      generalize this.pollFlushBuf rounds = result at returns flushed
      obtain ⟨poll, next⟩ := result
      cases poll with
      | ready _ =>
        obtain ⟨quiet', none, size⟩ := flushed next rfl
        refine accept_returns returns.within quiet' fun _ => ?_
        rw [none, size]
        exact Nat.lt_of_le_of_lt (Nat.zero_le _) small
      | pending =>
        have prompt : Prompt noted ((.pending : Poll Nat), next) :=
          .of_quiet (by rintro ⟨⟩) (by simpa using returns.prompt.2)
        exact ⟨⟨prompt, returns.within⟩, prompt, by intro _ same; cases same⟩
      | error error =>
        have prompt : Prompt noted ((.error error : Poll Nat), next) :=
          ⟨(by rintro ⟨⟩), fun noted => by simpa using returns.prompt.2 noted⟩
        exact ⟨⟨prompt, returns.within⟩, prompt, by intro _ same; cases same⟩
      | panic => exact absurd rfl returns.prompt.1

/-- Flushing both writers. -/
theorem settleBoth_returns {this : TeeWriter (Watched W) (Watched W2)} (within : this.Within)
    (quiet : this.noted = false) : Returns this.settleBoth ∧
      ∀ next, this.settleBoth = (.ready (), next) → next.noted = false := by
  obtain ⟨quiet1, quiet2⟩ := noted_eq_false.mp quiet
  have first := pollFlush_same this.writer1
  have second := pollFlush_same this.writer2
  rw [settleBoth]
  generalize pollFlush this.writer1 = result at first
  obtain ⟨poll, next⟩ := result
  have calm : next.zero = false := first.2.trans quiet1
  cases poll with
  | ready _ =>
    dsimp only
    have calm' : (pollFlush this.writer2).2.zero = false := second.2.trans quiet2
    have both : noted { this with writer1 := next, writer2 := (pollFlush this.writer2).2 } = false :=
      noted_eq_false.mpr ⟨calm, calm'⟩
    refine ⟨⟨.of_quiet second.1 both, ⟨within.first, within.second, within.room⟩⟩, ?_⟩
    intro last same
    obtain ⟨_, rfl⟩ := Prod.mk.inj same
    exact both
  | pending =>
    exact ⟨⟨.of_quiet (by rintro ⟨⟩) (noted_eq_false.mpr ⟨calm, quiet2⟩),
      ⟨within.first, within.second, within.room⟩⟩, by intro _ same; cases same⟩
  | error error =>
    exact ⟨⟨.of_quiet (by rintro ⟨⟩) (noted_eq_false.mpr ⟨calm, quiet2⟩),
      ⟨within.first, within.second, within.room⟩⟩, by intro _ same; cases same⟩
  | panic => exact absurd rfl first.1

/-- `poll_flush`. -/
theorem pollFlushAll_returns {this : TeeWriter (Watched W) (Watched W2)} (within : this.Within)
    (quiet : this.noted = false) (takes : this.Takes) {rounds : Nat}
    (enough : 2 * this.capacity < rounds) : Returns (this.pollFlushAll rounds) ∧
      ∀ next, this.pollFlushAll rounds = (.ready (), next) → next.noted = false := by
  obtain ⟨returns, flushed⟩ := pollFlushBuf_returns within quiet takes enough
  rw [pollFlushAll]
  generalize this.pollFlushBuf rounds = result at returns flushed
  obtain ⟨poll, next⟩ := result
  cases poll with
  | ready _ => exact settleBoth_returns returns.within (flushed next rfl).1
  | pending => exact ⟨returns, by intro _ same; cases same⟩
  | error error => exact ⟨returns, by intro _ same; cases same⟩
  | panic => exact ⟨returns, by intro _ same; cases same⟩

/-- `poll_shutdown`. -/
theorem pollShutdown_returns {this : TeeWriter (Watched W) (Watched W2)} (within : this.Within)
    (quiet : this.noted = false) (takes : this.Takes) {rounds : Nat}
    (enough : 2 * this.capacity < rounds) : Returns (this.pollShutdown rounds) := by
  obtain ⟨returns, flushed⟩ := pollFlushAll_returns within quiet takes enough
  rw [pollShutdown]
  generalize this.pollFlushAll rounds = result at returns flushed
  obtain ⟨poll, next⟩ := result
  cases poll with
  | ready _ => exact (settleBoth_returns returns.within (flushed next rfl)).1
  | pending => exact returns
  | error error => exact returns
  | panic => exact returns

end TeeWriter

/-- The `TeeWriter`: both writers take something while the buffer is flushed, and a slice that is at
least as large as the buffer does not come when it is full. -/
def teeAdapter (W1 W2 : Type) [AsyncWrite W1] [AsyncWrite W2] : Adapter where
  State := TeeWriter (Watched W1) (Watched W2)
  Call := WriteCall
  poll rounds call this :=
    match call with
    | .write slice => this.pollWrite rounds slice
    | .flush => (Poll.count (this.pollFlushAll rounds).1, (this.pollFlushAll rounds).2)
    | .shutdown => (Poll.count (this.pollShutdown rounds).1, (this.pollShutdown rounds).2)
  slice := WriteCall.slice
  noted := TeeWriter.noted
  begin this := { this with
    writer1 := ⟨this.writer1.inner, false⟩, writer2 := ⟨this.writer2.inner, false⟩ }
  Meets call this :=
    this.Takes ∧
      match call with
      | .write slice => slice.length < this.capacity ∨ this.buf.length < this.capacity
      | _ => True

/-- In every run whose calls meet what they rely on, a `TeeWriter` heeds its writers. -/
theorem teeAdapter_heeds {W2 : Type} [AsyncWrite W2] [SaneWrite W2] {writer1 : Watched W}
    {writer2 : Watched W2} {capacity : Nat} {this : TeeWriter (Watched W) (Watched W2)}
    (run : (teeAdapter W W2).Run (TeeWriter.new writer1 writer2 capacity) this) {call : WriteCall}
    (meets : (teeAdapter W W2).Meets call ((teeAdapter W W2).begin this)) :
    (teeAdapter W W2).Heeds call ((teeAdapter W W2).begin this) := by
  refine @Adapter.Run.heeds (teeAdapter W W2) TeeWriter.Within _
    ⟨Nat.le_refl _, Nat.le_refl _, Nat.zero_le _⟩ ?_ ?_ this run call meets
  · exact fun state within => ⟨within.first, within.second, within.room⟩
  · rintro call state within ⟨takes, room⟩
    have quiet : TeeWriter.noted ((teeAdapter W W2).begin state) = false := rfl
    generalize (teeAdapter W W2).begin state = state at within takes room quiet ⊢
    have both (rounds : Nat) (enough : 2 * TeeWriter.capacity state < rounds) :
        Accepting TeeWriter.noted call.slice ((teeAdapter W W2).poll rounds call state) ∧
          TeeWriter.Within ((teeAdapter W W2).poll rounds call state).2 := by
      cases call with
      | write slice =>
        obtain ⟨returns, accepting⟩ := TeeWriter.pollWrite_returns within quiet takes room enough
        exact ⟨accepting, returns.within⟩
      | flush =>
        have returns := (TeeWriter.pollFlushAll_returns within quiet takes enough).1
        exact ⟨returns.prompt.accepting, returns.within⟩
      | shutdown =>
        have returns := TeeWriter.pollShutdown_returns within quiet takes enough
        exact ⟨returns.prompt.accepting, returns.within⟩
    refine ⟨⟨_, fun rounds enough => (both rounds enough).1⟩, ?_⟩
    rintro answer next ⟨enough, polled⟩ _
    have within' := (both (max enough (2 * TeeWriter.capacity state + 1))
      (Nat.lt_of_lt_of_le (Nat.lt_succ_self _) (Nat.le_max_right _ _))).2
    rw [polled _ (Nat.le_max_left _ _)] at within'
    exact within'

end Harmonia
