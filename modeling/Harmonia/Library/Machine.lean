import Mathlib.Data.List.Basic
import Mathlib.Algebra.Order.Ring.Nat

/-!
# Recognisers that loop over a buffer

A recogniser looks at the buffer before it and decides one turn of its loop: go round again
past some symbols, stop, fail, or abort. The loop is total because every turn that goes
round again either uses a symbol or lowers a bounded rank. The law of chunks
(`Machine.Lawful`) speaks of single turns only. From it the whole loop is shown not to
depend on where a buffer ends: running over `a ++ b` is running over `a` and then, unless
the machine has halted, over `b`.
-/

namespace Harmonia.Library

variable {α σ ε : Type}

/-- What one turn of a loop over a buffer decides. -/
inductive Verdict (σ ε : Type) where
  /-- Go round again in the next state, past the symbols used. -/
  | again (next : σ) (used : Nat)
  /-- Leave the loop in the next state, past the symbols used. -/
  | stop (next : σ) (used : Nat)
  /-- Leave the loop with an error. -/
  | fail (error : ε)
  /-- Abort: an operation of this turn is out of range. -/
  | panic

/-- Count further symbols as used before a verdict. -/
def Verdict.shift (before : Nat) : Verdict σ ε → Verdict σ ε
  | .again next used => .again next (before + used)
  | .stop next used => .stop next (before + used)
  | .fail error => .fail error
  | .panic => .panic

/-- How a whole loop over a buffer ends. -/
inductive Run (σ ε : Type) where
  /-- The loop was left in a state after a number of symbols. -/
  | done (state : σ) (used : Nat)
  /-- The loop failed; the state is the one the failing turn started in. -/
  | fail (state : σ) (error : ε)
  /-- The loop aborted. -/
  | panic
  deriving DecidableEq

namespace Run

/-- Count further symbols as used before a run. -/
def shift (before : Nat) : Run σ ε → Run σ ε
  | .done state used => .done state (before + used)
  | .fail state error => .fail state error
  | .panic => .panic

/-- Two runs end alike: a failure is compared by its error and not by the state it left. -/
def Alike : Run σ ε → Run σ ε → Prop
  | .done state used, .done state' used' => state = state' ∧ used = used'
  | .fail _ error, .fail _ error' => error = error'
  | .panic, .panic => True
  | _, _ => False

/-- Every run is like itself. -/
theorem Alike.refl (run : Run σ ε) : run.Alike run := by
  cases run <;> simp [Alike]

/-- Likeness composes. -/
theorem Alike.trans {first second third : Run σ ε} (left : first.Alike second)
    (right : second.Alike third) : first.Alike third := by
  cases first <;> cases second <;> cases third <;> simp_all [Alike]

/-- Likeness is kept when the same symbols are counted before both runs. -/
theorem Alike.shift {left right : Run σ ε} (alike : left.Alike right) (before : Nat) :
    (left.shift before).Alike (right.shift before) := by
  cases left <;> cases right <;> simp_all [Alike, Run.shift]

/-- A run like a finished one is that finished run. -/
theorem Alike.of_done {run : Run σ ε} {state : σ} {used : Nat}
    (alike : run.Alike (.done state used)) : run = .done state used := by
  cases run <;> simp_all [Alike]

/-- A run like a failed one failed with the same error. -/
theorem Alike.of_fail {run : Run σ ε} {state : σ} {error : ε}
    (alike : run.Alike (.fail state error)) : ∃ other, run = .fail other error := by
  cases run <;> simp_all [Alike]

/-- A run like an abort is an abort. -/
theorem Alike.of_panic {run : Run σ ε} (alike : run.Alike .panic) : run = .panic := by
  cases run <;> simp_all [Alike]

/-- Counting nothing before a run changes nothing. -/
@[simp] theorem shift_zero (run : Run σ ε) : run.shift 0 = run := by
  cases run <;> simp [shift]

/-- Counts before a run add up. -/
@[simp] theorem shift_shift (run : Run σ ε) (first second : Nat) :
    (run.shift second).shift first = run.shift (first + second) := by
  cases run <;> simp [shift, Nat.add_assoc]

end Run

/-- A recogniser: its turn, the states it never leaves again, and a rank that bounds how
many turns it takes without using a symbol. -/
structure Machine (α σ ε : Type) where
  /-- One turn of the loop. -/
  step : σ → List α → Verdict σ ε
  /-- A state in which the loop is left whatever the buffer holds. -/
  halted : σ → Prop
  /-- Turns that may still be taken without using a symbol. -/
  rank : σ → Nat
  /-- The largest rank a turn can go on with. -/
  bound : Nat

namespace Machine

variable (m : Machine α σ ε)

/-- The loop, with a bound on its turns. Running out of turns counts as an abort, so that a
result which excludes aborts also excludes a loop that does not end. -/
def loop : Nat → σ → List α → Run σ ε
  | 0, _, _ => .panic
  | fuel + 1, state, buf =>
    match m.step state buf with
    | .again next used => (loop fuel next (buf.drop used)).shift used
    | .stop next used => .done next used
    | .fail error => .fail state error
    | .panic => .panic

/-- Turns that are enough for a buffer. -/
def fuel (state : σ) (buf : List α) : Nat := (m.bound + 1) * buf.length + m.rank state + 1

/-- The whole loop. -/
def run (state : σ) (buf : List α) : Run σ ε := m.loop (m.fuel state buf) state buf

/-- The laws of one turn. -/
structure Lawful : Prop where
  /-- Going round again uses at most the buffer. -/
  again_used : ∀ {s buf s' n}, m.step s buf = .again s' n → n ≤ buf.length
  /-- Going round again keeps the rank in its bound. -/
  again_bound : ∀ {s buf s' n}, m.step s buf = .again s' n → m.rank s' ≤ m.bound
  /-- Going round again uses a symbol or lowers the rank. -/
  again_ranked : ∀ {s buf s' n}, m.step s buf = .again s' n → 0 < n ∨ m.rank s' < m.rank s
  /-- A turn that goes round again does not look at later symbols. -/
  again_append : ∀ {s a s' n} (b), m.step s a = .again s' n → m.step s (a ++ b) = .again s' n
  /-- A turn that fails does not look at later symbols. -/
  fail_append : ∀ {s a e} (b), m.step s a = .fail e → m.step s (a ++ b) = .fail e
  /-- A turn that aborts does not look at later symbols. -/
  panic_append : ∀ {s a} (b), m.step s a = .panic → m.step s (a ++ b) = .panic
  /-- A turn that stops to wait has used its whole buffer and continues where it stopped. -/
  more_append : ∀ {s a s' n} (b), m.step s a = .stop s' n → ¬ m.halted s' →
    n = a.length ∧ m.step s (a ++ b) = (m.step s' b).shift n
  /-- A turn that goes round again looks only at the symbols it uses. -/
  again_take : ∀ {s a s' n}, m.step s a = .again s' n → m.step s (a.take n) = .again s' n
  /-- A turn that halts uses nothing and does not look at the buffer. -/
  halt_any : ∀ {s a s' n} (b), m.step s a = .stop s' n → m.halted s' →
    n = 0 ∧ m.step s b = .stop s' 0

variable {m}

/-- A turn that goes round again needs less fuel afterwards. -/
theorem Lawful.fuel_lt (law : m.Lawful) {s s' : σ} {buf : List α} {n : Nat}
    (turn : m.step s buf = .again s' n) : m.fuel s' (buf.drop n) < m.fuel s buf := by
  have used := law.again_used turn
  have bounded := law.again_bound turn
  unfold fuel
  rw [List.length_drop]
  rcases law.again_ranked turn with positive | lower
  · have fewer : buf.length - n + 1 ≤ buf.length := by omega
    have scaled := Nat.mul_le_mul_left (m.bound + 1) fewer
    rw [Nat.mul_add, Nat.mul_one] at scaled
    omega
  · have scaled := Nat.mul_le_mul_left (m.bound + 1) (Nat.sub_le buf.length n)
    omega

/-- More fuel than enough does not change the loop. -/
theorem Lawful.loop_enough (law : m.Lawful) :
    ∀ (fuel : Nat) (s : σ) (buf : List α), m.fuel s buf ≤ fuel → m.loop fuel s buf = m.run s buf := by
  intro fuel
  induction fuel using Nat.strongRecOn with
  | ind fuel ih =>
    intro s buf enough
    cases fuel with
    | zero => simp [Machine.fuel] at enough
    | succ fuel =>
      have split : m.fuel s buf = ((m.bound + 1) * buf.length + m.rank s) + 1 := rfl
      rw [run, split, loop, loop]
      cases turn : m.step s buf with
      | again s' n =>
        have less := law.fuel_lt turn
        simp only
        rw [ih fuel (by omega) s' (buf.drop n) (by omega)]
        by_cases same : (m.bound + 1) * buf.length + m.rank s = fuel
        · rw [same, ih fuel (by omega) s' (buf.drop n) (by omega)]
        · rw [ih _ (by omega) s' (buf.drop n) (by omega)]
      | stop s' n => rfl
      | fail e => rfl
      | panic => rfl

/-- The loop is its first turn followed by the loop. -/
theorem Lawful.run_eq (law : m.Lawful) (s : σ) (buf : List α) :
    m.run s buf = match m.step s buf with
      | .again s' n => (m.run s' (buf.drop n)).shift n
      | .stop s' n => .done s' n
      | .fail e => .fail s e
      | .panic => .panic := by
  have split : m.fuel s buf = ((m.bound + 1) * buf.length + m.rank s) + 1 := rfl
  rw [run, split, loop]
  cases turn : m.step s buf with
  | again s' n =>
    have less := law.fuel_lt turn
    simp only
    rw [law.loop_enough _ s' (buf.drop n) (by omega)]
  | stop s' n => rfl
  | fail e => rfl
  | panic => rfl

/-- The loop after a turn that goes round again. -/
theorem Lawful.run_again (law : m.Lawful) {s s' : σ} {buf : List α} {n : Nat}
    (turn : m.step s buf = .again s' n) : m.run s buf = (m.run s' (buf.drop n)).shift n := by
  rw [law.run_eq, turn]

/-- The loop whose first turn stops. -/
theorem Lawful.run_stop (law : m.Lawful) {s s' : σ} {buf : List α} {n : Nat}
    (turn : m.step s buf = .stop s' n) : m.run s buf = .done s' n := by
  rw [law.run_eq, turn]

/-- The loop whose first turn fails. -/
theorem Lawful.run_fail (law : m.Lawful) {s : σ} {buf : List α} {e : ε}
    (turn : m.step s buf = .fail e) : m.run s buf = .fail s e := by
  rw [law.run_eq, turn]

/-- The loop whose first turn aborts. -/
theorem Lawful.run_panic (law : m.Lawful) {s : σ} {buf : List α}
    (turn : m.step s buf = .panic) : m.run s buf = .panic := by
  rw [law.run_eq, turn]

/-- Induction along the turns of a loop. -/
theorem Lawful.run_induction (law : m.Lawful) {P : σ → List α → Prop}
    (turns : ∀ s buf, (∀ s' n, m.step s buf = .again s' n → P s' (buf.drop n)) → P s buf)
    (s : σ) (buf : List α) : P s buf := by
  have all : ∀ fuel s buf, m.fuel s buf ≤ fuel → P s buf := by
    intro fuel
    induction fuel with
    | zero => intro s buf enough; simp [Machine.fuel] at enough
    | succ fuel ih =>
      intro s buf enough
      exact turns s buf fun s' n turn => ih s' _ (by have := law.fuel_lt turn; omega)
  exact all _ s buf (Nat.le_refl _)

/-- A turn that stops uses at most its buffer. -/
theorem Lawful.stop_used (law : m.Lawful) {s s' : σ} {buf : List α} {n : Nat}
    (turn : m.step s buf = .stop s' n) : n ≤ buf.length := by
  by_cases halt : m.halted s'
  · exact (law.halt_any [] turn halt).1 ▸ Nat.zero_le _
  · exact Nat.le_of_eq (law.more_append [] turn halt).1

/-- A finished loop has used at most its buffer, and all of it unless the machine halted. -/
theorem Lawful.run_used (law : m.Lawful) (s : σ) (buf : List α) {s' : σ} {n : Nat}
    (ran : m.run s buf = .done s' n) :
    n ≤ buf.length ∧ (¬ m.halted s' → n = buf.length) := by
  revert n
  refine law.run_induction (P := fun s buf => ∀ {n}, m.run s buf = .done s' n →
    n ≤ buf.length ∧ (¬ m.halted s' → n = buf.length)) ?_ s buf
  intro s buf ih n ran
  cases turn : m.step s buf with
  | again t k =>
    rw [law.run_again turn] at ran
    cases later : m.run t (buf.drop k) with
    | done u l =>
      rw [later, Run.shift, Run.done.injEq] at ran
      obtain ⟨rfl, rfl⟩ := ran
      have used := law.again_used turn
      have rest := ih t k turn later
      rw [List.length_drop] at rest
      exact ⟨by omega, fun more => by have := rest.2 more; omega⟩
    | fail u e => simp [later, Run.shift] at ran
    | panic => simp [later, Run.shift] at ran
  | stop t k =>
    rw [law.run_stop turn, Run.done.injEq] at ran
    obtain ⟨rfl, rfl⟩ := ran
    exact ⟨law.stop_used turn, fun more => (law.more_append [] turn more).1⟩
  | fail e => simp [law.run_fail turn] at ran
  | panic => simp [law.run_panic turn] at ran

/-- A loop that halts ends the same way over any longer buffer. -/
theorem Lawful.run_append_halted (law : m.Lawful) (s : σ) (a b : List α) {s' : σ} {n : Nat}
    (ran : m.run s a = .done s' n) (halt : m.halted s') : m.run s (a ++ b) = .done s' n := by
  revert n
  refine law.run_induction (P := fun s a => ∀ {n}, m.run s a = .done s' n →
    m.run s (a ++ b) = .done s' n) ?_ s a
  intro s a ih n ran
  cases turn : m.step s a with
  | again t k =>
    rw [law.run_again turn] at ran
    rw [law.run_again (law.again_append b turn),
      List.drop_append_of_le_length (law.again_used turn)]
    cases later : m.run t (a.drop k) with
    | done u l =>
      rw [later, Run.shift, Run.done.injEq] at ran
      obtain ⟨rfl, rfl⟩ := ran
      rw [ih t k turn later, Run.shift]
    | fail u e => simp [later, Run.shift] at ran
    | panic => simp [later, Run.shift] at ran
  | stop t k =>
    rw [law.run_stop turn, Run.done.injEq] at ran
    obtain ⟨rfl, rfl⟩ := ran
    obtain ⟨zero, later⟩ := law.halt_any (a ++ b) turn halt
    rw [law.run_stop later, zero]
  | fail e => simp [law.run_fail turn] at ran
  | panic => simp [law.run_panic turn] at ran

/-- A loop that halts depends only on the symbols it uses. -/
theorem Lawful.run_take_halted (law : m.Lawful) (s : σ) (a : List α) {s' : σ} {n : Nat}
    (ran : m.run s a = .done s' n) (halt : m.halted s') : m.run s (a.take n) = .done s' n := by
  revert n
  refine law.run_induction (P := fun s a => ∀ {n}, m.run s a = .done s' n →
    m.run s (a.take n) = .done s' n) ?_ s a
  intro s a ih n ran
  cases turn : m.step s a with
  | again t k =>
    rw [law.run_again turn] at ran
    cases later : m.run t (a.drop k) with
    | done u l =>
      rw [later, Run.shift, Run.done.injEq] at ran
      obtain ⟨rfl, rfl⟩ := ran
      -- The turn's own symbols come first, then those of the later turns.
      have split : a.take (k + l) = a.take k ++ (a.drop k).take l := List.take_add
      have whole : (a.take k).length = k := by
        rw [List.length_take, Nat.min_eq_left (law.again_used turn)]
      rw [split, law.run_again (law.again_append _ (law.again_take turn)),
        List.drop_left' whole, ih t k turn later, Run.shift]
    | fail u e => simp [later, Run.shift] at ran
    | panic => simp [later, Run.shift] at ran
  | stop t k =>
    rw [law.run_stop turn, Run.done.injEq] at ran
    obtain ⟨rfl, rfl⟩ := ran
    obtain ⟨rfl, later⟩ := law.halt_any (a.take k) turn halt
    exact law.run_stop later
  | fail e => simp [law.run_fail turn] at ran
  | panic => simp [law.run_panic turn] at ran

/-- A loop that waits for more goes on over a longer buffer where it stopped. -/
theorem Lawful.run_append_more (law : m.Lawful) (s : σ) (a b : List α) {s' : σ} {n : Nat}
    (ran : m.run s a = .done s' n) (more : ¬ m.halted s') :
    (m.run s (a ++ b)).Alike ((m.run s' b).shift n) := by
  revert n
  refine law.run_induction (P := fun s a => ∀ {n}, m.run s a = .done s' n →
    (m.run s (a ++ b)).Alike ((m.run s' b).shift n)) ?_ s a
  intro s a ih n ran
  cases turn : m.step s a with
  | again t k =>
    rw [law.run_again turn] at ran
    rw [law.run_again (law.again_append b turn),
      List.drop_append_of_le_length (law.again_used turn)]
    cases later : m.run t (a.drop k) with
    | done u l =>
      rw [later, Run.shift, Run.done.injEq] at ran
      obtain ⟨rfl, rfl⟩ := ran
      have rest := (ih t k turn later).shift k
      rwa [Run.shift_shift] at rest
    | fail u e => simp [later, Run.shift] at ran
    | panic => simp [later, Run.shift] at ran
  | stop t k =>
    rw [law.run_stop turn, Run.done.injEq] at ran
    obtain ⟨rfl, rfl⟩ := ran
    obtain ⟨whole, joined⟩ := law.more_append b turn more
    -- The joined turn is the waiting state's own turn over `b`, counted after `a`.
    cases next : m.step t b with
    | again u l =>
      rw [next, Verdict.shift] at joined
      rw [law.run_again joined, law.run_again next, Run.shift_shift, whole,
        List.drop_length_add_append]
      exact Run.Alike.refl _
    | stop u l =>
      rw [next, Verdict.shift] at joined
      rw [law.run_stop joined, law.run_stop next, Run.shift]
      exact Run.Alike.refl _
    | fail e =>
      rw [next, Verdict.shift] at joined
      rw [law.run_fail joined, law.run_fail next]
      rfl
    | panic =>
      rw [next, Verdict.shift] at joined
      rw [law.run_panic joined, law.run_panic next]
      trivial
  | fail e => simp [law.run_fail turn] at ran
  | panic => simp [law.run_panic turn] at ran

/-- A loop that waits for more stops at once in the state it waits in. -/
theorem Lawful.step_settled (law : m.Lawful) (s : σ) (a : List α) {s' : σ} {n : Nat}
    (ran : m.run s a = .done s' n) (more : ¬ m.halted s') : m.step s' [] = .stop s' 0 := by
  revert n
  refine law.run_induction (P := fun s a => ∀ {n}, m.run s a = .done s' n →
    m.step s' [] = .stop s' 0) ?_ s a
  intro s a ih n ran
  cases turn : m.step s a with
  | again t k =>
    rw [law.run_again turn] at ran
    cases later : m.run t (a.drop k) with
    | done u l =>
      rw [later, Run.shift, Run.done.injEq] at ran
      obtain ⟨rfl, _⟩ := ran
      exact ih t k turn later
    | fail u e => simp [later, Run.shift] at ran
    | panic => simp [later, Run.shift] at ran
  | stop t k =>
    rw [law.run_stop turn, Run.done.injEq] at ran
    obtain ⟨rfl, rfl⟩ := ran
    obtain ⟨_, joined⟩ := law.more_append [] turn more
    rw [List.append_nil, turn] at joined
    cases next : m.step t [] with
    | again u l => simp [next, Verdict.shift] at joined
    | stop u l =>
      rw [next, Verdict.shift, Verdict.stop.injEq] at joined
      obtain ⟨rfl, none⟩ := joined
      have zero : l = 0 := by omega
      rw [zero]
    | fail e => simp [next, Verdict.shift] at joined
    | panic => simp [next, Verdict.shift] at joined
  | fail e => simp [law.run_fail turn] at ran
  | panic => simp [law.run_panic turn] at ran

/-- A loop that waits for more stays where it is until it gets more. -/
theorem Lawful.run_settled (law : m.Lawful) (s : σ) (a : List α) {s' : σ} {n : Nat}
    (ran : m.run s a = .done s' n) (more : ¬ m.halted s') : m.run s' [] = .done s' 0 :=
  law.run_stop (law.step_settled s a ran more)

/-- A loop that fails, fails in the turn that starts in the state it leaves behind. -/
theorem Lawful.step_failed (law : m.Lawful) (s : σ) (a : List α) {s' : σ} {e : ε}
    (ran : m.run s a = .fail s' e) : ∃ rest, m.step s' rest = .fail e := by
  revert ran
  refine law.run_induction (P := fun s a => m.run s a = .fail s' e →
    ∃ rest, m.step s' rest = .fail e) ?_ s a
  intro s a ih ran
  cases turn : m.step s a with
  | again t k =>
    rw [law.run_again turn] at ran
    cases later : m.run t (a.drop k) with
    | done u l => simp [later, Run.shift] at ran
    | fail u d =>
      rw [later, Run.shift] at ran
      exact ih t k turn (later.trans ran)
    | panic => simp [later, Run.shift] at ran
  | stop t k => simp [law.run_stop turn] at ran
  | fail d =>
    rw [law.run_fail turn, Run.fail.injEq] at ran
    obtain ⟨rfl, rfl⟩ := ran
    exact ⟨a, turn⟩
  | panic => simp [law.run_panic turn] at ran

/-- From a state in which it stops over nothing, a loop that has not halted uses a symbol when there
is one. -/
theorem Lawful.run_progress (law : m.Lawful) {s t s' : σ} {k n : Nat} {buf : List α}
    (idle : m.step s [] = .stop t k) (live : ¬ m.halted t) (some : buf ≠ [])
    (ran : m.run s buf = .done s' n) : 0 < n := by
  cases turn : m.step s buf with
  | again u used =>
    have positive : 0 < used := by
      apply Nat.pos_of_ne_zero
      rintro rfl
      have early := law.again_take turn
      rw [List.take_zero, idle] at early
      cases early
    rw [law.run_again turn] at ran
    cases later : m.run u (buf.drop used) with
    | done v l =>
      rw [later, Run.shift, Run.done.injEq] at ran
      omega
    | fail v e => simp [later, Run.shift] at ran
    | panic => simp [later, Run.shift] at ran
  | stop u used =>
    rw [law.run_stop turn, Run.done.injEq] at ran
    obtain ⟨rfl, rfl⟩ := ran
    by_cases halt : m.halted u
    · have early := (law.halt_any [] turn halt).2
      rw [idle, Verdict.stop.injEq] at early
      exact absurd (early.1 ▸ halt) live
    · rw [(law.more_append [] turn halt).1]
      exact List.length_pos_iff.mpr some
  | fail e => simp [law.run_fail turn] at ran
  | panic => simp [law.run_panic turn] at ran

/-- A loop that fails, fails with the same error over any longer buffer. -/
theorem Lawful.run_append_fail (law : m.Lawful) (s : σ) (a b : List α) {s' : σ} {e : ε}
    (ran : m.run s a = .fail s' e) : m.run s (a ++ b) = .fail s' e := by
  revert ran
  refine law.run_induction (P := fun s a => m.run s a = .fail s' e →
    m.run s (a ++ b) = .fail s' e) ?_ s a
  intro s a ih ran
  cases turn : m.step s a with
  | again t k =>
    rw [law.run_again turn] at ran
    rw [law.run_again (law.again_append b turn),
      List.drop_append_of_le_length (law.again_used turn)]
    cases later : m.run t (a.drop k) with
    | done u l => simp [later, Run.shift] at ran
    | fail u d =>
      rw [later, Run.shift] at ran
      rw [ih t k turn (later.trans ran), Run.shift]
    | panic => simp [later, Run.shift] at ran
  | stop t k => simp [law.run_stop turn] at ran
  | fail d =>
    rw [law.run_fail turn] at ran
    rw [law.run_fail (law.fail_append b turn), ran]
  | panic => simp [law.run_panic turn] at ran

/-- A loop that aborts, aborts over any longer buffer. -/
theorem Lawful.run_append_panic (law : m.Lawful) (s : σ) (a b : List α)
    (ran : m.run s a = .panic) : m.run s (a ++ b) = .panic := by
  revert ran
  refine law.run_induction (P := fun s a => m.run s a = .panic → m.run s (a ++ b) = .panic) ?_ s a
  intro s a ih ran
  cases turn : m.step s a with
  | again t k =>
    rw [law.run_again turn] at ran
    rw [law.run_again (law.again_append b turn),
      List.drop_append_of_le_length (law.again_used turn)]
    cases later : m.run t (a.drop k) with
    | done u l => simp [later, Run.shift] at ran
    | fail u d => simp [later, Run.shift] at ran
    | panic => rw [ih t k turn later, Run.shift]
  | stop t k => simp [law.run_stop turn] at ran
  | fail d => simp [law.run_fail turn] at ran
  | panic => exact law.run_panic (law.panic_append b turn)

/-- A property of states that every turn keeps holds after the loop, and the loop does not
abort when no turn from such a state aborts. -/
theorem Lawful.run_invariant (law : m.Lawful) (I : σ → Prop)
    (again : ∀ {s buf s' n}, I s → m.step s buf = .again s' n → I s')
    (stop : ∀ {s buf s' n}, I s → m.step s buf = .stop s' n → I s')
    (safe : ∀ {s buf}, I s → m.step s buf ≠ .panic) (s : σ) (buf : List α) (start : I s) :
    (∃ s' n, m.run s buf = .done s' n ∧ I s') ∨ (∃ s' e, m.run s buf = .fail s' e ∧ I s') := by
  revert start
  refine law.run_induction (P := fun s buf => I s →
    (∃ s' n, m.run s buf = .done s' n ∧ I s') ∨
      (∃ s' e, m.run s buf = .fail s' e ∧ I s')) ?_ s buf
  intro s buf ih start
  cases turn : m.step s buf with
  | again t k =>
    rw [law.run_again turn]
    rcases ih t k turn (again start turn) with ⟨u, l, ran, kept⟩ | ⟨u, e, ran, kept⟩
    · exact .inl ⟨u, k + l, by rw [ran, Run.shift], kept⟩
    · exact .inr ⟨u, e, by rw [ran, Run.shift], kept⟩
  | stop t k => exact .inl ⟨t, k, law.run_stop turn, stop start turn⟩
  | fail e => exact .inr ⟨s, e, law.run_fail turn, start⟩
  | panic => exact absurd turn (safe start)

end Machine

end Harmonia.Library
