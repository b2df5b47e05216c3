import Harmonia.Pool.System

/-!
# Accounting of the connection pool

`active_count` is meant to be the number of slots in use. Every step keeps it at least the
number of tasks that own a slot. It stays equal to that number except when the future of an
`acquire` call is dropped between reserving a slot and obtaining a connection or giving the
slot back: `try_acquire` undoes the reservation only after `create_connection` has returned.
-/

namespace Harmonia.Pool

open Library

variable {γ : Type}

/-- The stages whose task owns a slot: a reservation, a live guard, a pending release. -/
def Stage.ownsSlot (stage : Stage γ) : Bool :=
  stage.isReserving || stage.isHolding || stage.isReleasing

namespace System

/-- The three kinds of owners exclude one another. -/
theorem tally_ownsSlot (s : System γ) : s.tally Stage.ownsSlot =
    s.tally Stage.isReserving + s.tally Stage.isHolding + s.tally Stage.isReleasing := by
  unfold tally
  induction s.tasks with
  | nil => rfl
  | cons stage rest ih =>
    have one : (if stage.ownsSlot then 1 else 0) = (if stage.isReserving then 1 else 0) +
        (if stage.isHolding then 1 else 0) + (if stage.isReleasing then 1 else 0) := by
      cases stage <;> rfl
    simp only [List.countP_cons, ih, one]
    omega

/-- What holds in every reachable state. -/
structure Sound (s : System γ) : Prop where
  valid : s.pool.Valid
  owned : s.tally Stage.ownsSlot ≤ s.pool.activeCount
  waiting : s.tally Stage.isWaiting ≤ s.pool.waitingCount

/-- The accounting is exact: `active_count` is the number of owned slots, the pool stays
within its capacity, no `saturating_sub` saturates, no test of `active_count` in a release
fails, and nothing is in use once nobody owns a slot. -/
structure Accounted (s : System γ) : Prop where
  exact : s.pool.activeCount = s.tally Stage.isReserving + s.tally Stage.isHolding +
    s.tally Stage.isReleasing
  within : s.pool.activeCount + s.pool.idle.length ≤ s.pool.capacity
  givesBack : ∀ task : Nat, s.tasks[task]? = some Stage.failing → 0 < s.pool.activeCount
  stopsWaiting : ∀ task : Nat, s.tasks[task]? = some Stage.relocking ∨
    s.tasks[task]? = some Stage.timedOut → 0 < s.pool.waitingCount
  releases : ∀ (task : Nat) conn, s.tasks[task]? = some (Stage.releasing conn) →
    0 < s.pool.activeCount
  drained : (∀ stage ∈ s.tasks, stage.isReserving = false ∧ stage.isHolding = false ∧
    stage.isReleasing = false) → s.pool.activeCount = 0

/-- The action drops the future of a call that has reserved a slot. -/
def dropsReservation (s : System γ) : Action γ → Bool
  | .cancel task _ =>
    match s.tasks[task]? with
    | some stage => stage.isReserving
    | none => false
  | _ => false

/-- The only cancelled task that loses a slot is one that reserved it. -/
theorem dropsReservation_cancel {s : System γ} {task : Nat} {stage : Stage γ}
    (found : s.tasks[task]? = some stage) (heir : Option Nat) :
    s.dropsReservation (.cancel task heir) = stage.isReserving := by
  simp only [dropsReservation, found]

/-- A task that owns a slot is counted in `active_count`. -/
theorem Sound.counted {s : System γ} (sound : s.Sound) {task : Nat} {stage : Stage γ}
    (found : s.tasks[task]? = some stage) (owns : stage.ownsSlot = true) :
    0 < s.pool.activeCount :=
  Nat.lt_of_lt_of_le (tally_pos found owns) sound.owned

/-- A task that waits is counted in `waiting_count`. -/
theorem Sound.queued {s : System γ} (sound : s.Sound) {task : Nat} {stage : Stage γ}
    (found : s.tasks[task]? = some stage) (waits : stage.isWaiting = true) :
    0 < s.pool.waitingCount :=
  Nat.lt_of_lt_of_le (tally_pos found waits) sound.waiting

/-- What a move does to `active_count`, to `waiting_count` and to the invariant of the pool,
against the stages it moves between. -/
structure Ledger (before after : PoolState γ) (old new : Stage γ) (lost : Nat) : Prop where
  slots : after.activeCount + (if old.ownsSlot then 1 else 0) =
    before.activeCount + (if new.ownsSlot then 1 else 0) + lost
  waiting : before.waitingCount + (if new.isWaiting then 1 else 0) ≤
    after.waitingCount + (if old.isWaiting then 1 else 0)
  valid : after.Valid

/-- A move loses a slot exactly when it drops a reservation. -/
theorem Moves.ledger {maxIdleTime task : Nat} {s : System γ} {action : Action γ}
    {old new : Stage γ} {pool : PoolState γ} {permit : Bool}
    (moves : Moves maxIdleTime s task action old new pool permit) (sound : s.Sound)
    (found : s.tasks[task]? = some old) :
    Ledger s.pool pool old new (if s.dropsReservation action then 1 else 0) := by
  have valid := sound.valid
  cases moves with
  | reuse taken | reserve taken | wait taken =>
    obtain ⟨active, waiters, -⟩ := PoolState.tryAcquire_counts taken
    constructor
    · rw [active]
      rfl
    · rw [waiters]
      exact Nat.le_refl _
    · exact PoolState.tryAcquire_valid valid taken
  | giveBack =>
    have counted := sound.counted found rfl
    constructor
    · show s.pool.activeCount - 1 + 1 = s.pool.activeCount + 0 + 0
      omega
    · exact Nat.le_refl _
    · exact PoolState.creationFailed_valid valid
  | retry | giveUp =>
    have queued := sound.queued found rfl
    constructor
    · rfl
    · show s.pool.waitingCount + 0 ≤ s.pool.waitingCount - 1 + 1
      omega
    · exact PoolState.stopWaiting_valid valid
  | @release now conn =>
    have counted := sound.counted found rfl
    have waiters := (s.pool.release_waitingCount conn now).1
    rw [show s.dropsReservation (.lock task now) = false from rfl]
    split
    all_goals
      constructor
      · rw [PoolState.release_counted counted]
        show s.pool.activeCount - 1 + 1 = s.pool.activeCount + 0 + 0
        omega
      · rw [waiters]
        exact Nat.le_refl _
      · exact PoolState.release_valid valid conn now
  | @cancelSlot _ heir slot =>
    have owns : old.ownsSlot = true := by simp [Stage.ownsSlot, slot]
    have idle : old.isWaiting = false := by cases old <;> first | rfl | cases slot
    rw [dropsReservation_cancel found heir, slot]
    constructor
    · rw [owns]
      rfl
    · rw [idle]
      exact Nat.le_refl _
    · exact valid
  | @cancelCall woken heir =>
    rw [dropsReservation_cancel found heir]
    exact ⟨rfl, Nat.le_refl _, valid⟩
  | @cancelParked heir | @cancelRelocking heir | @cancelTimedOut heir =>
    rw [dropsReservation_cancel found heir]
    exact ⟨rfl, Nat.le_succ _, valid⟩
  | _ => exact ⟨rfl, Nat.le_refl _, valid⟩

/-- How a step changes the counters against the tallies. -/
structure Balance (s s' : System γ) (lost : Nat) : Prop where
  slots : s'.pool.activeCount + s.tally Stage.ownsSlot =
    s.pool.activeCount + s'.tally Stage.ownsSlot + lost
  waiting : s'.tally Stage.isWaiting + s.pool.waitingCount ≤
    s.tally Stage.isWaiting + s'.pool.waitingCount
  valid : s'.pool.Valid

/-- Sending a wake-up leaves the pool and the tallies of owners and waiters alone. -/
theorem notifyOne_keeps {s s' : System γ} {heir : Option Nat} (sent : s.notifyOne heir = some s') :
    s'.pool = s.pool ∧ s'.tally Stage.ownsSlot = s.tally Stage.ownsSlot ∧
      s'.tally Stage.isWaiting = s.tally Stage.isWaiting := by
  obtain ⟨task, found, rfl⟩ | ⟨_, rfl⟩ := notifyOne_cases sent
  · refine ⟨rfl, ?_, ?_⟩
    · exact tally_move found Stage.ownsSlot .woken
    · exact Nat.succ_inj.mp (tally_move found Stage.isWaiting .woken)
  · exact ⟨rfl, rfl, rfl⟩

/-- Every step balances, but for the slot of a dropped reservation. -/
theorem Steps.balance {maxIdleTime : Nat} {s s' : System γ} {action : Action γ}
    (steps : Steps maxIdleTime s action s') (sound : s.Sound) :
    Balance s s' (if s.dropsReservation action then 1 else 0) := by
  cases steps with
  | call =>
    constructor
    · rw [tally_call]
      rfl
    · rw [tally_call]
      exact Nat.le_refl _
    · exact sound.valid
  | @move _ task old new pool permit found moves =>
    have ledger := moves.ledger sound found
    have owned := tally_set found Stage.ownsSlot new pool permit
    have waiting := tally_set found Stage.isWaiting new pool permit
    constructor
    · have slots := ledger.slots
      show pool.activeCount + _ = _
      omega
    · have queued := ledger.waiting
      show _ + _ ≤ _ + pool.waitingCount
      omega
    · exact ledger.valid
  | @send _ task old new _ heir found sends sent =>
    obtain ⟨pool, owned, waiting⟩ := notifyOne_keeps sent
    have moved := tally_move found Stage.ownsSlot new
    have left := tally_move found Stage.isWaiting new
    have kept : s.dropsReservation action = false := by
      cases sends with
      | cancel => exact dropsReservation_cancel found heir
      | notify | expire => rfl
    rw [kept]
    constructor
    · rw [pool, owned]
      cases sends <;> exact congrArg (s.pool.activeCount + ·) moved.symm
    · rw [pool, waiting]
      have fewer : (if new.isWaiting then 1 else 0) ≤ (if old.isWaiting then 1 else 0) := by
        cases sends <;> simp [Stage.isWaiting]
      show _ + s.pool.waitingCount ≤ _ + s.pool.waitingCount
      omega
    · rw [pool]
      exact sound.valid

/-- Every step keeps what holds in every reachable state. -/
theorem Sound.step {maxIdleTime : Nat} {s s' : System γ} {action : Action γ} (sound : s.Sound)
    (taken : s.step maxIdleTime action = some s') : s'.Sound := by
  have balance := (step_steps taken).balance sound
  have owned := sound.owned
  have waiting := sound.waiting
  have slots := balance.slots
  have queued := balance.waiting
  constructor
  · exact balance.valid
  · omega
  · omega

/-- A fresh pool is sound. -/
theorem Sound.new {maxSize : Nat} (positive : 0 < maxSize) : (new maxSize : System γ).Sound :=
  ⟨⟨Nat.zero_le _, positive⟩, Nat.le_refl _, Nat.le_refl _⟩

/-- The whole accounting follows from the equation for `active_count`. -/
theorem Sound.accounted_iff {s : System γ} (sound : s.Sound) :
    s.Accounted ↔ s.pool.activeCount = s.tally Stage.ownsSlot := by
  rw [tally_ownsSlot]
  constructor
  · intro accounted
    exact accounted.exact
  · intro exact
    constructor
    · exact exact
    · exact sound.valid.1
    · intro task found
      exact sound.counted found rfl
    · intro task found
      cases found with
      | inl found => exact sound.queued found rfl
      | inr found => exact sound.queued found rfl
    · intro task conn found
      exact sound.counted found rfl
    · intro nobody
      rw [exact, ← tally_ownsSlot, tally, List.countP_eq_zero]
      intro stage member
      obtain ⟨reserving, holding, releasing⟩ := nobody stage member
      simp [Stage.ownsSlot, reserving, holding, releasing]

/-- In every run of a pool, with any interleaving of its tasks, the accounting is exact in
every state exactly when no step drops the future of a call that has reserved a slot and
has neither obtained its connection nor given the slot back. -/
theorem accounted_iff_no_reservation_dropped {maxSize : Nat} (positive : 0 < maxSize)
    (maxIdleTime : Nat) (actions : List (Action γ)) {final : System γ}
    (ends : run (step maxIdleTime) (new maxSize) actions = some final) :
    Always (step maxIdleTime) Accounted (new maxSize) actions ↔
      Abides (step maxIdleTime) (fun s action => s.dropsReservation action = false)
        (new maxSize) actions := by
  apply always_iff_abides (Q := Sound) _ _ _ actions (Sound.new positive) _ ends
  · intro s action s' sound accounted kept taken
    have balance := (step_steps taken).balance sound
    rw [kept] at balance
    rw [(sound.step taken).accounted_iff]
    have slots := balance.slots
    have exact := sound.accounted_iff.mp accounted
    simp only [Bool.false_eq_true, if_false] at slots
    omega
  · intro s action s' sound taken
    exact sound.step taken
  · intro s action s' sound accounted taken after
    have balance := (step_steps taken).balance sound
    have slots := balance.slots
    have before := sound.accounted_iff.mp accounted
    have still := (sound.step taken).accounted_iff.mp after
    cases dropped : s.dropsReservation action with
    | false => rfl
    | true =>
      rw [dropped, if_pos rfl] at slots
      omega
  · exact (Sound.new positive).accounted_iff.mpr rfl

/-- A run in which a call obtains a connection, a second call waits, and the connection goes
back: no reservation is dropped, so the accounting is exact throughout. -/
def borrowed : List (Action Unit) :=
  [.call, .call, .lock 0 0, .connected 0 () 1, .lock 1 2, .poll 1, .drop 0, .lock 0 3,
    .notify 0 (some 1), .poll 1, .lock 1 4, .lock 1 5]

/-- The accounting is exact throughout `borrowed`. -/
theorem accounted_borrowed :
    Always (step 300) Accounted (new 1) borrowed := by
  have ends : run (step 300) (new 1) borrowed =
      some ⟨⟨[], 1, 1, 0⟩, false, [.ended, .holding ⟨(), 5⟩]⟩ := by decide
  apply (accounted_iff_no_reservation_dropped (by decide) 300 borrowed
    ends).mpr
  decide

/-- A call reserves the only slot and its future is dropped while it connects. Every task
has ended, no guard is alive, and the slot is still counted as in use. -/
theorem reservation_dropped_leaks :
    run (step 300) (new 1 : System Unit) [.call, .lock 0 0, .cancel 0 none] =
        some ⟨⟨[], 1, 1, 0⟩, false, [.ended]⟩ ∧
      ¬ Accounted (⟨⟨[], 1, 1, 0⟩, false, [.ended]⟩ : System Unit) := by
  constructor
  · decide
  · intro accounted
    have exact := accounted.exact
    revert exact
    decide

end System

end Harmonia.Pool
