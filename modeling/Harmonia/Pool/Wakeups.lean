import Harmonia.Pool.Accounting

/-!
# Wake-ups of the connection pool

A call that finds the pool full is counted as waiting under the lock and registers with
`Notify` afterwards. A wake-up is meant to be under way whenever such a call could have a
slot. The measure that shows it compares the free slots with the calls that want one: the
smaller of the two numbers never exceeds the wake-ups under way. Three steps can lower the
wake-ups without lowering the wants: a failed connection attempt that gives a slot back and
notifies nobody, a `notify_one` that finds a permit already kept, and the loss of a call
that consumed its wake-up and has not retried.
-/

namespace Harmonia.Pool

open Library

variable {γ : Type}

namespace Stage

/-- Parked on `notified()`, whether or not the future was polled yet. -/
def isListening : Stage γ → Bool
  | .enlisted | .parked => true
  | _ => false

/-- Woken, with the retry still to come. -/
def isAwake : Stage γ → Bool
  | .woken | .relocking | .calling true => true
  | _ => false

/-- A release task that has yet to call `notify_one`. -/
def isNotifying : Stage γ → Bool
  | .notifying => true
  | _ => false

end Stage

namespace System

/-- A wake-up is pending: a kept permit, a woken call that has not retried, or a release task
that has not executed its `notify_one`. -/
def Pending (s : System γ) : Prop :=
  s.permit = true ∨ 0 < s.tally Stage.isAwake ∨ 0 < s.tally Stage.isReleasing ∨
    0 < s.tally Stage.isNotifying

/-- No wake-up is lost: when a call is parked and a slot is free, a wake-up is pending. -/
def Attended (s : System γ) : Prop :=
  ∀ (task : Nat) (stage : Stage γ), s.tasks[task]? = some stage → stage.isListening = true →
    s.pool.idle ≠ [] ∨ s.pool.activeCount < s.pool.capacity → s.Pending

/-- The action gives back the slot of a failed connection attempt. -/
def givesSlotBack (s : System γ) : Action γ → Bool
  | .lock task _ =>
    match s.tasks[task]? with
    | some .failing => true
    | _ => false
  | _ => false

/-- The action calls `notify_one`, or passes a delivered wake-up on. -/
def sendsWakeup (s : System γ) : Action γ → Bool
  | .notify _ _ => true
  | .expire task _ | .cancel task _ =>
    match s.tasks[task]? with
    | some .woken => true
    | _ => false
  | _ => false

/-- The action drops a call that consumed its wake-up and has not retried. -/
def dropsAwake (s : System γ) : Action γ → Bool
  | .cancel task _ =>
    match s.tasks[task]? with
    | some .relocking | some (.calling true) => true
    | _ => false
  | _ => false

/-- The steps that keep every wake-up: a slot is given back after a failed attempt only while
nobody is parked, a wake-up is sent only while no permit is kept, and no call is dropped
between consuming its wake-up and retrying. -/
def Attentive (s : System γ) (action : Action γ) : Prop :=
  (s.givesSlotBack action = true → s.tally Stage.isListening = 0) ∧
    (s.sendsWakeup action = true → s.permit = false) ∧ s.dropsAwake action = false

instance (s : System γ) (action : Action γ) : Decidable (s.Attentive action) :=
  inferInstanceAs (Decidable (_ ∧ _ ∧ _))

/-- The slots that no task uses. -/
def free (s : System γ) : Nat := s.pool.capacity - s.pool.activeCount

/-- The wake-ups under way. -/
def wakeups (s : System γ) : Nat :=
  s.permit.toNat + s.tally Stage.isAwake + s.tally Stage.isNotifying

/-- The smaller of the free slots and the calls that want one does not exceed the wake-ups. -/
def Covered (s : System γ) : Prop :=
  s.free ≤ s.wakeups ∨ s.tally Stage.isListening + s.tally Stage.isAwake ≤ s.wakeups

/-- Every parked call is counted as waiting. -/
theorem listening_le_waiting (s : System γ) :
    s.tally Stage.isListening ≤ s.tally Stage.isWaiting := by
  apply List.countP_mono_left
  intro stage _ listening
  cases stage <;> first | rfl | cases listening

/-- When a call is parked and a slot is free, a covered state has a wake-up pending. -/
theorem Covered.attended {s : System γ} (covered : s.Covered) (sound : s.Sound) : s.Attended := by
  intro task stage found listening slot
  have wanted := tally_pos found listening
  have valid := sound.valid.1
  have room : 0 < s.free := by
    unfold free
    cases slot with
    | inl idle =>
      have := List.length_pos_of_ne_nil idle
      omega
    | inr room => omega
  have some : 0 < s.wakeups := by
    cases covered <;> omega
  unfold wakeups at some
  unfold Pending
  cases kept : s.permit with
  | true => exact .inl rfl
  | false =>
    simp only [kept, Bool.toNat_false, Nat.zero_add] at some
    omega

/-- A move of an attentive step keeps the cover. -/
theorem Moves.covered {maxIdleTime task : Nat} {s : System γ} {action : Action γ}
    {old new : Stage γ} {pool : PoolState γ} {permit : Bool}
    (moves : Moves maxIdleTime s task action old new pool permit) (sound : s.Sound)
    (covered : s.Covered) (attentive : s.Attentive action) (found : s.tasks[task]? = some old) :
    Covered ⟨pool, permit, s.tasks.set task new⟩ := by
  have listening := tally_set found Stage.isListening new pool permit
  have awake := tally_set found Stage.isAwake new pool permit
  have notifying := tally_set found Stage.isNotifying new pool permit
  unfold Covered free wakeups at *
  cases moves with
  | @reuse woken _ _ _ taken | @reserve woken _ _ taken =>
    obtain ⟨active, -, capacity⟩ := PoolState.tryAcquire_counts taken
    cases woken <;>
      simp [Stage.isListening, Stage.isAwake, Stage.isNotifying, Attempt.slots] at * <;> omega
  | @wait woken _ _ taken =>
    obtain ⟨active, -, capacity⟩ := PoolState.tryAcquire_counts taken
    have full := PoolState.tryAcquire_full taken
    left
    simp only [active, capacity, Attempt.slots]
    omega
  | giveBack =>
    have nobody : s.tally Stage.isListening = 0 := by
      apply attentive.1
      simp only [givesSlotBack, found]
    simp [Stage.isListening, Stage.isAwake, Stage.isNotifying] at *
    omega
  | @release now conn =>
    have unheard := s.listening_le_waiting
    have queued := sound.waiting
    obtain ⟨waiting, capacity⟩ := s.pool.release_waitingCount conn now
    have active : (s.pool.release conn now).activeCount = s.pool.activeCount - 1 := by
      rw [PoolState.release_counted (sound.counted found rfl)]
    by_cases waits : 0 < (s.pool.release conn now).waitingCount
    · simp only [if_pos waits] at listening awake notifying ⊢
      simp [Stage.isListening, Stage.isAwake, Stage.isNotifying] at *
      omega
    · simp only [if_neg waits] at listening awake notifying ⊢
      simp [Stage.isListening, Stage.isAwake, Stage.isNotifying] at *
      omega
  | consume kept =>
    simp [Stage.isListening, Stage.isAwake, Stage.isNotifying, kept] at *
    omega
  | @cancelCall woken =>
    cases woken with
    | true =>
      have kept := attentive.2.2
      simp [dropsAwake, found] at kept
    | false =>
      simp [Stage.isListening, Stage.isAwake, Stage.isNotifying] at *
      omega
  | cancelRelocking =>
    have kept := attentive.2.2
    simp [dropsAwake, found] at kept
  | cancelSlot slot =>
    cases old <;> cases slot
    all_goals
      simp [Stage.isListening, Stage.isAwake, Stage.isNotifying] at *
      omega
  | _ =>
    simp [Stage.isListening, Stage.isAwake, Stage.isNotifying, PoolState.stopWaiting] at *
    omega

/-- Sending a wake-up while no permit is kept adds one wake-up and turns a parked call into
a woken one or nothing. -/
theorem notifyOne_covers {s s' : System γ} {heir : Option Nat} (sent : s.notifyOne heir = some s')
    (none : s.permit = false) : s'.free = s.free ∧ s'.wakeups = s.wakeups + 1 ∧
      s'.tally Stage.isListening + s'.tally Stage.isAwake =
        s.tally Stage.isListening + s.tally Stage.isAwake := by
  obtain ⟨task, found, rfl⟩ | ⟨_, rfl⟩ := notifyOne_cases sent
  · have listening := tally_move found Stage.isListening .woken
    have awake := tally_move found Stage.isAwake .woken
    have notifying := tally_move found Stage.isNotifying .woken
    have kept : (s.move task .woken).permit = s.permit := rfl
    simp [Stage.isListening, Stage.isAwake, Stage.isNotifying] at listening awake notifying
    unfold wakeups
    rw [kept]
    refine ⟨rfl, ?_, ?_⟩ <;> omega
  · refine ⟨rfl, ?_, rfl⟩
    simp only [wakeups, none, tally, Bool.toNat_true, Bool.toNat_false]
    omega

/-- A sent or passed-on wake-up of an attentive step keeps the cover. -/
theorem Sends.covered {task : Nat} {heir : Option Nat} {s s' : System γ} {action : Action γ}
    {old new : Stage γ} (sends : Sends task heir action old new) (covered : s.Covered)
    (attentive : s.Attentive action) (found : s.tasks[task]? = some old)
    (sent : (s.move task new).notifyOne heir = some s') : s'.Covered := by
  have none : s.permit = false := by
    apply attentive.2.1
    cases sends <;> simp only [sendsWakeup, found]
  obtain ⟨free, more, wanted⟩ := notifyOne_covers sent none
  have listening := tally_move found Stage.isListening new
  have awake := tally_move found Stage.isAwake new
  have notifying := tally_move found Stage.isNotifying new
  have slots : (s.move task new).free = s.free := rfl
  have moved : (s.move task new).wakeups = s.permit.toNat +
      (s.move task new).tally Stage.isAwake + (s.move task new).tally Stage.isNotifying := rfl
  have before : s.wakeups = s.permit.toNat + s.tally Stage.isAwake +
      s.tally Stage.isNotifying := rfl
  unfold Covered at *
  cases sends <;>
    simp [Stage.isListening, Stage.isAwake, Stage.isNotifying] at listening awake notifying <;>
    omega

/-- An attentive step keeps the cover. -/
theorem Covered.step {maxIdleTime : Nat} {s s' : System γ} {action : Action γ}
    (covered : s.Covered) (sound : s.Sound) (attentive : s.Attentive action)
    (taken : s.step maxIdleTime action = some s') : s'.Covered := by
  cases step_steps taken with
  | call =>
    unfold Covered wakeups at *
    simp only [tally_call]
    exact covered
  | move found moves => exact moves.covered sound covered attentive found
  | send found sends sent => exact sends.covered covered attentive found sent

/-- In every run, with any interleaving, whose steps are attentive, no wake-up is lost in any
state. -/
theorem attended_of_attentive {maxSize : Nat} (positive : 0 < maxSize) (maxIdleTime : Nat)
    (actions : List (Action γ))
    (attentive : Abides (step maxIdleTime) Attentive (new maxSize) actions) :
    Always (step maxIdleTime) Attended (new maxSize) actions := by
  have kept : Always (step maxIdleTime) (fun s => s.Sound ∧ s.Covered) (new maxSize) actions := by
    refine attentive.always ?_ ⟨Sound.new positive, .inr (Nat.le_refl _)⟩
    intro s action s' holds allowed taken
    exact ⟨holds.1.step taken, holds.2.step holds.1 allowed taken⟩
  intro before after final split reached
  obtain ⟨sound, covered⟩ := kept before after final split reached
  exact covered.attended sound

/-- Two calls share the only slot of a pool; the second parks, is woken by the release of the
first, and takes the connection over. -/
theorem attended_borrowed : Always (step 300) Attended (new 1) borrowed :=
  attended_of_attentive (by decide) 300 borrowed (by decide)

/-- The only slot is reserved, a second call parks, and the connection attempt fails. The slot
is given back and nobody is notified: the parked call has a free slot and no wake-up pending. -/
theorem failed_attempt_strands :
    run (step 300) (new 1 : System Unit)
        [.call, .call, .lock 0 0, .lock 1 0, .poll 1, .refused 0, .lock 0 1] =
      some ⟨⟨[], 0, 1, 1⟩, false, [.ended, .parked]⟩ ∧
    ¬ Attended (⟨⟨[], 0, 1, 1⟩, false, [.ended, .parked]⟩ : System Unit) := by
  constructor
  · decide
  · intro attended
    have pending := attended 1 .parked rfl rfl (.inr (by decide))
    revert pending
    unfold Pending
    decide

-- Without any failure: two releases notify before either waiting call has registered. `Notify`
-- keeps one permit, so one call parks although a connection is idle once the other has retried.
example : run (step 300) (new 2 : System Unit)
    [.call, .call, .call, .call, .lock 0 0, .connected 0 () 0, .lock 1 0, .connected 1 () 0,
      .lock 2 0, .lock 3 0, .drop 0, .drop 1, .lock 0 1, .lock 1 1, .notify 0 none,
      .notify 1 none, .poll 2, .poll 3, .lock 2 1, .lock 2 1] =
    some ⟨⟨[⟨(), 1⟩], 1, 2, 1⟩, false, [.ended, .ended, .holding ⟨(), 1⟩, .parked]⟩ := by
  decide

end System

end Harmonia.Pool
