import Harmonia.Pool.State
import Harmonia.Library.Runs

/-!
# Tasks of the connection pool

Each call of `acquire` is a task. It moves from one await point to the next, may come to
own a `PooledConnectionGuard`, and ends as the release task that the guard's `Drop` spawns.
One action is what happens between two points where another task may run: a locked section,
the outcome of a connection attempt, a poll of `notified()`, a timeout, a call of
`notify_one`, the end of a guard, or the loss of a future.

`Notify` follows its documentation: `notify_one` wakes one registered waiter and keeps a
single permit when there is none; a `Notified` future that is dropped after its wake-up was
delivered passes the wake-up on. Which waiter is woken is left open.
-/

namespace Harmonia.Pool

open Library

/-- Where a task stands. -/
inductive Stage (γ : Type) where
  /-- Before the lock of `try_acquire`; `woken` after a wake-up was consumed. -/
  | calling (woken : Bool)
  /-- A slot is reserved and `create_connection` is awaited. -/
  | creating
  /-- The connection attempt failed; the lock is awaited to give the slot back. -/
  | failing
  /-- `WaitRequired` was returned; `notified()` has not been polled yet. -/
  | enlisted
  /-- Registered with `Notify`. -/
  | parked
  /-- A wake-up was delivered and the future has not been polled again. -/
  | woken
  /-- The wake-up was consumed; the lock is awaited to stop counting as waiting. -/
  | relocking
  /-- The timeout fired; the lock is awaited to stop counting as waiting. -/
  | timedOut
  /-- `acquire` returned a guard that is alive. -/
  | holding (conn : PooledConnection γ)
  /-- The guard is gone and its release task has not run. -/
  | releasing (conn : Option (PooledConnection γ))
  /-- The release task left its locked section and has yet to call `notify_one`. -/
  | notifying
  /-- Nothing is left to do. -/
  | ended
  deriving DecidableEq, Repr

/-- The pool with its `Notify` and all tasks that were ever started. -/
structure System (γ : Type) where
  /-- The state under the lock. -/
  pool : PoolState γ
  /-- Whether `Notify` keeps a permit. -/
  permit : Bool
  /-- Every task, under its number. -/
  tasks : List (Stage γ)
  deriving DecidableEq, Repr

/-- What can happen next. -/
inductive Action (γ : Type) where
  /-- A new call of `acquire`. -/
  | call
  /-- A task that awaits the lock gets it and runs its section. -/
  | lock (task now : Nat)
  /-- `create_connection` returns a connection. -/
  | connected (task : Nat) (client : γ) (now : Nat)
  /-- `create_connection` fails or times out. -/
  | refused (task : Nat)
  /-- `notified()` is polled. -/
  | poll (task : Nat)
  /-- The timeout around `notified()` fires. -/
  | expire (task : Nat) (heir : Option Nat)
  /-- A release task calls `notify_one`. -/
  | notify (task : Nat) (heir : Option Nat)
  /-- The holder of a guard uses its client. -/
  | use (task : Nat) (client : γ)
  /-- A guard is dropped. -/
  | drop (task : Nat)
  /-- `mark_broken`. -/
  | markBroken (task : Nat)
  /-- The future of an `acquire` call is dropped at the await point where it stands. -/
  | cancel (task : Nat) (heir : Option Nat)
  deriving DecidableEq, Repr

variable {γ : Type}

namespace Stage

/-- Registered with `Notify`. -/
def isParked : Stage γ → Bool
  | .parked => true
  | _ => false

/-- Between reserving a slot and obtaining a connection or giving the slot back. -/
def isReserving : Stage γ → Bool
  | .creating | .failing => true
  | _ => false

/-- Owning a live guard. -/
def isHolding : Stage γ → Bool
  | .holding _ => true
  | _ => false

/-- A release task that has not run. -/
def isReleasing : Stage γ → Bool
  | .releasing _ => true
  | _ => false

/-- Counted in `waiting_count`: from `WaitRequired` to the section that stops waiting. -/
def isWaiting : Stage γ → Bool
  | .enlisted | .parked | .woken | .relocking | .timedOut => true
  | _ => false

end Stage

namespace System

/-- A fresh pool without tasks. -/
def new (maxSize : Nat) : System γ := ⟨.new maxSize, false, []⟩

/-- A task moves to a stage. -/
def move (s : System γ) (task : Nat) (stage : Stage γ) : System γ :=
  { s with tasks := s.tasks.set task stage }

/-- `notify_one`: wake the heir, which must be registered, or keep a permit when no waiter
is registered. -/
def notifyOne (s : System γ) : Option Nat → Option (System γ)
  | some heir =>
    match s.tasks[heir]? with
    | some .parked => some (s.move heir .woken)
    | _ => none
  | none => if s.tasks.any Stage.isParked then none else some { s with permit := true }

/-- A task that awaits the lock runs the section it awaits the lock for. -/
def runSection (maxIdleTime : Nat) (s : System γ) (task now : Nat) :
    Option (System γ) :=
  match s.tasks[task]? with
  | some (.calling _) =>
    match s.pool.tryAcquire maxIdleTime now with
    | (.reused conn, pool) => some ({ s with pool := pool }.move task (.holding conn))
    | (.reserved, pool) => some ({ s with pool := pool }.move task .creating)
    | (.waitRequired, pool) => some ({ s with pool := pool }.move task .enlisted)
  | some .failing => some ({ s with pool := s.pool.creationFailed }.move task .ended)
  | some .relocking => some ({ s with pool := s.pool.stopWaiting }.move task (.calling true))
  | some .timedOut => some ({ s with pool := s.pool.stopWaiting }.move task .ended)
  | some (.releasing conn) =>
    let pool := s.pool.release conn now
    some ({ s with pool := pool }.move task (if 0 < pool.waitingCount then .notifying else .ended))
  | _ => none

/-- `Notified::poll`: a delivered wake-up or a kept permit is consumed; otherwise the task
is registered. -/
def pollNotified (s : System γ) (task : Nat) : Option (System γ) :=
  match s.tasks[task]? with
  | some .enlisted =>
    if s.permit then some ({ s with permit := false }.move task .relocking)
    else some (s.move task .parked)
  | some .woken => some (s.move task .relocking)
  | _ => none

/-- The future of an `acquire` call is dropped. Nothing of what it did under the lock is
undone; only `Notified` passes a delivered wake-up on. -/
def cancelTask (s : System γ) (task : Nat) (heir : Option Nat) : Option (System γ) :=
  match s.tasks[task]? with
  | some (.calling _) | some .creating | some .failing | some .parked | some .relocking
  | some .timedOut => some (s.move task .ended)
  | some .woken => (s.move task .ended).notifyOne heir
  | _ => none

/-- One action, when it is enabled. -/
def step (maxIdleTime : Nat) (s : System γ) : Action γ → Option (System γ)
  | .call => some { s with tasks := s.tasks ++ [.calling false] }
  | .lock task now => s.runSection maxIdleTime task now
  | .connected task client now =>
    match s.tasks[task]? with
    | some .creating => some (s.move task (.holding ⟨client, now⟩))
    | _ => none
  | .refused task =>
    match s.tasks[task]? with
    | some .creating => some (s.move task .failing)
    | _ => none
  | .poll task => s.pollNotified task
  | .expire task heir =>
    match s.tasks[task]? with
    | some .parked => some (s.move task .timedOut)
    | some .woken => (s.move task .timedOut).notifyOne heir
    | _ => none
  | .notify task heir =>
    match s.tasks[task]? with
    | some .notifying => (s.move task .ended).notifyOne heir
    | _ => none
  | .use task client =>
    match s.tasks[task]? with
    | some (.holding conn) => some (s.move task (.holding { conn with client := client }))
    | _ => none
  | .drop task =>
    match s.tasks[task]? with
    | some (.holding conn) => some (s.move task (.releasing (some conn)))
    | _ => none
  | .markBroken task =>
    match s.tasks[task]? with
    | some (.holding _) => some (s.move task (.releasing none))
    | _ => none
  | .cancel task heir => s.cancelTask task heir

/-- How many tasks stand at a stage of a kind. -/
def tally (s : System γ) (p : Stage γ → Bool) : Nat := s.tasks.countP p

/-- The actions in which one task moves and no wake-up is sent: the stage before, the stage
after, and the pool and the permit after. -/
inductive Moves (maxIdleTime : Nat) (s : System γ) (task : Nat) :
    Action γ → Stage γ → Stage γ → PoolState γ → Bool → Prop where
  | reuse {woken now conn pool}
      (taken : s.pool.tryAcquire maxIdleTime now = (.reused conn, pool)) :
      Moves maxIdleTime s task (.lock task now) (.calling woken) (.holding conn) pool s.permit
  | reserve {woken now pool}
      (taken : s.pool.tryAcquire maxIdleTime now = (.reserved, pool)) :
      Moves maxIdleTime s task (.lock task now) (.calling woken) .creating pool s.permit
  | wait {woken now pool}
      (taken : s.pool.tryAcquire maxIdleTime now = (.waitRequired, pool)) :
      Moves maxIdleTime s task (.lock task now) (.calling woken) .enlisted pool s.permit
  | giveBack {now} :
      Moves maxIdleTime s task (.lock task now) .failing .ended s.pool.creationFailed s.permit
  | retry {now} : Moves maxIdleTime s task (.lock task now) .relocking (.calling true)
      s.pool.stopWaiting s.permit
  | giveUp {now} :
      Moves maxIdleTime s task (.lock task now) .timedOut .ended s.pool.stopWaiting s.permit
  | release {now conn} : Moves maxIdleTime s task (.lock task now) (.releasing conn)
      (if 0 < (s.pool.release conn now).waitingCount then .notifying else .ended)
      (s.pool.release conn now) s.permit
  | connected {client now} : Moves maxIdleTime s task (.connected task client now) .creating
      (.holding ⟨client, now⟩) s.pool s.permit
  | refused : Moves maxIdleTime s task (.refused task) .creating .failing s.pool s.permit
  | consume (kept : s.permit = true) :
      Moves maxIdleTime s task (.poll task) .enlisted .relocking s.pool false
  | register (none : s.permit = false) :
      Moves maxIdleTime s task (.poll task) .enlisted .parked s.pool s.permit
  | wake : Moves maxIdleTime s task (.poll task) .woken .relocking s.pool s.permit
  | expire {heir} :
      Moves maxIdleTime s task (.expire task heir) .parked .timedOut s.pool s.permit
  | use {conn client} : Moves maxIdleTime s task (.use task client) (.holding conn)
      (.holding { conn with client := client }) s.pool s.permit
  | drop {conn} : Moves maxIdleTime s task (.drop task) (.holding conn)
      (.releasing (some conn)) s.pool s.permit
  | markBroken {conn} : Moves maxIdleTime s task (.markBroken task) (.holding conn)
      (.releasing none) s.pool s.permit
  | cancelCall {woken heir} : Moves maxIdleTime s task (.cancel task heir) (.calling woken)
      .ended s.pool s.permit
  | cancelSlot {stage heir} (slot : stage.isReserving = true) :
      Moves maxIdleTime s task (.cancel task heir) stage .ended s.pool s.permit
  | cancelParked {heir} :
      Moves maxIdleTime s task (.cancel task heir) .parked .ended s.pool s.permit
  | cancelRelocking {heir} :
      Moves maxIdleTime s task (.cancel task heir) .relocking .ended s.pool s.permit
  | cancelTimedOut {heir} :
      Moves maxIdleTime s task (.cancel task heir) .timedOut .ended s.pool s.permit

/-- The actions in which a task sends a wake-up or passes one on. -/
inductive Sends (task : Nat) (heir : Option Nat) : Action γ → Stage γ → Stage γ → Prop where
  | notify : Sends task heir (.notify task heir) .notifying .ended
  | expire : Sends task heir (.expire task heir) .woken .timedOut
  | cancel : Sends task heir (.cancel task heir) .woken .ended

/-- Everything an action can do. -/
inductive Steps (maxIdleTime : Nat) (s : System γ) : Action γ → System γ → Prop where
  | call : Steps maxIdleTime s .call { s with tasks := s.tasks ++ [.calling false] }
  | move {action task old new pool permit} (found : s.tasks[task]? = some old)
      (moves : Moves maxIdleTime s task action old new pool permit) :
      Steps maxIdleTime s action ⟨pool, permit, s.tasks.set task new⟩
  | send {action task old new next heir} (found : s.tasks[task]? = some old)
      (sends : Sends task heir action old new)
      (sent : (s.move task new).notifyOne heir = some next) : Steps maxIdleTime s action next

/-- The locked section a task runs is one of the listed moves. -/
theorem runSection_steps {maxIdleTime task now : Nat} {s s' : System γ}
    (taken : s.runSection maxIdleTime task now = some s') :
    Steps maxIdleTime s (.lock task now) s' := by
  unfold runSection at taken
  split at taken
  case h_1 woken found =>
    split at taken
    case h_1 conn pool attempt =>
      cases taken
      exact .move found (.reuse attempt)
    case h_2 pool attempt =>
      cases taken
      exact .move found (.reserve attempt)
    case h_3 pool attempt =>
      cases taken
      exact .move found (.wait attempt)
  case h_2 found =>
    cases taken
    exact .move found .giveBack
  case h_3 found =>
    cases taken
    exact .move found .retry
  case h_4 found =>
    cases taken
    exact .move found .giveUp
  case h_5 conn found =>
    cases taken
    exact .move found .release
  case h_6 => cases taken

/-- A poll of `notified()` is one of the listed moves. -/
theorem pollNotified_steps {maxIdleTime task : Nat} {s s' : System γ}
    (taken : s.pollNotified task = some s') : Steps maxIdleTime s (.poll task) s' := by
  unfold pollNotified at taken
  split at taken
  case h_1 found =>
    split at taken
    case isTrue kept =>
      cases taken
      exact .move found (.consume kept)
    case isFalse none =>
      cases taken
      exact .move found (.register (by simpa using none))
  case h_2 found =>
    cases taken
    exact .move found .wake
  case h_3 => cases taken

/-- The loss of a future is one of the listed moves, or passes a wake-up on. -/
theorem cancelTask_steps {maxIdleTime task : Nat} {heir : Option Nat} {s s' : System γ}
    (taken : s.cancelTask task heir = some s') : Steps maxIdleTime s (.cancel task heir) s' := by
  unfold cancelTask at taken
  split at taken
  case h_1 found =>
    cases taken
    exact .move found .cancelCall
  case h_2 found =>
    cases taken
    exact .move found (.cancelSlot rfl)
  case h_3 found =>
    cases taken
    exact .move found (.cancelSlot rfl)
  case h_4 found =>
    cases taken
    exact .move found .cancelParked
  case h_5 found =>
    cases taken
    exact .move found .cancelRelocking
  case h_6 found =>
    cases taken
    exact .move found .cancelTimedOut
  case h_7 found => exact .send found .cancel taken
  case h_8 => cases taken

/-- An enabled action does one of the listed things. -/
theorem step_steps {maxIdleTime : Nat} {s s' : System γ} {action : Action γ}
    (taken : s.step maxIdleTime action = some s') : Steps maxIdleTime s action s' := by
  cases action with
  | call =>
    cases taken
    exact .call
  | lock task now => exact runSection_steps taken
  | poll task => exact pollNotified_steps taken
  | cancel task heir => exact cancelTask_steps taken
  | connected task client now =>
    simp only [step] at taken
    split at taken
    case h_1 found =>
      cases taken
      exact .move found .connected
    case h_2 => cases taken
  | refused task =>
    simp only [step] at taken
    split at taken
    case h_1 found =>
      cases taken
      exact .move found .refused
    case h_2 => cases taken
  | expire task heir =>
    simp only [step] at taken
    split at taken
    case h_1 found =>
      cases taken
      exact .move found .expire
    case h_2 found => exact .send found .expire taken
    case h_3 => cases taken
  | notify task heir =>
    simp only [step] at taken
    split at taken
    case h_1 found => exact .send found .notify taken
    case h_2 => cases taken
  | use task client =>
    simp only [step] at taken
    split at taken
    case h_1 conn found =>
      cases taken
      exact .move found .use
    case h_2 => cases taken
  | drop task =>
    simp only [step] at taken
    split at taken
    case h_1 conn found =>
      cases taken
      exact .move found .drop
    case h_2 => cases taken
  | markBroken task =>
    simp only [step] at taken
    split at taken
    case h_1 conn found =>
      cases taken
      exact .move found .markBroken
    case h_2 => cases taken

/-- What `notify_one` can do. -/
theorem notifyOne_cases {s s' : System γ} {heir : Option Nat} (sent : s.notifyOne heir = some s') :
    (∃ task, s.tasks[task]? = some .parked ∧ s' = s.move task .woken) ∨
    (s.tally Stage.isParked = 0 ∧ s' = { s with permit := true }) := by
  unfold notifyOne at sent
  split at sent
  case h_1 task =>
    split at sent
    case h_1 found =>
      cases sent
      exact .inl ⟨task, found, rfl⟩
    case h_2 => cases sent
  case h_2 =>
    split at sent
    case isTrue => cases sent
    case isFalse nobody =>
      cases sent
      right
      refine ⟨?_, rfl⟩
      rw [tally, List.countP_eq_zero]
      simpa using nobody

/-- A task that changes its stage changes the tallies of the two stages. -/
theorem tally_set {s : System γ} {task : Nat} {old : Stage γ} (found : s.tasks[task]? = some old)
    (p : Stage γ → Bool) (new : Stage γ) (pool : PoolState γ) (permit : Bool) :
    tally ⟨pool, permit, s.tasks.set task new⟩ p + (if p old then 1 else 0) =
      s.tally p + (if p new then 1 else 0) :=
  countP_set_add p found new

/-- A move that leaves pool and permit alone changes a tally by its own stages only. -/
theorem tally_move {s : System γ} {task : Nat} {old : Stage γ} (found : s.tasks[task]? = some old)
    (p : Stage γ → Bool) (new : Stage γ) :
    (s.move task new).tally p + (if p old then 1 else 0) = s.tally p + (if p new then 1 else 0) :=
  countP_set_add p found new

/-- A task at a stage is part of the tally of every kind the stage belongs to. -/
theorem tally_pos {s : System γ} {task : Nat} {stage : Stage γ}
    (found : s.tasks[task]? = some stage) {p : Stage γ → Bool} (kind : p stage = true) :
    0 < s.tally p :=
  countP_pos_of_getElem? found kind

/-- A new call stands before the lock of `try_acquire`. -/
theorem tally_call (s : System γ) (p : Stage γ → Bool) :
    tally { s with tasks := s.tasks ++ [.calling false] } p =
      s.tally p + (if p (.calling false) then 1 else 0) := by
  show (s.tasks ++ [Stage.calling false]).countP p = _
  rw [List.countP_append, List.countP_singleton]
  rfl

end System

end Harmonia.Pool
