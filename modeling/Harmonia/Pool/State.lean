import Harmonia.Io.Poll

/-!
# The state of the connection pool

`PoolState` and the sections of `pool.rs` that run while its lock is held. No section waits
while it holds the lock, so each is one function of the state. `saturating_sub` on a
`usize` is subtraction on `Nat`; times are readings of one clock.
-/

namespace Harmonia.Pool

variable {γ : Type}

/-- `PooledConnection`, over the type of its client. -/
structure PooledConnection (γ : Type) where
  /-- The client that owns the socket. -/
  client : γ
  /-- When the connection was last handed out or returned. -/
  lastUsed : Nat
  deriving DecidableEq, Repr

/-- `PooledConnection::is_expired` at a reading of the clock. -/
def PooledConnection.isExpired (conn : PooledConnection γ) (maxIdleTime now : Nat) : Bool :=
  decide (maxIdleTime < now - conn.lastUsed)

/-- `PoolState`. -/
structure PoolState (γ : Type) where
  /-- Idle connections available for reuse. -/
  idle : List (PooledConnection γ)
  /-- Count of connections currently in use. -/
  activeCount : Nat
  /-- Maximum pool capacity. -/
  capacity : Nat
  /-- Count of tasks waiting for a connection. -/
  waitingCount : Nat
  deriving DecidableEq, Repr

/-- What the locked part of `try_acquire` decides. -/
inductive Attempt (γ : Type) where
  /-- An idle connection is taken. -/
  | reused (conn : PooledConnection γ)
  /-- A slot is reserved; the connection is made after the lock is released. -/
  | reserved
  /-- `AcquireResult::WaitRequired`. -/
  | waitRequired
  deriving DecidableEq, Repr

/-- The slots an attempt takes. -/
def Attempt.slots : Attempt γ → Nat
  | .reused _ | .reserved => 1
  | .waitRequired => 0

/-- The waiters an attempt adds. -/
def Attempt.waiters : Attempt γ → Nat
  | .reused _ | .reserved => 0
  | .waitRequired => 1

namespace PoolState

/-- `ConnectionPool::new`: the state of a pool of some size. -/
def new (maxSize : Nat) : PoolState γ := ⟨[], 0, maxSize, 0⟩

/-- `PoolState::invariant`. -/
def Valid (s : PoolState γ) : Prop := s.activeCount + s.idle.length ≤ s.capacity ∧ 0 < s.capacity

instance (s : PoolState γ) : Decidable s.Valid := inferInstanceAs (Decidable (_ ∧ _))

/-- `state.idle.retain(|conn| !conn.is_expired(max_idle))`. -/
def retain (s : PoolState γ) (maxIdleTime now : Nat) : PoolState γ :=
  { s with idle := s.idle.filter fun conn => !conn.isExpired maxIdleTime now }

/-- The part of `try_acquire` after expired connections are removed. -/
def take (s : PoolState γ) (now : Nat) : Attempt γ × PoolState γ :=
  match s.idle with
  | conn :: rest =>
    (.reused { conn with lastUsed := now },
      { s with idle := rest, activeCount := s.activeCount + 1 })
  | [] =>
    if s.activeCount < s.capacity then
      (.reserved, { s with activeCount := s.activeCount + 1 })
    else
      (.waitRequired, { s with waitingCount := s.waitingCount + 1 })

/-- The locked part of `try_acquire`. -/
def tryAcquire (s : PoolState γ) (maxIdleTime now : Nat) : Attempt γ × PoolState γ :=
  (s.retain maxIdleTime now).take now

/-- The locked part of `try_acquire` after `create_connection` failed. -/
def creationFailed (s : PoolState γ) : PoolState γ :=
  { s with activeCount := s.activeCount - 1 }

/-- The locked part of `acquire` after a wake-up and after a timeout. -/
def stopWaiting (s : PoolState γ) : PoolState γ :=
  { s with waitingCount := s.waitingCount - 1 }

/-- The locked part of the task that `Drop for PooledConnectionGuard` spawns: `conn` is
`none` for a connection marked broken. -/
def release (s : PoolState γ) (conn : Option (PooledConnection γ)) (now : Nat) : PoolState γ :=
  match conn with
  | some conn =>
    if 0 < s.activeCount then
      { s with
        activeCount := s.activeCount - 1
        idle := s.idle ++ [{ conn with lastUsed := now }] }
    else s
  | none =>
    if 0 < s.activeCount then { s with activeCount := s.activeCount - 1 } else s

/-- Removing expired connections changes the idle queue only, and only shortens it. -/
theorem retain_shortens (s : PoolState γ) (maxIdleTime now : Nat) :
    (s.retain maxIdleTime now).idle.length ≤ s.idle.length := by
  exact List.length_filter_le _ _

/-- What the locked part of `try_acquire` can do. -/
theorem tryAcquire_cases (s : PoolState γ) (maxIdleTime now : Nat) :
    (∃ conn rest, (s.retain maxIdleTime now).idle = conn :: rest ∧
      s.tryAcquire maxIdleTime now = (.reused { conn with lastUsed := now },
        { s with idle := rest, activeCount := s.activeCount + 1 })) ∨
    ((s.retain maxIdleTime now).idle = [] ∧ s.activeCount < s.capacity ∧
      s.tryAcquire maxIdleTime now =
        (.reserved, { s with idle := [], activeCount := s.activeCount + 1 })) ∨
    ((s.retain maxIdleTime now).idle = [] ∧ s.capacity ≤ s.activeCount ∧
      s.tryAcquire maxIdleTime now =
        (.waitRequired, { s with idle := [], waitingCount := s.waitingCount + 1 })) := by
  unfold tryAcquire take
  cases kept : (s.retain maxIdleTime now).idle with
  | cons conn rest =>
    left
    exact ⟨conn, rest, rfl, rfl⟩
  | nil =>
    right
    have emptied : s.retain maxIdleTime now = { s with idle := [] } := by
      rw [← kept]
      rfl
    by_cases room : s.activeCount < s.capacity
    · left
      refine ⟨rfl, room, ?_⟩
      rw [emptied]
      exact if_pos room
    · right
      refine ⟨rfl, Nat.le_of_not_lt room, ?_⟩
      rw [emptied]
      exact if_neg room

/-- The locked part of `try_acquire` counts a slot when it succeeds and a waiter when it
does not. -/
theorem tryAcquire_counts {s pool : PoolState γ} {maxIdleTime now : Nat} {attempt : Attempt γ}
    (taken : s.tryAcquire maxIdleTime now = (attempt, pool)) :
    pool.activeCount = s.activeCount + attempt.slots ∧
      pool.waitingCount = s.waitingCount + attempt.waiters ∧ pool.capacity = s.capacity := by
  obtain ⟨conn, rest, _, same⟩ | ⟨_, _, same⟩ | ⟨_, _, same⟩ :=
    s.tryAcquire_cases maxIdleTime now
  all_goals
    rw [taken] at same
    cases same
    exact ⟨rfl, rfl, rfl⟩

/-- A call is made to wait only when every slot is in use. -/
theorem tryAcquire_full {s pool : PoolState γ} {maxIdleTime now : Nat}
    (taken : s.tryAcquire maxIdleTime now = (.waitRequired, pool)) :
    s.capacity ≤ s.activeCount := by
  obtain ⟨conn, rest, _, same⟩ | ⟨_, _, same⟩ | ⟨_, full, _⟩ :=
    s.tryAcquire_cases maxIdleTime now
  · rw [taken] at same
    cases same
  · rw [taken] at same
    cases same
  · exact full

/-- The locked part of `try_acquire` keeps the invariant. -/
theorem tryAcquire_valid {s pool : PoolState γ} {maxIdleTime now : Nat} {attempt : Attempt γ}
    (valid : s.Valid) (taken : s.tryAcquire maxIdleTime now = (attempt, pool)) : pool.Valid := by
  have shorter := s.retain_shortens maxIdleTime now
  obtain ⟨conn, rest, kept, same⟩ | ⟨_, room, same⟩ | ⟨_, _, same⟩ :=
    s.tryAcquire_cases maxIdleTime now
  · rw [taken] at same
    cases same
    rw [kept] at shorter
    simp only [Valid, List.length_cons] at valid shorter ⊢
    omega
  · rw [taken] at same
    cases same
    simp only [Valid, List.length_nil] at valid ⊢
    omega
  · rw [taken] at same
    cases same
    simp only [Valid, List.length_nil] at valid ⊢
    omega

/-- A failed creation keeps the invariant. -/
theorem creationFailed_valid {s : PoolState γ} (valid : s.Valid) : s.creationFailed.Valid := by
  simp only [Valid, creationFailed] at valid ⊢
  omega

/-- The end of a wait keeps the invariant. -/
theorem stopWaiting_valid {s : PoolState γ} (valid : s.Valid) : s.stopWaiting.Valid := valid

/-- What a release does while a connection is counted as in use. -/
theorem release_counted {s : PoolState γ} (counted : 0 < s.activeCount)
    (conn : Option (PooledConnection γ)) (now : Nat) :
    s.release conn now = { s with
      activeCount := s.activeCount - 1
      idle := s.idle ++ (conn.map fun conn => { conn with lastUsed := now }).toList } := by
  cases conn with
  | some conn => exact if_pos counted
  | none =>
    rw [Option.map_none, Option.toList_none, List.append_nil]
    exact if_pos counted

/-- A release while no connection is counted as in use does nothing. -/
theorem release_uncounted {s : PoolState γ} (none : s.activeCount = 0)
    (conn : Option (PooledConnection γ)) (now : Nat) : s.release conn now = s := by
  have not : ¬ 0 < s.activeCount := by omega
  cases conn with
  | some conn => exact if_neg not
  | none => exact if_neg not

/-- A release leaves the waiters and the capacity as they are. -/
theorem release_waitingCount (s : PoolState γ) (conn : Option (PooledConnection γ)) (now : Nat) :
    (s.release conn now).waitingCount = s.waitingCount ∧
      (s.release conn now).capacity = s.capacity := by
  by_cases counted : 0 < s.activeCount
  · rw [release_counted counted]
    exact ⟨rfl, rfl⟩
  · rw [release_uncounted (by omega)]
    exact ⟨rfl, rfl⟩

/-- A release keeps the invariant. -/
theorem release_valid {s : PoolState γ} (valid : s.Valid) (conn : Option (PooledConnection γ))
    (now : Nat) : (s.release conn now).Valid := by
  by_cases counted : 0 < s.activeCount
  · rw [release_counted counted]
    simp only [Valid, List.length_append] at valid ⊢
    have one : (conn.map fun conn => { conn with lastUsed := now }).toList.length ≤ 1 := by
      cases conn <;> simp
    omega
  · rw [release_uncounted (by omega)]
    exact valid

end PoolState

end Harmonia.Pool
