import Harmonia.Pool.State

/-!
# The pool against its Dafny model

`pool.dfy` models the pool by four numbers. `Model.tryAcquire`, `Model.release` and
`Model.afterWait` are its functions. Each locked section of `pool.rs` is compared with them
through the map that forgets everything but the four numbers. The invariant that the Dafny
file proves of its functions holds of all sections, but only some of the sections are
transitions of the model: the model hands a released connection straight to a waiter and
makes acquiring after a wait one step, while the code returns every healthy connection to
the idle queue and lets the woken waiter compete for it.
-/

namespace Harmonia.Pool

variable {γ : Type}

/-- `PoolState` of `pool.dfy`. -/
structure Model where
  /-- Number of idle connections. -/
  idle : Nat
  /-- Number of active connections. -/
  active : Nat
  /-- Maximum total connections. -/
  capacity : Nat
  /-- Number of threads waiting. -/
  waiting : Nat
  deriving DecidableEq, Repr

namespace Model

/-- `Valid` of `pool.dfy`. -/
def Valid (s : Model) : Prop := s.active + s.idle ≤ s.capacity ∧ 0 < s.capacity

/-- `AcquireResult` of `pool.dfy`. -/
inductive AcquireResult where
  | success (connectionId : Nat)
  | waitRequired
  deriving DecidableEq, Repr

/-- `TryAcquire`. -/
def tryAcquire (s : Model) : AcquireResult × Model :=
  if 0 < s.idle then (.success s.active, ⟨s.idle - 1, s.active + 1, s.capacity, s.waiting⟩)
  else if s.active < s.capacity then
    (.success s.active, ⟨0, s.active + 1, s.capacity, s.waiting⟩)
  else (.waitRequired, ⟨s.idle, s.active, s.capacity, s.waiting + 1⟩)

/-- `Release`. -/
def release (s : Model) (notify : Bool) : Model :=
  if notify && decide (0 < s.waiting) then
    ⟨s.idle, s.active - 1, s.capacity, s.waiting - 1⟩
  else ⟨s.idle + 1, s.active - 1, s.capacity, 0⟩

/-- `AfterWait`. -/
def afterWait (s : Model) : Bool × Model :=
  if 0 < s.idle then (true, ⟨s.idle - 1, s.active + 1, s.capacity, s.waiting - 1⟩)
  else if s.active < s.capacity then
    (true, ⟨0, s.active + 1, s.capacity, s.waiting - 1⟩)
  else (false, s)

/-- The transitions of the model, each under its preconditions. -/
inductive Transition (s : Model) : Model → Prop where
  | tryAcquire (valid : s.Valid) : Transition s s.tryAcquire.2
  | release (valid : s.Valid) (active : 0 < s.active) :
      Transition s (s.release (decide (0 < s.waiting)))
  | afterWait (valid : s.Valid) (waiting : 0 < s.waiting) : Transition s s.afterWait.2

end Model

/-- The four numbers of a pool state. -/
def PoolState.abstract (s : PoolState γ) : Model :=
  ⟨s.idle.length, s.activeCount, s.capacity, s.waitingCount⟩

/-- The locked sections of the pool. -/
inductive Section (γ : Type) where
  /-- The locked part of `try_acquire`: expiry, then reuse, reservation or waiting. -/
  | tryAcquire (maxIdleTime now : Nat)
  /-- A failed creation. -/
  | creationFailed
  /-- A waiter wakes up or times out. -/
  | stopWaiting
  /-- The release of a healthy or, without a connection, a broken one. -/
  | release (conn : Option (PooledConnection γ)) (now : Nat)

/-- The state after a locked section. -/
def PoolState.after (s : PoolState γ) : Section γ → PoolState γ
  | .tryAcquire maxIdleTime now => (s.tryAcquire maxIdleTime now).2
  | .creationFailed => s.creationFailed
  | .stopWaiting => s.stopWaiting
  | .release conn now => s.release conn now

/-- A section moves the four numbers as a transition of the model does, or not at all. -/
def PoolState.Refines (s : PoolState γ) (part : Section γ) : Prop :=
  s.abstract.Transition (s.after part).abstract ∨ (s.after part).abstract = s.abstract

/-- The sections that the model covers: acquiring when expiry makes no difference to the
number of connections left idle, and the release of a healthy connection that nobody waits
for. The others are covered only where they have nothing to count. -/
def PoolState.Covers (s : PoolState γ) : Section γ → Prop
  | .tryAcquire maxIdleTime now => (s.retain maxIdleTime now).idle.length - 1 = s.idle.length - 1
  | .creationFailed => s.activeCount = 0
  | .stopWaiting => s.waitingCount = 0
  | .release conn _ => s.activeCount = 0 ∨ (conn.isSome = true ∧ s.waitingCount = 0)

/-- A transition that does not lower the number of active connections acquires, or waits. -/
theorem Model.Transition.of_acquire {s t : Model} (transition : s.Transition t)
    (more : s.active ≤ t.active) : t = s.tryAcquire.2 ∨ (0 < s.waiting ∧ t = s.afterWait.2) := by
  cases transition with
  | tryAcquire => exact .inl rfl
  | afterWait _ waiting => exact .inr ⟨waiting, rfl⟩
  | release _ active =>
    have fewer : (s.release (decide (0 < s.waiting))).active = s.active - 1 := by
      unfold Model.release
      split <;> rfl
    omega

/-- A transition that lowers the number of active connections is a release. -/
theorem Model.Transition.of_release {s t : Model} (transition : s.Transition t)
    (fewer : t.active < s.active) : t = s.release (decide (0 < s.waiting)) := by
  cases transition with
  | release => rfl
  | tryAcquire =>
    have more : s.active ≤ s.tryAcquire.2.active := by
      unfold Model.tryAcquire
      split
      · exact Nat.le_succ _
      · split
        · exact Nat.le_succ _
        · exact Nat.le_refl _
    omega
  | afterWait =>
    have more : s.active ≤ s.afterWait.2.active := by
      unfold Model.afterWait
      split
      · exact Nat.le_succ _
      · split
        · exact Nat.le_succ _
        · exact Nat.le_refl _
    omega

/-- `TryAcquire` with fewer idle connections is a transition exactly when the same number of
them is left. -/
theorem Model.tryAcquire_fewer {s : Model} (valid : s.Valid) {kept : Nat} (fewer : kept ≤ s.idle) :
    (s.Transition { s with idle := kept }.tryAcquire.2 ∨
      { s with idle := kept }.tryAcquire.2 = s) ↔ kept - 1 = s.idle - 1 := by
  have bound := valid.1
  have active : s.active ≤ { s with idle := kept }.tryAcquire.2.active := by
    simp only [Model.tryAcquire]
    split_ifs <;> simp
  constructor
  · intro either
    have same : { s with idle := kept }.tryAcquire.2 = s.tryAcquire.2 ∨
        (0 < s.waiting ∧ { s with idle := kept }.tryAcquire.2 = s.afterWait.2) ∨
        { s with idle := kept }.tryAcquire.2 = s := by
      cases either with
      | inl transition => exact or_assoc.mp (.inl (transition.of_acquire active))
      | inr unchanged => exact .inr (.inr unchanged)
    obtain ⟨idle, active, capacity, waiting⟩ := s
    simp only [Model.tryAcquire, Model.afterWait] at same fewer bound ⊢
    split_ifs at same <;> simp only [Model.mk.injEq] at same <;> omega
  · intro same
    left
    have equal : { s with idle := kept }.tryAcquire.2 = s.tryAcquire.2 := by
      obtain ⟨idle, active, capacity, waiting⟩ := s
      simp only [Model.tryAcquire] at same fewer bound ⊢
      split_ifs <;> simp only [Model.mk.injEq, and_true, true_and] <;> omega
    rw [equal]
    exact .tryAcquire valid

/-- The locked part of `try_acquire` is `TryAcquire` once expired connections are removed. -/
theorem tryAcquire_abstract (s : PoolState γ) (maxIdleTime now : Nat) :
    (s.tryAcquire maxIdleTime now).2.abstract =
      (s.retain maxIdleTime now).abstract.tryAcquire.2 := by
  have counts : (s.retain maxIdleTime now).abstract = ⟨(s.retain maxIdleTime now).idle.length,
    s.activeCount, s.capacity, s.waitingCount⟩ := rfl
  rw [counts]
  obtain ⟨conn, rest, kept, same⟩ | ⟨kept, room, same⟩ | ⟨kept, full, same⟩ :=
    s.tryAcquire_cases maxIdleTime now
  · rw [same, kept]
    simp [Model.tryAcquire, PoolState.abstract]
  · rw [same, kept]
    simp [Model.tryAcquire, PoolState.abstract, room]
  · rw [same, kept]
    simp [Model.tryAcquire, PoolState.abstract, Nat.not_lt.mpr full]

/-- A release that lowers the number of active connections by one is a transition of the
model exactly when it makes a connection idle and nobody waits. -/
theorem Model.release_iff {s : Model} (valid : s.Valid) (active : 0 < s.active) (returned : Nat) :
    (s.Transition ⟨s.idle + returned, s.active - 1, s.capacity, s.waiting⟩ ∨
      ⟨s.idle + returned, s.active - 1, s.capacity, s.waiting⟩ = s) ↔
        returned = 1 ∧ s.waiting = 0 := by
  constructor
  · intro either
    cases either with
    | inl transition =>
      have same := transition.of_release (show s.active - 1 < s.active by omega)
      unfold Model.release at same
      simp only [Bool.and_self, decide_eq_true_eq] at same
      split_ifs at same <;> simp only [Model.mk.injEq] at same <;> omega
    | inr unchanged =>
      have := congrArg Model.active unchanged
      simp only at this
      omega
  · rintro ⟨rfl, nobody⟩
    left
    have same : (⟨s.idle + 1, s.active - 1, s.capacity, s.waiting⟩ : Model) =
        s.release (decide (0 < s.waiting)) := by
      simp [Model.release, nobody]
    rw [same]
    exact .release valid active

/-- A waiter that stops waiting is not a transition of the model. -/
theorem Model.stopWaiting_iff {s : Model} :
    (s.Transition { s with waiting := s.waiting - 1 } ∨
      { s with waiting := s.waiting - 1 } = s) ↔ s.waiting = 0 := by
  constructor
  · intro either
    cases either with
    | inl transition =>
      have same := transition.of_acquire (Nat.le_refl _)
      obtain ⟨idle, active, capacity, waiting⟩ := s
      simp only [Model.tryAcquire, Model.afterWait] at same ⊢
      split_ifs at same <;> simp only [Model.mk.injEq] at same <;> omega
    | inr unchanged =>
      have := congrArg Model.waiting unchanged
      simp only at this
      omega
  · intro nobody
    right
    rw [nobody]
    cases s
    simp_all

/-- Which sections are transitions of the model. -/
theorem refines_iff_covers {s : PoolState γ} (valid : s.Valid) (part : Section γ) :
    s.Refines part ↔ s.Covers part := by
  cases part with
  | tryAcquire maxIdleTime now =>
    unfold PoolState.Refines
    show s.abstract.Transition (s.tryAcquire maxIdleTime now).2.abstract ∨
      (s.tryAcquire maxIdleTime now).2.abstract = s.abstract ↔ _
    rw [tryAcquire_abstract]
    exact Model.tryAcquire_fewer (show s.abstract.Valid from valid)
      (s.retain_shortens maxIdleTime now)
  | stopWaiting => exact Model.stopWaiting_iff
  | creationFailed =>
    by_cases counted : 0 < s.activeCount
    · have same := Model.release_iff (show s.abstract.Valid from valid) counted 0
      show _ ↔ s.activeCount = 0
      refine same.trans ?_
      omega
    · have none : s.activeCount = 0 := by omega
      have unchanged : (s.after .creationFailed).abstract = s.abstract := by
        simp [PoolState.after, PoolState.creationFailed, PoolState.abstract, none]
      exact iff_of_true (.inr unchanged) none
  | release conn now =>
    by_cases counted : 0 < s.activeCount
    · have same := Model.release_iff (show s.abstract.Valid from valid) counted
        (if conn.isSome then 1 else 0)
      have moved : (s.after (.release conn now)).abstract = ⟨s.idle.length +
          (if conn.isSome then 1 else 0), s.activeCount - 1, s.capacity, s.waitingCount⟩ := by
        show (s.release conn now).abstract = _
        rw [PoolState.release_counted counted]
        cases conn <;> simp [PoolState.abstract]
      unfold PoolState.Refines
      rw [moved]
      refine same.trans ?_
      show _ ↔ s.activeCount = 0 ∨ (conn.isSome = true ∧ s.waitingCount = 0)
      have waiting : s.abstract.waiting = s.waitingCount := rfl
      rw [waiting]
      cases conn <;> simp <;> omega
    · have none : s.activeCount = 0 := by omega
      have unchanged : (s.after (.release conn now)).abstract = s.abstract := by
        show (s.release conn now).abstract = _
        rw [PoolState.release_uncounted none]
      exact iff_of_true (.inr unchanged) (.inl none)

/-- A wake-up followed by its retry is `AfterWait` once expired connections are removed. -/
theorem retry_abstract {s : PoolState γ} (waits : 0 < s.waitingCount) (maxIdleTime now : Nat) :
    (s.stopWaiting.tryAcquire maxIdleTime now).2.abstract =
      (s.retain maxIdleTime now).abstract.afterWait.2 := by
  have counts : (s.stopWaiting.retain maxIdleTime now).abstract =
    ⟨(s.retain maxIdleTime now).idle.length, s.activeCount, s.capacity, s.waitingCount - 1⟩ := rfl
  have before : (s.retain maxIdleTime now).abstract =
    ⟨(s.retain maxIdleTime now).idle.length, s.activeCount, s.capacity, s.waitingCount⟩ := rfl
  rw [tryAcquire_abstract, counts, before]
  simp only [Model.tryAcquire, Model.afterWait]
  split_ifs with idle room
  · rfl
  · rfl
  · simp only [Model.mk.injEq, true_and]
    omega

/-- Every section keeps the invariant and the capacity. -/
theorem after_valid {s : PoolState γ} (valid : s.Valid) (part : Section γ) :
    (s.after part).Valid ∧ (s.after part).capacity = s.capacity := by
  cases part with
  | tryAcquire maxIdleTime now =>
    exact ⟨PoolState.tryAcquire_valid valid rfl, (PoolState.tryAcquire_counts rfl).2.2⟩
  | creationFailed => exact ⟨PoolState.creationFailed_valid valid, rfl⟩
  | stopWaiting => exact ⟨PoolState.stopWaiting_valid valid, rfl⟩
  | release conn now =>
    exact ⟨PoolState.release_valid valid conn now, (s.release_waitingCount conn now).2⟩

/-- The pool against `pool.dfy`. Acquiring is `TryAcquire` after expiry, and a wake-up with its
retry is `AfterWait` after expiry. A single section is a transition of the model, or leaves
its numbers alone, exactly in the cases of `Covers`. Every section keeps the invariant. -/
theorem sections_against_model {s : PoolState γ} (valid : s.Valid) :
    (∀ maxIdleTime now, (s.after (.tryAcquire maxIdleTime now)).abstract =
      (s.retain maxIdleTime now).abstract.tryAcquire.2) ∧
    (∀ maxIdleTime now, 0 < s.waitingCount →
      ((s.after .stopWaiting).after (.tryAcquire maxIdleTime now)).abstract =
        (s.retain maxIdleTime now).abstract.afterWait.2) ∧
    (∀ part, s.Refines part ↔ s.Covers part) ∧
    (∀ part, (s.after part).Valid ∧ (s.after part).capacity = s.capacity) := by
  refine ⟨?_, ?_, ?_, ?_⟩
  · intro maxIdleTime now
    exact tryAcquire_abstract s maxIdleTime now
  · intro maxIdleTime now waits
    exact retry_abstract waits maxIdleTime now
  · intro part
    exact refines_iff_covers valid part
  · intro part
    exact after_valid valid part

/-- A pool whose only connection is in use while a call waits for it. -/
def contended : PoolState Unit := ⟨[], 1, 1, 1⟩

/-- The result at the contended pool. -/
theorem sections_against_model_contended :
    contended.Valid ∧ (∀ part, contended.Refines part ↔ contended.Covers part) :=
  ⟨by decide, (sections_against_model (by decide)).2.2.1⟩

/-- Returning a healthy connection while a call waits: the code makes it idle and leaves the
waiter counted, the model hands it over. No transition of the model does what the code does. -/
theorem contended_release_not_refined :
    contended.Valid ∧
      (contended.after (.release (some ⟨(), 0⟩) 1)).abstract = ⟨1, 0, 1, 1⟩ ∧
      contended.abstract.release true = ⟨0, 0, 1, 0⟩ ∧
      ¬ contended.Refines (.release (some ⟨(), 0⟩) 1) := by
  refine ⟨by decide, by decide, by decide, ?_⟩
  rw [refines_iff_covers (by decide)]
  simp [PoolState.Covers, contended]

end Harmonia.Pool
