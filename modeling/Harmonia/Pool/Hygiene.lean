import Harmonia.Pool.System

/-!
# Idle connections and the requests made over them

The holder of a guard makes requests over its client. A request future writes the operation
and its argument, flushes, reads log messages up to `Last` or `Error`, and after `Last` reads
the result. It may also end in an I/O or decoding error, and it may be dropped at any await
point. The callers in `harmonia-cache` then leave through `?` or with their own future, which
drops the guard. `Drop for PooledConnectionGuard` returns every connection that was not
marked broken, so the client that reaches the idle queue stands wherever its request stood.
-/

namespace Harmonia.Pool

open Library

/-- The requests that `harmonia-cache` makes. -/
inductive Query where
  | isValidPath
  | queryPathInfo
  | queryPathFromHashPart
  deriving DecidableEq, Repr

/-- The values a request writes: the operation and its argument. -/
def Query.writes : Query → Nat
  | .isValidPath | .queryPathInfo | .queryPathFromHashPart => 2

/-- Where the request that last used a client stands. -/
inductive Phase where
  /-- Its response was read completely, or there was no request. -/
  | between
  /-- Values of the request are still to be written. -/
  | writing (left : Nat)
  /-- The request is written; `flush` is awaited. -/
  | flushing
  /-- Log messages are read. -/
  | logs
  /-- `Last` was read; the result is awaited. -/
  | value
  /-- The future ended with an I/O or decoding error. -/
  | stopped
  deriving DecidableEq, Repr

/-- A client as its connection knows it. Responses come in the order of the requests: the
next one to be read belongs to request number `answered` of `asked`. -/
structure Client where
  /-- The requests begun so far, each under the task that began it. -/
  asked : List Nat
  /-- The responses read completely. -/
  answered : Nat
  /-- Where the last request stands. -/
  phase : Phase
  /-- Whether an I/O or decoding error has occurred. -/
  faulted : Bool
  deriving DecidableEq, Repr

/-- What a request future does between two await points. -/
inductive Progress where
  /-- A request is made. -/
  | ask (query : Query)
  /-- A `write_value` completes. -/
  | wrote
  /-- `flush` completes. -/
  | flushed
  /-- A log message is read. -/
  | log
  /-- `Last` is read. -/
  | last
  /-- `Error` is read: the request fails with a remote error. -/
  | error
  /-- The result is read. -/
  | result
  /-- A read or a write fails, or what was read does not decode. -/
  | fault
  deriving DecidableEq, Repr

namespace Client

/-- The client that `create_connection` returns after the handshake. -/
def fresh : Client := ⟨[], 0, .between, false⟩

/-- At a request boundary: every request written completely, its response read completely,
and no I/O or decoding error. -/
structure AtBoundary (c : Client) : Prop where
  between : c.phase = .between
  answered : c.answered = c.asked.length
  clean : c.faulted = false

instance (c : Client) : Decidable c.AtBoundary :=
  decidable_of_iff (c.phase = .between ∧ c.answered = c.asked.length ∧ c.faulted = false)
    ⟨fun all => ⟨all.1, all.2.1, all.2.2⟩, fun all => ⟨all.between, all.answered, all.clean⟩⟩

/-- Reading a response. -/
def reading (c : Client) : Bool := decide (c.phase = .logs) || decide (c.phase = .value)

/-- The task whose request the next response belongs to. -/
def responseOf (c : Client) : Option Nat := c.asked[c.answered]?

/-- The number of the request whose future runs: the last one begun. -/
def current (c : Client) : Nat := c.asked.length - 1

/-- One stretch of a request future of a task. A task whose own request did not complete does
not make another one over the same guard. -/
def advance (c : Client) (task : Nat) : Progress → Option Client
  | .ask query =>
    if c.phase = .between ∨ c.asked.getLast? ≠ some task then
      some { c with asked := c.asked ++ [task], phase := .writing query.writes }
    else none
  | .wrote =>
    match c.phase with
    | .writing (left + 1) =>
      some { c with phase := if left = 0 then .flushing else .writing left }
    | _ => none
  | .flushed => if c.phase = .flushing then some { c with phase := .logs } else none
  | .log => if c.phase = .logs then some c else none
  | .last => if c.phase = .logs then some { c with phase := .value } else none
  | .error =>
    if c.phase = .logs then some { c with phase := .between, answered := c.answered + 1 } else none
  | .result =>
    if c.phase = .value then some { c with phase := .between, answered := c.answered + 1 } else none
  | .fault =>
    if c.phase = .between ∨ c.phase = .stopped then none
    else some { c with phase := .stopped, faulted := true }

/-- A task's own request is the only one without a complete response. -/
structure Busy (c : Client) (task : Nat) : Prop where
  running : c.phase ≠ .between
  own : c.asked.getLast? = some task
  only : c.answered + 1 = c.asked.length
  clean : c.phase ≠ .stopped → c.faulted = false

/-- A client that a task can have in its hands. -/
def Held (c : Client) (task : Nat) : Prop := c.AtBoundary ∨ c.Busy task

/-- A request that has not failed goes on. -/
theorem Busy.goesOn {c : Client} {task : Nat} (busy : c.Busy task) (alive : c.phase ≠ .stopped)
    {phase : Phase} (running : phase ≠ .between) : ({ c with phase := phase } : Client).Busy task :=
  ⟨running, busy.own, busy.only, fun _ => busy.clean alive⟩

/-- A request that has not failed and reads the end of its response leaves the client at a
boundary. -/
theorem Busy.completes {c : Client} {task : Nat} (busy : c.Busy task)
    (alive : c.phase ≠ .stopped) :
    ({ c with phase := .between, answered := c.answered + 1 } : Client).AtBoundary :=
  ⟨rfl, busy.only, busy.clean alive⟩

/-- A held client that is not between two requests is busy with one of its holder. -/
theorem Held.busy {c : Client} {task : Nat} (held : c.Held task) (running : c.phase ≠ .between) :
    c.Busy task := by
  cases held with
  | inl idle => exact absurd idle.between running
  | inr busy => exact busy

/-- A stretch of a request keeps a client in the hands of its task in order. -/
theorem Held.advance {c c' : Client} {task : Nat} {progress : Progress} (held : c.Held task)
    (taken : c.advance task progress = some c') : c'.Held task := by
  cases progress with
  | ask query =>
    simp only [Client.advance] at taken
    split at taken
    case isFalse => cases taken
    case isTrue may =>
      cases taken
      have idle : c.AtBoundary := by
        cases held with
        | inl idle => exact idle
        | inr busy =>
          cases may with
          | inl between => exact absurd between busy.running
          | inr other => exact absurd busy.own other
      right
      constructor
      · intro between
        cases between
      · exact List.getLast?_concat
      · show c.answered + 1 = (c.asked ++ [task]).length
        rw [idle.answered, List.length_append]
        rfl
      · intro _
        exact idle.clean
  | wrote =>
    simp only [Client.advance] at taken
    split at taken
    case h_2 => cases taken
    case h_1 left phase =>
      cases taken
      have running : c.phase ≠ .between := by
        rw [phase]
        intro between
        cases between
      right
      apply (held.busy running).goesOn
      · rw [phase]
        intro stopped
        cases stopped
      · split <;> intro between <;> cases between
  | flushed | last =>
    simp only [Client.advance] at taken
    split at taken
    case isFalse => cases taken
    case isTrue phase =>
      cases taken
      right
      apply (held.busy (by rw [phase]; decide)).goesOn
      · rw [phase]
        decide
      · decide
  | log =>
    simp only [Client.advance] at taken
    split at taken
    case isFalse => cases taken
    case isTrue => cases taken; exact held
  | error | result =>
    simp only [Client.advance] at taken
    split at taken
    case isFalse => cases taken
    case isTrue phase =>
      cases taken
      left
      apply (held.busy (by rw [phase]; decide)).completes
      rw [phase]
      decide
  | fault =>
    simp only [Client.advance] at taken
    split at taken
    case isTrue => cases taken
    case isFalse running =>
      cases taken
      have busy := held.busy (fun between => running (.inl between))
      right
      constructor
      · intro between
        cases between
      · exact busy.own
      · exact busy.only
      · intro alive
        exact absurd rfl alive

/-- The response a held client reads belongs to the request that runs, and its holder made
that request. -/
theorem Held.reads {c : Client} {task : Nat} (held : c.Held task) (reading : c.reading = true) :
    c.answered = c.current ∧ c.responseOf = some task := by
  have busy : c.Busy task := by
    apply held.busy
    intro between
    rw [Client.reading, between] at reading
    cases reading
  have next : c.answered = c.current := by
    have only := busy.only
    unfold current
    omega
  refine ⟨next, ?_⟩
  rw [Client.responseOf, next, current, ← List.getLast?_eq_getElem?]
  exact busy.own

end Client

/-- What can happen next in a pool whose guards make requests. -/
inductive Event where
  /-- An action of the pool and its tasks. -/
  | pool (action : Action Client)
  /-- A stretch of the request that a task makes over its guard. -/
  | request (task : Nat) (progress : Progress)
  deriving DecidableEq, Repr

namespace System

/-- One event, when it is enabled: new connections are fresh, and a client changes only by the
requests made over it. -/
def happen (maxIdleTime : Nat) (s : System Client) : Event → Option (System Client)
  | .pool (.use _ _) => none
  | .pool (.connected task client now) =>
    if client = .fresh then s.step maxIdleTime (.connected task client now) else none
  | .pool action => s.step maxIdleTime action
  | .request task progress =>
    match s.tasks[task]? with
    | some (.holding conn) =>
      match conn.client.advance task progress with
      | some client => s.step maxIdleTime (.use task client)
      | none => none
    | _ => none

/-- Idle connections are at a request boundary, and nobody reads a response that belongs to
another request. -/
structure Hygienic (s : System Client) : Prop where
  idle : ∀ conn ∈ s.pool.idle, conn.client.AtBoundary
  own : ∀ (task : Nat) conn, s.tasks[task]? = some (Stage.holding conn) →
    conn.client.reading = true →
    conn.client.answered = conn.client.current ∧ conn.client.responseOf = some task

/-- The event drops a guard without `mark_broken` while its request has no complete response
or after an I/O or decoding error. -/
def dropsUnfinished (s : System Client) : Event → Bool
  | .pool (.drop task) =>
    match s.tasks[task]? with
    | some (.holding conn) => !decide conn.client.AtBoundary
    | _ => false
  | _ => false

/-- What a task's stage may contain. -/
def Fit (task : Nat) : Stage Client → Prop
  | .holding conn => conn.client.Held task
  | .releasing (some conn) => conn.client.AtBoundary
  | _ => True

/-- The invariant behind `Hygienic`. -/
structure Orderly (s : System Client) : Prop where
  idle : ∀ conn ∈ s.pool.idle, conn.client.AtBoundary
  tasks : ∀ (task : Nat) (stage : Stage Client), s.tasks[task]? = some stage → Fit task stage

/-- The invariant gives hygiene. -/
theorem Orderly.hygienic {s : System Client} (orderly : s.Orderly) : s.Hygienic := by
  constructor
  · exact orderly.idle
  · intro task conn found reading
    exact (orderly.tasks task _ found).reads reading

/-- Replacing the stage of one task by a fitting one keeps every task fitting. -/
theorem Orderly.set {s : System Client} (orderly : s.Orderly) {task : Nat} {new : Stage Client}
    (fit : Fit task new) (other : Nat) (stage : Stage Client)
    (found : (s.tasks.set task new)[other]? = some stage) : Fit other stage := by
  rw [List.getElem?_set] at found
  split at found
  case isTrue same =>
    subst same
    split at found
    case isTrue => cases found; exact fit
    case isFalse => cases found
  case isFalse => exact orderly.tasks other stage found

/-- What `try_acquire` leaves in the idle queue was there before. -/
theorem tryAcquire_idle {s pool : PoolState Client} {maxIdleTime now : Nat}
    {attempt : Attempt Client} (taken : s.tryAcquire maxIdleTime now = (attempt, pool)) :
    (∀ conn ∈ pool.idle, conn ∈ s.idle) ∧
      ∀ conn, attempt = .reused conn → ∃ old ∈ s.idle, conn.client = old.client := by
  have kept : ∀ conn ∈ (s.retain maxIdleTime now).idle, conn ∈ s.idle := by
    intro conn member
    exact List.mem_of_mem_filter member
  obtain ⟨first, rest, found, same⟩ | ⟨_, _, same⟩ | ⟨_, _, same⟩ :=
    s.tryAcquire_cases maxIdleTime now
  · rw [taken] at same
    cases same
    rw [found] at kept
    constructor
    · intro conn member
      exact kept conn (List.mem_cons_of_mem _ member)
    · intro conn reused
      cases reused
      exact ⟨first, kept first List.mem_cons_self, rfl⟩
  all_goals
    rw [taken] at same
    cases same
    constructor
    · intro conn member
      cases member
    · intro conn reused
      cases reused

/-- A release adds at most the connection it returns. -/
theorem release_idle {s : PoolState Client} {conn : Option (PooledConnection Client)} {now : Nat}
    (idle : ∀ conn ∈ s.idle, conn.client.AtBoundary)
    (returned : ∀ c, conn = some c → c.client.AtBoundary) :
    ∀ c ∈ (s.release conn now).idle, c.client.AtBoundary := by
  by_cases counted : 0 < s.activeCount
  · rw [PoolState.release_counted counted]
    intro c member
    rw [List.mem_append] at member
    cases member with
    | inl old => exact idle c old
    | inr new =>
      cases conn with
      | none => cases new
      | some conn =>
        rw [Option.map_some, Option.toList_some, List.mem_singleton] at new
        subst new
        exact returned conn rfl
  · rw [PoolState.release_uncounted (by omega)]
    exact idle

/-- Sending a wake-up keeps the invariant. -/
theorem Orderly.notifyOne {s s' : System Client} {heir : Option Nat} (orderly : s.Orderly)
    (sent : s.notifyOne heir = some s') : s'.Orderly := by
  obtain ⟨task, _, rfl⟩ | ⟨_, rfl⟩ := notifyOne_cases sent
  · exact ⟨orderly.idle, orderly.set trivial⟩
  · exact ⟨orderly.idle, orderly.tasks⟩

/-- A pool action keeps the invariant when new and used clients are in order and a guard is
dropped only at a boundary. -/
theorem Orderly.steps {maxIdleTime : Nat} {s s' : System Client} {action : Action Client}
    (orderly : s.Orderly) (steps : Steps maxIdleTime s action s')
    (connects : ∀ task client now, action = .connected task client now → client.AtBoundary)
    (uses : ∀ task client, action = .use task client → client.Held task)
    (drops : s.dropsUnfinished (.pool action) = false) : s'.Orderly := by
  cases steps with
  | call =>
    refine ⟨orderly.idle, ?_⟩
    intro task stage found
    rw [List.getElem?_append] at found
    split at found
    · exact orderly.tasks task stage found
    · rw [List.getElem?_singleton] at found
      split at found <;> cases found
      trivial
  | send found sends sent =>
    apply Orderly.notifyOne _ sent
    refine ⟨orderly.idle, orderly.set ?_⟩
    cases sends <;> trivial
  | @move _ task old new pool permit found moves =>
    have before := orderly.tasks task old found
    cases moves with
    | reuse taken =>
      obtain ⟨kept, reused⟩ := tryAcquire_idle taken
      obtain ⟨first, member, same⟩ := reused _ rfl
      refine ⟨fun conn idle => orderly.idle conn (kept conn idle), orderly.set ?_⟩
      left
      rw [same]
      exact orderly.idle first member
    | reserve taken | wait taken =>
      have kept := (tryAcquire_idle taken).1
      exact ⟨fun conn idle => orderly.idle conn (kept conn idle), orderly.set trivial⟩
    | @release now conn =>
      constructor
      · apply release_idle orderly.idle
        intro c same
        subst same
        exact before
      · apply orderly.set
        split <;> trivial
    | connected =>
      refine ⟨orderly.idle, orderly.set ?_⟩
      left
      exact connects _ _ _ rfl
    | use =>
      refine ⟨orderly.idle, orderly.set ?_⟩
      exact uses _ _ rfl
    | @drop conn =>
      refine ⟨orderly.idle, orderly.set ?_⟩
      show conn.client.AtBoundary
      simpa only [dropsUnfinished, found, Bool.not_eq_false', decide_eq_true_eq] using drops
    | _ => exact ⟨orderly.idle, orderly.set trivial⟩

/-- An event that drops no unfinished guard keeps the invariant. -/
theorem Orderly.happen {maxIdleTime : Nat} {s s' : System Client} {event : Event}
    (orderly : s.Orderly) (finished : s.dropsUnfinished event = false)
    (taken : s.happen maxIdleTime event = some s') : s'.Orderly := by
  unfold System.happen at taken
  split at taken
  case h_1 => cases taken
  case h_2 task client now =>
    split at taken
    case isFalse => cases taken
    case isTrue new =>
      apply orderly.steps (step_steps taken) _ _ finished
      · intro _ _ _ same
        cases same
        rw [new]
        decide
      · intro _ _ same
        cases same
  case h_3 action noUse noConnect =>
    apply orderly.steps (step_steps taken) _ _ finished
    · intro task client now same
      exact absurd same (noConnect task client now)
    · intro task client same
      exact absurd same (noUse task client)
  case h_4 task progress =>
    split at taken
    case h_2 => cases taken
    case h_1 conn found =>
      split at taken
      case h_2 => cases taken
      case h_1 client advanced =>
        apply orderly.steps (step_steps taken) _ _ rfl
        · intro _ _ _ same
          cases same
        · intro _ _ same
          cases same
          exact Client.Held.advance (orderly.tasks task _ found) advanced

/-- In every run in which no guard is dropped, without being marked broken, while its request
is unfinished or has met an I/O or decoding error, every idle connection is at a request
boundary and nobody reads a response that belongs to another request. -/
theorem hygienic_of_no_unfinished_drop (maxSize maxIdleTime : Nat) (events : List Event)
    (finished : Abides (happen maxIdleTime) (fun s event => s.dropsUnfinished event = false)
      (new maxSize) events) :
    Always (happen maxIdleTime) Hygienic (new maxSize) events := by
  have start : (new maxSize : System Client).Orderly := by
    constructor
    · intro conn member
      cases member
    · intro task stage found
      cases found
  have orderly : Always (happen maxIdleTime) Orderly (new maxSize) events := by
    refine Abides.always ?_ start finished
    intro s event s' before allowed taken
    exact before.happen allowed taken
  intro before after final split reached
  exact (orderly before after final split reached).hygienic

/-- Two calls share one connection: the first request completes, the second fails with a
remote error, and a third meets an I/O error and has its guard marked broken. -/
def shared : List Event :=
  [.pool .call, .pool (.lock 0 0), .pool (.connected 0 .fresh 1), .request 0 (.ask .queryPathInfo),
    .request 0 .wrote, .request 0 .wrote, .request 0 .flushed, .request 0 .log, .request 0 .last,
    .request 0 .result, .pool (.drop 0), .pool (.lock 0 2), .pool .call, .pool (.lock 1 3),
    .request 1 (.ask .isValidPath), .request 1 .wrote, .request 1 .wrote, .request 1 .flushed,
    .request 1 .error, .pool (.drop 1), .pool (.lock 1 4), .pool .call, .pool (.lock 2 5),
    .request 2 (.ask .queryPathFromHashPart), .request 2 .wrote, .request 2 .fault,
    .pool (.markBroken 2), .pool (.lock 2 6)]

/-- Hygiene holds throughout `shared`, which is a run to its end. -/
theorem hygienic_shared :
    (run (happen 300) (new 1) shared).isSome = true ∧
      Always (happen 300) Hygienic (new 1) shared := by
  constructor
  · decide
  · apply hygienic_of_no_unfinished_drop
    decide

/-- The handler that queried a path is cancelled after its request was flushed. Its guard is
dropped, the connection is returned as healthy, and the next call takes it. -/
def cancelled : List Event :=
  [.pool .call, .pool (.lock 0 0), .pool (.connected 0 .fresh 1), .request 0 (.ask .queryPathInfo),
    .request 0 .wrote, .request 0 .wrote, .request 0 .flushed, .pool (.drop 0), .pool (.lock 0 2),
    .pool .call, .pool (.lock 1 3), .request 1 (.ask .queryPathInfo), .request 1 .wrote,
    .request 1 .wrote, .request 1 .flushed]

/-- After nine events of `cancelled` the idle connection has an unread response, and at its
end the second call reads the response to the first call's request. -/
theorem cancelled_not_hygienic :
    run (happen 300) (new 1) (cancelled.take 9) =
        some ⟨⟨[⟨⟨[0], 0, .logs, false⟩, 2⟩], 0, 1, 0⟩, false, [.ended]⟩ ∧
      run (happen 300) (new 1) cancelled =
        some ⟨⟨[], 1, 1, 0⟩, false, [.ended, .holding ⟨⟨[0, 1], 0, .logs, false⟩, 3⟩]⟩ ∧
      ¬ Always (happen 300) Hygienic (new 1) cancelled := by
  refine ⟨by decide, by decide, ?_⟩
  intro always
  have idle := (always (cancelled.take 9) (cancelled.drop 9)
    ⟨⟨[⟨⟨[0], 0, .logs, false⟩, 2⟩], 0, 1, 0⟩, false, [.ended]⟩ (by decide) (by decide)).idle
  have boundary := (idle ⟨⟨[0], 0, .logs, false⟩, 2⟩ List.mem_cons_self).between
  cases boundary

end System

end Harmonia.Pool
