import Harmonia.Io.Write
import Harmonia.Protocol.Stderr

/-!
# Results that are driven

`DriveResult` of `daemon_wire/logger.rs`: while the log messages and the result of a request are awaited, the
future that writes the body of the request is polled along with them. A result that is there is returned
whether or not the body was written; so an upload has ended when its result is returned exactly if no result
was there at a poll that left the driver pending.
-/

namespace Harmonia.Protocol

open Store

variable [Layout]

/-- What is awaited of a request: log messages, and then a value or an error of the daemon. Any other error is
that of the poll. -/
class ResultLog (R : Type) (T : outParam Type) where
  /-- `Stream::poll_next`. -/
  pollNext : R → Poll (Option LogMessage) × R
  /-- `Future::poll`. -/
  pollResult : R → Poll (Except RemoteError T) × R

export ResultLog (pollNext pollResult)

omit [Layout] in
/-- A future that returns nothing. -/
class Driver (D : Type) where
  /-- `Future::poll`. -/
  pollDriver : D → Poll Unit × D

export Driver (pollDriver)

/-- `DriveResult`. -/
structure DriveResult (R D : Type) where
  /-- `result`. -/
  result : R
  /-- `driver`. -/
  driver : D
  /-- `driving`. -/
  driving : Bool
  /-- `drive_err`. -/
  driveErr : Option IoError

/-- What whoever holds the result calls. -/
inductive LogCall where
  /-- `Stream::poll_next`. -/
  | next
  /-- `Future::poll`. -/
  | result
  deriving DecidableEq, Repr

/-- What has come of a reply at some poll. -/
inductive Arrival where
  /-- Not enough. -/
  | pending
  /-- A log message. -/
  | message (msg : LogMessage)

/-- `ResultProcess`: the messages of its stream as they arrive, and then a result. -/
structure ResultProcess (T : Type) where
  /-- `stream`. -/
  stream : List Arrival
  /-- `result`. -/
  result : Except IoError (Except RemoteError T)

namespace ResultProcess

variable {T : Type}

/-- `Stream::poll_next`. -/
def pollNext (this : ResultProcess T) : Poll (Option LogMessage) × ResultProcess T :=
  match this.stream with
  | [] => (.ready none, this)
  | .pending :: stream => (.pending, { this with stream := stream })
  | .message msg :: stream => (.ready (some msg), { this with stream := stream })

/-- `Future::poll`: skip the messages that are there. -/
def pollStream (result : Except IoError (Except RemoteError T)) :
    List Arrival → Poll (Except RemoteError T) × ResultProcess T
  | [] =>
    match result with
    | .ok answer => (.ready answer, ⟨[], result⟩)
    | .error error => (.error error, ⟨[], result⟩)
  | .pending :: stream => (.pending, ⟨stream, result⟩)
  | .message _ :: stream => pollStream result stream

instance : ResultLog (ResultProcess T) T where
  pollNext := pollNext
  pollResult this := pollStream this.result this.stream

end ResultProcess

namespace DriveResult

variable {R T D : Type} [ResultLog R T] [Driver D]

omit [Layout] [ResultLog R T] [Driver D] in
/-- `new`, and `drive_result`. -/
def new (result : R) (driver : D) : DriveResult R D := ⟨result, driver, true, none⟩

omit [Layout] [ResultLog R T] in
/-- `drive`; `none` is a panic. -/
def drive (this : DriveResult R D) : Option (DriveResult R D) :=
  if this.driving then
    match pollDriver this.driver with
    | (.ready (), driver) => some { this with driver := driver, driving := false, driveErr := none }
    | (.error error, driver) => some { this with driver := driver, driving := false, driveErr := some error }
    | (.pending, driver) => some { this with driver := driver }
    | (.panic, _) => none
  else some this

omit [Layout] [ResultLog R T] in
/-- `take_drive`. -/
def takeDrive (this : DriveResult R D) : Option (Except IoError Unit × DriveResult R D) :=
  match this.drive with
  | some this =>
    match this.driveErr with
    | some error => some (.error error, { this with driveErr := none })
    | none => some (.ok (), this)
  | none => none

/-- `Stream::poll_next`. -/
def pollNext (this : DriveResult R D) : Poll (Option LogMessage) × DriveResult R D :=
  match this.drive with
  | some this =>
    if this.driveErr.isSome then (.ready none, this)
    else
      match Protocol.pollNext this.result with
      | (answer, result) => (answer, { this with result := result })
  | none => (.panic, this)

/-- `Future::poll`. -/
def poll (this : DriveResult R D) : Poll (Except RemoteError T) × DriveResult R D :=
  match this.takeDrive with
  | some (.ok (), this) =>
    match pollResult this.result with
    | (answer, result) => (answer, { this with result := result })
  | some (.error error, this) => (.error error, this)
  | none => (.panic, this)

/-- The calls in order, up to the one that returns a result; it is pending if none does. -/
def run : List LogCall → DriveResult R D → Poll (Except RemoteError T) × DriveResult R D
  | [], this => (.pending, this)
  | .next :: calls, this =>
    match this.pollNext with
    | (.panic, this) => (.panic, this)
    | (_, this) => run calls this
  | .result :: calls, this =>
    match this.poll with
    | (.pending, this) => run calls this
    | returned => returned

/-- At none of the calls that leave the driver pending is the result there. -/
def Timely : List LogCall → D → R → Prop
  | [], _, _ => True
  | call :: calls, driver, result =>
    match pollDriver driver with
    | (.pending, driver) =>
      match call with
      | .next =>
        match Protocol.pollNext result with
        | (.panic, _) => True
        | (_, result) => Timely calls driver result
      | .result =>
        match pollResult result with
        | (.ready _, _) => False
        | (.pending, result) => Timely calls driver result
        | (.error _, _) | (.panic, _) => True
    | (.ready (), _) | (.error _, _) | (.panic, _) => True

/-! ## The driver -/

/-- Where the driver is after some polls. -/
inductive Drives (first : D) (this : DriveResult R D) : Prop
  | driving (polls : Nat) (later : ∀ more, await pollDriver (polls + more) first = await pollDriver more this.driver)
    (on : this.driving = true) (none : this.driveErr = none)
  | ended (polls : Nat) (done : await pollDriver polls first = (.ready (), this.driver))
    (off : this.driving = false) (none : this.driveErr = none)
  | failed (polls : Nat) {error : IoError} (done : await pollDriver polls first = (.error error, this.driver))
    (off : this.driving = false) (fault : this.driveErr = some error)

omit [Layout] [ResultLog R T] in
/-- From the start. -/
theorem drives_new (result : R) (driver : D) : Drives driver (new result driver) :=
  .driving 0 (fun more => by rw [Nat.zero_add, new]) rfl rfl

/-- What `drive` does. -/
inductive Driven (first : D) (this : DriveResult R D) : Option (DriveResult R D) → Prop
  | pending {driver : D} (on : this.driving = true) (polled : pollDriver this.driver = (.pending, driver))
    (drives : Drives first { this with driver := driver }) :
    Driven first this (some { this with driver := driver })
  | stopped {next : DriveResult R D} (drives : Drives first next) (off : next.driving = false)
    (same : next.result = this.result) (began : this.driving = true → (pollDriver this.driver).1 ≠ .pending) :
    Driven first this (some next)
  | panic (on : this.driving = true) (polled : (pollDriver this.driver).1 = .panic) : Driven first this none

omit [Layout] [ResultLog R T] in
/-- `drive` polls the driver until it has ended. -/
theorem Drives.driven {first : D} {this : DriveResult R D} (drives : Drives first this) :
    Driven first this this.drive := by
  cases drives with
  | driving polls later on none =>
    unfold drive
    rw [if_pos on]
    have more (count : Nat) : polls + 1 + count = polls + (count + 1) := by omega
    cases answer : pollDriver this.driver with
    | mk result driver =>
      cases result with
      | ready value =>
        have done : await pollDriver (polls + 1) first = (.ready (), driver) := by rw [later, await, answer]
        refine .stopped (.ended (polls + 1) done rfl rfl) rfl rfl fun _ => ?_
        rw [answer]
        rintro ⟨⟩
      | pending =>
        refine .pending on answer (.driving (polls + 1) ?_ on none)
        intro count
        rw [more, later, await, answer]
      | error error =>
        have done : await pollDriver (polls + 1) first = (.error error, driver) := by rw [later, await, answer]
        refine .stopped (.failed (polls + 1) done rfl rfl) rfl rfl fun _ => ?_
        rw [answer]
        rintro ⟨⟩
      | panic => exact .panic on (by rw [answer])
  | ended polls done off none =>
    unfold drive
    rw [if_neg (by rw [off]; exact Bool.false_ne_true)]
    exact .stopped (.ended polls done off none) off rfl fun on => by rw [off] at on; cases on
  | failed polls done off fault =>
    unfold drive
    rw [if_neg (by rw [off]; exact Bool.false_ne_true)]
    exact .stopped (.failed polls done off fault) off rfl fun on => by rw [off] at on; cases on

/-! ## Whole runs -/

/-- How polling goes on once the driver was polled. -/
inductive Polled (first : D) (this : DriveResult R D) : Poll (Except RemoteError T) × DriveResult R D → Prop
  | pending {driver : D} {answer : Poll (Except RemoteError T)} {result : R} (on : this.driving = true)
    (polled : pollDriver this.driver = (.pending, driver)) (asked : pollResult this.result = (answer, result))
    (drives : Drives first { this with driver := driver, result := result }) :
    Polled first this (answer, { this with driver := driver, result := result })
  | stopped {next : DriveResult R D} {answer : Poll (Except RemoteError T)} (off : next.driving = false)
    (began : this.driving = true → (pollDriver this.driver).1 ≠ .pending) (drives : Drives first next)
    (none : next.driveErr = none) : Polled first this (answer, next)
  | failed {next : DriveResult R D} {polls : Nat} {error : IoError}
    (done : await pollDriver polls first = (.error error, next.driver)) (off : next.driving = false)
    (began : this.driving = true → (pollDriver this.driver).1 ≠ .pending) : Polled first this (.error error, next)
  | panic (on : this.driving = true) (polled : (pollDriver this.driver).1 ≠ .pending)
    (drives : Drives first this) : Polled first this (.panic, this)

omit [Layout] [ResultLog R T] in
/-- Where the driver is does not depend on the result. -/
theorem Drives.with_result {first : D} {this : DriveResult R D} (drives : Drives first this) (result : R) :
    Drives first { this with result := result } := by
  cases drives with
  | driving polls later on none => exact .driving polls later on none
  | ended polls done off none => exact .ended polls done off none
  | failed polls done off fault => exact .failed polls done off fault

omit [Layout] [ResultLog R T] in
/-- A driver that is polled has not failed. -/
theorem Drives.quiet {first : D} {this : DriveResult R D} (drives : Drives first this)
    (on : this.driving = true) : this.driveErr = none := by
  cases drives with
  | driving polls later on none => exact none
  | ended polls done off none => exact none
  | failed polls done off fault => rw [off] at on; cases on

/-- `poll` when the driver has not failed. -/
theorem poll_ok {this next : DriveResult R D} (drove : this.drive = some next) (none : next.driveErr = none) :
    this.poll = ((pollResult next.result).1, { next with result := (pollResult next.result).2 }) := by
  obtain ⟨result, driver, driving, driveErr⟩ := next
  cases none
  rw [poll, takeDrive, drove]

/-- `poll` when the driver has failed. -/
theorem poll_failed {this next : DriveResult R D} {error : IoError} (drove : this.drive = some next)
    (fault : next.driveErr = some error) : this.poll = (.error error, { next with driveErr := none }) := by
  obtain ⟨result, driver, driving, driveErr⟩ := next
  cases fault
  rw [poll, takeDrive, drove]

/-- `poll`. -/
theorem Drives.polled {first : D} {this : DriveResult R D} (drives : Drives first this) :
    Polled first this this.poll := by
  have driven := drives.driven
  generalize drove : this.drive = middle at driven
  cases driven with
  | @pending driver on polled later =>
    rw [poll_ok drove (drives.quiet on)]
    exact .pending on polled rfl (later.with_result _)
  | @stopped next later off same began =>
    cases later with
    | driving polls later on none => rw [off] at on; cases on
    | ended polls done off none =>
      rw [poll_ok drove none]
      exact .stopped off began ((Drives.ended polls done off none).with_result _) none
    | failed polls done off fault =>
      rw [poll_failed drove fault]
      exact .failed done off began
  | panic on polled =>
    rw [poll, takeDrive, drove]
    refine .panic on ?_ drives
    rw [polled]
    rintro ⟨⟩

/-- What `poll_next` does. -/
inductive Asked (first : D) (this : DriveResult R D) : Poll (Option LogMessage) × DriveResult R D → Prop
  | pending {driver : D} (on : this.driving = true) (polled : pollDriver this.driver = (.pending, driver))
    (drives : Drives first { this with driver := driver, result := (Protocol.pollNext this.result).2 }) :
    Asked first this ((Protocol.pollNext this.result).1,
      { this with driver := driver, result := (Protocol.pollNext this.result).2 })
  | stopped {next : DriveResult R D} {answer : Poll (Option LogMessage)} (off : next.driving = false)
    (began : this.driving = true → (pollDriver this.driver).1 ≠ .pending) (drives : Drives first next)
    (calm : next.driveErr = none ∨ answer = .ready none) : Asked first this (answer, next)
  | panic (on : this.driving = true) (polled : (pollDriver this.driver).1 ≠ .pending)
    (drives : Drives first this) : Asked first this (.panic, this)

/-- `poll_next` when the driver has not failed. -/
theorem pollNext_ok {this next : DriveResult R D} (drove : this.drive = some next)
    (none : next.driveErr = none) : this.pollNext = ((Protocol.pollNext next.result).1,
      { next with result := (Protocol.pollNext next.result).2 }) := by
  obtain ⟨result, driver, driving, driveErr⟩ := next
  cases none
  rw [pollNext, drove]
  rfl

/-- `poll_next`. -/
theorem Drives.asked {first : D} {this : DriveResult R D} (drives : Drives first this) :
    Asked first this this.pollNext := by
  have driven := drives.driven
  generalize drove : this.drive = middle at driven
  cases driven with
  | @pending driver on polled later =>
    rw [pollNext_ok drove (drives.quiet on)]
    exact .pending on polled (later.with_result _)
  | @stopped next later off same began =>
    cases later with
    | driving polls later on none => rw [off] at on; cases on
    | ended polls done off none =>
      rw [pollNext_ok drove none]
      exact .stopped off began ((Drives.ended polls done off none).with_result _) (.inl none)
    | failed polls done off fault =>
      have returned : this.pollNext = (.ready none, next) := by
        rw [pollNext, drove]
        simp only [fault, Option.isSome_some, if_true]
      rw [returned]
      exact .stopped off began (.failed polls done off fault) (.inr rfl)
  | panic on polled =>
    rw [pollNext, drove]
    refine .panic on ?_ drives
    rw [polled]
    rintro ⟨⟩

/-- A result is returned when the driver has ended. -/
def Finished (outcome : Poll (Except RemoteError T) × DriveResult R D) : Prop :=
  ∀ answer, outcome.1 = .ready answer → outcome.2.driving = false

omit [ResultLog R T] [Driver D] in
/-- A result that is returned when the driver has ended. -/
theorem finished_of_off {outcome : Poll (Except RemoteError T) × DriveResult R D}
    (off : outcome.2.driving = false) : Finished outcome := fun _ _ => off

omit [ResultLog R T] [Driver D] in
/-- If no result is returned, none is returned early. -/
theorem finished_of_ne {outcome : Poll (Except RemoteError T) × DriveResult R D}
    (never : ∀ answer, outcome.1 ≠ .ready answer) : Finished outcome :=
  fun answer returned => absurd returned (never answer)

/-- A driver that has ended is not polled again. -/
theorem finished_of_stopped {first : D} (calls : List LogCall) {this : DriveResult R D}
    (drives : Drives first this) (off : this.driving = false) : Finished (run calls this) := by
  induction calls generalizing this with
  | nil => exact finished_of_off off
  | cons call calls ih =>
    have still {P : Prop} (on : this.driving = true) : P := by
      rw [off] at on
      cases on
    cases call with
    | next =>
      have asked := drives.asked
      rw [run]
      generalize this.pollNext = outcome at asked
      cases asked with
      | pending on polled drives => exact still on
      | @stopped next answer off began drives calm =>
        cases answer with
        | panic => exact finished_of_off off
        | ready value => exact ih drives off
        | pending => exact ih drives off
        | error error => exact ih drives off
      | panic on polled drives => exact still on
    | result =>
      have polled := drives.polled
      rw [run]
      generalize this.poll = outcome at polled
      cases polled with
      | pending on polled asked drives => exact still on
      | @stopped next answer off began drives none =>
        cases answer with
        | pending => exact ih drives off
        | ready value => exact finished_of_off off
        | error error => exact finished_of_off off
        | panic => exact finished_of_off off
      | failed done off began => exact finished_of_off off
      | panic on polled drives => exact still on

/-- No result is returned before the driver has ended, exactly if none is there at a call that leaves the
driver pending. -/
theorem finished_iff_timely {first : D} (calls : List LogCall) {this : DriveResult R D}
    (drives : Drives first this) (on : this.driving = true) :
    Finished (run calls this) ↔ Timely calls this.driver this.result := by
  induction calls generalizing this with
  | nil =>
    refine ⟨fun _ => trivial, fun _ => finished_of_ne ?_⟩
    rintro answer ⟨⟩
  | cons call calls ih =>
    have timely (began : this.driving = true → (pollDriver this.driver).1 ≠ .pending) :
        Timely (call :: calls) this.driver this.result := by
      have other := began on
      rw [Timely]
      split
      case h_1 polled => rw [polled] at other; exact absurd rfl other
      all_goals trivial
    cases call with
    | next =>
      have asked := drives.asked
      rw [run]
      generalize this.pollNext = outcome at asked
      cases asked with
      | @pending driver on polled drives =>
        rw [Timely, polled]
        have later := ih drives on
        cases asked : Protocol.pollNext this.result with
        | mk answer result =>
          rw [asked] at later
          cases answer with
          | panic =>
            refine ⟨fun _ => trivial, fun _ => finished_of_ne ?_⟩
            rintro value ⟨⟩
          | ready value => exact later
          | pending => exact later
          | error error => exact later
      | @stopped next answer off began drives calm =>
        refine ⟨fun _ => timely began, fun _ => ?_⟩
        cases answer with
        | panic => exact finished_of_off off
        | ready value => exact finished_of_stopped calls drives off
        | pending => exact finished_of_stopped calls drives off
        | error error => exact finished_of_stopped calls drives off
      | panic on polled drives =>
        refine ⟨fun _ => timely fun _ => polled, fun _ => finished_of_ne ?_⟩
        rintro value ⟨⟩
    | result =>
      have polled := drives.polled
      rw [run]
      generalize this.poll = outcome at polled
      cases polled with
      | @pending driver answer result on polled asked drives =>
        rw [Timely, polled]
        simp only [asked]
        cases answer with
        | pending => exact ih drives on
        | ready value =>
          refine ⟨fun finished => ?_, False.elim⟩
          have off := finished value rfl
          exact Bool.false_ne_true (off.symm.trans on)
        | error error =>
          refine ⟨fun _ => trivial, fun _ => finished_of_ne ?_⟩
          rintro value ⟨⟩
        | panic =>
          refine ⟨fun _ => trivial, fun _ => finished_of_ne ?_⟩
          rintro value ⟨⟩
      | @stopped next answer off began drives none =>
        refine ⟨fun _ => timely began, fun _ => ?_⟩
        cases answer with
        | pending => exact finished_of_stopped calls drives off
        | ready value => exact finished_of_off off
        | error error => exact finished_of_off off
        | panic => exact finished_of_off off
      | failed done off began => exact ⟨fun _ => timely began, fun _ => finished_of_off off⟩
      | panic on polled drives =>
        refine ⟨fun _ => timely fun _ => polled, fun _ => finished_of_ne ?_⟩
        rintro value ⟨⟩

/-- What is left of a run. -/
inductive Left (first : D) : Poll (Except RemoteError T) × DriveResult R D → Prop
  | waits {final : DriveResult R D} (drives : Drives first final) : Left first (.pending, final)
  | returned {final : DriveResult R D} {answer : Poll (Except RemoteError T)} (drives : Drives first final)
    (none : final.driveErr = none) : Left first (answer, final)
  | failed {final : DriveResult R D} {polls : Nat} {error : IoError}
    (done : await pollDriver polls first = (.error error, final.driver)) (off : final.driving = false) :
    Left first (.error error, final)

/-- Every run knows what became of the driver. -/
theorem Drives.left {first : D} (calls : List LogCall) {this : DriveResult R D}
    (drives : Drives first this) : Left first (run calls this) := by
  induction calls generalizing this with
  | nil => exact .waits drives
  | cons call calls ih =>
    cases call with
    | next =>
      have asked := drives.asked
      rw [run]
      generalize this.pollNext = outcome at asked
      cases asked with
      | @pending driver on polled later =>
        cases answer : (Protocol.pollNext this.result).1 with
        | panic => exact .returned later (drives.quiet on)
        | ready value => exact ih later
        | pending => exact ih later
        | error error => exact ih later
      | @stopped next answer off began later calm =>
        cases answer with
        | panic =>
          refine .returned later (calm.resolve_right ?_)
          rintro ⟨⟩
        | ready value => exact ih later
        | pending => exact ih later
        | error error => exact ih later
      | panic on polled later => exact .returned later (later.quiet on)
    | result =>
      have polled := drives.polled
      rw [run]
      generalize this.poll = outcome at polled
      cases polled with
      | @pending driver answer result on polled asked later =>
        cases answer with
        | pending => exact ih later
        | ready value => exact .returned later (drives.quiet on)
        | error error => exact .returned later (drives.quiet on)
        | panic => exact .returned later (drives.quiet on)
      | @stopped next answer off began later none =>
        cases answer with
        | pending => exact ih later
        | ready value => exact .returned later none
        | error error => exact .returned later none
        | panic => exact .returned later none
      | failed done off began => exact .failed done off
      | panic on polled later => exact .returned later (later.quiet on)

omit [Layout] [ResultLog R T] in
/-- There is one way for a driver to end. -/
theorem await_unique {first last last' : D} {polls polls' : Nat} {answer answer' : Poll Unit}
    (one : await pollDriver polls first = (answer, last)) (two : await pollDriver polls' first = (answer', last'))
    (returns : answer ≠ .panic) (returns' : answer' ≠ .panic) : answer = answer' ∧ last = last' := by
  have more := await_more one returns (Nat.le_max_left polls polls')
  have more' := await_more two returns' (Nat.le_max_right polls polls')
  exact Prod.mk.inj (more.symm.trans more')

/-- A driver that fails is reported: its error is what a run returns, or will at the next poll. -/
def Reports (first : D) (outcome : Poll (Except RemoteError T) × DriveResult R D) : Prop :=
  ∀ polls error last, await pollDriver polls first = (.error error, last) → outcome.2.driving = false →
    outcome.1 = .error error ∨ outcome.1 = .pending ∧ outcome.2.poll.1 = .error error

/-- Every failure of the driver is reported. -/
theorem Left.reports {first : D} {outcome : Poll (Except RemoteError T) × DriveResult R D}
    (left : Left first outcome) : Reports first outcome := by
  intro polls error last fails off
  have never : (.error error : Poll Unit) ≠ .panic := by
    rintro ⟨⟩
  cases left with
  | @waits final drives =>
    cases drives with
    | driving polls' later on none => rw [off] at on; cases on
    | ended polls' done off none =>
      have same := await_unique fails done never (by rintro ⟨⟩)
      cases same.1
    | failed polls' done off fault =>
      have same := await_unique fails done never (by rintro ⟨⟩)
      cases same.1
      have drove : final.drive = some final := by
        rw [drive, if_neg (by rw [off]; exact Bool.false_ne_true)]
      refine .inr ⟨rfl, ?_⟩
      rw [poll_failed drove fault]
  | returned drives none =>
    cases drives with
    | driving polls' later on none => rw [off] at on; cases on
    | ended polls' done off none =>
      have same := await_unique fails done never (by rintro ⟨⟩)
      cases same.1
    | failed polls' done off fault =>
      rw [none] at fault
      cases fault
  | failed done off =>
    have same := await_unique fails done never (by rintro ⟨⟩)
    cases same.1
    exact .inl rfl

omit [ResultLog R T] in
/-- When a result is returned and the driver has ended, it has not failed. -/
theorem Left.ended {first : D} {answer : Except RemoteError T} {final : DriveResult R D}
    (left : Left first (.ready answer, final)) (off : final.driving = false) :
    ∃ polls, await pollDriver polls first = (.ready (), final.driver) := by
  cases left with
  | returned drives none =>
    cases drives with
    | driving polls later on none => rw [off] at on; cases on
    | ended polls done off none => exact ⟨polls, done⟩
    | failed polls done off fault =>
      rw [none] at fault
      cases fault

/-- A driver that ends at once is in time. -/
theorem timely_of_ready {calls : List LogCall} {driver : D} {result : R}
    (ready : (pollDriver driver).1 = .ready ()) : Timely calls driver result := by
  cases calls with
  | nil => trivial
  | cons call calls =>
    rw [Timely]
    split
    case h_1 polled =>
      rw [polled] at ready
      cases ready
    all_goals trivial

/-- A message may be asked for while the driver is pending. -/
theorem timely_next {calls : List LogCall} {driver : D} {result : R}
    (pending : (pollDriver driver).1 = .pending)
    (later : Timely calls (pollDriver driver).2 (Protocol.pollNext result).2) :
    Timely (.next :: calls) driver result := by
  cases polled : pollDriver driver with
  | mk answer next =>
    rw [polled] at pending later
    cases pending
    rw [Timely, polled]
    dsimp only
    split
    · trivial
    case h_2 asked =>
      rw [asked] at later
      exact later

end DriveResult

end Harmonia.Protocol
