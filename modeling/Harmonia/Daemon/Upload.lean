import Harmonia.Daemon.AddMultiple
import Harmonia.Protocol.Bookkeeping
import Harmonia.Protocol.Drive

/-!
# Uploads

The requests of a client that have a framed body (`client.rs`): `add_to_store_nar` from minor version 23 on,
`add_build_log` and `add_ca_to_store` copy a source, and `add_multiple_to_store` writes a stream of store paths
through a buffered writer of its own. The body is written by the driver of a `DriveResult`. Once the driver has
ended the body is whole; but the reply of the daemon, which may come at any time, is returned without waiting
for that.
-/

namespace Harmonia.Daemon

open Library Store Protocol

/-! ## Bodies -/

/-- A framed body over the connection of a client. -/
inductive Body (W : Type) where
  /-- `FramedWriter::new(&mut self.writer)`. -/
  | direct (writer : Logged (FramedWriter W))
  /-- A `NixWriter` over that. -/
  | nested (writer : NixWriter (Logged (FramedWriter W)))

namespace Body

variable {W : Type}

/-- The connection. -/
def connection : Body W → W
  | direct writer => writer.writer.inner
  | nested writer => writer.inner.writer.inner

/-- The body over another state of the connection. -/
def withConnection (this : Body W) (connection : W) : Body W :=
  match this with
  | direct writer => direct { writer with writer := { writer.writer with inner := connection } }
  | nested writer =>
    nested { writer with inner := { writer.inner with writer := { writer.inner.writer with inner := connection } } }

variable [AsyncWrite W] [Allocation]

instance : AsyncWrite (Body W) where
  pollWrite this buf :=
    match this with
    | direct writer => ((pollWrite writer buf).1, direct (pollWrite writer buf).2)
    | nested writer => ((pollWrite writer buf).1, nested (pollWrite writer buf).2)
  pollFlush this :=
    match this with
    | direct writer => ((pollFlush writer).1, direct (pollFlush writer).2)
    | nested writer => ((pollFlush writer).1, nested (pollFlush writer).2)
  written this :=
    match this with
    | direct writer => written writer
    | nested writer => written writer

/-- The shutdown of the framed writer, once the buffered writer was flushed. -/
def shutNested : Poll Unit × NixWriter (Logged (FramedWriter W)) → Poll Unit × Body W
  | (.ready (), writer) =>
    (writer.inner.pollShutdown.1, nested { writer with inner := writer.inner.pollShutdown.2 })
  | (.pending, writer) => (.pending, nested writer)
  | (.error error, writer) => (.error error, nested writer)
  | (.panic, writer) => (.panic, nested writer)

/-- `poll_shutdown`. -/
def pollShutdown : Body W → Poll Unit × Body W
  | direct writer => (writer.pollShutdown.1, direct writer.pollShutdown.2)
  | nested writer => shutNested (pollFlush writer)

/-- The writer of the body keeps its books. -/
def Stands (below : Honesty W) (start : Bytes) : Body W → Prop
  | direct writer => writer.Stands below start
  | nested writer => writer.Books (Logged.honesty below start)

/-- The writer of a body keeps its books. -/
def honesty (below : Honesty W) (start : Bytes) : Honesty (Body W) where
  Honest := Stands below start
  wrote {this buf} stands some := by
    cases this with
    | direct writer =>
      have booked := (Logged.honesty below start).wrote stands some
      show Booked _ _ buf ((pollWrite writer buf).1, direct (pollWrite writer buf).2)
      generalize pollWrite writer buf = result at booked
      cases booked with
      | ready within taken honest => exact .ready within taken honest
      | pending same honest => exact .pending same honest
      | error => exact .error
    | nested writer =>
      have booked := (NixWriter.honesty (Logged.honesty below start)).wrote stands some
      show Booked _ _ buf ((pollWrite writer buf).1, nested (pollWrite writer buf).2)
      generalize pollWrite writer buf = result at booked
      cases booked with
      | ready within taken honest => exact .ready within taken honest
      | pending same honest => exact .pending same honest
      | error => exact .error
  flushed {this} stands := by
    cases this with
    | direct writer =>
      have emptied := (Logged.honesty below start).flushed stands
      show Emptied _ _ ((pollFlush writer).1, direct (pollFlush writer).2)
      generalize pollFlush writer = result at emptied
      cases emptied with
      | ready same honest => exact .ready same honest
      | pending same honest => exact .pending same honest
      | error => exact .error
    | nested writer =>
      have emptied := (NixWriter.honesty (Logged.honesty below start)).flushed stands
      show Emptied _ _ ((pollFlush writer).1, nested (pollFlush writer).2)
      generalize pollFlush writer = result at emptied
      cases emptied with
      | ready same honest => exact .ready same honest
      | pending same honest => exact .pending same honest
      | error => exact .error

/-- A body of these bytes that is being shut down. -/
inductive Closing (below : Honesty W) (start whole : Bytes) : Body W → Prop
  | direct {writer : Logged (FramedWriter W)} (closes : writer.Closes below start) (all : writer.log = whole) :
    Closing below start whole (.direct writer)
  | gathered {writer : NixWriter (Logged (FramedWriter W))} (books : writer.Books (Logged.honesty below start))
    (all : writer.sent = whole) : Closing below start whole (.nested writer)
  | nested {writer : NixWriter (Logged (FramedWriter W))} (empty : writer.buf = [])
    (closes : writer.inner.Closes below start) (all : writer.inner.log = whole) :
    Closing below start whole (.nested writer)

/-- What a shutdown does: in the end the connection has the whole body in frames. -/
inductive Shuts (below : Honesty W) (start whole : Bytes) : Poll Unit × Body W → Prop
  | ready {next : Body W} {frames : List Frame} (honest : below.Honest next.connection)
    (sent : written next.connection = start ++ framed frames) (holds : whole = contents frames) :
    Shuts below start whole (.ready (), next)
  | pending {next : Body W} (closing : Closing below start whole next) : Shuts below start whole (.pending, next)
  | error {error : IoError} {next : Body W} : Shuts below start whole (.error error, next)

/-- The shutdown of a framed writer below an empty buffer. -/
theorem shuts_nested {below : Honesty W} {start whole : Bytes} {writer : NixWriter (Logged (FramedWriter W))}
    (empty : writer.buf = []) (closes : writer.inner.Closes below start) (all : writer.inner.log = whole) :
    Shuts below start whole
      (writer.inner.pollShutdown.1, .nested { writer with inner := writer.inner.pollShutdown.2 }) := by
  have shuts := closes.shuts
  generalize writer.inner.pollShutdown = result at shuts
  cases shuts with
  | ready honest sent holds => exact .ready honest sent (all.symm.trans holds)
  | pending closes => exact .pending (.nested empty closes all)
  | error => exact .error

/-- `poll_shutdown`. -/
theorem Closing.shuts {below : Honesty W} {start whole : Bytes} {this : Body W}
    (closing : this.Closing below start whole) : Shuts below start whole this.pollShutdown := by
  cases closing with
  | @direct writer closes all =>
    have shuts := closes.shuts
    rw [pollShutdown]
    generalize writer.pollShutdown = result at shuts
    cases shuts with
    | ready honest sent holds => exact .ready honest sent (all.symm.trans holds)
    | pending closes => exact .pending (.direct closes all)
    | error => exact .error
  | @gathered writer books all =>
    have clears := NixWriter.pollFlushAll_clears spare books
    show Shuts _ _ _ (shutNested (writer.pollFlushAll spare))
    generalize writer.pollFlushAll spare = result at clears
    cases clears with
    | @ready next books same empty =>
      apply shuts_nested empty (.accepts books.honest)
      have sent := same.trans all
      rw [NixWriter.sent, empty, List.append_nil] at sent
      exact sent
    | pending books same => exact .pending (.gathered books (same.trans all))
    | error => exact .error
  | @nested writer empty closes all =>
    have emptied := closes.emptied
    obtain ⟨capacity, polled⟩ := NixWriter.pollFlushAll_empty spare empty
    show Shuts _ _ _ (shutNested (writer.pollFlushAll spare))
    rw [polled]
    generalize pollFlush writer.inner = result at emptied
    cases emptied with
    | @ready next same closes =>
      exact @shuts_nested _ _ _ below start whole { writer with inner := next, capacity := capacity } empty closes
        (same.trans all)
    | @pending next same closes => exact .pending (.nested empty closes (same.trans all))
    | error => exact .error

end Body

/-! ## Drivers -/

/-- Where the driver of an upload is. -/
inductive Phase where
  /-- The body is being written. -/
  | writing
  /-- `framed.shutdown()`, or `writer.shutdown()`. -/
  | closing
  /-- `self.writer.flush()`. -/
  | flushing
  /-- It has returned. -/
  | done
  deriving DecidableEq, Repr

/-- The driver of an upload, over a transport below the writer of the client. -/
structure Upload (S W : Type) where
  /-- Where it is. -/
  phase : Phase
  /-- What is still to be written. -/
  steps : List (WriteStep S)
  /-- The body. -/
  body : Body (NixWriter W)

namespace Upload

variable {S W : Type} [AsyncBufRead S] [AsyncWrite W] [Allocation]

/-- From `self.writer.flush()` on. -/
def finish (this : Upload S W) : Poll Unit × Upload S W :=
  match pollFlush this.body.connection with
  | (.ready (), connection) => (.ready (), { this with phase := .done, body := this.body.withConnection connection })
  | (answer, connection) => (answer, { this with phase := .flushing, body := this.body.withConnection connection })

/-- From the shutdown on. -/
def close (this : Upload S W) : Poll Unit × Upload S W :=
  match this.body.pollShutdown with
  | (.ready (), body) => finish { this with body := body }
  | (answer, body) => (answer, { this with phase := .closing, body := body })

/-- From the first write on. -/
def write (this : Upload S W) : Poll Unit × Upload S W :=
  match WriteStep.poll (this.steps, this.body) with
  | (.ready (), steps, body) => close { this with steps := steps, body := body }
  | (answer, steps, body) => (answer, { this with phase := .writing, steps := steps, body := body })

/-- `Future::poll`; a future that has returned may not be polled. -/
def poll (this : Upload S W) : Poll Unit × Upload S W :=
  match this.phase with
  | .writing => this.write
  | .closing => this.close
  | .flushing => this.finish
  | .done => (.panic, this)

instance : Driver (Upload S W) := ⟨poll⟩

end Upload

section Operations

variable {S W : Type}

/-- A source is copied into a framed body. -/
def copyFramed (source : S) (writer : NixWriter W) (extra : Fin (2 ^ 62)) : Upload S W :=
  ⟨.writing, [.copy source], .direct ⟨.new writer extra, []⟩⟩

/-- The driver of `add_to_store_nar`. -/
def addToStoreNar (source : S) (writer : NixWriter W) (extra : Fin (2 ^ 62)) : Upload S W :=
  copyFramed source writer extra

/-- The driver of `add_build_log`. -/
def addBuildLog (source : S) (writer : NixWriter W) (extra : Fin (2 ^ 62)) : Upload S W :=
  copyFramed source writer extra

/-- The driver of `add_ca_to_store`. -/
def addCaToStore (source : S) (writer : NixWriter W) (extra : Fin (2 ^ 62)) : Upload S W :=
  copyFramed source writer extra

/-- The driver of `add_multiple_to_store`; the writer of the stream is built with an empty buffer. -/
def addMultipleToStore [DataEncoding] (ctx : Ctx) (room : Nat → Nat → Nat) (size : UInt64)
    (stream : List (Except IoError (AddToStoreItem S))) (writer : NixWriter W) (extra : Fin (2 ^ 62))
    (capacity reservedBufSize : Nat) : Upload S W :=
  ⟨.writing, writeAddMultipleToStoreStream ctx room size stream,
    .nested ⟨⟨.new writer extra, []⟩, [], capacity, reservedBufSize⟩⟩

/-- The uploads over a connection. -/
inductive Uploads [DataEncoding] (writer : NixWriter W) : Upload S W → Prop
  | addToStoreNar (source : S) (extra : Fin (2 ^ 62)) : Uploads writer (addToStoreNar source writer extra)
  | addBuildLog (source : S) (extra : Fin (2 ^ 62)) : Uploads writer (addBuildLog source writer extra)
  | addCaToStore (source : S) (extra : Fin (2 ^ 62)) : Uploads writer (addCaToStore source writer extra)
  | addMultipleToStore (ctx : Ctx) (room : Nat → Nat → Nat) (size : UInt64)
    (stream : List (Except IoError (AddToStoreItem S))) (extra : Fin (2 ^ 62)) (capacity reservedBufSize : Nat) :
    Uploads writer (addMultipleToStore ctx room size stream writer extra capacity reservedBufSize)

end Operations

/-! ## Whole bodies -/

namespace Upload

variable {S W : Type} [AsyncBufRead S] [LawfulBufRead S] [AsyncWrite W] [Allocation]

/-- The transport has the request and its whole body, and nothing is left to be sent. -/
def AtBoundary (start whole : Bytes) (this : Upload S W) : Prop :=
  this.phase = .done ∧ this.body.connection.buf = [] ∧
    ∃ frames, whole = contents frames ∧ written this.body.connection.inner = start ++ framed frames

/-- What an upload has written and what it still has to write is its body. -/
inductive Sound (below : Honesty W) (start whole : Bytes) (this : Upload S W) : Prop
  | writing (stage : this.phase = .writing) (stands : this.body.Stands (NixWriter.honesty below) start)
    (valid : ∀ step ∈ this.steps, step.Valid) (all : written this.body ++ WriteStep.contents this.steps = whole)
  | closing (stage : this.phase = .closing) (closing : this.body.Closing (NixWriter.honesty below) start whole)
  | flushing {frames : List Frame} (stage : this.phase = .flushing) (books : this.body.connection.Books below)
    (sent : this.body.connection.sent = start ++ framed frames) (holds : whole = contents frames)

/-- What polling an upload does. -/
inductive Drives (below : Honesty W) (start whole : Bytes) : Poll Unit × Upload S W → Prop
  | ready {next : Upload S W} (boundary : next.AtBoundary start whole) : Drives below start whole (.ready (), next)
  | pending {next : Upload S W} (sound : next.Sound below start whole) : Drives below start whole (.pending, next)
  | error {error : IoError} {next : Upload S W} : Drives below start whole (.error error, next)

/-- The last flush. -/
theorem finish_drives {below : Honesty W} {start whole : Bytes} {frames : List Frame} {this : Upload S W}
    (books : this.body.connection.Books below) (sent : this.body.connection.sent = start ++ framed frames)
    (holds : whole = contents frames) : Drives below start whole this.finish := by
  have connected (next : NixWriter W) : (this.body.withConnection next).connection = next := by
    cases this.body with
    | direct writer => rfl
    | nested writer => rfl
  have clears : NixWriter.Clears below this.body.connection (pollFlush this.body.connection) :=
    NixWriter.pollFlushAll_clears spare books
  unfold finish
  generalize pollFlush this.body.connection = result at clears
  cases clears with
  | @ready next books same empty =>
    have all : written next.inner = start ++ framed frames := by
      rw [← sent, ← same, NixWriter.sent, empty, List.append_nil]
    refine .ready ⟨rfl, ?_, frames, holds, ?_⟩
    · rw [connected]
      exact empty
    · rw [connected]
      exact all
  | @pending next books same =>
    refine .pending (.flushing rfl ?_ ?_ holds)
    · rw [connected]
      exact books
    · rw [connected]
      exact same.trans sent
  | error => exact .error

/-- From the shutdown on. -/
theorem close_drives {below : Honesty W} {start whole : Bytes} {this : Upload S W}
    (closing : this.body.Closing (NixWriter.honesty below) start whole) : Drives below start whole this.close := by
  have shuts := closing.shuts
  unfold close
  generalize this.body.pollShutdown = result at shuts
  cases shuts with
  | ready books sent holds => exact finish_drives books sent holds
  | pending closing => exact .pending (.closing rfl closing)
  | error => exact .error

/-- From the first write on. -/
theorem write_drives {below : Honesty W} {start whole : Bytes} {this : Upload S W}
    (stands : this.body.Stands (NixWriter.honesty below) start) (valid : ∀ step ∈ this.steps, step.Valid)
    (all : written this.body ++ WriteStep.contents this.steps = whole) : Drives below start whole this.write := by
  have scripted := WriteStep.pollSteps_scripted (Body.honesty (NixWriter.honesty below) start) _
    (Nat.lt_succ_self (WriteStep.sizes this.steps)) stands valid
  unfold write WriteStep.poll
  generalize WriteStep.pollSteps _ (this.steps, this.body) = result at scripted
  cases scripted with
  | @ready body sent stands =>
    have taken : written body = whole := sent.trans all
    refine close_drives ?_
    cases body with
    | direct writer => exact .direct (.accepts stands) taken
    | nested writer => exact .gathered stands taken
  | pending sent stands valid => exact .pending (.writing rfl stands valid (sent.trans all))
  | error => exact .error

/-- One poll of an upload. -/
theorem Sound.drives {below : Honesty W} {start whole : Bytes} {this : Upload S W}
    (sound : this.Sound below start whole) : Drives below start whole (pollDriver this) := by
  show Drives below start whole this.poll
  cases sound with
  | writing stage stands valid all =>
    rw [poll, stage]
    exact write_drives stands valid all
  | closing stage closing =>
    rw [poll, stage]
    exact close_drives closing
  | flushing stage books sent holds =>
    rw [poll, stage]
    exact finish_drives books sent holds

/-- When an upload has returned, the connection is at a boundary. -/
theorem Sound.await {below : Honesty W} {start whole : Bytes} {polls : Nat} {this last : Upload S W}
    (sound : this.Sound below start whole) (done : Harmonia.await pollDriver polls this = (.ready (), last)) :
    last.AtBoundary start whole := by
  induction polls generalizing this with
  | zero => cases done
  | succ polls ih =>
    have drives := sound.drives
    rw [Harmonia.await] at done
    generalize pollDriver this = result at drives done
    cases drives with
    | ready boundary =>
      cases done
      exact boundary
    | pending sound => exact ih sound done
    | error => cases done

omit [Allocation] in
/-- A new framed writer has accepted nothing. -/
theorem new_stands {V : Type} [AsyncWrite V] {below : Honesty V} {inner : V} (honest : below.Honest inner)
    (extra : Fin (2 ^ 62)) : Logged.Stands below (written inner) ⟨.new inner extra, []⟩ :=
  @FramedWriter.Accepts.new (Tame below) _ _ ⟨inner⟩ honest extra

/-- A copy starts with all of its source to be written. -/
theorem copyFramed_sound {below : Honesty W} {writer : NixWriter W} (books : writer.Books below) {source : S}
    (valid : view.Valid source) (extra : Fin (2 ^ 62)) :
    (copyFramed source writer extra).Sound below writer.sent (view.unread source) := by
  refine .writing rfl (@new_stands _ _ (NixWriter.honesty below) writer books extra) ?_ ?_
  · intro step member
    rw [List.mem_singleton.mp member]
    exact valid
  · exact List.append_nil _

/-- An upload starts with all of its body to be written. -/
theorem Uploads.sound [DataEncoding] {below : Honesty W} {writer : NixWriter W} {upload : Upload S W}
    (books : writer.Books below) (uploads : Uploads writer upload) (valid : ∀ step ∈ upload.steps, step.Valid) :
    upload.Sound below writer.sent (WriteStep.contents upload.steps) := by
  have copied (source : S) (extra : Fin (2 ^ 62)) (valid : WriteStep.Valid (.copy source)) :
      (copyFramed source writer extra).Sound below writer.sent (WriteStep.contents [.copy source]) := by
    have sound := copyFramed_sound books valid extra
    rwa [← List.append_nil (view.unread source)] at sound
  cases uploads with
  | addToStoreNar source extra => exact copied source extra (valid _ (List.mem_singleton.mpr rfl))
  | addBuildLog source extra => exact copied source extra (valid _ (List.mem_singleton.mpr rfl))
  | addCaToStore source extra => exact copied source extra (valid _ (List.mem_singleton.mpr rfl))
  | addMultipleToStore ctx room size stream extra capacity reservedBufSize =>
    exact .writing rfl ⟨@new_stands _ _ (NixWriter.honesty below) writer books extra, Nat.zero_le _⟩ valid rfl

end Upload

/-! ## Whole uploads -/

section Driven

variable [Layout] [DataEncoding] {R T S W : Type} [ResultLog R T] [AsyncBufRead S] [LawfulBufRead S]
  [AsyncWrite W] [Allocation]

/-- An upload is whole: when a result or an error of the daemon is returned, the driver has ended and the
connection is at a boundary; and the driver does not fail unnoticed. -/
def Whole (start whole : Bytes) (first : Upload S W)
    (outcome : Poll (Except RemoteError T) × DriveResult R (Upload S W)) : Prop :=
  (∀ answer, outcome.1 = .ready answer →
    outcome.2.driving = false ∧ outcome.2.driver.AtBoundary start whole) ∧ DriveResult.Reports first outcome

/-- An upload is whole exactly if the reply of the daemon is not there at a call that leaves the driver
pending. -/
theorem upload_whole_iff {below : Honesty W} {writer : NixWriter W} {upload : Upload S W}
    (books : writer.Books below) (uploads : Uploads writer upload) (valid : ∀ step ∈ upload.steps, step.Valid)
    (result : R) (calls : List LogCall) :
    Whole writer.sent (WriteStep.contents upload.steps) upload
        (DriveResult.run calls (.new result upload)) ↔ DriveResult.Timely calls upload result := by
  have drives := DriveResult.drives_new result upload
  have finished := DriveResult.finished_iff_timely calls drives rfl
  have left := drives.left calls
  have sound := Upload.Uploads.sound books uploads valid
  constructor
  · rintro ⟨whole, -⟩
    exact finished.mp fun answer returned => (whole answer returned).1
  · intro timely
    refine ⟨fun answer returned => ?_, left.reports⟩
    have off := finished.mpr timely answer returned
    generalize DriveResult.run calls (.new result upload) = outcome at left returned off
    obtain ⟨_, final⟩ := outcome
    cases returned
    obtain ⟨polls, done⟩ := left.ended off
    exact ⟨off, sound.await done⟩

end Driven

section Samples

/-- Allocations that have nothing to spare. -/
@[reducible] def exactAllocation : Allocation := ⟨fun _ _ _ => 0⟩

attribute [local instance] Store.standard Digest.unasked Layout.least exactAllocation

/-- The writer of a client over a transport with these answers. -/
def clientWriter (plan : List Accept) : NixWriter Sink := ⟨⟨[], plan, 63⟩, [], 64, 32⟩

/-- A log of three bytes. -/
def someLog : BytesReader := (arriving [7, 8, 9]).reader.inner

/-- A reply that is there, with an error. -/
def refusal : ResultProcess Unit :=
  ⟨[], .ok (.error ⟨.error, ⟨[], ByteString.nil_small⟩, 1, ⟨[], Vec.nil_fits⟩⟩)⟩

/-- A log is uploaded over a transport that is pending once, and the reply comes afterwards. -/
theorem upload_whole_someLog :
    Whole (clientWriter [.pending]).sent (WriteStep.contents [.copy someLog])
      (addBuildLog someLog (clientWriter [.pending]) 0)
      (DriveResult.run [.next, .result] (.new (⟨[.pending], refusal.result⟩ : ResultProcess Unit)
        (addBuildLog someLog (clientWriter [.pending]) 0))) := by
  have sound : view.Valid someLog := (arriving_fit (show [7, 8, 9].length < 4 by decide)).valid
  have valid : ∀ step ∈ (addBuildLog someLog (clientWriter [.pending]) 0).steps, step.Valid := by
    intro step member
    rw [List.mem_singleton.mp member]
    exact sound
  refine (@upload_whole_iff _ _ (ResultProcess Unit) Unit _ _ _ _ _ _ _ Sink.honesty _ _ ⟨trivial, by decide⟩
    (.addBuildLog someLog 0) valid _ _).mpr ?_
  apply DriveResult.timely_next
  · decide +kernel
  · apply DriveResult.timely_of_ready
    decide +kernel

/-- A log is uploaded over a transport that is pending after five bytes, and the reply is there already. -/
def cutOff : Poll (Except RemoteError Unit) × DriveResult (ResultProcess Unit) (Upload BytesReader Sink) :=
  DriveResult.run [.result] (.new refusal (addBuildLog someLog (clientWriter [.take 5, .pending]) 0))

/-- The upload returns the error of the daemon when the transport has five bytes of the first frame. -/
theorem upload_cut_off :
    cutOff.2.driver.body.connection.inner.written = (toLeBytes 3).take 5 ∧
      ¬ Whole (clientWriter [.take 5, .pending]).sent (WriteStep.contents [.copy someLog])
        (addBuildLog someLog (clientWriter [.take 5, .pending]) 0) cutOff := by
  have returned : cutOff.1 = .ready (.error ⟨.error, ⟨[], ByteString.nil_small⟩, 1, ⟨[], Vec.nil_fits⟩⟩) := by
    decide +kernel
  have on : cutOff.2.driving = true := by decide +kernel
  constructor
  · decide +kernel
  · rintro ⟨whole, -⟩
    have off := (whole _ returned).1
    exact Bool.false_ne_true (off.symm.trans on)

end Samples

end Harmonia.Daemon
