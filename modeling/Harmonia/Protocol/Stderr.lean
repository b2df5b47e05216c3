import Harmonia.Protocol.Chunked
import Harmonia.Protocol.Logging

/-!
# Logs and results

`ProcessStderr::stream` of `daemon_wire/logger.rs`, without a source and a sink: log messages up to
the last one, and then the result, or an error in its place. What the server writes of a sequence of
log messages and a result is read back in any chunks.
-/

namespace Harmonia.Protocol

open Library Store

section Errors

variable [Layout]

/-- `RemoteError`. -/
structure RemoteError where
  /-- `level`. -/
  level : Verbosity
  /-- `msg`. -/
  msg : ByteString
  /-- `exit_status`. -/
  exitStatus : UInt32
  /-- `traces`. -/
  traces : Vec TraceLine
  deriving DecidableEq

/-- `From<RemoteError> for LogError`. -/
def LogError.fromRemote (value : RemoteError) : LogError :=
  ⟨.ignored, value.level, .ignored, value.msg, value.exitStatus, .ignored, value.traces⟩

/-- `From<LogError> for RemoteError`. -/
def RemoteError.fromLog (err : LogError) : RemoteError :=
  ⟨err.level, err.msg, err.exitStatus, err.traces⟩

/-- The `DaemonError`s of a stream. -/
inductive DaemonError where
  /-- `Remote`. -/
  | remote (error : RemoteError)
  /-- `NoSourceForLoggerRead`. -/
  | noSource
  /-- `Io`. -/
  | io (error : IoError)
  deriving DecidableEq

end Errors

/-- How a call on a client comes out. -/
inductive Answer (α : Type) [Layout] where
  /-- `Ok`. -/
  | ok (value : α)
  /-- `Err`. -/
  | err (error : DaemonError)
  /-- It does not return. -/
  | panic
  deriving DecidableEq

namespace ProcessStderr

section Loop

variable [Layout] [DataEncoding] {R : Type} [AsyncBytesRead R] [AsyncPrepare R]

/-- The loop of `stream`, with the messages it has yielded so far. -/
def logs (ctx : Ctx) (patience : Nat) :
    Nat → List LogMessage → NixReader R → List LogMessage × Answer Unit × NixReader R
  | 0, yielded, reader => (yielded, .panic, reader)
  | fuel + 1, yielded, reader =>
    match NixReader.run patience (readValue RawLogMessage ctx) reader with
    | (.ready msg, reader) =>
      match msg with
      | .next text => logs ctx patience fuel (yielded ++ [.message ⟨.error, text⟩]) reader
      | .result result => logs ctx patience fuel (yielded ++ [.result result]) reader
      | .startActivity act => logs ctx patience fuel (yielded ++ [.startActivity act]) reader
      | .stopActivity act => logs ctx patience fuel (yielded ++ [.stopActivity act]) reader
      | .read _ => (yielded, .err .noSource, reader)
      | .write _ => logs ctx patience fuel yielded reader
      | .last =>
        match NixReader.run patience (readValue Unit ctx) reader with
        | (.ready value, reader) => (yielded, .ok value, reader)
        | (.error error, reader) => (yielded, .err (.io error), reader)
        | (.pending, reader) | (.panic, reader) => (yielded, .panic, reader)
      | .error err => (yielded, .err (.remote (.fromLog err)), reader)
    | (.error error, reader) => (yielded, .err (.io error), reader)
    | (.pending, reader) | (.panic, reader) => (yielded, .panic, reader)

/-- `stream`, of which the log messages are read and then the result by a deserialiser. -/
def receive {α : Type} (read : Read α) (ctx : Ctx) (patience fuel : Nat) (reader : NixReader R) :
    List LogMessage × Answer α × NixReader R :=
  match logs ctx patience fuel [] reader with
  | (yielded, .ok (), reader) =>
    match NixReader.run patience read reader with
    | (.ready value, reader) => (yielded, .ok value, reader)
    | (.error error, reader) => (yielded, .err (.io error), reader)
    | (.pending, reader) | (.panic, reader) => (yielded, .panic, reader)
  | (yielded, .err error, reader) => (yielded, .err error, reader)
  | (yielded, .panic, reader) => (yielded, .panic, reader)

/-- `stream`. -/
def stream (α : Type) [NixDeserialize α] (ctx : Ctx) (patience fuel : Nat) (reader : NixReader R) :
    List LogMessage × Answer α × NixReader R :=
  receive (readValue α ctx) ctx patience fuel reader

end Loop

/-! ## What the server writes -/

section Server

variable [Layout] [DataEncoding]

/-- The last message and the result, or an error. -/
def reply {α : Type} [NixSerialize α] (ctx : Ctx) : Except RemoteError α → List Token
  | .ok value => serialize ctx RawLogMessage.last ++ serialize ctx value
  | .error error => serialize ctx (RawLogMessage.error (.fromRemote error))

/-- A plain message is received as an error, whatever its level. -/
def received : LogMessage → LogMessage
  | .message msg => .message ⟨.error, msg.text⟩
  | .startActivity act => .startActivity act
  | .stopActivity act => .stopActivity act
  | .result result => .result result

/-- The answer to a call, with the exit status that is assumed where it is not carried. -/
def answer {α : Type} : Except RemoteError α → Answer α
  | .ok value => .ok value
  | .error error => .err (.remote { error with exitStatus := 1 })

/-- The errors a connection carries. -/
def CarriedError (ctx : Ctx) (error : RemoteError) : Prop :=
  5 ≤ ctx.maxBufSize ∧ Carried ctx error.msg ∧ Carried ctx error.traces

/-- From version 26 on, the exit status is not written. -/
theorem serialize_error {ctx : Ctx} (minor : 26 ≤ ctx.minor) (error : RemoteError) :
    serialize ctx (RawLogMessage.error (.fromRemote error)) =
      serialize ctx (RawLogMessage.error (.fromRemote { error with exitStatus := 1 })) := by
  show serialize ctx RawLogMessageType.error ++ ite _ _ _ =
    serialize ctx RawLogMessageType.error ++ ite _ _ _
  rw [if_pos minor, if_pos minor]
  rfl

end Server

/-! ## Transport -/

/-- A reader that has enough room and is polled often enough. -/
structure Fit {R : Type} [AsyncBytesRead R] [LawfulBytesRead R] (ctx : Ctx) (patience : Nat)
    (reader : NixReader R) : Prop where
  /-- The bookkeeping. -/
  valid : view.Valid reader.inner
  /-- Nothing below fails. -/
  regular : view.Regular reader.inner
  /-- It is polled often enough. -/
  patient : budget reader.inner < patience
  /-- Texts are within the limit of strings. -/
  within : ctx.maxBufSize ≤ reader.maxBufSize
  /-- Texts are within half of the limit of the buffer. -/
  half : 2 * alignNat ctx.maxBufSize ≤ view.limit reader.inner

/-- What is left is as fit. -/
theorem Fit.leaves {R : Type} [AsyncBytesRead R] [LawfulBytesRead R] {ctx : Ctx} {patience : Nat}
    {reader next : NixReader R} {rest : Bytes}
    (fit : Fit ctx patience reader) (leaves : reader.Leaves next rest) : Fit ctx patience next := by
  have spent := leaves.spent
  have patient := fit.patient
  exact ⟨leaves.valid, leaves.regular, by omega, leaves.same ▸ fit.within, leaves.limit ▸ fit.half⟩

section Transport

variable [Layout] [DataEncoding] {R : Type} [AsyncBytesRead R] [LawfulBytesRead R] [AsyncPrepare R]
  [LawfulPrepare R]

/-- A raw message that is there is read. -/
theorem Fit.run_message {ctx : Ctx} {patience : Nat} {reader : NixReader R}
    (fit : Fit ctx patience reader) (minor : 26 ≤ ctx.minor) {msg : RawLogMessage} {tail : Bytes}
    (carried : msg.Carried ctx)
    (arrives : view.unread reader.inner = encode (serialize ctx msg) ++ tail) :
    ∃ next, NixReader.run patience (readValue RawLogMessage ctx) reader = (.ready msg, next) ∧
      reader.Leaves next tail := by
  apply NixReader.run_ready fit.valid fit.regular fit.patient fit.within fit.half
  have minor : 20 ≤ ctx.minor := by omega
  rw [arrives, readValue, Read.run_bind, tryDeserialize_rawLogMessage minor carried]
  rfl

/-- Log messages that are there are yielded one after the other. -/
theorem logs_messages {ctx : Ctx} {patience fuel : Nat} {messages yielded : List LogMessage}
    {encoder : LogMessage → List Token} {reader : NixReader R} {more : Bytes}
    (fit : Fit ctx patience reader) (minor : 26 ≤ ctx.minor)
    (encodes : ∀ msg, encoder msg = serialize ctx msg ∨ encoder msg = serialize ctx msg.raw)
    (carried : ∀ msg ∈ messages, msg.raw.Carried ctx)
    (arrives : view.unread reader.inner = encode (messages.flatMap encoder) ++ more) :
    ∃ next, logs ctx patience (messages.length + fuel) yielded reader =
      logs ctx patience fuel (yielded ++ messages.map received) next ∧ reader.Leaves next more := by
  induction messages generalizing yielded reader with
  | nil =>
    refine ⟨reader, ?_, fit.valid, fit.regular, arrives, rfl, rfl, Nat.le_refl _⟩
    rw [List.length_nil, Nat.zero_add, List.map_nil, List.append_nil]
  | cons msg rest ih =>
    have written : encoder msg = serialize ctx msg.raw := by
      rcases encodes msg with same | same
      · rw [same, LogMessage.serialize_raw]
      · exact same
    rw [List.flatMap_cons, encode_append, List.append_assoc, written] at arrives
    obtain ⟨between, ran, leaves⟩ := fit.run_message minor (carried msg List.mem_cons_self) arrives
    obtain ⟨next, later, left⟩ := @ih (yielded ++ [received msg]) between (fit.leaves leaves)
      (fun other member => carried other (List.mem_cons_of_mem _ member)) leaves.unread
    refine ⟨next, ?_, left.valid, left.regular, left.unread, left.limit.trans leaves.limit,
      left.same.trans leaves.same, Nat.le_trans left.spent leaves.spent⟩
    rw [List.length_cons, Nat.add_right_comm, logs, ran]
    rw [List.append_assoc] at later
    cases msg <;> exact later

/-- Log messages, the last one and a result that are there are read. -/
theorem receive_last {α : Type} {read : Read α} {ctx : Ctx} {patience fuel : Nat}
    {messages : List LogMessage} {encoder : LogMessage → List Token} {value : α}
    {reader : NixReader R} {after tail : Bytes}
    (fit : Fit ctx patience reader) (minor : 26 ≤ ctx.minor) (enough : messages.length < fuel)
    (encodes : ∀ msg, encoder msg = serialize ctx msg ∨ encoder msg = serialize ctx msg.raw)
    (carried : ∀ msg ∈ messages, msg.raw.Carried ctx)
    (reads : read.run ctx after = .ok value tail)
    (arrives : view.unread reader.inner = encode (messages.flatMap encoder) ++
      (encode (serialize ctx RawLogMessage.last) ++ after)) :
    ∃ next, receive read ctx patience fuel reader = (messages.map received, .ok value, next) ∧
      reader.Leaves next tail := by
  obtain ⟨more, rfl⟩ : ∃ more, fuel = messages.length + (more + 1) := ⟨fuel - messages.length - 1, by omega⟩
  obtain ⟨between, looped, leaves⟩ := @logs_messages _ _ R _ _ _ _ ctx patience (more + 1) messages []
    encoder reader _ fit minor encodes carried arrives
  have fit := fit.leaves leaves
  rw [receive, looped, List.nil_append]
  obtain ⟨next, ran, left⟩ := fit.run_message minor (show RawLogMessage.Carried ctx .last from trivial)
    leaves.unread
  obtain ⟨after, took, last⟩ := NixReader.run_ready left.valid left.regular (fit.leaves left).patient
    (fit.leaves left).within (fit.leaves left).half
    (show read.run ctx (view.unread next.inner) = .ok value tail by rw [left.unread, reads])
  refine ⟨after, ?_, last.valid, last.regular, last.unread, ?_, ?_, ?_⟩
  · rw [logs, ran]
    show (match NixReader.run patience read next with
      | (.ready value, reader) => _ | (.error error, reader) => _
      | (.pending, reader) => _ | (.panic, reader) => _) = _
    rw [took]
  · exact last.limit.trans (left.limit.trans leaves.limit)
  · exact last.same.trans (left.same.trans leaves.same)
  · exact Nat.le_trans last.spent (Nat.le_trans left.spent leaves.spent)

/-- An error that a connection carries, as a message. -/
theorem CarriedError.message {ctx : Ctx} (minor : 26 ≤ ctx.minor) {error : RemoteError}
    (carried : CarriedError ctx error) :
    RawLogMessage.Carried ctx (.error (.fromRemote { error with exitStatus := 1 })) := by
  obtain ⟨word, msg, traces⟩ := carried
  show Carried ctx (LogError.fromRemote { error with exitStatus := 1 })
  refine (if_pos minor).mpr ⟨rfl, ?_⟩
  exact ⟨⟨trivial, word⟩, trivial, ⟨trivial, word⟩, msg, trivial, traces⟩

/-- Log messages and an error that are there are read. -/
theorem receive_failed {α : Type} {read : Read α} {ctx : Ctx} {patience fuel : Nat}
    {messages : List LogMessage} {encoder : LogMessage → List Token} {error : RemoteError}
    {reader : NixReader R} {tail : Bytes}
    (fit : Fit ctx patience reader) (minor : 26 ≤ ctx.minor) (enough : messages.length < fuel)
    (encodes : ∀ msg, encoder msg = serialize ctx msg ∨ encoder msg = serialize ctx msg.raw)
    (carried : ∀ msg ∈ messages, msg.raw.Carried ctx) (carriedError : CarriedError ctx error)
    (arrives : view.unread reader.inner = encode (messages.flatMap encoder) ++
      (encode (serialize ctx (RawLogMessage.error (.fromRemote error))) ++ tail)) :
    ∃ next, receive read ctx patience fuel reader =
        (messages.map received, .err (.remote { error with exitStatus := 1 }), next) ∧
      reader.Leaves next tail := by
  obtain ⟨more, rfl⟩ : ∃ more, fuel = messages.length + (more + 1) := ⟨fuel - messages.length - 1, by omega⟩
  obtain ⟨between, looped, leaves⟩ := @logs_messages _ _ R _ _ _ _ ctx patience (more + 1) messages []
    encoder reader _ fit minor encodes carried arrives
  have unread := leaves.unread
  rw [serialize_error minor] at unread
  obtain ⟨next, ran, left⟩ := (fit.leaves leaves).run_message minor (carriedError.message minor) unread
  refine ⟨next, ?_, left.valid, left.regular, left.unread, left.limit.trans leaves.limit,
    left.same.trans leaves.same, Nat.le_trans left.spent leaves.spent⟩
  rw [receive, looped, List.nil_append, logs, ran]
  rfl

/-- What the server writes of log messages and a result or an error is read back by the client,
in any chunks, and nothing more is read. -/
theorem stream_reply {α : Type} [NixSerialize α] [NixDeserialize α] [Wire α] {ctx : Ctx}
    {patience fuel : Nat} {messages : List LogMessage} {encoder : LogMessage → List Token}
    {result : Except RemoteError α} {reader : NixReader R} {tail : Bytes}
    (fit : Fit ctx patience reader) (minor : 26 ≤ ctx.minor) (enough : messages.length < fuel)
    (encodes : ∀ msg, encoder msg = serialize ctx msg ∨ encoder msg = serialize ctx msg.raw)
    (carried : ∀ msg ∈ messages, msg.raw.Carried ctx)
    (value : ∀ value, result = .ok value → Carried ctx value)
    (error : ∀ error, result = .error error → CarriedError ctx error)
    (arrives : view.unread reader.inner =
      encode (messages.flatMap encoder ++ reply ctx result) ++ tail) :
    ∃ next, stream α ctx patience fuel reader = (messages.map received, answer result, next) ∧
      reader.Leaves next tail := by
  rw [encode_append, List.append_assoc] at arrives
  cases result with
  | ok found =>
    rw [reply, encode_append, List.append_assoc] at arrives
    exact receive_last fit minor enough encodes carried (run_readValue (value found rfl) tail) arrives
  | error failure => exact receive_failed fit minor enough encodes carried (error failure rfl) arrives

end Transport

section Samples

attribute [local instance] Store.standard Layout.least

/-- A plain message of so many letters. -/
def letters (count : Nat) (small : count < 2 ^ 63) : LogMessage :=
  .message ⟨.info, List.replicate count 97, by rwa [List.length_replicate]⟩

/-- What is written of two plain messages and a result. -/
def twoMessages : Bytes :=
  encode ([letters 28 (by decide), letters 36 (by decide)].flatMap (serialize .standard) ++
    reply .standard (.ok true))

/-- A reader of what is written, one byte at a time, that lets go of each text. -/
def slowReader (reserved limit : Nat) (small : limit < 2 ^ 63) : NixReader BytesReader :=
  ⟨.build reserved limit true ⟨twoMessages, [], 0⟩, limit, small, [false, false], []⟩

/-- The two messages are carried where texts may have so many bytes. -/
theorem twoMessages_carried {ctx : Ctx} (short : 36 ≤ ctx.maxBufSize) :
    ∀ msg ∈ [letters 28 (by decide), letters 36 (by decide)], msg.raw.Carried ctx := by
  intro msg member
  rcases List.mem_cons.mp member with rfl | listed
  · show (List.replicate 28 (97 : UInt8)).length ≤ ctx.maxBufSize
    rw [List.length_replicate]
    omega
  · rw [List.mem_singleton.mp listed]
    show (List.replicate 36 (97 : UInt8)).length ≤ ctx.maxBufSize
    rwa [List.length_replicate]

/-- Texts have at most 64 bytes. -/
def shortTexts : Ctx := { Ctx.standard with maxBufSize := 64, small := by decide }

/-- A default reader yields the two messages and the result. -/
theorem stream_twoMessages :
    ∃ next, stream Bool shortTexts 256 8
      (slowReader BytesReader.defaultReservedBufSize BytesReader.defaultMaxBufSize (by decide)) =
        ([received (letters 28 (by decide)), received (letters 36 (by decide))], .ok true, next) ∧
      view.unread next.inner = [] := by
  have fit : Fit shortTexts 256
      (slowReader BytesReader.defaultReservedBufSize BytesReader.defaultMaxBufSize (by decide)) := by
    refine ⟨BytesReader.build_sound (by decide) _ _ _, ⟨?_, ?_, rfl⟩, ?_, ?_, ?_⟩
    · exact List.forall_mem_nil _
    · decide
    · decide +kernel
    · decide
    · decide
  have arrives : view.unread (slowReader BytesReader.defaultReservedBufSize
      BytesReader.defaultMaxBufSize (by decide)).inner =
        encode ([letters 28 (by decide), letters 36 (by decide)].flatMap (serialize shortTexts) ++
          reply shortTexts (.ok true)) ++ [] := by
    rw [List.append_nil]
    rfl
  have unfailing : ∀ error, (.ok true : Except RemoteError Bool) = .error error →
      CarriedError shortTexts error := by
    intro error impossible
    cases impossible
  obtain ⟨next, read, leaves⟩ := stream_reply fit (by decide) (show 2 < 8 by decide)
    (fun _ => .inl rfl) (twoMessages_carried (by decide)) (fun _ _ => trivial) unfailing arrives
  exact ⟨next, read, leaves.unread⟩

/-- Whether a call came out as it should. -/
def succeeded : Answer Bool → Bool
  | .ok true => true
  | _ => false

/-- A reader with a small buffer refuses to go on after texts that are within its limit. -/
theorem stream_refused :
    ¬ ∀ (reader : NixReader BytesReader) (messages : List LogMessage) (patience fuel : Nat),
      view.Valid reader.inner → view.Regular reader.inner → budget reader.inner < patience →
      messages.length < fuel →
      (∀ msg ∈ messages, msg.raw.Carried ⟨37, .default, reader.maxBufSize, reader.small⟩) →
      view.unread reader.inner =
        encode (messages.flatMap (serialize .standard) ++ reply .standard (.ok true)) →
      (stream Bool .standard patience fuel reader).2.1 = .ok true := by
  intro every
  have read := every (slowReader 8 64 (by decide)) [letters 28 (by decide), letters 36 (by decide)] 256 8
    (BytesReader.build_sound (by decide) _ _ _) ⟨List.forall_mem_nil _, by decide, rfl⟩
    (by decide +kernel) (by decide) (twoMessages_carried (by decide)) rfl
  have refused : succeeded (stream Bool .standard 256 8 (slowReader 8 64 (by decide))).2.1 = false := by
    decide +kernel
  rw [read] at refused
  cases refused

end Samples

end ProcessStderr

end Harmonia.Protocol
