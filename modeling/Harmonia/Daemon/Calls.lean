import Harmonia.Daemon.Client

/-!
# One call after another

A client is used for any sequence of calls. It is in sync if each of them reads its own reply from
the first byte to the last. Calls of `nar_from_path` that have an archive keep a client in sync,
however much of the archive is read. Those that have none do not: the reader is lent all the same,
and what comes next is taken for an archive.
-/

namespace Harmonia.Daemon

open Library Store Protocol

section Calls

variable [Layout]

/-- A call on a client, with what it is answered and whether its request could not be written. -/
inductive Call where
  /-- `nar_from_path`, and the rooms with which the archive is then polled. -/
  | nar (failed : Option IoError) (logs : List LogMessage) (result : Except RemoteError Bytes)
    (rooms : List Nat)
  /-- Any other method, and the bytes of its result. -/
  | plain (op : Operation) (other : op ≠ .narFromPath) (failed : Option IoError)
    (logs : List LogMessage) (result : Except RemoteError (Response op)) (after : Bytes)

variable [DataEncoding]

/-- A reply: log messages, and then the last one and a result, or an error. -/
def replyBytes {α : Type} (ctx : Ctx) (logs : List LogMessage) (result : Except RemoteError α)
    (after : Bytes) : Bytes :=
  encode (logs.flatMap (serialize ctx)) ++
    match result with
    | .ok _ => encode (serialize ctx RawLogMessage.last) ++ after
    | .error error => encode (serialize ctx (RawLogMessage.error (.fromRemote error)))

namespace Call

/-- What the server writes for a call. A request that was not written has no reply. -/
def reply (ctx : Ctx) : Call → Bytes
  | nar (some _) _ _ _ | plain _ _ (some _) _ _ _ => []
  | nar none logs (.ok archive) _ => replyBytes ctx logs (.ok archive) archive
  | nar none logs (.error error) _ => replyBytes ctx logs (.error error : Except _ Bytes) []
  | plain _ _ none logs result after => replyBytes ctx logs result after

/-- The reply can be read: messages are carried, the archive is one, and the bytes of a result are
read as the result. -/
def Legible (ctx : Ctx) : Call → Prop
  | nar _ logs result _ =>
    (∀ msg ∈ logs, msg.raw.Carried ctx) ∧ (∀ archive, result = .ok archive → DaemonClient.Archive archive) ∧
      ∀ error, result = .error error → ProcessStderr.CarriedError ctx error
  | plain op other _ logs result after =>
    (∀ msg ∈ logs, msg.raw.Carried ctx) ∧
      (∀ value, result = .ok value →
        ∀ tail, (readResult ctx op other).run ctx (after ++ tail) = .ok value tail) ∧
      ∀ error, result = .error error → ProcessStderr.CarriedError ctx error

/-- The log messages of a reply. -/
def messages : Call → List LogMessage
  | nar _ logs _ _ | plain _ _ _ logs _ _ => logs

/-- If it is a call of `nar_from_path`, its request was written and there is an archive. -/
def HasArchive : Call → Prop
  | nar failed _ result _ => failed = none ∧ ∃ archive, result = .ok archive
  | plain _ _ _ _ _ _ => True

end Call

namespace DaemonClient

variable {R : Type} [AsyncBytesRead R] [AsyncPrepare R]

/-- A client does with a call what it should: it returns the error of the write, or the log messages
and the result or the error of the reply; of an archive, it lets a start be read. -/
def Performs (ctx : Ctx) (patience fuel : Nat) (client next : DaemonClient R) : Call → Prop
  | .nar (some error) _ _ _ =>
    client.narFromPath ctx patience fuel (some error) = ([], .err (.io error), next)
  | .nar none logs (.ok archive) rooms =>
    ∃ lent read, client.narFromPath ctx patience fuel none =
        (logs.map ProcessStderr.received, .ok (), lent) ∧
      lent.readNar rooms = some (read, next) ∧ read <+: archive
  | .nar none logs (.error error) _ =>
    client.narFromPath ctx patience fuel none =
      (logs.map ProcessStderr.received, .err (.remote { error with exitStatus := 1 }), next)
  | .plain op other (some error) _ _ _ =>
    client.call ctx patience fuel (some error) op other = ([], .err (.io error), next)
  | .plain op other none logs result _ =>
    client.call ctx patience fuel none op other =
      (logs.map ProcessStderr.received, ProcessStderr.answer result, next)

variable [LawfulBytesRead R]

/-- A client performs one call after the other, each from the first byte of its reply, and ends before
these bytes. -/
def InSync (ctx : Ctx) (patience fuel : Nat) (tail : Bytes) : List Call → DaemonClient R → Prop
  | [], client => client.Stands ctx patience tail
  | call :: rest, client =>
    client.Stands ctx patience ((call :: rest).flatMap (Call.reply ctx) ++ tail) ∧
      ∃ next, client.Performs ctx patience fuel next call ∧ InSync ctx patience fuel tail rest next

variable [LawfulPrepare R]

/-- One call. -/
theorem Stands.performs {ctx : Ctx} {patience fuel : Nat} {client : DaemonClient R} {call : Call}
    {rest : Bytes} (stands : client.Stands ctx patience (call.reply ctx ++ rest))
    (minor : 26 ≤ ctx.minor) (enough : call.messages.length < fuel) (legible : call.Legible ctx)
    (archive : call.HasArchive) :
    ∃ next, client.Performs ctx patience fuel next call ∧ next.Stands ctx patience rest := by
  cases call with
  | nar failed logs result rooms =>
    obtain ⟨rfl, archive, rfl⟩ := archive
    obtain ⟨carried, archives, -⟩ := legible
    simp only [Call.reply, replyBytes, List.append_assoc] at stands
    obtain ⟨lent, ran, reading⟩ := stands.narFromPath_last minor enough carried (archives archive rfl)
    obtain ⟨read, next, reads, starts, now⟩ := reading.readNar rooms
    exact ⟨next, ⟨lent, read, ran, reads, starts⟩, now⟩
  | plain op other failed logs result after =>
    cases failed with
    | some error => exact ⟨client, rfl, stands⟩
    | none =>
      obtain ⟨carried, reads, errors⟩ := legible
      cases result with
      | ok value =>
        simp only [Call.reply, replyBytes, List.append_assoc] at stands
        exact stands.call_last minor enough carried (reads value rfl rest)
      | error error =>
        simp only [Call.reply, replyBytes, List.append_assoc] at stands
        exact stands.call_failed minor enough carried (errors error rfl)

/-- A client whose archives are all there stays in sync, whatever else it is used for and however
much of each archive is read. -/
theorem inSync_of_archives {ctx : Ctx} {patience fuel : Nat} {client : DaemonClient R}
    {calls : List Call} {tail : Bytes}
    (stands : client.Stands ctx patience (calls.flatMap (Call.reply ctx) ++ tail))
    (minor : 26 ≤ ctx.minor) (enough : ∀ call ∈ calls, call.messages.length < fuel)
    (legible : ∀ call ∈ calls, call.Legible ctx) (archives : ∀ call ∈ calls, call.HasArchive) :
    InSync ctx patience fuel tail calls client := by
  induction calls generalizing client with
  | nil => exact stands
  | cons call rest ih =>
    refine ⟨stands, ?_⟩
    rw [List.flatMap_cons, List.append_assoc] at stands
    obtain ⟨next, performs, now⟩ := stands.performs minor (enough call List.mem_cons_self)
      (legible call List.mem_cons_self) (archives call List.mem_cons_self)
    refine ⟨next, performs, ih now ?_ ?_ ?_⟩
    · exact fun other member => enough other (List.mem_cons_of_mem _ member)
    · exact fun other member => legible other (List.mem_cons_of_mem _ member)
    · exact fun other member => archives other (List.mem_cons_of_mem _ member)

end DaemonClient

end Calls

section Samples

attribute [local instance] Store.standard Digest.unasked Layout.least

/-- A client with a default reader on which these bytes arrive, some at a time. -/
def listening (bytes : Bytes) : DaemonClient BytesReader :=
  ⟨⟨⟨.available (.build BytesReader.defaultReservedBufSize BytesReader.defaultMaxBufSize true
    ⟨bytes, [], 63⟩), none⟩, BytesReader.defaultMaxBufSize, defaultMaxBufSize_small, [], []⟩⟩

/-- A client on which a few bytes arrive stands before them. -/
theorem listening_stands {bytes : Bytes} {patience : Nat} (few : bytes.length < patience) :
    (listening bytes).Stands ProcessStderr.shortTexts patience bytes := by
  refine ⟨⟨_, 0 + (bytes.length + 0), ⟨.available ⟨?_, ⟨List.forall_mem_nil _, ?_, rfl⟩, rfl, rfl, ?_⟩, ?_⟩, ?_, ?_⟩, ?_⟩
  · exact BytesReader.build_sound (by decide) _ _ _
  · show BytesReader.defaultReservedBufSize * 2 ≤ BytesReader.defaultMaxBufSize
    decide
  · exact Nat.le_refl _
  · rintro lent ⟨⟩
  · omega
  · show 2 * alignNat 64 ≤ BytesReader.defaultMaxBufSize - BytesReader.defaultReservedBufSize
    decide
  · show 64 ≤ BytesReader.defaultMaxBufSize
    decide

/-- The archive of an empty file. -/
def emptyFile : Bytes := Nar.tokRoot ++ Nar.tokFile ++ toLeBytes 0 ++ Nar.tokPar

/-- The archive of an empty file is an archive. -/
theorem emptyFile_archive : DaemonClient.Archive emptyFile := by
  have none : ([] : Bytes).length = Nar.fieldAlign 0 := by decide
  have whole := ((Nar.Reads.start.more (.header .file 0)).more (.body .file 0 _ [] none)).more .closeRoot
  rw [List.append_nil] at whole
  exact ⟨Nar.derives_root_iff.mpr ⟨_, whole⟩, by decide +kernel⟩

/-- A call that is refused. -/
def refused : Call := .nar none [] (.error ⟨.error, ⟨[], ByteString.nil_small⟩, 1, ⟨[], Vec.nil_fits⟩⟩) []

/-- A call for an archive of which three bytes are read. -/
def three : Call := .nar none [] (.ok emptyFile) [3]

/-- A call for something else. -/
def check : Call :=
  .plain .verifyStore (by decide) none [] (.ok true) (encode (serialize ProcessStderr.shortTexts true))

/-- A call after an archive of which three bytes were read finds its own reply. -/
theorem DaemonClient.inSync_three :
    InSync ProcessStderr.shortTexts 1024 1 [] [three, check]
      (listening ([three, check].flatMap (Call.reply ProcessStderr.shortTexts))) := by
  have few : ([three, check].flatMap (Call.reply ProcessStderr.shortTexts)).length < 1024 := by
    decide +kernel
  have stands := listening_stands few
  rw [← List.append_nil (List.flatMap _ _)] at stands
  have legible : ∀ call ∈ [three, check], call.Legible ProcessStderr.shortTexts := by
    intro call member
    rcases List.mem_cons.mp member with rfl | listed
    · refine ⟨List.forall_mem_nil _, ?_, nofun⟩
      rintro archive ⟨⟩
      exact emptyFile_archive
    · rw [List.mem_singleton.mp listed]
      refine ⟨List.forall_mem_nil _, ?_, nofun⟩
      rintro value ⟨⟩ tail
      exact run_readValue (show Carried _ true from trivial) tail
  have archives : ∀ call ∈ [three, check], call.HasArchive := by
    intro call member
    rcases List.mem_cons.mp member with rfl | listed
    · exact ⟨rfl, emptyFile, rfl⟩
    · rw [List.mem_singleton.mp listed]
      trivial
  have enough : ∀ call ∈ [three, check], call.messages.length < 1 := by
    intro call member
    rcases List.mem_cons.mp member with rfl | listed
    · exact Nat.one_pos
    · rw [List.mem_singleton.mp listed]
      exact Nat.one_pos
  exact inSync_of_archives stands (by decide) enough legible archives

/-- Whether a call came out with a panic. -/
def panicked : Answer Unit → Bool
  | .panic => true
  | _ => false

/-- A call for an archive after one that was refused panics. -/
theorem DaemonClient.inSync_refused :
    ¬ ∀ (client : DaemonClient BytesReader) (calls : List Call) (patience fuel : Nat) (tail : Bytes),
      client.Stands ProcessStderr.shortTexts patience
        (calls.flatMap (Call.reply ProcessStderr.shortTexts) ++ tail) →
      (∀ call ∈ calls, call.messages.length < fuel) →
      (∀ call ∈ calls, call.Legible ProcessStderr.shortTexts) →
      InSync ProcessStderr.shortTexts patience fuel tail calls client := by
  intro every
  have few : ([refused, three].flatMap (Call.reply ProcessStderr.shortTexts)).length < 1024 := by
    decide +kernel
  have stands := listening_stands few
  rw [← List.append_nil (List.flatMap _ _)] at stands
  have legible : ∀ call ∈ [refused, three], call.Legible ProcessStderr.shortTexts := by
    intro call member
    rcases List.mem_cons.mp member with rfl | listed
    · refine ⟨List.forall_mem_nil _, nofun, ?_⟩
      rintro error ⟨⟩
      exact ⟨by decide, Nat.zero_le _, List.forall_mem_nil _⟩
    · rw [List.mem_singleton.mp listed]
      refine ⟨List.forall_mem_nil _, ?_, nofun⟩
      rintro archive ⟨⟩
      exact emptyFile_archive
  have enough : ∀ call ∈ [refused, three], call.messages.length < 1 := by
    intro call member
    rcases List.mem_cons.mp member with rfl | listed
    · exact Nat.one_pos
    · rw [List.mem_singleton.mp listed]
      exact Nat.one_pos
  obtain ⟨-, next, first, -, last, ⟨lent, read, second, -⟩, -⟩ := every _ _ _ _ _ stands enough legible
  have panics : panicked (((listening ([refused, three].flatMap
      (Call.reply ProcessStderr.shortTexts))).narFromPath ProcessStderr.shortTexts 1024 1 none).2.2.narFromPath
        ProcessStderr.shortTexts 1024 1 none).2.1 = true := by
    decide +kernel
  rw [List.append_nil] at first
  rw [show DaemonClient.narFromPath _ _ _ _ _ = _ from first, second] at panics
  cases panics

end Samples

end Harmonia.Daemon
