import Harmonia.Daemon.Calls
import Harmonia.Daemon.Server

/-!
# Client and server

What the server writes after the last message of a reply and what the client reads there are chosen
separately, operation by operation. For six operations the server writes a word that the client
does not read. In a sequence of the others, each call of the client reads what the server wrote for it.
-/

namespace Harmonia.Daemon

open Library Store Protocol

section Agreement

variable [Layout] [DataEncoding]

/-- The operations for which the client reads what the server writes. For the others the server
acknowledges with a word, and the client reads `()`. -/
def Matched : Operation → Bool
  | .ensurePath | .addTempRoot | .addIndirectRoot | .optimiseStore | .addSignatures | .addBuildLog => false
  | _ => true

/-- The results a connection carries. -/
def CarriedResponse (ctx : Ctx) : (op : Operation) → Response op → Prop
  | .setOptions, _ | .buildPaths, _ | .ensurePath, _ | .addTempRoot, _ | .addIndirectRoot, _
  | .optimiseStore, _ | .addSignatures, _ | .addToStoreNar, _ | .registerDrvOutput, _
  | .addMultipleToStore, _ | .addBuildLog, _ => True
  | .narFromPath, nar => DaemonClient.Archive nar.bytes
  | .isValidPath, value => Carried ctx value
  | .queryReferrers, value => Carried ctx value
  | .addToStore, value => Carried ctx value
  | .findRoots, value => Carried ctx value
  | .collectGarbage, value => Carried ctx value
  | .queryAllValidPaths, value => Carried ctx value
  | .queryPathInfo, value => Carried ctx value
  | .queryPathFromHashPart, value => Carried ctx value
  | .queryValidPaths, value => Carried ctx value
  | .querySubstitutablePaths, value => Carried ctx value
  | .queryValidDerivers, value => Carried ctx value
  | .verifyStore, value => Carried ctx value
  | .buildDerivation, value => Carried ctx value
  | .queryMissing, value => Carried ctx value
  | .queryDerivationOutputMap, value => Carried ctx value
  | .queryRealisation, value => Carried ctx value
  | .buildPathsWithResults, value => Carried ctx value
  | .addPermRoot, value => Carried ctx value

/-- The client reads what the server writes of a result. -/
theorem readResult_resultBytes {ctx : Ctx} {op : Operation} (other : op ≠ .narFromPath)
    (matched : Matched op = true) {value : Response op} (carried : CarriedResponse ctx op value)
    (tail : Bytes) :
    (readResult ctx op other).run ctx (resultBytes ctx op value ++ tail) = .ok value tail := by
  cases op with
  | narFromPath => exact absurd rfl other
  | ensurePath | addTempRoot | addIndirectRoot | optimiseStore | addSignatures | addBuildLog =>
    cases matched
  | setOptions | addToStoreNar | registerDrvOutput | addMultipleToStore => rfl
  | buildPaths =>
    show Read.run ctx (_ >>= _) _ = _
    rw [Read.run_bind]
    show Read.andThen ctx _ (Read.run ctx _ (encode (serialize ctx IgnoredOne.ignored) ++ tail)) = _
    rw [run_readValue (show Carried ctx IgnoredOne.ignored from trivial)]
    rfl
  | _ => exact run_readValue carried tail

/-- An exchange, and the rooms with which an archive is polled that it is answered with. -/
structure Dialogue where
  /-- The exchange. -/
  exchange : Exchange
  /-- The rooms. -/
  rooms : List Nat

/-- The store returns a value for each request: its messages and its value can be carried, and a body
that should have a count has one. -/
def Satisfied {S : Type} (store : DaemonStore S) (ctx : Ctx) (fuel : Nat) : S → List Dialogue → Prop
  | _, [] => True
  | state, dialogue :: rest =>
    let exchange := dialogue.exchange
    let reaction := (store state exchange.request).1
    (∃ value, reaction.result = .ok value ∧ CarriedResponse ctx exchange.request.operation value) ∧
      Recoverable exchange.request.operation reaction exchange.frames ∧
      (∀ msg ∈ reaction.logs, msg.raw.Carried ctx) ∧ reaction.logs.length < fuel ∧
      Satisfied store ctx fuel (store state exchange.request).2 rest

namespace DaemonClient

variable {R : Type} [AsyncBytesRead R] [AsyncPrepare R]

/-- A client returns what the store returned; of an archive, it lets a start be read. -/
def Returns (ctx : Ctx) (patience fuel : Nat) (rooms : List Nat) (client next : DaemonClient R) :
    (op : Operation) → Reaction op → Prop
  | .narFromPath, reaction =>
    ∃ nar lent read, reaction.result = .ok nar ∧
      client.narFromPath ctx patience fuel none =
        (reaction.logs.map ProcessStderr.received, .ok (), lent) ∧
      lent.readNar rooms = some (read, next) ∧ read <+: nar.bytes
  | op, reaction =>
    ∃ (other : op ≠ .narFromPath) (value : Response op), reaction.result = .ok value ∧
      client.call ctx patience fuel none op other =
        (reaction.logs.map ProcessStderr.received, .ok value, next)

variable [LawfulBytesRead R] {S : Type}

/-- A client makes one call after the other, each reads its reply from the first byte to the last, and
these bytes are left. -/
def Agrees (store : DaemonStore S) (ctx : Ctx) (patience fuel : Nat) (tail : Bytes) :
    S → List Dialogue → DaemonClient R → Prop
  | _, [], client => client.Stands ctx patience tail
  | state, dialogue :: rest, client =>
    let request := dialogue.exchange.request
    client.Stands ctx patience
        (replies store ctx state ((dialogue :: rest).map Dialogue.exchange) ++ tail) ∧
      ∃ next, client.Returns ctx patience fuel dialogue.rooms next request.operation
          (store state request).1 ∧
        Agrees store ctx patience fuel tail (store state request).2 rest next

variable [LawfulPrepare R]

/-- One call reads what the server wrote for it. -/
theorem Stands.returns {ctx : Ctx} {patience fuel : Nat} {rooms : List Nat} {client : DaemonClient R}
    {op : Operation} {reaction : Reaction op} {value : Response op} {rest : Bytes}
    (stands : client.Stands ctx patience (reply ctx reaction ++ rest)) (minor : 26 ≤ ctx.minor)
    (returned : reaction.result = .ok value) (carried : CarriedResponse ctx op value)
    (logs : ∀ msg ∈ reaction.logs, msg.raw.Carried ctx) (enough : reaction.logs.length < fuel)
    (matched : Matched op = true) :
    ∃ next, client.Returns ctx patience fuel rooms next op reaction ∧
      next.Stands ctx patience rest := by
  rw [reply, returned, terminal, logBytes, List.append_assoc, List.append_assoc] at stands
  by_cases archive : op = .narFromPath
  · subst archive
    obtain ⟨lent, ran, reading⟩ := stands.narFromPath_last minor enough logs carried
    obtain ⟨read, next, reads, starts, now⟩ := reading.readNar rooms
    exact ⟨next, ⟨value, lent, read, returned, ran, reads, starts⟩, now⟩
  · obtain ⟨next, ran, now⟩ := stands.call_last minor enough logs
      (readResult_resultBytes archive matched carried rest)
    refine ⟨next, ?_, now⟩
    unfold Returns
    split
    case h_1 => exact absurd rfl archive
    case h_2 => exact ⟨archive, value, returned, ran⟩

/-- A client whose operations are all matched reads what the server wrote for them. -/
theorem agrees_of_matched {store : DaemonStore S} {ctx : Ctx} {patience fuel : Nat} {state : S}
    {dialogues : List Dialogue} {client : DaemonClient R} {tail : Bytes} (minor : 26 ≤ ctx.minor)
    (satisfied : Satisfied store ctx fuel state dialogues)
    (matched : ∀ dialogue ∈ dialogues, Matched dialogue.exchange.request.operation = true)
    (stands : client.Stands ctx patience
      (replies store ctx state (dialogues.map Dialogue.exchange) ++ tail)) :
    Agrees store ctx patience fuel tail state dialogues client := by
  induction dialogues generalizing state client with
  | nil => exact stands
  | cons dialogue rest ih =>
    refine ⟨stands, ?_⟩
    obtain ⟨⟨value, returned, carried⟩, -, logs, enough, later⟩ := satisfied
    rw [List.map_cons, replies, List.append_assoc] at stands
    obtain ⟨next, returns, now⟩ := stands.returns minor returned carried logs enough
      (matched dialogue List.mem_cons_self)
    exact ⟨next, returns, ih later (fun other member => matched other (List.mem_cons_of_mem _ member)) now⟩

end DaemonClient

/-- A store that always returns a value lets the connection go on. -/
theorem Satisfied.lasting {S : Type} {store : DaemonStore S} {ctx : Ctx} {fuel : Nat} {state : S}
    {dialogues : List Dialogue} (satisfied : Satisfied store ctx fuel state dialogues) :
    Lasting store state (dialogues.map Dialogue.exchange) ∧
      Sayable store state (dialogues.map Dialogue.exchange) := by
  induction dialogues generalizing state with
  | nil => exact ⟨trivial, trivial⟩
  | cons dialogue rest ih =>
    obtain ⟨⟨value, returned, -⟩, recoverable, -, -, later⟩ := satisfied
    obtain ⟨lasting, sayable⟩ := ih later
    refine ⟨⟨recoverable, lasting⟩, ?_, sayable⟩
    intro error failed
    rw [returned] at failed
    cases failed

/-- For requests with matched operations, each call of a client returns what the store of the server
returned, and reads exactly what the server wrote for it. -/
theorem DaemonConnection.responses_agree [Digest] {R Q S : Type} [AsyncBytesRead R]
    [LawfulBytesRead R] [AsyncPrepare R] [LawfulPrepare R] [AsyncBytesRead Q] [LawfulBytesRead Q]
    [AsyncPrepare Q] [LawfulPrepare Q] {ctx : Ctx} {patience fuel count : Nat} {store : DaemonStore S}
    {state : S} {conn : DaemonConnection R} {dialogues : List Dialogue} {more : Bytes}
    (minor : 26 ≤ ctx.minor) (fit : ProcessStderr.Fit ctx patience conn.reader)
    (arrives : view.unread conn.reader.inner =
      (dialogues.map Dialogue.exchange).flatMap Exchange.wire ++ more)
    (decoded : ∀ dialogue ∈ dialogues, dialogue.exchange.Decoded ctx)
    (satisfied : Satisfied store ctx fuel state dialogues)
    (matched : ∀ dialogue ∈ dialogues, Matched dialogue.exchange.request.operation = true) :
    ∃ next written, processRequests ctx patience store (dialogues.length + count) state conn =
        processRequests ctx patience store count
          (states store state (dialogues.map Dialogue.exchange)) next ∧
      next.written = conn.written ++ written ∧ conn.reader.Leaves next.reader more ∧
      ∀ (client : DaemonClient Q) (tail : Bytes), client.Stands ctx patience (written ++ tail) →
        client.Agrees store ctx patience fuel tail state dialogues := by
  obtain ⟨lasting, sayable⟩ := satisfied.lasting
  have decoded : ∀ exchange ∈ dialogues.map Dialogue.exchange, exchange.Decoded ctx := by
    intro exchange member
    obtain ⟨dialogue, listed, rfl⟩ := List.mem_map.mp member
    exact decoded dialogue listed
  obtain ⟨next, ran, wrote, leaves⟩ := @processRequests_lasting _ _ _ R S _ _ _ _ ctx patience count
    store state conn _ more fit arrives decoded sayable lasting
  rw [List.length_map] at ran
  exact ⟨next, _, ran, wrote, leaves, fun client tail stands =>
    DaemonClient.agrees_of_matched minor satisfied matched stands⟩

end Agreement

section Samples

attribute [local instance] Store.standard Digest.unasked Layout.least

/-- A store that can check and optimise itself and nothing else. -/
def selfish : (op : Operation) → Reaction op
  | .verifyStore => ⟨[], [], .ok true⟩
  | .optimiseStore => ⟨[], [], .ok ()⟩
  | _ => ⟨[], [], .error ⟨none, [], .noSourceForLoggerRead⟩⟩

/-- The store that can check and optimise itself, without a state. -/
def selfishStore : DaemonStore Unit := fun _ request => (selfish request.operation, ())

/-- A request to check the store. -/
def checking : Dialogue :=
  let request : Request := ⟨.verifyStore, ⟨true, false⟩⟩
  ⟨⟨request, encode (serialize ProcessStderr.shortTexts request), []⟩, []⟩

/-- A request to optimise the store. -/
def optimising : Dialogue :=
  let request : Request := ⟨.optimiseStore, ()⟩
  ⟨⟨request, encode (serialize ProcessStderr.shortTexts request), []⟩, []⟩

/-- The requests to check and to optimise the store are understood. -/
theorem decoded_sample {dialogue : Dialogue} (listed : dialogue = checking ∨ dialogue = optimising) :
    dialogue.exchange.Decoded ProcessStderr.shortTexts := by
  rcases listed with rfl | rfl
  · exact Sent.reads (show Understood _ (⟨.verifyStore, ⟨true, false⟩⟩ : Request) from ⟨trivial, trivial⟩)
  · exact Sent.reads (show Understood _ (⟨.optimiseStore, ()⟩ : Request) from trivial)

/-- What arrives when the store is checked twice. -/
def twoChecks : Bytes := ([checking, checking].map Dialogue.exchange).flatMap Exchange.wire

/-- Whoever has the store checked twice is answered twice. -/
theorem DaemonConnection.responses_agree_twoChecks :
    ∃ next written, processRequests ProcessStderr.shortTexts 256 selfishStore 2 () (arriving twoChecks) =
        (.running, (), next) ∧ next.written = written ∧
      ∀ (client : DaemonClient BytesReader) (tail : Bytes),
        client.Stands ProcessStderr.shortTexts 256 (written ++ tail) →
        client.Agrees selfishStore ProcessStderr.shortTexts 256 1 tail () [checking, checking] := by
  have few : twoChecks.length < 256 := by decide +kernel
  have each {P : Dialogue → Prop} (holds : P checking) : ∀ dialogue ∈ [checking, checking], P dialogue := by
    intro dialogue member
    rcases List.mem_cons.mp member with rfl | listed
    · exact holds
    · rwa [List.mem_singleton.mp listed]
  have once : Satisfied selfishStore ProcessStderr.shortTexts 1 () [checking] :=
    ⟨⟨true, rfl, trivial⟩, trivial, List.forall_mem_nil _, Nat.one_pos, trivial⟩
  obtain ⟨next, written, ran, wrote, -, agrees⟩ := @responses_agree _ _ _ BytesReader BytesReader Unit
    _ _ _ _ _ _ _ _ ProcessStderr.shortTexts 256 1 0 selfishStore () _ [checking, checking] []
    (by decide) (arriving_fit few) (List.append_nil _).symm (each (decoded_sample (.inl rfl)))
    ⟨⟨true, rfl, trivial⟩, trivial, List.forall_mem_nil _, Nat.one_pos, once⟩ (each rfl)
  exact ⟨next, written, ran, wrote, agrees⟩

/-- What arrives when the store is optimised and checked. -/
def optimiseAndCheck : Bytes := ([optimising, checking].map Dialogue.exchange).flatMap Exchange.wire

/-- Whether a check came out well. -/
def checked : Answer (Response .verifyStore) → Bool
  | .ok true => true
  | _ => false

/-- Whoever has the store checked after it was optimised is answered something else. -/
theorem DaemonConnection.responses_disagree :
    ¬ ∀ (conn : DaemonConnection BytesReader) (dialogues : List Dialogue) (patience fuel : Nat),
      ProcessStderr.Fit ProcessStderr.shortTexts patience conn.reader →
      view.unread conn.reader.inner = (dialogues.map Dialogue.exchange).flatMap Exchange.wire →
      (∀ dialogue ∈ dialogues, dialogue.exchange.Decoded ProcessStderr.shortTexts) →
      Satisfied selfishStore ProcessStderr.shortTexts fuel () dialogues →
      ∃ next written, processRequests ProcessStderr.shortTexts patience selfishStore dialogues.length ()
          conn = (.running, (), next) ∧ next.written = conn.written ++ written ∧
        ∀ (client : DaemonClient BytesReader) (tail : Bytes),
          client.Stands ProcessStderr.shortTexts patience (written ++ tail) →
          client.Agrees selfishStore ProcessStderr.shortTexts patience fuel tail () dialogues := by
  intro every
  have few : optimiseAndCheck.length < 256 := by decide +kernel
  have fit := arriving_fit few
  have decoded : ∀ dialogue ∈ [optimising, checking],
      dialogue.exchange.Decoded ProcessStderr.shortTexts := by
    intro dialogue member
    rcases List.mem_cons.mp member with rfl | listed
    · exact decoded_sample (.inr rfl)
    · exact decoded_sample (.inl (List.mem_singleton.mp listed))
  have once : Satisfied selfishStore ProcessStderr.shortTexts 1 () [checking] :=
    ⟨⟨true, rfl, trivial⟩, trivial, List.forall_mem_nil _, Nat.one_pos, trivial⟩
  have both : Satisfied selfishStore ProcessStderr.shortTexts 1 () [optimising, checking] :=
    ⟨⟨(), rfl, trivial⟩, trivial, List.forall_mem_nil _, Nat.one_pos, once⟩
  obtain ⟨next, written, ran, wrote, agrees⟩ := every (arriving optimiseAndCheck) [optimising, checking]
    256 1 fit rfl decoded both
  -- What the server writes is known.
  obtain ⟨lasting, sayable⟩ := both.lasting
  obtain ⟨other, same, wrote', -⟩ := @processRequests_lasting _ _ _ BytesReader Unit _ _ _ _
    ProcessStderr.shortTexts 256 0 selfishStore () _ _ [] fit (List.append_nil _).symm
    (by simpa using decoded) sayable lasting
  cases ran.symm.trans same
  cases wrote.symm.trans wrote'
  have short : (replies selfishStore ProcessStderr.shortTexts ()
      ([optimising, checking].map Dialogue.exchange)).length < 256 := by
    decide +kernel
  have stands := listening_stands short
  rw [← List.append_nil (replies _ _ _ _)] at stands
  obtain ⟨-, mid, ⟨one, value, -, first⟩, -, last, ⟨two, found, known, second⟩, -⟩ :=
    agrees _ _ stands
  cases known
  have missed : checked (((listening (replies selfishStore ProcessStderr.shortTexts ()
      ([optimising, checking].map Dialogue.exchange))).call ProcessStderr.shortTexts 256 1 none
        .optimiseStore (by decide)).2.2.call ProcessStderr.shortTexts 256 1 none .verifyStore
          (by decide)).2.1 = false := by
    decide +kernel
  rw [List.append_nil] at first
  change DaemonClient.call ProcessStderr.shortTexts 256 1 none .optimiseStore one _ = _ at first
  change DaemonClient.call ProcessStderr.shortTexts 256 1 none .verifyStore two _ = _ at second
  rw [first, second] at missed
  cases missed

end Samples

end Harmonia.Daemon
